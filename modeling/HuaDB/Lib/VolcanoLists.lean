import HuaDB.Lib.Volcano

/-!
Iterators that give a list of records and then none, however often they are called.

`Iter.Gives m fuel state rows` is about an iterator from its opening on. An operator that
drains its inputs gives the buffer it fills from their records (`Gives.blocking`,
`Gives.blocking₂`), and gives nothing at all when the filling fails
(`not_gives_blocking₂`). Filters, maps and limits do to the list what their names say
(`Gives.filter`, `Gives.map`, `Gives.limit`).
-/

namespace Volcano

namespace Iter

open EStateM

variable {ε σ ρ ρ' : Type} {stuck : ε} {fuel : Nat} {state : σ}

/-- From `s` on no call gives a record, and the shared state stays as it is. -/
def Ended (m : Iter ε σ ρ) (fuel : Nat) (state : σ) (s : m.State) : Prop :=
  ∃ P : m.State → Prop, P s ∧
    ∀ s, P s → ∃ s', m.next fuel s state = .ok (none, s') state ∧ P s'

/-- From `s` on the calls give the records of a list, then none for ever. -/
def Serves (m : Iter ε σ ρ) (fuel : Nat) (state : σ) : m.State → List ρ → Prop
  | s, [] => m.Ended fuel state s
  | s, r :: rs => ∃ s', m.next fuel s state = .ok (some r, s') state ∧ m.Serves fuel state s' rs

/-- The iterator can be opened, and then serves a list. -/
def Gives (m : Iter ε σ ρ) (fuel : Nat) (state : σ) (rows : List ρ) : Prop :=
  ∃ s, m.init state = .ok s state ∧ m.Serves fuel state s rows

section

variable {m : Iter ε σ ρ} {s : m.State} {rows rows' : List ρ}

theorem Ended.next (h : m.Ended fuel state s) :
    ∃ s', m.next fuel s state = .ok (none, s') state ∧ m.Ended fuel state s' := by
  rcases h with ⟨P, hs, hP⟩
  rcases hP s hs with ⟨s', hnext, hs'⟩
  exact ⟨s', hnext, P, hs', hP⟩

theorem Serves.yields (h : m.Serves fuel state s rows) : m.Yields fuel state s rows := by
  induction rows generalizing s with
  | nil =>
      rcases Ended.next h with ⟨s', hnext, -⟩
      exact ⟨s', hnext⟩
  | cons r rows ih =>
      rcases h with ⟨s', hnext, hrest⟩
      exact ⟨s', hnext, ih hrest⟩

/-- There is one list that the calls give. -/
theorem Yields.unique (h : m.Yields fuel state s rows) (h' : m.Yields fuel state s rows') :
    rows = rows' := by
  induction rows generalizing s rows' with
  | nil =>
      cases rows' with
      | nil => rfl
      | cons r' rows' =>
          rcases h with ⟨s₁, hnext⟩
          rcases h' with ⟨s₂, hnext', -⟩
          cases hnext.symm.trans hnext'
  | cons r rows ih =>
      cases rows' with
      | nil =>
          rcases h with ⟨s₁, hnext, -⟩
          rcases h' with ⟨s₂, hnext'⟩
          cases hnext.symm.trans hnext'
      | cons r' rows' =>
          rcases h with ⟨s₁, hnext, hrest⟩
          rcases h' with ⟨s₂, hnext', hrest'⟩
          cases hnext.symm.trans hnext'
          rw [ih hrest hrest']

theorem Gives.unique (h : m.Gives fuel state rows) (h' : m.Gives fuel state rows') :
    rows = rows' := by
  rcases h with ⟨s, hinit, hserves⟩
  rcases h' with ⟨s', hinit', hserves'⟩
  cases hinit.symm.trans hinit'
  exact hserves.yields.unique hserves'.yields

/-- Calling until there is no record gives the whole list. -/
theorem Serves.pull (h : m.Serves fuel state s rows) {rounds : Nat} (hrounds : rows.length < rounds) :
    m.pull stuck fuel rounds s state = ⟨rows, none, state⟩ := by
  induction rows generalizing s rounds with
  | nil =>
      obtain - | rounds := rounds
      · cases hrounds
      obtain ⟨s', hnext, -⟩ := Ended.next h
      rw [pull_succ, hnext]
  | cons r rows ih =>
      obtain - | rounds := rounds
      · cases hrounds
      obtain ⟨s', hnext, hrest⟩ := h
      rw [pull_succ, hnext]
      dsimp only
      rw [ih hrest (Nat.lt_of_succ_lt_succ hrounds)]

theorem Gives.run (h : m.Gives fuel state rows) (hfuel : rows.length < fuel) :
    m.run stuck fuel state = ⟨rows, none, state⟩ := by
  obtain ⟨s, hinit, hserves⟩ := h
  rw [run_of_init hinit]
  exact hserves.pull hfuel

/-! ## Draining -/

variable (stuck) in
theorem Serves.foldLoop (h : m.Serves fuel state s rows) {n : Nat} (hn : rows.length < n)
    (taken : List ρ) :
    ∃ s', Volcano.foldLoop stuck (m.next fuel) (fun rs r => return rs ++ [r]) n taken s state =
        .ok (taken ++ rows, s') state ∧ m.Ended fuel state s' := by
  induction rows generalizing s n taken with
  | nil =>
      rcases n with - | n
      · cases hn
      rcases Ended.next h with ⟨s', hnext, hended⟩
      refine ⟨s', ?_, hended⟩
      rw [Volcano.foldLoop, bind_of_ok hnext, List.append_nil]
      rfl
  | cons r rows ih =>
      rcases n with - | n
      · cases hn
      rcases h with ⟨s₁, hnext, hrest⟩
      rcases ih hrest (Nat.lt_of_succ_lt_succ hn) (taken ++ [r]) with ⟨s', hloop, hended⟩
      refine ⟨s', ?_, hended⟩
      rw [Volcano.foldLoop, bind_of_ok hnext, List.append_cons]
      exact hloop

variable (stuck) in
/-- A loop whose body leaves the state alone is a fold over the records. -/
theorem Serves.foldLoop_eq {β : Type} (h : m.Serves fuel state s rows) {n : Nat}
    (hn : rows.length < n) (body : β → ρ → EStateM ε σ β) (f : β → ρ → Except ε β)
    (hbody : ∀ acc r, body acc r state = match f acc r with
      | .ok acc => .ok acc state
      | .error e => .error e state) (acc : β) :
    match rows.foldlM f acc with
    | .ok acc' => ∃ s', Volcano.foldLoop stuck (m.next fuel) body n acc s state =
        .ok (acc', s') state
    | .error e => Volcano.foldLoop stuck (m.next fuel) body n acc s state = .error e state := by
  induction rows generalizing s n acc with
  | nil =>
      rcases n with - | n
      · cases hn
      rcases Ended.next h with ⟨s', hnext, -⟩
      refine ⟨s', ?_⟩
      rw [Volcano.foldLoop, bind_of_ok hnext]
      rfl
  | cons r rows ih =>
      rcases n with - | n
      · cases hn
      rcases h with ⟨s₁, hnext, hrest⟩
      have hbody := hbody acc r
      rw [List.foldlM_cons, Volcano.foldLoop, bind_of_ok hnext]
      cases hf : f acc r with
      | ok acc' =>
          rw [hf] at hbody
          have hloop : ∀ s, (body acc r >>= fun acc => Volcano.foldLoop stuck (m.next fuel) body n
              acc s) state = Volcano.foldLoop stuck (m.next fuel) body n acc' s state :=
            fun s => bind_of_ok hbody
          simp only [hloop]
          exact ih hrest (Nat.lt_of_succ_lt_succ hn) acc'
      | error e =>
          rw [hf] at hbody
          exact bind_of_error hbody

variable (stuck) in
theorem Serves.drain (h : m.Serves fuel state s rows) (hfuel : rows.length < fuel) :
    ∃ s', m.drain stuck fuel s state = .ok (rows, s') state ∧ m.Ended fuel state s' :=
  h.foldLoop stuck hfuel []

variable (stuck) in
/-- What is drained has been drained. -/
theorem Ended.drain (h : m.Ended fuel state s) (hfuel : 0 < fuel) :
    ∃ s', m.drain stuck fuel s state = .ok ([], s') state ∧ m.Ended fuel state s' := by
  have hserves : m.Serves fuel state s [] := h
  exact hserves.drain stuck hfuel

end

/-! ## Filters -/

section Filter

variable {m : Iter ε σ ρ} {s : m.State} {accepts : ρ → Except ε Bool} {rows rest : List ρ}

variable (stuck) in
/-- The loop of a filter passes the rejected records by. -/
theorem Serves.filterLoop (h : m.Serves fuel state s (rows ++ rest))
    (hrejects : ∀ r ∈ rows, accepts r = .ok false) (n : Nat) :
    ∃ s', m.Serves fuel state s' rest ∧
      Volcano.filterLoop stuck (m.next fuel) accepts (n + rows.length) s state =
        Volcano.filterLoop stuck (m.next fuel) accepts n s' state := by
  induction rows generalizing s with
  | nil => exact ⟨s, h, rfl⟩
  | cons r rows ih =>
      rcases h with ⟨s₁, hnext, hrest⟩
      rcases List.forall_mem_cons.mp hrejects with ⟨hr, hrows⟩
      rcases ih hrest hrows with ⟨s', hserves, hloop⟩
      refine ⟨s', hserves, ?_⟩
      rw [List.length_cons, ← Nat.add_assoc, Volcano.filterLoop, bind_of_ok hnext, ← hloop]
      dsimp only
      rw [hr]

theorem Serves.filter_nil (h : m.Serves fuel state s rows)
    (hrejects : ∀ r ∈ rows, accepts r = .ok false) (hfuel : rows.length < fuel) :
    (m.filter stuck accepts).Ended fuel state s := by
  refine ⟨fun s => ∃ rows, m.Serves fuel state s rows ∧ (∀ r ∈ rows, accepts r = .ok false) ∧
    rows.length < fuel, ⟨rows, h, hrejects, hfuel⟩, ?_⟩
  rintro s ⟨rows, hserves, hrejects, hfuel⟩
  rw [← List.append_nil rows] at hserves
  obtain ⟨n, rfl⟩ : ∃ n, fuel = n + 1 + rows.length := ⟨fuel - rows.length - 1, by omega⟩
  rcases hserves.filterLoop stuck hrejects (n + 1) with ⟨s₁, hended, hloop⟩
  rcases Ended.next hended with ⟨s', hnext, hended'⟩
  refine ⟨s', hloop.trans ?_, [], hended', fun _ h => (List.not_mem_nil h).elim, ?_⟩
  · rw [Volcano.filterLoop, bind_of_ok hnext]
    rfl
  · exact Nat.zero_lt_of_lt hfuel

theorem Serves.filter {decide : ρ → Bool} (h : m.Serves fuel state s rows)
    (hdecide : ∀ r ∈ rows, accepts r = .ok (decide r)) (hfuel : rows.length < fuel) :
    (m.filter stuck accepts).Serves fuel state s (rows.filter decide) := by
  induction hkept : rows.filter decide generalizing rows s with
  | nil =>
      refine h.filter_nil (fun r hr => ?_) hfuel
      rw [hdecide r hr, Bool.eq_false_iff.mpr (List.filter_eq_nil_iff.mp hkept r hr)]
  | cons r kept ih =>
      rcases List.filter_eq_cons_iff.mp hkept with ⟨passed, rest, rfl, hpassed, hr, hrest⟩
      have hrejects : ∀ r ∈ passed, accepts r = .ok false := fun r hr => by
        rw [hdecide r (List.mem_append_left _ hr), Bool.eq_false_iff.mpr (hpassed r hr)]
      have haccept : accepts r = .ok true := by
        rw [hdecide r (List.mem_append_right _ List.mem_cons_self), hr]
      rw [List.length_append, List.length_cons] at hfuel
      obtain ⟨n, rfl⟩ : ∃ n, fuel = n + 1 + passed.length := ⟨fuel - passed.length - 1, by omega⟩
      rcases h.filterLoop stuck hrejects (n + 1) with ⟨s₁, ⟨s', hnext, hserves⟩, hloop⟩
      refine ⟨s', hloop.trans ?_, ih hserves (fun r hr => ?_) (by omega) hrest⟩
      · rw [Volcano.filterLoop, bind_of_ok hnext]
        dsimp only
        rw [haccept]
        rfl
      · exact hdecide r (List.mem_append_right _ (List.mem_cons_of_mem _ hr))

/-- A filter gives the records it accepts. -/
theorem Gives.filter {decide : ρ → Bool} (h : m.Gives fuel state rows)
    (hdecide : ∀ r ∈ rows, accepts r = .ok (decide r)) (hfuel : rows.length < fuel) :
    (m.filter stuck accepts).Gives fuel state (rows.filter decide) := by
  rcases h with ⟨s, hinit, hserves⟩
  exact ⟨s, hinit, hserves.filter hdecide hfuel⟩

end Filter

/-! ## Maps -/

section Map

variable {m : Iter ε σ ρ} {s : m.State} {f : ρ → EStateM ε σ ρ'} {g : ρ → ρ'} {rows : List ρ}

theorem Ended.map (f : ρ → EStateM ε σ ρ') (h : m.Ended fuel state s) :
    (m.map f).Ended fuel state s := by
  rcases h with ⟨P, hs, hP⟩
  refine ⟨P, hs, fun s hs => ?_⟩
  rcases hP s hs with ⟨s', hnext, hs'⟩
  refine ⟨s', ?_, hs'⟩
  change (m.next fuel s >>= _) state = _
  rw [bind_of_ok hnext]
  rfl

theorem Serves.map (h : m.Serves fuel state s rows)
    (hf : ∀ r ∈ rows, f r state = .ok (g r) state) :
    (m.map f).Serves fuel state s (rows.map g) := by
  induction rows generalizing s with
  | nil => exact Ended.map f h
  | cons r rows ih =>
      rcases h with ⟨s', hnext, hrest⟩
      rcases List.forall_mem_cons.mp hf with ⟨hr, hrows⟩
      refine ⟨s', ?_, ih hrest hrows⟩
      change (m.next fuel s >>= _) state = _
      rw [bind_of_ok hnext]
      exact bind_of_ok hr

/-- A map gives the records it makes of those it gets. -/
theorem Gives.map (h : m.Gives fuel state rows)
    (hf : ∀ r ∈ rows, f r state = .ok (g r) state) :
    (m.map f).Gives fuel state (rows.map g) := by
  rcases h with ⟨s, hinit, hserves⟩
  exact ⟨s, hinit, hserves.map hf⟩

end Map

/-! ## Limits -/

section Limit

variable {m : Iter ε σ ρ} {s : m.State} {rows : List ρ} {count : Option Nat}
  {offset given : Nat}

/-- Calls whose results are dropped, also past the last record. -/
theorem Serves.skip (h : m.Serves fuel state s rows) (n : Nat) :
    ∃ s', Volcano.skip (m.next fuel) n s state = .ok s' state ∧
      m.Serves fuel state s' (rows.drop n) := by
  induction n generalizing s rows with
  | zero => exact ⟨s, rfl, h⟩
  | succ n ih =>
      cases rows with
      | nil =>
          rcases Ended.next h with ⟨s₁, hnext, hended⟩
          have hserves : m.Serves fuel state s₁ [] := hended
          rcases ih hserves with ⟨s', hskip, hrest⟩
          refine ⟨s', ?_, ?_⟩
          · rw [Volcano.skip, bind_of_ok hnext]
            exact hskip
          · rwa [List.drop_nil] at hrest ⊢
      | cons r rows =>
          rcases h with ⟨s₁, hnext, hrows⟩
          rcases ih hrows with ⟨s', hskip, hrest⟩
          refine ⟨s', ?_, hrest⟩
          rw [Volcano.skip, bind_of_ok hnext]
          exact hskip

/-- A call past the offset, as long as the limit lets a record through. -/
theorem limit_next {s' : m.State} {r : Option ρ} (hlt : ∀ n, count = some n → given < n)
    (hnext : m.next fuel s state = .ok (r, s') state) :
    (m.limit count offset).next fuel (s, offset, given) state =
      .ok (r, s', offset, if count.isSome then given + 1 else given) state := by
  change (Volcano.skip (m.next fuel) (offset - offset) s >>= _) state = _
  rw [Nat.sub_self]
  cases count with
  | none => exact bind_of_ok hnext
  | some count =>
      change (if given < count then _ else _ : EStateM ε σ _) state = _
      rw [if_pos (hlt count rfl)]
      exact bind_of_ok hnext

/-- A call past the offset when the limit has been reached. -/
theorem limit_next_of_le {n : Nat} (hle : n ≤ given) :
    (m.limit (some n) offset).next fuel (s, offset, given) state =
      .ok (none, s, offset, given) state := by
  change (Volcano.skip (m.next fuel) (offset - offset) s >>= _) state = _
  rw [Nat.sub_self]
  change (if given < n then _ else _ : EStateM ε σ _) state = _
  rw [if_neg (Nat.not_lt.mpr hle)]
  rfl

/-- Past the offset, once the records are used up or enough of them are given. -/
theorem limit_ended (h : m.Ended fuel state s ∨ ∃ n, count = some n ∧ n ≤ given) :
    (m.limit count offset).Ended fuel state (s, offset, given) := by
  refine ⟨fun t => t.2.1 = offset ∧
    (m.Ended fuel state t.1 ∨ ∃ n, count = some n ∧ n ≤ t.2.2), ⟨rfl, h⟩, ?_⟩
  rintro ⟨s, skipped, given⟩ ⟨hskipped, h⟩
  dsimp only at hskipped h
  subst hskipped
  by_cases hfull : ∃ n, count = some n ∧ n ≤ given
  · obtain ⟨n, rfl, hle⟩ := hfull
    exact ⟨_, limit_next_of_le hle, rfl, .inr ⟨n, rfl, hle⟩⟩
  · obtain ⟨s', hnext, hended⟩ := (h.resolve_right hfull).next
    have hlt : ∀ n, count = some n → given < n := fun n hn =>
      Nat.lt_of_not_le fun hle => hfull ⟨n, hn, hle⟩
    exact ⟨_, limit_next hlt hnext, rfl, .inl hended⟩

/-- As many records as a limit still lets through. -/
def takeUpTo (count : Option Nat) (rows : List ρ) : List ρ :=
  match count with
  | none => rows
  | some count => rows.take count

theorem takeUpTo_sublist (count : Option Nat) (rows : List ρ) :
    (takeUpTo count rows).Sublist rows := by
  cases count with
  | none => exact .refl rows
  | some count => exact List.take_sublist count rows

theorem Serves.limit (h : m.Serves fuel state s rows) :
    (m.limit count offset).Serves fuel state (s, offset, given)
      (takeUpTo (count.map (· - given)) rows) := by
  induction rows generalizing s given with
  | nil =>
      have hnil : takeUpTo (count.map (· - given)) ([] : List ρ) = [] := by
        cases count <;> simp [takeUpTo]
      rw [hnil]
      exact limit_ended (.inl h)
  | cons r rows ih =>
      obtain ⟨s', hnext, hrest⟩ := h
      by_cases hfull : ∃ n, count = some n ∧ n ≤ given
      · obtain ⟨n, rfl, hle⟩ := hfull
        rw [Option.map_some, Nat.sub_eq_zero_of_le hle]
        exact limit_ended (.inr ⟨n, rfl, hle⟩)
      · have hlt : ∀ n, count = some n → given < n := fun n hn =>
          Nat.lt_of_not_le fun hle => hfull ⟨n, hn, hle⟩
        have hcall : (m.limit count offset).next fuel (s, offset, given) state = _ :=
          limit_next hlt hnext
        cases count with
        | none => exact ⟨_, hcall, ih hrest⟩
        | some n =>
            have hleft : n - given = n - (given + 1) + 1 := by
              have := hlt n rfl
              omega
            rw [Option.map_some, hleft]
            exact ⟨_, hcall, ih hrest⟩

/-- A state with the same next call as another one serves the same records. -/
theorem Serves.of_next_eq {m : Iter ε σ ρ} {s s' : m.State} {rows : List ρ}
    (hsame : m.next fuel s state = m.next fuel s' state) (h : m.Serves fuel state s' rows) :
    m.Serves fuel state s rows := by
  cases rows with
  | nil =>
      obtain ⟨P, hs', hP⟩ := h
      refine ⟨fun t => t = s ∨ P t, .inl rfl, fun t ht => ?_⟩
      have hnext : ∃ t', m.next fuel t state = .ok (none, t') state ∧ P t' := by
        rcases ht with rfl | ht
        · rw [hsame]
          exact hP s' hs'
        · exact hP t ht
      obtain ⟨t', hnext, ht'⟩ := hnext
      exact ⟨t', hnext, .inr ht'⟩
  | cons r rows =>
      obtain ⟨t, hnext, hrest⟩ := h
      exact ⟨t, hsame.trans hnext, hrest⟩

/-- A limit gives at most `count` records, those after the first `offset`. -/
theorem Gives.limit (h : m.Gives fuel state rows) (count : Option Nat) (offset : Nat) :
    (m.limit count offset).Gives fuel state (takeUpTo count (rows.drop offset)) := by
  obtain ⟨s, hinit, hserves⟩ := h
  obtain ⟨s', hskip, hrest⟩ := hserves.skip offset
  have hzero : count.map (· - 0) = count := by simp
  have hlimit : (m.limit count offset).Serves fuel state (s', offset, 0)
      (takeUpTo (count.map (· - 0)) (rows.drop offset)) := hrest.limit
  rw [hzero] at hlimit
  refine ⟨(s, 0, 0), ?_, .of_next_eq ?_ hlimit⟩
  · change (m.init >>= _) state = _
    rw [bind_of_ok hinit]
    rfl
  · -- the first call drops the records, and goes on as the later ones do
    change (Volcano.skip (m.next fuel) (offset - 0) s >>= _) state =
      (Volcano.skip (m.next fuel) (offset - offset) s' >>= _) state
    rw [Nat.sub_zero, Nat.sub_self, bind_of_ok hskip]
    rfl

end Limit

/-! ## Operators that drain one input -/

section Blocking

variable {m : Iter ε σ ρ} {fill : List ρ → EStateM ε σ (Option (List ρ'))} {rows : List ρ}

theorem serves_blocking (s : m.State) (buffer : List ρ') :
    (m.blocking stuck fill).Serves fuel state (s, some buffer) buffer := by
  induction buffer with
  | nil =>
      refine ⟨fun t => t = (s, some []), rfl, ?_⟩
      rintro t rfl
      exact ⟨(s, some []), rfl, rfl⟩
  | cons r buffer ih => exact ⟨(s, some buffer), rfl, ih⟩

variable (fill) in
theorem blocking_next {s s' : m.State} (h : m.drain stuck fuel s state = .ok (rows, s') state) :
    (m.blocking stuck fill).next fuel (s, none) state =
      (fill rows >>= fun
        | none => pure (none, s', none)
        | some buffer => pure ((emit buffer).1, s', (emit buffer).2)) state := by
  change (m.drain stuck fuel s >>= _) state = _
  exact (bind_of_ok h).trans rfl

theorem Gives.blocking (h : m.Gives fuel state rows) (hfuel : rows.length < fuel)
    {buffer : List ρ'} (hfill : fill rows state = .ok (some buffer) state) :
    (m.blocking stuck fill).Gives fuel state buffer := by
  rcases h with ⟨s, hinit, hserves⟩
  rcases hserves.drain stuck hfuel with ⟨s', hdrain, -⟩
  have hnext := blocking_next fill hdrain
  rw [bind_of_ok hfill] at hnext
  refine ⟨(s, none), ?_, ?_⟩
  · change (m.init >>= _) state = _
    rw [bind_of_ok hinit]
    rfl
  · cases buffer with
    | nil =>
        refine ⟨fun t => t = (s, none) ∨ t = (s', some []), .inl rfl, ?_⟩
        rintro t (rfl | rfl)
        · exact ⟨(s', some []), hnext, .inr rfl⟩
        · exact ⟨(s', some []), rfl, .inr rfl⟩
    | cons r buffer => exact ⟨(s', some buffer), hnext, serves_blocking s' buffer⟩

/-- Where no buffer is made of no records, that stays so. -/
theorem Gives.blocking_nil (h : m.Gives fuel state []) (hfuel : 0 < fuel)
    (hfill : fill [] state = .ok none state) : (m.blocking stuck fill).Gives fuel state [] := by
  rcases h with ⟨s, hinit, hserves⟩
  refine ⟨(s, none), ?_, fun t => ∃ s, t = (s, none) ∧ m.Ended fuel state s, ⟨s, rfl, hserves⟩, ?_⟩
  · change (m.init >>= _) state = _
    rw [bind_of_ok hinit]
    rfl
  · rintro t ⟨s, rfl, hended⟩
    rcases hended.drain stuck hfuel with ⟨s', hdrain, hended'⟩
    refine ⟨(s', none), ?_, s', rfl, hended'⟩
    rw [blocking_next fill hdrain, bind_of_ok hfill]
    rfl

end Blocking

/-! ## Operators that drain two inputs -/

section Blocking₂

variable {l r : Iter ε σ ρ} {fill : List ρ → List ρ → EStateM ε σ (Option (List ρ'))}
  {ls rs : List ρ}

theorem serves_blocking₂ (s : l.State × r.State) (buffer : List ρ') :
    (blocking₂ stuck fill l r).Serves fuel state (s, some buffer) buffer := by
  induction buffer with
  | nil =>
      refine ⟨fun t => t = (s, some []), rfl, ?_⟩
      rintro t rfl
      exact ⟨(s, some []), rfl, rfl⟩
  | cons r buffer ih => exact ⟨(s, some buffer), rfl, ih⟩

variable (fill) in
theorem blocking₂_next {s s' : l.State} {t t' : r.State}
    (hl : l.drain stuck fuel s state = .ok (ls, s') state)
    (hr : r.drain stuck fuel t state = .ok (rs, t') state) :
    (blocking₂ stuck fill l r).next fuel ((s, t), none) state =
      (fill ls rs >>= fun
        | none => pure (none, (s', t'), none)
        | some buffer => pure ((emit buffer).1, (s', t'), (emit buffer).2)) state := by
  change (l.drain stuck fuel s >>= _) state = _
  rw [bind_of_ok hl]
  change (r.drain stuck fuel t >>= _) state = _
  exact (bind_of_ok hr).trans rfl

theorem blocking₂_init {s : l.State} {t : r.State} (hl : l.init state = .ok s state)
    (hr : r.init state = .ok t state) :
    (blocking₂ stuck fill l r).init state = .ok ((s, t), none) state := by
  change (l.init >>= _) state = _
  rw [bind_of_ok hl, bind_of_ok hr]
  rfl

theorem Gives.blocking₂ (hl : l.Gives fuel state ls) (hr : r.Gives fuel state rs)
    (hls : ls.length < fuel) (hrs : rs.length < fuel) {buffer : List ρ'}
    (hfill : fill ls rs state = .ok (some buffer) state) :
    (Iter.blocking₂ stuck fill l r).Gives fuel state buffer := by
  rcases hl with ⟨s, hinitl, hl⟩
  rcases hr with ⟨t, hinitr, hr⟩
  rcases hl.drain stuck hls with ⟨s', hdrainl, -⟩
  rcases hr.drain stuck hrs with ⟨t', hdrainr, -⟩
  have hnext := blocking₂_next fill hdrainl hdrainr
  rw [bind_of_ok hfill] at hnext
  refine ⟨((s, t), none), blocking₂_init hinitl hinitr, ?_⟩
  cases buffer with
  | nil =>
      refine ⟨fun u => u = ((s, t), none) ∨ u = ((s', t'), some []), .inl rfl, ?_⟩
      rintro u (rfl | rfl)
      · exact ⟨((s', t'), some []), hnext, .inr rfl⟩
      · exact ⟨((s', t'), some []), rfl, .inr rfl⟩
  | cons r buffer => exact ⟨((s', t'), some buffer), hnext, serves_blocking₂ (s', t') buffer⟩

/-- Where no buffer is made, now or of no records, that stays so. -/
theorem Gives.blocking₂_nil (hl : l.Gives fuel state ls) (hr : r.Gives fuel state rs)
    (hls : ls.length < fuel) (hrs : rs.length < fuel)
    (hfill : fill ls rs state = .ok none state) (hempty : fill [] [] state = .ok none state) :
    (Iter.blocking₂ stuck fill l r).Gives fuel state [] := by
  rcases hl with ⟨s, hinitl, hl⟩
  rcases hr with ⟨t, hinitr, hr⟩
  rcases hl.drain stuck hls with ⟨s', hdrainl, hendedl⟩
  rcases hr.drain stuck hrs with ⟨t', hdrainr, hendedr⟩
  refine ⟨((s, t), none), blocking₂_init hinitl hinitr,
    fun u => u = ((s, t), none) ∨
      ∃ s t, u = ((s, t), none) ∧ l.Ended fuel state s ∧ r.Ended fuel state t, .inl rfl, ?_⟩
  rintro u (rfl | ⟨s, t, rfl, hs, ht⟩)
  · refine ⟨((s', t'), none), ?_, .inr ⟨s', t', rfl, hendedl, hendedr⟩⟩
    rw [blocking₂_next fill hdrainl hdrainr, bind_of_ok hfill]
    rfl
  · have hfuel : 0 < fuel := Nat.zero_lt_of_lt hls
    rcases hs.drain stuck hfuel with ⟨s', hdrainl, hendedl⟩
    rcases ht.drain stuck hfuel with ⟨t', hdrainr, hendedr⟩
    refine ⟨((s', t'), none), ?_, .inr ⟨s', t', rfl, hendedl, hendedr⟩⟩
    rw [blocking₂_next fill hdrainl hdrainr, bind_of_ok hempty]
    rfl

/-- Where the filling fails, so does the first call. -/
theorem not_gives_blocking₂ (hl : l.Gives fuel state ls) (hr : r.Gives fuel state rs)
    (hls : ls.length < fuel) (hrs : rs.length < fuel) {e : ε}
    (hfill : fill ls rs state = .error e state) (buffer : List ρ') :
    ¬ (blocking₂ stuck fill l r).Gives fuel state buffer := by
  rcases hl with ⟨s, hinitl, hl⟩
  rcases hr with ⟨t, hinitr, hr⟩
  rcases hl.drain stuck hls with ⟨s', hdrainl, -⟩
  rcases hr.drain stuck hrs with ⟨t', hdrainr, -⟩
  have hnext := blocking₂_next fill hdrainl hdrainr
  rw [bind_of_error hfill] at hnext
  rintro ⟨u, hinit, hserves⟩
  cases hinit.symm.trans (blocking₂_init hinitl hinitr)
  cases buffer with
  | nil =>
      rcases Ended.next hserves with ⟨u', hnext', -⟩
      cases hnext.symm.trans hnext'
  | cons r buffer =>
      rcases hserves with ⟨u', hnext', -⟩
      cases hnext.symm.trans hnext'

end Blocking₂

end Iter

end Volcano
