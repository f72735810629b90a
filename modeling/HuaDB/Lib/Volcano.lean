import HuaDB.Lib.Exec

/-!
Pull-based iterators over a shared state.

An iterator is opened once and then called for one record at a time, until a call gives
none. Operators are built over iterators: filters, maps, limits, operators that first
drain their inputs, and sinks that drain their input and give one record. Every loop has
a bound on its rounds and stops with the error `stuck` beyond it.

`Iter.Refines E m m'` is a simulation: call by call, `m'` gives what `m` gives, as long
as `m` succeeds or fails with an error of `E`. It is preserved by all operators, and a
filter whose predicate splits in two is refined by two filters
(`Iter.Refines.filter_filter`). Refined iterators have the same runs
(`Iter.Refines.run_eq`).
-/

namespace Volcano

open EStateM (Matches)

variable {ε σ ρ ρ' : Type}

/-- What is kept between two calls, how the iterator is opened, and what a call gives. -/
structure Iter (ε σ ρ : Type) where
  State : Type
  init : EStateM ε σ State
  /-- The number bounds the rounds of the loops inside the call. -/
  next : Nat → State → EStateM ε σ (Option ρ × State)

/-! ## Loops over an iterator -/

section Loops

variable {S β : Type} (stuck : ε) (next : S → EStateM ε σ (Option ρ × S))

/-- Calls until a record is accepted. -/
def filterLoop (accepts : ρ → Except ε Bool) : Nat → S → EStateM ε σ (Option ρ × S)
  | 0, _ => throw stuck
  | fuel + 1, s => do
      match ← next s with
      | (none, s) => return (none, s)
      | (some r, s) =>
          match accepts r with
          | .ok true => return (some r, s)
          | .ok false => filterLoop accepts fuel s
          | .error e => throw e

/-- Calls until there is no record, with a body for each. -/
def foldLoop (body : β → ρ → EStateM ε σ β) : Nat → β → S → EStateM ε σ (β × S)
  | 0, _, _ => throw stuck
  | fuel + 1, acc, s => do
      match ← next s with
      | (none, s) => return (acc, s)
      | (some r, s) => do
          let acc ← body acc r
          foldLoop body fuel acc s

/-- A number of calls whose results are dropped. -/
def skip : Nat → S → EStateM ε σ S
  | 0, s => return s
  | n + 1, s => do
      let (_, s) ← next s
      skip n s

end Loops

/-! ## Operators -/

namespace Iter

def filter (stuck : ε) (accepts : ρ → Except ε Bool) (m : Iter ε σ ρ) : Iter ε σ ρ where
  State := m.State
  init := m.init
  next fuel s := filterLoop stuck (m.next fuel) accepts fuel s

def map (f : ρ → EStateM ε σ ρ') (m : Iter ε σ ρ) : Iter ε σ ρ' where
  State := m.State
  init := m.init
  next fuel s := do
    match ← m.next fuel s with
    | (none, s) => return (none, s)
    | (some r, s) => return (some (← f r), s)

/-- Drops `offset` records at the first call and gives at most `count` of the rest. -/
def limit (count : Option Nat) (offset : Nat) (m : Iter ε σ ρ) : Iter ε σ ρ where
  State := m.State × Nat × Nat
  init := do return (← m.init, 0, 0)
  next fuel := fun (s, skipped, given) => do
    let s ← skip (m.next fuel) (offset - skipped) s
    match count with
    | none => do
        let (r, s) ← m.next fuel s
        return (r, s, offset, given)
    | some count =>
        if given < count then do
          let (r, s) ← m.next fuel s
          return (r, s, offset, given + 1)
        else
          return (none, s, offset, given)

/-- The next record of a buffer. -/
def emit : List ρ → Option ρ × Option (List ρ)
  | [] => (none, some [])
  | r :: rs => (some r, some rs)

/-- All the records an iterator still gives. -/
def drain (stuck : ε) (m : Iter ε σ ρ) (fuel : Nat) (s : m.State) :
    EStateM ε σ (List ρ × m.State) :=
  foldLoop stuck (m.next fuel) (fun rs r => return rs ++ [r]) fuel [] s

/-- Drains its input at the first call, and again at the next ones as long as `fill`
makes no buffer of it. -/
def blocking (stuck : ε) (fill : List ρ → EStateM ε σ (Option (List ρ'))) (m : Iter ε σ ρ) :
    Iter ε σ ρ' where
  State := m.State × Option (List ρ')
  init := do return (← m.init, none)
  next fuel
    | (s, some buffer) => return ((emit buffer).1, s, (emit buffer).2)
    | (s, none) => do
        let (rs, s) ← m.drain stuck fuel s
        match ← fill rs with
        | none => return (none, s, none)
        | some buffer => return ((emit buffer).1, s, (emit buffer).2)

/-- The same with two inputs. -/
def blocking₂ (stuck : ε) (fill : List ρ → List ρ → EStateM ε σ (Option (List ρ')))
    (l r : Iter ε σ ρ) : Iter ε σ ρ' where
  State := (l.State × r.State) × Option (List ρ')
  init := do
    let s ← l.init
    let t ← r.init
    return ((s, t), none)
  next fuel
    | (s, some buffer) => return ((emit buffer).1, s, (emit buffer).2)
    | ((s, t), none) => do
        let (ls, s) ← l.drain stuck fuel s
        let (rs, t) ← r.drain stuck fuel t
        match ← fill ls rs with
        | none => return (none, (s, t), none)
        | some buffer => return ((emit buffer).1, (s, t), (emit buffer).2)

/-- Handles every record of its input at the first call, then gives one record. -/
def sink {γ : Type} (stuck : ε) (setup : EStateM ε σ γ) (body : γ → ρ → EStateM ε σ Unit)
    (result : Nat → ρ') (m : Iter ε σ ρ) : Iter ε σ ρ' where
  State := m.State × γ × Bool
  init := do
    let s ← m.init
    return (s, ← setup, false)
  next fuel := fun (s, context, finished) => do
    if finished then
      return (none, s, context, true)
    else
      let (count, s) ← foldLoop stuck (m.next fuel)
        (fun count r => do body context r; return count + 1) fuel 0 s
      return (some (result count), s, context, true)

/-- Gives nothing. -/
def empty {S : Type} (init : EStateM ε σ S) : Iter ε σ ρ where
  State := S
  init := init
  next _ s := return (none, s)

/-- Does something before it is opened. -/
def after (x : EStateM ε σ Unit) (m : Iter ε σ ρ) : Iter ε σ ρ where
  State := m.State
  init := do x; m.init
  next := m.next

end Iter

/-! ## Runs -/

/-- What a client of an iterator sees: the records of the calls, the error that ended
them, if any, and the state left. -/
structure Run (ε σ ρ : Type) where
  records : List ρ
  error : Option ε
  state : σ

namespace Iter

/-- Calls until there is no record. -/
def pull (stuck : ε) (m : Iter ε σ ρ) (fuel : Nat) : Nat → m.State → σ → Run ε σ ρ
  | 0, _, σ => ⟨[], some stuck, σ⟩
  | rounds + 1, s, σ =>
      match m.next fuel s σ with
      | .error e σ => ⟨[], some e, σ⟩
      | .ok (none, _) σ => ⟨[], none, σ⟩
      | .ok (some r, s) σ =>
          let rest := m.pull stuck fuel rounds s σ
          { rest with records := r :: rest.records }

theorem pull_succ {stuck : ε} (m : Iter ε σ ρ) (fuel rounds : Nat) (s : m.State) (state : σ) :
    m.pull stuck fuel (rounds + 1) s state = match m.next fuel s state with
      | .error e state => ⟨[], some e, state⟩
      | .ok (none, _) state => ⟨[], none, state⟩
      | .ok (some r, s) state =>
          let rest := m.pull stuck fuel rounds s state
          { rest with records := r :: rest.records } := rfl

/-- Opens the iterator and calls it until there is no record. -/
def run (stuck : ε) (m : Iter ε σ ρ) (fuel : Nat) (state : σ) : Run ε σ ρ :=
  match m.init state with
  | .error e σ => ⟨[], some e, σ⟩
  | .ok s σ => m.pull stuck fuel fuel s σ

theorem run_of_init {stuck : ε} {m : Iter ε σ ρ} {fuel : Nat} {state state' : σ} {s : m.State}
    (h : m.init state = .ok s state') :
    m.run stuck fuel state = m.pull stuck fuel fuel s state' := by
  rw [run, h]

end Iter

/-! ## Refinement -/

/-- `accepts'` decides what `accepts` decides, and fails where it fails with an error of `E`. -/
def Decides (E : ε → Prop) (accepts accepts' : ρ → Except ε Bool) : Prop :=
  ∀ r, match accepts r with
    | .ok b => accepts' r = .ok b
    | .error e => E e → accepts' r = .error e

/-- Equal results, and related states after. -/
def Stepped {S T : Type} (R : S → T → Prop) (a : ρ × S) (b : ρ × T) : Prop :=
  a.1 = b.1 ∧ R a.2 b.2

theorem Decides.refl (E : ε → Prop) (accepts : ρ → Except ε Bool) : Decides E accepts accepts := by
  intro r
  cases accepts r with
  | ok b => rfl
  | error e => exact fun _ => rfl

section Loops

variable {E : ε → Prop} {S T β : Type} {stuck : ε} {R : S → T → Prop}
  {next : S → EStateM ε σ (Option ρ × S)} {next' : T → EStateM ε σ (Option ρ × T)}

theorem filterLoop_matches (hstuck : ¬ E stuck)
    (hnext : ∀ s t, R s t → Matches E (Stepped R) (next s) (next' t))
    {accepts accepts' : ρ → Except ε Bool} (h : Decides E accepts accepts') (fuel : Nat) :
    ∀ s t, R s t → Matches E (Stepped R) (filterLoop stuck next accepts fuel s)
      (filterLoop stuck next' accepts' fuel t) := by
  induction fuel with
  | zero => exact fun s t _ => .throw hstuck _
  | succ fuel ih =>
      intro s t hst
      apply (hnext s t hst).bind
      rintro ⟨r, s⟩ ⟨r', t⟩ ⟨hr, hst⟩
      dsimp only at hr hst
      subst hr
      cases r with
      | none => exact .pure ⟨rfl, hst⟩
      | some r =>
          have hr := h r
          dsimp only
          cases ha : accepts r with
          | error e =>
              rw [ha] at hr
              intro σ he
              rw [hr he]
              rfl
          | ok accepted =>
              rw [ha] at hr
              rw [hr]
              cases accepted with
              | true => exact .pure ⟨rfl, hst⟩
              | false => exact ih s t hst

theorem foldLoop_matches (hstuck : ¬ E stuck)
    (hnext : ∀ s t, R s t → Matches E (Stepped R) (next s) (next' t))
    (body : β → ρ → EStateM ε σ β) (fuel : Nat) :
    ∀ acc s t, R s t → Matches E (Stepped R) (foldLoop stuck next body fuel acc s)
      (foldLoop stuck next' body fuel acc t) := by
  induction fuel with
  | zero => exact fun acc s t _ => .throw hstuck _
  | succ fuel ih =>
      intro acc s t hst
      apply (hnext s t hst).bind
      rintro ⟨r, s⟩ ⟨r', t⟩ ⟨hr, hst⟩
      dsimp only at hr hst
      subst hr
      cases r with
      | none => exact .pure ⟨rfl, hst⟩
      | some r =>
          apply (Matches.refl (fun _ => rfl) (body acc r)).bind
          rintro acc _ rfl
          exact ih acc s t hst

theorem skip_matches (hnext : ∀ s t, R s t → Matches E (Stepped R) (next s) (next' t)) (n : Nat) :
    ∀ s t, R s t → Matches E R (skip next n s) (skip next' n t) := by
  induction n with
  | zero => exact fun s t hst => .pure hst
  | succ n ih =>
      intro s t hst
      apply (hnext s t hst).bind
      rintro ⟨r, s⟩ ⟨r', t⟩ ⟨-, hst⟩
      exact ih s t hst

end Loops

namespace Iter

variable {E : ε → Prop} {stuck : ε} {m m' l l' r r' : Iter ε σ ρ}

/-- Call by call, `m'` gives what `m` gives. -/
def Refines (E : ε → Prop) (m m' : Iter ε σ ρ) : Prop :=
  ∃ R : m.State → m'.State → Prop, Matches E R m.init m'.init ∧
    ∀ fuel s t, R s t → Matches E (Stepped R) (m.next fuel s) (m'.next fuel t)

namespace Refines

theorem refl (m : Iter ε σ ρ) : Refines E m m := by
  refine ⟨Eq, .refl (fun _ => rfl) _, ?_⟩
  rintro fuel s _ rfl
  exact .refl (fun _ => ⟨rfl, rfl⟩) _

theorem filter (hstuck : ¬ E stuck) {accepts accepts' : ρ → Except ε Bool}
    (hdecides : Decides E accepts accepts') (h : Refines E m m') :
    Refines E (m.filter stuck accepts) (m'.filter stuck accepts') := by
  rcases h with ⟨R, hinit, hnext⟩
  exact ⟨R, hinit, fun fuel s t hst =>
    filterLoop_matches hstuck (hnext fuel) hdecides fuel s t hst⟩

theorem map (f : ρ → EStateM ε σ ρ') (h : Refines E m m') : Refines E (m.map f) (m'.map f) := by
  rcases h with ⟨R, hinit, hnext⟩
  refine ⟨R, hinit, fun fuel s t hst => ?_⟩
  apply (hnext fuel s t hst).bind
  rintro ⟨r, s⟩ ⟨r', t⟩ ⟨hr, hst⟩
  dsimp only at hr hst
  subst hr
  cases r with
  | none => exact .pure ⟨rfl, hst⟩
  | some r =>
      apply (Matches.refl (fun _ => rfl) (f r)).bind
      rintro b _ rfl
      exact .pure ⟨rfl, hst⟩

theorem limit (count : Option Nat) (offset : Nat) (h : Refines E m m') :
    Refines E (m.limit count offset) (m'.limit count offset) := by
  rcases h with ⟨R, hinit, hnext⟩
  refine ⟨fun a b => R a.1 b.1 ∧ a.2 = b.2, ?_, ?_⟩
  · apply hinit.bind
    intro s t hst
    exact .pure ⟨hst, rfl⟩
  · rintro fuel ⟨s, skipped, given⟩ ⟨t, _⟩ ⟨hst, rfl⟩
    apply (skip_matches (hnext fuel) _ s t hst).bind
    intro s t hst
    have hcall : ∀ given, Matches E
        (Stepped fun a b : _ × Nat × Nat => R a.1 b.1 ∧ a.2 = b.2)
        (do let (r, s) ← m.next fuel s; return (r, s, offset, given))
        (do let (r, t) ← m'.next fuel t; return (r, t, offset, given)) := by
      intro given
      apply (hnext fuel s t hst).bind
      rintro ⟨r, s⟩ ⟨r', t⟩ ⟨hr, hst⟩
      exact .pure ⟨hr, hst, rfl⟩
    cases count with
    | none => exact hcall given
    | some count =>
        dsimp only
        split
        · exact hcall (given + 1)
        · exact .pure ⟨rfl, hst, rfl⟩

/-- Refined inputs are drained of the same records. -/
theorem drain_matches {R : m.State → m'.State → Prop} (hstuck : ¬ E stuck)
    (hnext : ∀ fuel s t, R s t → Matches E (Stepped R) (m.next fuel s) (m'.next fuel t))
    (fuel : Nat) {s : m.State} {t : m'.State} (hst : R s t) :
    Matches E (Stepped R) (m.drain stuck fuel s) (m'.drain stuck fuel t) :=
  foldLoop_matches hstuck (hnext fuel) _ fuel [] s t hst

theorem blocking (hstuck : ¬ E stuck) (fill : List ρ → EStateM ε σ (Option (List ρ')))
    (h : Refines E m m') : Refines E (m.blocking stuck fill) (m'.blocking stuck fill) := by
  rcases h with ⟨R, hinit, hnext⟩
  refine ⟨fun a b => R a.1 b.1 ∧ a.2 = b.2, ?_, ?_⟩
  · apply hinit.bind
    intro s t hst
    exact .pure ⟨hst, rfl⟩
  · rintro fuel ⟨s, buffer⟩ ⟨t, _⟩ ⟨hst, rfl⟩
    cases buffer with
    | some buffer => exact .pure ⟨rfl, hst, rfl⟩
    | none =>
        apply (drain_matches hstuck hnext fuel hst).bind
        rintro ⟨rs, s⟩ ⟨_, t⟩ ⟨hrs, hst⟩
        dsimp only at hrs hst
        subst hrs
        apply (Matches.refl (fun _ => rfl) (fill rs)).bind
        rintro buffer _ rfl
        cases buffer with
        | none => exact .pure ⟨rfl, hst, rfl⟩
        | some buffer => exact .pure ⟨rfl, hst, rfl⟩

theorem blocking₂ (hstuck : ¬ E stuck) (fill : List ρ → List ρ → EStateM ε σ (Option (List ρ')))
    (hl : Refines E l l') (hr : Refines E r r') :
    Refines E (Iter.blocking₂ stuck fill l r) (Iter.blocking₂ stuck fill l' r') := by
  rcases hl with ⟨L, linit, lnext⟩
  rcases hr with ⟨R, rinit, rnext⟩
  refine ⟨fun a b => (L a.1.1 b.1.1 ∧ R a.1.2 b.1.2) ∧ a.2 = b.2, ?_, ?_⟩
  · apply linit.bind
    intro s s' hs
    apply rinit.bind
    intro t t' ht
    exact .pure ⟨⟨hs, ht⟩, rfl⟩
  · rintro fuel ⟨⟨s, t⟩, buffer⟩ ⟨⟨s', t'⟩, _⟩ ⟨⟨hs, ht⟩, rfl⟩
    cases buffer with
    | some buffer => exact .pure ⟨rfl, ⟨hs, ht⟩, rfl⟩
    | none =>
        apply (drain_matches hstuck lnext fuel hs).bind
        rintro ⟨ls, s⟩ ⟨_, s'⟩ ⟨hls, hs⟩
        dsimp only at hls hs
        subst hls
        apply (drain_matches hstuck rnext fuel ht).bind
        rintro ⟨rs, t⟩ ⟨_, t'⟩ ⟨hrs, ht⟩
        dsimp only at hrs ht
        subst hrs
        apply (Matches.refl (fun _ => rfl) (fill ls rs)).bind
        rintro buffer _ rfl
        cases buffer with
        | none => exact .pure ⟨rfl, ⟨hs, ht⟩, rfl⟩
        | some buffer => exact .pure ⟨rfl, ⟨hs, ht⟩, rfl⟩

theorem sink {γ : Type} (hstuck : ¬ E stuck) (setup : EStateM ε σ γ)
    (body : γ → ρ → EStateM ε σ Unit) (result : Nat → ρ') (h : Refines E m m') :
    Refines E (m.sink stuck setup body result) (m'.sink stuck setup body result) := by
  rcases h with ⟨R, hinit, hnext⟩
  refine ⟨fun a b => R a.1 b.1 ∧ a.2 = b.2, ?_, ?_⟩
  · apply hinit.bind
    intro s t hst
    apply (Matches.refl (fun _ => rfl) setup).bind
    rintro context _ rfl
    exact .pure ⟨hst, rfl⟩
  · rintro fuel ⟨s, context, finished⟩ ⟨t, _⟩ ⟨hst, rfl⟩
    cases finished with
    | true => exact .pure ⟨rfl, hst, rfl⟩
    | false =>
        apply (foldLoop_matches hstuck (hnext fuel) _ fuel 0 s t hst).bind
        rintro ⟨count, s⟩ ⟨_, t⟩ ⟨hcount, hst⟩
        dsimp only at hcount hst
        subst hcount
        exact .pure ⟨rfl, hst, rfl⟩

theorem after (x : EStateM ε σ Unit) (h : Refines E m m') :
    Refines E (m.after x) (m'.after x) := by
  rcases h with ⟨R, hinit, hnext⟩
  refine ⟨R, ?_, hnext⟩
  apply (Matches.refl (fun _ => rfl) x).bind
  intro _ _ _
  exact hinit

/-- Opening the inputs of an iterator that gives nothing. -/
theorem empty {S T : Type} {R : S → T → Prop} {x : EStateM ε σ S} {y : EStateM ε σ T}
    (h : Matches E R x y) : Refines E (Iter.empty (ρ := ρ) x) (Iter.empty y) :=
  ⟨R, h, fun _ _ _ hst => .pure ⟨rfl, hst⟩⟩

theorem init_matches (h : Refines E m m') : Matches E (fun _ _ => True) m.init m'.init := by
  rcases h with ⟨R, hinit, -⟩
  exact hinit.mono fun _ _ _ => trivial

/-! ### Two filters for one -/

/-- Whenever `p` is decided without an error, `q` is; if it rejects, so does `p`, and
otherwise `r` decides as `p` does. -/
def Splits (E : ε → Prop) (p q r : ρ → Except ε Bool) : Prop :=
  ∀ record, match p record with
    | .ok b => q record = .ok false ∧ b = false ∨ q record = .ok true ∧ r record = .ok b
    | .error e => ¬ E e

section Split

variable {S : Type} {p q r : ρ → Except ε Bool} (next : S → EStateM ε σ (Option ρ × S))

/-- What the outer of two filters does with an answer of the inner one. -/
def outer (stuck : ε) (q r : ρ → Except ε Bool) (n k : Nat) :
    Option ρ × S → EStateM ε σ (Option ρ × S)
  | (none, s) => return (none, s)
  | (some record, s) =>
      match r record with
      | .ok true => return (some record, s)
      | .ok false => filterLoop stuck (filterLoop stuck next q n) r k s
      | .error e => throw e

/-- The loops of the two filters, started anywhere inside the inner one, against the
loop of the one filter. The induction is on the rounds of the latter. -/
theorem filterLoop_split (hstuck : ¬ E stuck) (h : Splits E p q r) (n : Nat) :
    ∀ j i k s, j ≤ i → j ≤ k + 1 → j ≤ n →
      Matches E Eq (filterLoop stuck next p j s)
        (filterLoop stuck next q i s >>= outer next stuck q r n k) := by
  intro j
  induction j with
  | zero => exact fun _ _ _ _ _ _ => .throw hstuck _
  | succ j ih =>
      intro i k s hi hk hn
      obtain ⟨i, rfl⟩ : ∃ i', i = i' + 1 := ⟨i - 1, by omega⟩
      rw [filterLoop, filterLoop, bind_assoc]
      apply (Matches.refl (fun _ => rfl) (next s)).bind
      rintro ⟨record, s⟩ _ rfl
      cases record with
      | none => exact .refl (fun _ => rfl) _
      | some record =>
          have hrecord := h record
          dsimp only
          cases hp : p record with
          | error e =>
              rw [hp] at hrecord
              intro σ he
              exact (hrecord he).elim
          | ok b =>
              rw [hp] at hrecord
              rcases hrecord with ⟨hq, rfl⟩ | ⟨hq, hr⟩
              · rw [hq]
                exact ih i k s (by omega) (by omega) (by omega)
              · rw [hq]
                cases b with
                | true =>
                    intro σ
                    refine ⟨(some record, s), ?_, rfl⟩
                    simp only [pure_bind, outer, hr]
                    rfl
                | false =>
                    cases k with
                    | zero =>
                        obtain rfl : j = 0 := by omega
                        exact .throw hstuck _
                    | succ k =>
                        simp only [pure_bind, outer, hr]
                        rw [filterLoop]
                        exact ih n k s (by omega) (by omega) (by omega)

end Split

theorem filter_filter {p q r : ρ → Except ε Bool} (hstuck : ¬ E stuck) (h : Splits E p q r)
    (m : Iter ε σ ρ) :
    Refines E (m.filter stuck p) ((m.filter stuck q).filter stuck r) := by
  refine ⟨Eq, .refl (fun _ => rfl) _, ?_⟩
  rintro fuel s _ rfl
  cases fuel with
  | zero => exact .throw hstuck _
  | succ fuel =>
      have := filterLoop_split (m.next (fuel + 1)) hstuck h (fuel + 1) (fuel + 1) (fuel + 1) fuel s
        (by omega) (by omega) (by omega)
      exact this.mono fun a b hab => ⟨congrArg Prod.fst hab, congrArg Prod.snd hab⟩

theorem trans {m'' : Iter ε σ ρ} (h : Refines E m m') (h' : Refines E m' m'') :
    Refines E m m'' := by
  rcases h with ⟨R, hinit, hnext⟩
  rcases h' with ⟨R', hinit', hnext'⟩
  refine ⟨fun a c => ∃ b, R a b ∧ R' b c, hinit.trans hinit' fun _ b _ hab hbc => ⟨b, hab, hbc⟩, ?_⟩
  rintro fuel s u ⟨t, hst, htu⟩
  exact (hnext fuel s t hst).trans (hnext' fuel t u htu)
    fun _ b _ hab hbc => ⟨hab.1.trans hbc.1, b.2, hab.2, hbc.2⟩

/-! ### The same runs -/

theorem pull_eq {R : m.State → m'.State → Prop}
    (hnext : ∀ fuel s t, R s t → Matches E (Stepped R) (m.next fuel s) (m'.next fuel t))
    (fuel : Nat) (rounds : Nat) : ∀ s t σ, R s t →
      (∀ e, (m.pull stuck fuel rounds s σ).error = some e → E e) →
      m'.pull stuck fuel rounds t σ = m.pull stuck fuel rounds s σ := by
  induction rounds with
  | zero => exact fun s t σ _ _ => rfl
  | succ rounds ih =>
      intro s t σ hst herror
      have hstep := hnext fuel s t hst σ
      rw [pull] at herror ⊢
      rw [pull]
      cases hm : m.next fuel s σ with
      | error e σ' =>
          rw [hm] at hstep herror
          rw [hstep (herror e rfl)]
      | ok a σ' =>
          rw [hm] at hstep herror
          rcases hstep with ⟨b, hb, hr, hR⟩
          rw [hb]
          rcases a with ⟨_ | record, s⟩ <;> rcases b with ⟨_, t⟩ <;> cases hr
          · rfl
          · dsimp only at herror ⊢
            rw [ih s t σ' hR herror]

/-- Refined iterators have the same runs, those aside that end with another error. -/
theorem run_eq (h : Refines E m m') {fuel : Nat} {state : σ}
    (herror : ∀ e, (m.run stuck fuel state).error = some e → E e) :
    m'.run stuck fuel state = m.run stuck fuel state := by
  rcases h with ⟨R, hinit, hnext⟩
  have hopen := hinit state
  rw [run] at herror ⊢
  rw [run]
  cases hm : m.init state with
  | error e σ' =>
      rw [hm] at hopen herror
      rw [hopen (herror e rfl)]
  | ok s σ' =>
      rw [hm] at hopen herror
      rcases hopen with ⟨t, ht, hst⟩
      rw [ht]
      exact pull_eq hnext fuel fuel s t σ' hst herror

end Refines

/-! ## Iterators that give a list -/

/-- From `s` on, the calls give the records of a list, then none, and leave the shared
state alone. -/
def Yields (m : Iter ε σ ρ) (fuel : Nat) (state : σ) : m.State → List ρ → Prop
  | s, [] => ∃ s', m.next fuel s state = .ok (none, s') state
  | s, r :: rs => ∃ s', m.next fuel s state = .ok (some r, s') state ∧ m.Yields fuel state s' rs

/-- The results of a function on a list, up to the first error. -/
def untilError (f : ρ → Except ε ρ') : List ρ → List ρ' × Option ε
  | [] => ([], none)
  | r :: rs =>
      match f r with
      | .ok r' => (r' :: (untilError f rs).1, (untilError f rs).2)
      | .error e => ([], some e)

theorem untilError_of_ok {f : ρ → Except ε ρ'} {g : ρ → ρ'} {rs : List ρ}
    (h : ∀ r ∈ rs, f r = .ok (g r)) : untilError f rs = (rs.map g, none) := by
  induction rs with
  | nil => rfl
  | cons r rs ih =>
      rw [untilError, h r List.mem_cons_self, ih fun r hr => h r (List.mem_cons_of_mem _ hr)]
      rfl

namespace Yields

variable {fuel : Nat} {state : σ}

/-- One call of a filter: its loop passes the rejected records by. -/
theorem filterLoop (stuck : ε) {accepts : ρ → Except ε Bool} {decide : ρ → Bool} {rs : List ρ}
    (hdecide : ∀ r ∈ rs, accepts r = .ok (decide r)) (hfuel : rs.length < fuel) :
    ∀ {s : m.State} {n : Nat}, m.Yields fuel state s rs → rs.length < n →
      match rs.filter decide with
      | [] => ∃ s', Volcano.filterLoop stuck (m.next fuel) accepts n s state = .ok (none, s') state
      | r :: rest =>
          ∃ s', Volcano.filterLoop stuck (m.next fuel) accepts n s state
              = .ok (some r, s') state ∧
            (m.filter stuck accepts).Yields fuel state s' rest := by
  induction rs with
  | nil =>
      rintro s (_ | n) ⟨s', hs⟩ hn
      · cases hn
      · refine ⟨s', ?_⟩
        rw [Volcano.filterLoop, EStateM.bind_of_ok hs]
        rfl
  | cons r rs ih =>
      rintro s (_ | n) ⟨s', hs, hrest⟩ hn
      · cases hn
      · have hr := hdecide r List.mem_cons_self
        have hlength : (r :: rs).length = rs.length + 1 := rfl
        have hloop := fun n => ih (fun r hr => hdecide r (List.mem_cons_of_mem _ hr)) (by omega)
          (n := n) hrest
        rw [Volcano.filterLoop, EStateM.bind_of_ok hs]
        cases hd : decide r with
        | true =>
            rw [hd] at hr
            rw [List.filter_cons_of_pos hd]
            refine ⟨s', ?_, ?_⟩
            · dsimp only
              rw [hr]
              rfl
            · have hnext := hloop fuel (by omega)
              cases hfilter : rs.filter decide with
              | nil =>
                  rw [hfilter] at hnext
                  exact hnext
              | cons r' rest =>
                  rw [hfilter] at hnext
                  exact hnext
        | false =>
            rw [hd] at hr
            rw [List.filter_cons_of_neg (by simp [hd])]
            dsimp only
            rw [hr]
            exact hloop n (by omega)

theorem filter (stuck : ε) {accepts : ρ → Except ε Bool} {decide : ρ → Bool} {rs : List ρ}
    {s : m.State} (h : m.Yields fuel state s rs) (hdecide : ∀ r ∈ rs, accepts r = .ok (decide r))
    (hfuel : rs.length < fuel) :
    (m.filter stuck accepts).Yields fuel state s (rs.filter decide) := by
  have hnext := filterLoop stuck hdecide hfuel h hfuel
  cases hfilter : rs.filter decide with
  | nil =>
      rw [hfilter] at hnext
      exact hnext
  | cons r rest =>
      rw [hfilter] at hnext
      exact hnext

theorem pull_map {f : ρ → EStateM ε σ ρ'} {g : ρ → Except ε ρ'}
    (hf : ∀ r, f r state = match g r with | .ok r' => .ok r' state | .error e => .error e state)
    {rs : List ρ} : ∀ {s : m.State} {rounds : Nat}, m.Yields fuel state s rs →
      rs.length < rounds →
      (m.map f).pull stuck fuel rounds s state = ⟨(untilError g rs).1, (untilError g rs).2, state⟩ := by
  induction rs with
  | nil =>
      rintro s (_ | rounds) ⟨s', hs⟩ hrounds
      · cases hrounds
      · have hnext : (m.map f).next fuel s state = .ok (none, s') state := by
          change (m.next fuel s >>= _) state = _
          rw [EStateM.bind_of_ok hs]
          rfl
        refine (pull_succ (m.map f) fuel rounds s state).trans ?_
        rw [hnext, untilError]
  | cons r rs ih =>
      rintro s (_ | rounds) ⟨s', hs, hrest⟩ hrounds
      · cases hrounds
      · have hr := hf r
        have hbind : (m.map f).next fuel s state
            = (f r >>= fun r' => pure (some r', s')) state := by
          change (m.next fuel s >>= _) state = _
          rw [EStateM.bind_of_ok hs]
        refine (pull_succ (m.map f) fuel rounds s state).trans ?_
        rw [hbind, untilError]
        cases hg : g r with
        | error e =>
            rw [hg] at hr
            rw [EStateM.bind_of_error hr]
        | ok r' =>
            rw [hg] at hr
            have hpull := @ih s' rounds hrest (Nat.lt_of_succ_lt_succ hrounds)
            rw [EStateM.bind_of_ok hr, EStateM.pure_apply]
            dsimp only
            rw [hpull]

end Yields

end Iter

end Volcano
