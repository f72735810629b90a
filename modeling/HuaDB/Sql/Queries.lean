import HuaDB.Sql.Writes

/-!
What queries do, run to their end.

The loop over the rows of a plan is gone through once (`drain_ends`): its body sees
the items that the plan had when the loop started, each once, whatever it inserts.
-/

namespace HuaDB

namespace Sql

open EStateM

variable {σ₀ σ σ' : Database} {oid : Nat} {context : ExecutorContext}

/-! ## The loop over a plan -/

theorem length_flatMap_accept_le (predicate : Expression Bool) (items : List Item) :
    (items.flatMap (accept predicate)).length ≤ items.length := by
  induction items with
  | nil => exact Nat.le_refl _
  | cons item items ih =>
      have hone : (accept predicate item).length ≤ 1 := by
        unfold accept
        split
        · exact Nat.le_refl _
        · split <;> simp
      rw [List.flatMap_cons, List.length_append, List.length_cons]
      omega

/-- Every item takes a row. -/
theorem length_ahead_le (σ : Database) (context : ExecutorContext) (plan : Plan)
    (s : Plan.State plan) : (ahead σ context plan s).length ≤ rounds σ plan s := by
  induction plan with
  | values => exact Nat.le_of_eq (List.length_map _)
  | seqScan oid =>
      rw [ahead, List.length_map]
      exact List.length_filter_le _ _
  | filter predicate _ ih =>
      exact Nat.le_trans (length_flatMap_accept_le predicate _) (ih s)
  | projection exprs _ ih =>
      apply Nat.le_trans _ (ih s)
      exact Nat.le_of_eq (List.length_map _)
  | lockRows _ _ _ ih => exact ih s

/-- What the body of a loop over a plan keeps, given the rows that it was run for, which are
among `items`. -/
structure Loop {β : Type} (context : ExecutorContext) (fuel bound : Nat) (plan : Plan)
    (items : List Item) (body : β → Tuple → Sql β) (J : β → List Tuple → Database → Prop)
    (error : SqlError → Database → Prop) : Prop where
  sound : ∀ acc done σ, J acc done σ → Sound σ ∧ context.xid ∈ σ.mvcc.active
  reads : ∀ acc done σ σ', J acc done σ → Reads σ σ' → J acc done σ'
  body : ∀ acc done tuple s s' σ, J acc done σ → Placed σ plan s → Placed σ plan s' →
    ahead σ context plan s = .ok tuple :: ahead σ context plan s' → .ok tuple ∈ items →
    Ends σ (body acc tuple)
      (fun acc' σ' => J acc' (done ++ [tuple]) σ' ∧ Keeps context plan s' 1 σ σ') error
  error : ∀ acc done e σ, J acc done σ → Stops fuel bound False e → error e σ

theorem drain_ends {β : Type} {fuel bound : Nat} {plan : Plan} {items : List Item}
    {body : β → Tuple → Sql β} {J : β → List Tuple → Database → Prop}
    {error : SqlError → Database → Prop} (loop : Loop context fuel bound plan items body J error)
    (loopFuel : Nat) {acc : β} {done : List Tuple} {s : Plan.State plan} (inv : J acc done σ)
    (placed : Placed σ plan s) (hsub : ahead σ context plan s ⊆ items) (hrounds : rounds σ plan s ≤ bound)
    (hbound : done.length + (ahead σ context plan s).length ≤ bound)
    (hfuel : fuel ≤ done.length + loopFuel) :
    Ends σ (drain (Plan.next context fuel plan) body loopFuel acc s)
      (fun acc' σ' => ∃ later, ahead σ context plan s = later.map .ok ∧ J acc' (done ++ later) σ')
      error := by
  induction loopFuel generalizing σ acc done s with
  | zero =>
      have hstops : fuel ≤ bound := by omega
      exact .throw (loop.error acc done _ σ inv hstops)
  | succ loopFuel ih =>
      rcases loop.sound acc done σ inv with ⟨sound, active⟩
      rw [drain]
      apply Ends.bind ((next_ends fuel plan s sound active placed).mono (fun _ _ => id) _)
      · rintro ⟨tuple?, s'⟩ σ₁ ⟨reads, placed', hands⟩
        have inv₁ := loop.reads acc done σ σ₁ inv reads
        cases hands with
        | past hitems => exact .pure ⟨[], hitems, (List.append_nil done).symm ▸ inv₁⟩
        | @row tuple hitems hlt =>
            have hitems₁ : ahead σ₁ context plan s = .ok tuple :: ahead σ₁ context plan s' := by
              rw [reads.ahead, reads.ahead]
              exact hitems
            have hmem : .ok tuple ∈ items := hsub (hitems ▸ List.mem_cons_self)
            apply Ends.bind (loop.body acc done tuple s s' σ₁ inv₁ (reads.placed placed)
              (reads.placed placed') hitems₁ hmem)
            rintro acc' σ₂ ⟨inv₂, keeps⟩
            have hsame : ahead σ₂ context plan s' = ahead σ context plan s' :=
              keeps.ahead.trans (reads.ahead context plan s')
            have hle : rounds σ₂ plan s' ≤ rounds σ plan s' + 1 :=
              reads.rounds plan s' ▸ keeps.rounds
            have hlength : (done ++ [tuple]).length = done.length + 1 := List.length_append
            rw [hitems, List.length_cons] at hbound
            have hsub₂ : ahead σ₂ context plan s' ⊆ items := by
              rw [hsame]
              exact fun item h => hsub (hitems ▸ List.mem_cons_of_mem _ h)
            have hlater := ih inv₂ keeps.placed hsub₂ (Nat.le_trans hle (Nat.le_trans hlt hrounds))
              (by rw [hsame, hlength]; exact (Nat.add_right_comm _ _ _).trans_le hbound)
              (by rw [hlength]; omega)
            apply hlater.mono
            · rintro acc'' σ₃ ⟨later, hahead, inv₃⟩
              refine ⟨tuple :: later, ?_, ?_⟩
              · rw [hitems, ← hsame, hahead]
                rfl
              · rw [List.append_assoc] at inv₃
                exact inv₃
            · exact fun _ _ => id
      · rintro e σ₁ ⟨reads, stops⟩
        apply loop.error acc done e σ₁ (loop.reads acc done σ σ₁ inv reads)
        exact stops.mono (fun h => Nat.le_trans h hrounds) id

/-! ## The four queries -/

/-- What a plan comes to when it is run from its start. -/
noncomputable def items (σ : Database) (context : ExecutorContext) (plan : Plan) : List Item :=
  ahead σ context plan (start σ plan)

/-- The rounds that the loops of a query take. -/
def Query.bound (σ : Database) : Query → Nat
  | .select plan | .insert _ _ plan => max (rounds σ plan (start σ plan)) nullPageId
  | .update oid _ _ | .delete oid _ => max (σ.rows oid).length nullPageId

/-- The records `new` hold what `toRecord` makes of the rows `done`. -/
def Supplies (toRecord : Expression Row) (done new : List Tuple) : Prop :=
  List.Forall₂ (fun t n => toRecord t.record.data = .ok n.record.data) done new

theorem Supplies.concat {toRecord : Expression Row} {done new : List Tuple} {t n : Tuple}
    (supplies : Supplies toRecord done new) (h : toRecord t.record.data = .ok n.record.data) :
    Supplies toRecord (done ++ [t]) (new ++ [n]) :=
  List.rel_append supplies (.cons h .nil)

/-- The number of rows that is reported. -/
theorem count_succ (done : List Tuple) (tuple : Tuple) :
    (done.length % 2 ^ 32 + 1) % 2 ^ 32 = (done ++ [tuple]).length % 2 ^ 32 := by
  rw [List.length_append, List.length_singleton, Nat.mod_add_mod]

/-- What is left of a query that fails. -/
def QueryFails (P : Mvcc.Policy Nat Rid Row) (context : ExecutorContext) (oid : Nat)
    (σ₀ : Database) (fuel bound : Nat) (overrun : Prop) (e : SqlError) (σ : Database) : Prop :=
  (∀ ex, e = .thrown ex → ∃ gone new, Writes P context oid σ₀ σ gone new) ∧
    Stops fuel bound overrun e

theorem QueryFails.refl {P : Mvcc.Policy Nat Rid Row} {fuel bound : Nat} {overrun : Prop}
    (sound : Sound σ₀) (ex : Exception) :
    QueryFails P context oid σ₀ fuel bound overrun (.thrown ex) σ₀ :=
  ⟨fun _ _ => ⟨[], [], .refl P context oid sound⟩, trivial⟩

/-- The rows that an UPDATE or a DELETE is for. -/
def Wanted (σ : Database) (context : ExecutorContext) (predicate : Expression Bool) (tuple : Tuple) :
    Prop := Visible σ context tuple ∧ predicate tuple.record.data = .ok true

open Classical in
theorem oks_ahead {predicate : Expression Bool} (s : Plan.State (.seqScan oid)) :
    (ahead σ context (.filter predicate (.seqScan oid)) s).filterMap Except.toOption =
      ((σ.heap oid).rest s).filter fun t => Wanted σ context predicate t := by
  have hoks : ∀ l : List Tuple,
      ((l.map Except.ok).flatMap (accept predicate)).filterMap Except.toOption =
        l.filter fun t => predicate t.record.data = .ok true := by
    intro l
    induction l with
    | nil => rfl
    | cons t l ih =>
        rw [List.map_cons, List.flatMap_cons, List.filterMap_append, ih, List.filter_cons, accept]
        cases predicate t.record.data with
        | error e => simp [Except.toOption]
        | ok accepted => cases accepted <;> simp [Except.toOption]
  have hand : ∀ t, (decide (predicate t.record.data = .ok true) && decide (Visible σ context t)) =
      decide (Wanted σ context predicate t) := by
    intro t
    rw [← Bool.decide_and]
    exact decide_eq_decide.mpr And.comm
  have hahead : ahead σ context (.filter predicate (.seqScan oid)) s =
      ((((σ.heap oid).rest s).filter fun t => Visible σ context t).map Except.ok).flatMap
        (accept predicate) := rfl
  rw [hahead, hoks, List.filter_filter]
  exact List.filter_congr fun t _ => hand t

/-- The items of an UPDATE or a DELETE are rows of the table. -/
theorem target_of_ahead {predicate : Expression Bool} {s s' : Plan.State (.seqScan oid)}
    {tuple : Tuple} (sound : Sound σ) (place : (σ.heap oid).Place s) (place' : (σ.heap oid).Place s')
    (hahead : ahead σ context (.filter predicate (.seqScan oid)) s =
      .ok tuple :: ahead σ context (.filter predicate (.seqScan oid)) s') :
    Target σ context oid s' tuple ∧ predicate tuple.record.data = .ok true := by
  classical
  have hok := sound.pages.heap oid
  have hoks := congrArg (List.filterMap Except.toOption) hahead
  rw [oks_ahead, List.filterMap_cons, oks_ahead] at hoks
  have hmem : tuple ∈ (σ.heap oid).rest s ∧ Wanted σ context predicate tuple := by
    have hfilter : tuple ∈ ((σ.heap oid).rest s).filter fun t => Wanted σ context predicate t := by
      rw [hoks]
      exact List.mem_cons_self
    simpa using hfilter
  have hnodup : (((σ.heap oid).rest s).filter fun t => Wanted σ context predicate t).Nodup :=
    (hok.nodup_rest (hok.holds_of_place place) s.slotId).of_map.filter _
  have hrows : ∀ {r : Rid}, (σ.heap oid).Place r → ∀ u ∈ (σ.heap oid).rest r, u ∈ σ.rows oid :=
    fun place u hu => (hok.rest_suffix place).mem hu
  refine ⟨⟨hrows place _ hmem.1, hmem.2.1, place', ?_⟩, hmem.2.2⟩
  intro u hu hrid
  have hsame : u = tuple :=
    List.inj_on_of_nodup_map hok.nodup_rows (hrows place' u hu) (hrows place _ hmem.1) hrid
  subst hsame
  -- it would be come to twice
  rw [hoks] at hnodup
  apply (List.nodup_cons.mp hnodup).1
  rw [List.mem_filter]
  exact ⟨hu, decide_eq_true hmem.2⟩

section Queries

variable (fuel : Nat) (sound : Sound σ₀) (active : context.xid ∈ σ₀.mvcc.active)
include sound active

omit active in
/-- The loop of a query over its plan, from its start. -/
theorem drain_start_ends {β : Type} {bound : Nat} {plan : Plan} {body : β → Tuple → Sql β}
    {J : β → List Tuple → Database → Prop} {error : SqlError → Database → Prop}
    (loop : Loop context fuel bound plan (items σ₀ context plan) body J error)
    (hbound : rounds σ₀ plan (start σ₀ plan) ≤ bound) {acc : β} (inv : J acc [] σ₀) :
    Ends σ₀ (drain (Plan.next context fuel plan) body fuel acc (start σ₀ plan))
      (fun acc' σ' => ∃ done, items σ₀ context plan = done.map .ok ∧ J acc' done σ') error :=
  drain_ends loop fuel inv (placed_start sound plan) (List.Subset.refl _) hbound
    (by rw [List.length_nil, Nat.zero_add]; exact Nat.le_trans (length_ahead_le _ _ _ _) hbound)
    (by rw [List.length_nil, Nat.zero_add])

theorem select_ends (plan : Plan) :
    Ends σ₀ (executeQuery context fuel (.select plan))
      (fun result σ' => Reads σ₀ σ' ∧ ∃ done : List Tuple, items σ₀ context plan = done.map .ok ∧
        result = .rows (done.map fun t => t.record.data))
      fun e σ' => Reads σ₀ σ' ∧ Stops fuel (Query.bound σ₀ (.select plan)) False e := by
  have loop : Loop context fuel (Query.bound σ₀ (.select plan)) plan (items σ₀ context plan)
      (fun rows tuple => return rows ++ [tuple.record.data])
      (fun rows done σ => Reads σ₀ σ ∧ rows = done.map fun t => t.record.data)
      (fun e σ => Reads σ₀ σ ∧ Stops fuel (Query.bound σ₀ (.select plan)) False e) := by
    constructor
    · exact fun _ _ _ h => ⟨h.1.sound sound, h.1.active ▸ active⟩
    · exact fun _ _ _ _ h reads => ⟨h.1.trans reads, h.2⟩
    · rintro acc done tuple s s' σ ⟨reads, rfl⟩ - placed' - -
      refine .pure ⟨⟨reads, ?_⟩, ⟨placed', rfl, Nat.le_succ _⟩⟩
      rw [List.map_append, List.map_singleton]
    · exact fun _ _ _ _ h stops => ⟨h.1, stops⟩
  rw [executeQuery]
  apply Ends.bind ((init_ends σ₀ plan).mono (fun _ _ => id) _)
  · rintro s σ ⟨rfl, rfl⟩
    apply Ends.bind (drain_start_ends fuel sound loop (Nat.le_max_left _ _) ⟨.refl σ, rfl⟩)
    rintro rows σ' ⟨done, hitems, reads, rfl⟩
    exact .pure ⟨reads, done, hitems, rfl⟩
  · rintro _ σ ⟨⟨ex, rfl⟩, rfl⟩
    exact ⟨.refl σ, trivial⟩

variable {P : Mvcc.Policy Nat Rid Row}
  (counts : P.counts context.xid → context.cid < σ₀.mvcc.cid context.xid)
include counts

theorem insert_ends (toRecord : Expression Row) (plan : Plan) :
    Ends σ₀ (executeQuery context fuel (.insert oid toRecord plan))
      (fun result σ' => ∃ done new : List Tuple, items σ₀ context plan = done.map .ok ∧
        Writes P context oid σ₀ σ' [] new ∧ Supplies toRecord done new ∧
        result = .count (done.length % 2 ^ 32) ∧ Stored oid new σ')
      (QueryFails P context oid σ₀ fuel (Query.bound σ₀ (.insert oid toRecord plan))
        (∃ t, .ok t ∈ items σ₀ context plan ∧ Overlong toRecord t)) := by
  have loop : Loop context fuel (Query.bound σ₀ (.insert oid toRecord plan)) plan
      (items σ₀ context plan)
      (counted (insertRow context fuel oid toRecord))
      (fun count done σ => count = done.length % 2 ^ 32 ∧ ∃ new, Writes P context oid σ₀ σ [] new ∧
        Supplies toRecord done new ∧ Stored oid new σ)
      (QueryFails P context oid σ₀ fuel (Query.bound σ₀ (.insert oid toRecord plan))
        (∃ t, .ok t ∈ items σ₀ context plan ∧ Overlong toRecord t)) := by
    constructor
    · rintro _ _ σ ⟨-, new, writes, -⟩
      exact ⟨writes.sound, writes.active ▸ active⟩
    · rintro _ _ σ σ' ⟨hcount, new, writes, supplies, stored⟩ reads
      exact ⟨hcount, new, writes.reads reads, supplies, reads.stored stored⟩
    · rintro _ done tuple s s' σ ⟨rfl, new, writes, supplies, stored⟩ - placed' - hmem
      apply Ends.bind ((insertRow_ends fuel active counts writes toRecord tuple placed').mono
        (fun _ _ => id) _)
      · rintro _ σ' ⟨n, hn, writes', keeps, hstored⟩
        exact .pure ⟨⟨count_succ done tuple, _, writes', supplies.concat hn, hstored stored⟩, keeps⟩
      · rintro e σ' ⟨hthrown, stops⟩
        refine ⟨fun ex hex => ⟨[], hthrown ex hex⟩, ?_⟩
        exact stops.mono (fun h => Nat.le_trans h (Nat.le_max_right _ _)) fun h => ⟨tuple, hmem, h⟩
    · rintro _ _ e σ ⟨-, new, writes, -⟩ stops
      exact ⟨fun _ _ => ⟨[], new, writes⟩, stops.mono id False.elim⟩
  rw [executeQuery]
  apply Ends.bind ((init_ends σ₀ plan).mono (fun _ _ => id) _)
  · rintro s σ ⟨rfl, rfl⟩
    cases htable : σ.tables.find? oid with
    | none =>
        rcases getTable_error htable with ⟨message, herror⟩
        exact .bind_of_error herror (.refl sound _)
    | some table =>
        apply Ends.bind_of_ok (getTable_eq htable)
        apply Ends.bind (drain_start_ends fuel sound loop (Nat.le_max_left _ _)
          ⟨rfl, [], .refl P context oid sound, .nil, nofun⟩)
        rintro count σ' ⟨done, hitems, rfl, new, writes, supplies, stored⟩
        exact .pure ⟨done, new, hitems, writes, supplies, rfl, stored⟩
  · rintro _ σ ⟨⟨ex, rfl⟩, rfl⟩
    exact .refl sound ex

variable {predicate : Expression Bool}
  (permits : ∀ t ∈ σ₀.rows oid, Wanted σ₀ context predicate t →
    P.delete context.isolationLevel.mode σ₀.mvcc.active (versionOf t))
include permits

omit sound counts in
/-- A row that the scan comes to is one that may be deleted. -/
theorem Writes.permitted {gone new : List Tuple} (writes : Writes P context oid σ₀ σ gone new)
    {r : Rid} {tuple : Tuple} (target : Target σ context oid r tuple)
    (hpredicate : predicate tuple.record.data = .ok true) :
    P.delete context.isolationLevel.mode σ₀.mvcc.active (versionOf tuple) := by
  have hvisible : Visible σ₀ context tuple := writes.visible ▸ target.visible
  exact permits tuple (writes.mem_of_visible active target.mem hvisible).1 ⟨hvisible, hpredicate⟩

/-- What is left of an UPDATE that fails. -/
def UpdateFails (P : Mvcc.Policy Nat Rid Row) (context : ExecutorContext) (oid : Nat)
    (predicate : Expression Bool) (exprs : Expression Row) (σ₀ : Database) (fuel bound : Nat)
    (e : SqlError) (σ : Database) : Prop :=
  (∀ ex, e = .thrown ex → ∃ gone new, Writes P context oid σ₀ σ gone new ∧ Stored oid new σ ∧
      Paired ex (∃ t ∈ σ₀.rows oid, Wanted σ₀ context predicate t ∧ Oversize exprs t) gone new) ∧
    Stops fuel bound (∃ t ∈ σ₀.rows oid, Wanted σ₀ context predicate t ∧ Overlong exprs t) e

theorem update_ends (exprs : Expression Row) :
    Ends σ₀ (executeQuery context fuel (.update oid predicate exprs))
      (fun result σ' => ∃ done new : List Tuple,
        items σ₀ context (.filter predicate (.seqScan oid)) = done.map .ok ∧
        Writes P context oid σ₀ σ' done new ∧ Stored oid new σ' ∧ Supplies exprs done new ∧
        result = .count (done.length % 2 ^ 32))
      (UpdateFails P context oid predicate exprs σ₀ fuel
        (Query.bound σ₀ (.update oid predicate exprs))) := by
  have loop : Loop context fuel (Query.bound σ₀ (.update oid predicate exprs))
      (.filter predicate (.seqScan oid)) (items σ₀ context (.filter predicate (.seqScan oid)))
      (counted (updateRow context fuel oid exprs))
      (fun count done σ => count = done.length % 2 ^ 32 ∧ ∃ new, Writes P context oid σ₀ σ done new ∧
        Stored oid new σ ∧ Supplies exprs done new)
      (UpdateFails P context oid predicate exprs σ₀ fuel
        (Query.bound σ₀ (.update oid predicate exprs))) := by
    constructor
    · rintro _ _ σ ⟨-, new, writes, -⟩
      exact ⟨writes.sound, writes.active ▸ active⟩
    · rintro _ _ σ σ' ⟨hcount, new, writes, stored, supplies⟩ reads
      exact ⟨hcount, new, writes.reads reads, reads.stored stored, supplies⟩
    · rintro _ done tuple s s' σ ⟨rfl, new, writes, stored, supplies⟩ placed placed' hahead -
      rcases target_of_ahead writes.sound placed placed' hahead with ⟨target, hpredicate⟩
      have hvisible : Visible σ₀ context tuple := writes.visible ▸ target.visible
      have hmem := (writes.mem_of_visible active target.mem hvisible).1
      apply Ends.bind ((updateRow_ends fuel active counts writes stored
        (List.Forall₂.length_eq supplies) target
        (writes.permitted active permits target hpredicate) predicate exprs).mono (fun _ _ => id) _)
      · rintro _ σ' ⟨n, hn, writes', stored', keeps⟩
        exact .pure ⟨⟨count_succ done tuple, _, writes', stored', supplies.concat hn⟩, keeps⟩
      · rintro e σ' ⟨hthrown, stops⟩
        refine ⟨fun ex hex => ?_, stops.mono (fun h => Nat.le_trans h (Nat.le_max_right _ _))
          fun h => ⟨tuple, hmem, ⟨hvisible, hpredicate⟩, h⟩⟩
        rcases hthrown ex hex with ⟨gone', new', writes', stored', hpaired⟩
        exact ⟨gone', new', writes', stored', hpaired.imp_right fun h =>
          ⟨h.1, tuple, hmem, ⟨hvisible, hpredicate⟩, h.2⟩⟩
    · rintro _ done e σ ⟨-, new, writes, stored, supplies⟩ stops
      exact ⟨fun _ _ => ⟨done, new, writes, stored, .inl (List.Forall₂.length_eq supplies)⟩,
        stops.mono id False.elim⟩
  have hempty : Stored oid [] σ₀ := nofun
  rw [executeQuery]
  apply Ends.bind ((init_ends σ₀ (.filter predicate (.seqScan oid))).mono (fun _ _ => id) _)
  · rintro s σ ⟨rfl, rfl⟩
    apply Ends.bind (drain_start_ends fuel sound loop (Nat.le_max_left _ _)
      ⟨rfl, [], .refl P context oid sound, hempty, .nil⟩)
    rintro count σ' ⟨done, hitems, rfl, new, writes, stored, supplies⟩
    exact .pure ⟨done, new, hitems, writes, stored, supplies, rfl⟩
  · rintro _ σ ⟨⟨ex, rfl⟩, rfl⟩
    exact ⟨fun _ _ => ⟨[], [], .refl P context oid sound, hempty, .inl rfl⟩, trivial⟩

omit counts in
theorem delete_ends :
    Ends σ₀ (executeQuery context fuel (.delete oid predicate))
      (fun result σ' => ∃ done : List Tuple,
        items σ₀ context (.filter predicate (.seqScan oid)) = done.map .ok ∧
        Writes P context oid σ₀ σ' done [] ∧ result = .count (done.length % 2 ^ 32))
      (QueryFails P context oid σ₀ fuel (Query.bound σ₀ (.delete oid predicate)) False) := by
  have loop : Loop context fuel (Query.bound σ₀ (.delete oid predicate))
      (.filter predicate (.seqScan oid)) (items σ₀ context (.filter predicate (.seqScan oid)))
      (counted (deleteRow context oid))
      (fun count done σ => count = done.length % 2 ^ 32 ∧ Writes P context oid σ₀ σ done [])
      (QueryFails P context oid σ₀ fuel (Query.bound σ₀ (.delete oid predicate)) False) := by
    constructor
    · rintro _ _ σ ⟨-, writes⟩
      exact ⟨writes.sound, writes.active ▸ active⟩
    · exact fun _ _ σ σ' h reads => ⟨h.1, h.2.reads reads⟩
    · rintro _ done tuple s s' σ ⟨rfl, writes⟩ placed placed' hahead -
      rcases target_of_ahead writes.sound placed placed' hahead with ⟨target, hpredicate⟩
      apply Ends.bind ((deleteRow_ends active writes target
        (writes.permitted active permits target hpredicate) predicate).mono (fun _ _ => id) _)
      · rintro _ σ' ⟨writes', keeps⟩
        refine .pure ⟨⟨count_succ done tuple, writes'⟩, ⟨keeps.placed, keeps.ahead, ?_⟩⟩
        exact Nat.le_succ_of_le keeps.rounds
      · rintro _ σ' ⟨writes', ex, rfl⟩
        exact ⟨fun _ _ => ⟨done, [], writes'⟩, trivial⟩
    · rintro _ done e σ ⟨-, writes⟩ stops
      exact ⟨fun _ _ => ⟨done, [], writes⟩, stops⟩
  rw [executeQuery]
  apply Ends.bind ((init_ends σ₀ (.filter predicate (.seqScan oid))).mono (fun _ _ => id) _)
  · rintro s σ ⟨rfl, rfl⟩
    apply Ends.bind (drain_start_ends fuel sound loop (Nat.le_max_left _ _)
      ⟨rfl, .refl P context oid sound⟩)
    rintro count σ' ⟨done, hitems, rfl, writes⟩
    exact .pure ⟨done, hitems, writes, rfl⟩
  · rintro _ σ ⟨⟨ex, rfl⟩, rfl⟩
    exact .refl sound ex

end Queries

end Sql

end HuaDB
