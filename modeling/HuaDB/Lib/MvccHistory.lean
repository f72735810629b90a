import HuaDB.Lib.Mvcc

/-!
What histories of row versions guarantee.

`Justified` says of a history that each event was in order when it happened. No read
is of a version of an active or rolled-back transaction (`steps_reads`). Under a
policy that spares the versions of committed deleters, no deletion is of a version
that another transaction deleted and did not roll back (`steps_deletes`), and no two
transactions that commit delete one version (`Marked.unique`).
-/

namespace Mvcc

variable {ι ρ δ : Type}

/-- Every event meets `Q` with what happened before it. -/
def Justified (Q : Event ι ρ → List (Event ι ρ) → Prop) : List (Event ι ρ) → Prop
  | [] => True
  | e :: earlier => Q e earlier ∧ Justified Q earlier

theorem Justified.of_split {Q : Event ι ρ → List (Event ι ρ) → Prop} {events later earlier} {e}
    (h : Justified Q events) (split : events = later ++ e :: earlier) : Q e earlier := by
  induction later generalizing events with
  | nil =>
      subst split
      exact h.1
  | cons e' later ih =>
      subst split
      exact ih h.2 rfl

/-- A read of a version of the reader or of a transaction committed by then. -/
def ReadsCommitted (e : Event ι ρ) (earlier : List (Event ι ρ)) : Prop :=
  ∀ x i r xmin, e = .read x i r xmin → xmin = x ∨ .committed xmin ∈ earlier

/-- A deletion of a version that nobody else deleted without rolling back. -/
def DeletesOnce (e : Event ι ρ) (earlier : List (Event ι ρ)) : Prop :=
  ∀ x i r, e = .deleted x i r → ∀ y, y ≠ x → .deleted y i r ∈ earlier → .rolledBack y ∈ earlier

section Histories

variable [DecidableEq ι] [DecidableEq ρ] {P : Policy ι ρ δ} {s s' : State ι ρ δ}

theorem step_reads (inv : Inv s) (h : Justified ReadsCommitted s.events) (step : Step P s s') :
    Justified ReadsCommitted s'.events := by
  cases step with
  | begin | count | lock | insert => exact h
  | read active mem visible =>
      refine ⟨?_, h⟩
      intro _ _ _ _ heq
      cases heq
      exact inv.committed_of_visible active mem visible
  | delete | commit | rollback => exact ⟨nofun, h⟩

/-- No dirty reads. -/
theorem steps_reads (inv : Inv s) (h : Justified ReadsCommitted s.events) (steps : Steps P s s') :
    Justified ReadsCommitted s'.events := by
  induction steps with
  | refl => exact h
  | tail steps step ih => exact step_reads (inv.steps steps) ih step

/-- Only versions without a committed deleter are deleted. -/
def Policy.Clean (P : Policy ι ρ δ) : Prop :=
  ∀ mode A v, P.delete mode A v → ∀ d, v.xmax = some d → d ∈ A

/-- A deletion that was not rolled back is marked on its version. -/
def Marked (s : State ι ρ δ) : Prop :=
  ∀ y i r, .deleted y i r ∈ s.events →
    .rolledBack y ∈ s.events ∨ ∃ v ∈ s.versions i, v.id = r ∧ v.xmax = some y

omit [DecidableEq ι] [DecidableEq ρ] in
/-- A version is not deleted by two transactions that commit. -/
theorem Marked.unique (inv : Inv s) (marked : Marked s) {x y : Nat} {i : ι} {r : ρ}
    (hx : .deleted x i r ∈ s.events) (hy : .deleted y i r ∈ s.events)
    (hcx : .committed x ∈ s.events) (hcy : .committed y ∈ s.events) : x = y := by
  rcases marked x i r hx with hback | ⟨v, hv, hid, hxmax⟩
  · exact absurd hback (inv.decided x hcx)
  rcases marked y i r hy with hback | ⟨w, hw, hid', hxmax'⟩
  · exact absurd hback (inv.decided y hcy)
  cases inv.eq_of_id hv hw (hid.trans hid'.symm)
  exact Option.some.inj (hxmax.symm.trans hxmax')

omit [DecidableEq ι] [DecidableEq ρ] in
/-- The deletions of a clean policy hit versions without a deleter. -/
theorem Policy.Clean.xmax_eq_none (clean : P.Clean) (inv : Inv s) {mode : Mode} {x c : Nat} {i : ι}
    {v : Version ρ δ} (active : x ∈ s.active) (mem : v ∈ s.versions i)
    (visible : s.Visible mode x c v) (policy : P.delete mode s.active v)
    (alone : ∀ y, y ≠ x → ¬ s.locked y i v.id) : v.xmax = none :=
  inv.xmax_eq_none active mem visible alone (clean mode s.active v policy)

theorem step_marked (clean : P.Clean) (inv : Inv s) (marked : Marked s) (step : Step P s s') :
    Marked s' := by
  intro y j r hdeleted
  cases step with
  | begin | count | lock => exact marked y j r hdeleted
  | read active mem visible =>
      have hold := marked y j r (by simpa [State.record] using hdeleted)
      exact hold.imp_left (List.mem_cons_of_mem _)
  | @insert i v pre post active xmax counted split fresh =>
      rcases marked y j r hdeleted with hback | ⟨w, hw, hid, hxmax⟩
      · exact .inl hback
      · exact .inr ⟨w, (Inv.mem_update split).mpr (.inl hw), hid, hxmax⟩
  | @delete mode x c i v active mem visible policy own alone =>
      have hnone := clean.xmax_eq_none inv active mem visible policy alone
      rcases List.mem_cons.mp hdeleted with heq | hold
      · cases heq
        exact .inr ⟨_, List.mem_map_of_mem mem, stamp_id _ _ _ _ _, by
          rw [stamp_xmax, if_pos ⟨rfl, rfl⟩]⟩
      · rcases marked y j r hold with hback | ⟨w, hw, hid, hxmax⟩
        · exact .inl (List.mem_cons_of_mem _ hback)
        · refine .inr ⟨_, List.mem_map_of_mem hw, (stamp_id _ _ _ _ _).trans hid, ?_⟩
          rw [stamp_xmax, if_neg]
          · exact hxmax
          · rintro ⟨rfl, hid'⟩
            cases inv.eq_of_id hw mem hid'
            cases hnone.symm.trans hxmax
  | commit active policy =>
      have hold := marked y j r (by simpa [State.finish] using hdeleted)
      exact hold.imp_left (List.mem_cons_of_mem _)
  | @rollback x active =>
      rcases marked y j r (by simpa [State.finish, State.map] using hdeleted) with
        hback | ⟨w, hw, hid, hxmax⟩
      · exact .inl (List.mem_cons_of_mem _ hback)
      · by_cases hy : y = x
        · exact .inl (hy ▸ List.mem_cons_self)
        · have hne : w.xmin ≠ x := by
            intro hx
            exact hy (inv.own j w hw (hx ▸ active) y hxmax ▸ hx)
          refine .inr ⟨_, List.mem_map_of_mem hw, undoAll_id.trans hid, ?_⟩
          rw [inv.undoAll_xmax active hw, if_neg hne, if_neg]
          · exact hxmax
          · rw [hxmax]
            exact fun h => hy (Option.some.inj h)

theorem steps_marked (clean : P.Clean) (inv : Inv s) (marked : Marked s) (steps : Steps P s s') :
    Marked s' := by
  induction steps with
  | refl => exact marked
  | tail steps step ih => exact step_marked clean (inv.steps steps) ih step

theorem step_deletes (clean : P.Clean) (inv : Inv s) (marked : Marked s)
    (h : Justified DeletesOnce s.events) (step : Step P s s') :
    Justified DeletesOnce s'.events := by
  cases step with
  | begin | count | lock | insert => exact h
  | read | commit | rollback => exact ⟨nofun, h⟩
  | @delete mode x c i v active mem visible policy own alone =>
      refine ⟨?_, h⟩
      intro _ _ _ heq y hy hdeleted
      cases heq
      rcases marked y i v.id hdeleted with hback | ⟨w, hw, hid, hxmax⟩
      · exact hback
      · cases inv.eq_of_id hw mem hid
        cases (clean.xmax_eq_none inv active mem visible policy alone).symm.trans hxmax

/-- No lost updates. -/
theorem steps_deletes (clean : P.Clean) (inv : Inv s) (marked : Marked s)
    (h : Justified DeletesOnce s.events) (steps : Steps P s s') :
    Justified DeletesOnce s'.events := by
  induction steps with
  | refl => exact h
  | tail steps step ih =>
      exact step_deletes clean (inv.steps steps) (steps_marked clean inv marked steps) ih step

/-- A version whose deleter has ended keeps it. -/
def Kept (s s' : State ι ρ δ) : Prop :=
  ∀ i, ∀ v ∈ s.versions i, ∀ d, v.xmax = some d → d ∉ s.active →
    ∃ w ∈ s'.versions i, w.id = v.id ∧ w.xmax = some d

theorem step_kept (clean : P.Clean) (inv : Inv s) (step : Step P s s') : Kept s s' := by
  intro j w hw d hd hended
  cases step with
  | begin | count | lock | read | commit => exact ⟨w, hw, rfl, hd⟩
  | insert active xmax counted split fresh =>
      exact ⟨w, (Inv.mem_update split).mpr (.inl hw), rfl, hd⟩
  | @delete mode x c i v active mem visible policy own alone =>
      refine ⟨_, List.mem_map_of_mem hw, stamp_id _ _ _ _ _, ?_⟩
      rw [stamp_xmax, if_neg]
      · exact hd
      · rintro ⟨rfl, hid⟩
        cases inv.eq_of_id hw mem hid
        cases hd.symm.trans (clean.xmax_eq_none inv active mem visible policy alone)
  | @rollback x active =>
      refine ⟨_, List.mem_map_of_mem hw, undoAll_id, ?_⟩
      have hne : d ≠ x := fun h => hended (h ▸ active)
      have hmin : w.xmin ≠ x := by
        intro h
        exact hne ((inv.own j w hw (h ▸ active) d hd).trans h)
      rw [inv.undoAll_xmax active hw, if_neg hmin, hd, if_neg]
      exact fun h => hne (Option.some.inj h)

/-- The versions of a transaction are those of its earlier statements. -/
def Counted (P : Policy ι ρ δ) (s : State ι ρ δ) : Prop :=
  ∀ i, ∀ v ∈ s.versions i, P.counts v.xmin → v.xmin ∈ s.active → v.cid < s.cid v.xmin

theorem step_counted (inv : Inv s) (counted : Counted P s) (step : Step P s s') :
    Counted P s' := by
  intro j w hw counts hactive
  cases step with
  | begin =>
      have hne : w.xmin ≠ s.next := Nat.ne_of_lt (inv.xmin_lt j w hw)
      simp only [State.begin, Function.update_of_ne hne]
      exact counted j w hw counts (hactive.resolve_left hne)
  | @count x c active up =>
      have hold := counted j w hw counts hactive
      simp only [Function.update_apply]
      split
      · rename_i heq
        rw [heq] at hold counts
        exact Nat.lt_trans hold (up counts)
      · exact hold
  | lock | read => exact counted j w hw counts hactive
  | @insert i v pre post active xmax hcid split fresh =>
      rcases (Inv.mem_update split).mp hw with hold | ⟨rfl, rfl⟩
      · exact counted j w hold counts hactive
      · exact hcid counts
  | delete =>
      rcases List.mem_map.mp hw with ⟨u, hu, rfl⟩
      rw [stamp_xmin] at counts hactive
      rw [stamp_xmin, stamp_cid]
      exact counted j u hu counts hactive
  | commit =>
      simp only [State.finish, Function.update_of_ne hactive.2]
      exact counted j w hw counts hactive.1
  | rollback =>
      rcases List.mem_map.mp hw with ⟨u, hu, rfl⟩
      rw [undoAll_xmin] at counts hactive
      simp only [State.finish, State.map, undoAll_xmin, undoAll_cid,
        Function.update_of_ne hactive.2]
      exact counted j u hu counts hactive.1

theorem steps_counted (inv : Inv s) (counted : Counted P s) (steps : Steps P s s') :
    Counted P s' := by
  induction steps with
  | refl => exact counted
  | tail steps step ih => exact step_counted (inv.steps steps) ih step

/-! ## Views -/

open Classical in
/-- The rows a transaction sees of a table. -/
noncomputable def State.view (s : State ι ρ δ) (mode : Mode) (x : Nat) (i : ι) : List δ :=
  ((s.versions i).filter fun v => s.Sees mode x v).map Version.data

section View

omit [DecidableEq ι] [DecidableEq ρ]

variable {T : Nat} {i : ι} {mode : Mode}

open Classical in
/-- Versions that only change in how they are stamped, and are seen as before. -/
theorem view_of_map {f : Version ρ δ → Version ρ δ}
    (versions : s'.versions i = (s.versions i).map f) (data : ∀ v, (f v).data = v.data)
    (sees : ∀ v ∈ s.versions i, s'.Sees mode T (f v) ↔ s.Sees mode T v) :
    s'.view mode T i = s.view mode T i := by
  have hfilter : (s.versions i).filter ((fun v => decide (s'.Sees mode T v)) ∘ f) =
      (s.versions i).filter fun v => decide (s.Sees mode T v) :=
    List.filter_congr fun v hv => decide_eq_decide.mpr (sees v hv)
  have hdata : Version.data ∘ f = Version.data := funext data
  rw [State.view, State.view, versions, List.filter_map, List.map_map, hfilter, hdata]

theorem view_of_eq (versions : s'.versions i = s.versions i)
    (sees : ∀ v ∈ s.versions i, s'.Sees mode T v ↔ s.Sees mode T v) :
    s'.view mode T i = s.view mode T i :=
  view_of_map (versions.trans (List.map_id _).symm) (fun _ => rfl) sees

open Classical in
/-- A new version that is not seen. -/
theorem view_of_insert {v : Version ρ δ} {pre post : List (Version ρ δ)}
    (split : s.versions i = pre ++ post) (versions : s'.versions i = pre ++ v :: post)
    (unseen : ¬ s'.Sees mode T v) (sees : ∀ w, s'.Sees mode T w ↔ s.Sees mode T w) :
    s'.view mode T i = s.view mode T i := by
  have hsees : s'.Sees mode T = s.Sees mode T := funext fun w => propext (sees w)
  rw [hsees] at unseen
  rw [State.view, State.view, versions, split, hsees, List.filter_append, List.filter_append,
    List.filter_cons_of_neg (by simpa using unseen)]

/-- What another active transaction inserted or deleted is not seen so. -/
theorem Inv.not_seen (inv : Inv s) (active : T ∈ s.active) {x : Nat} (hx : x ∈ s.active)
    (hne : x ≠ T) : ¬ Seen (s.snapshot T) T x := by
  rintro ⟨hnot, hle⟩
  exact hnot (inv.snapshot_active T active x hx (Nat.lt_of_le_of_ne hle hne))

/-- A version that an active transaction inserted is seen by no other. -/
theorem Inv.not_sees (inv : Inv s) (active : T ∈ s.active) {v : Version ρ δ}
    (hx : v.xmin ∈ s.active) (hne : v.xmin ≠ T) : ¬ s.Sees mode T v := by
  cases mode with
  | snapshot => exact fun h => inv.not_seen active hx hne h.1
  | current => exact fun h => h.1.elim hne fun h => h hx

/-- A deletion by another active transaction is not seen. -/
theorem Inv.sees_of_xmax (inv : Inv s) (active : T ∈ s.active) {v : Version ρ δ} {x : Nat}
    (hx : x ∈ s.active) (hne : x ≠ T) (hxmax : v.xmax = some x) :
    s.Sees mode T v ↔ s.Sees mode T { v with xmax := none } := by
  cases mode with
  | snapshot =>
      have hunseen := inv.not_seen active hx hne
      simp only [State.Sees, hxmax, Option.some.injEq, forall_eq', reduceCtorEq, IsEmpty.forall_iff,
        implies_true, and_true, hunseen, not_false_eq_true]
  | current =>
      simp only [State.Sees, hxmax, Option.some.injEq, forall_eq', reduceCtorEq, IsEmpty.forall_iff,
        implies_true, and_true, hx, hne, ne_eq, not_false_eq_true]

/-- Who has just begun sees no version of a deleter that has ended. -/
theorem Inv.active_of_visible_begin (inv : Inv s) {v : Version ρ δ} {c d : Nat}
    (hv : v ∈ s.versions i) (visible : s.begin.Visible mode s.next c v)
    (hxmax : v.xmax = some d) : d ∈ s.begin.active := by
  cases mode with
  | snapshot =>
      have hunseen := visible.2.2 d hxmax
      have hlt := inv.xmax_lt i v hv d hxmax
      simp only [State.begin, Function.update_self, Seen, not_and, not_le] at hunseen
      by_contra hnot
      have hgt := hunseen fun hmem => hnot (.inr hmem)
      exact Nat.lt_asymm hlt hgt
  | current => exact (visible.2.2 d hxmax).1

/-- No commit of a transaction with entries on the table. -/
def Policy.Quiet (P : Policy ι ρ δ) (i : ι) : Prop :=
  ∀ x entries, P.commit x entries → ∀ r, .insert i r ∉ entries ∧ .delete i r ∉ entries

end View

section Stability

variable {T : Nat} {i : ι} {mode : Mode}

/-- A step that is not a write of `T` leaves what it sees. -/
theorem step_view (clean : P.Clean) (quiet : mode = .current → P.Quiet i) (inv : Inv s)
    (active : T ∈ s.active) (active' : T ∈ s'.active) (unwritten : s'.undo T = s.undo T)
    (step : Step P s s') : s'.view mode T i = s.view mode T i := by
  cases step with
  | begin =>
      have hT : T ≠ s.next := Nat.ne_of_lt (inv.active_lt T active)
      have hversions : s.begin.versions i = s.versions i := rfl
      apply view_of_eq hversions
      intro v hv
      cases mode with
      | snapshot => simp only [State.Sees, State.begin, Function.update_of_ne hT]
      | current =>
          have hmin : v.xmin ≠ s.next := Nat.ne_of_lt (inv.xmin_lt i v hv)
          have hmax : ∀ d, v.xmax = some d → d ≠ s.next :=
            fun d hd => Nat.ne_of_lt (inv.xmax_lt i v hv d hd)
          simp only [State.Sees, State.begin, Set.mem_insert_iff, hmin, false_or]
          grind
  | count | lock | read => rfl
  | @insert j v pre post hactive xmax counted split fresh =>
      have hne : v.xmin ≠ T := by
        rintro rfl
        simp only [State.push, State.setVersions, Function.update_self] at unwritten
        exact List.cons_ne_self _ _ unwritten
      by_cases hj : i = j
      · subst hj
        have hversions : ((s.setVersions i (pre ++ v :: post)).push v.xmin
            (.insert i v.id)).versions i = pre ++ v :: post := Function.update_self _ _ _
        apply view_of_insert split hversions _ fun _ => Iff.rfl
        exact inv.not_sees active hactive hne
      · exact view_of_eq (Function.update_of_ne hj _ _) fun _ _ => Iff.rfl
  | @delete m x c j v hactive mem visible policy own alone =>
      have hnone := clean.xmax_eq_none inv hactive mem visible policy alone
      have hne : x ≠ T := by
        rintro rfl
        simp only [State.delete, State.record, State.push, State.map, Function.update_self]
          at unwritten
        exact List.cons_ne_self _ _ unwritten
      have hversions : (s.delete x j v.id).versions i =
          (s.versions i).map (stamp j v.id (some x) i) := rfl
      apply view_of_map hversions fun v => stamp_data _ _ _ _ _
      intro w hw
      by_cases hstamp : i = j ∧ w.id = v.id
      · rcases hstamp with ⟨rfl, hid⟩
        cases inv.eq_of_id hw mem hid
        have hself : { { v with xmax := some x } with xmax := none } = v := by rw [← hnone]
        have hsees : s.Sees mode T { v with xmax := some x } ↔
            s.Sees mode T { { v with xmax := some x } with xmax := none } :=
          inv.sees_of_xmax active hactive hne rfl
        rw [hself] at hsees
        rw [stamp, if_pos ⟨rfl, rfl⟩]
        exact hsees
      · rw [stamp, if_neg hstamp]
        rfl
  | @commit x hactive policy =>
      have hne : T ≠ x := active'.2
      have hversions : (s.finish x (.committed x)).versions i = s.versions i := rfl
      apply view_of_eq hversions
      intro v hv
      cases mode with
      | snapshot => simp only [State.Sees, State.finish, Function.update_of_ne hne]
      | current =>
          have hentries := quiet rfl x _ policy v.id
          have hmin : v.xmin ≠ x := by
            rintro rfl
            exact hentries.1 (inv.undo_of_xmin i v hv hactive)
          have hmax : v.xmax ≠ some x :=
            fun h => hentries.2 (inv.undo_of_xmax i v hv x hactive h)
          simp only [State.Sees, State.finish, Set.mem_sdiff, Set.mem_singleton_iff]
          grind
  | @rollback x hactive =>
      have hne : T ≠ x := active'.2
      have hversions : ((s.map (undoAll x (s.undo x))).finish x (.rolledBack x)).versions i =
          (s.versions i).map (undoAll x (s.undo x) i) := rfl
      apply view_of_map hversions fun v => undoAll_data
      intro v hv
      by_cases hmin : v.xmin = x
      · have hunseen : ¬ s.Sees mode T v :=
          inv.not_sees active (hmin ▸ hactive) (hmin ▸ hne.symm)
        apply iff_of_false _ hunseen
        cases mode with
        | snapshot =>
            simp only [State.Sees, State.finish, State.map, Function.update_of_ne hne, undoAll_xmin,
              hmin]
            exact fun h => inv.not_seen active hactive hne.symm h.1
        | current =>
            -- the version is dead now
            rintro ⟨-, hdeleter⟩
            have hdead : (undoAll x (s.undo x) i v).xmax = some x := by
              rw [inv.undoAll_xmax hactive hv, if_pos hmin]
            exact (hdeleter x hdead).1.2 rfl
      · have hxmax := inv.undoAll_xmax hactive hv
        rw [if_neg hmin] at hxmax
        by_cases hmax : v.xmax = some x
        · rw [if_pos hmax] at hxmax
          rw [inv.sees_of_xmax active hactive hne.symm hmax]
          cases mode with
          | snapshot =>
              simp only [State.Sees, State.finish, State.map, Function.update_of_ne hne,
                undoAll_xmin, hxmax]
          | current =>
              simp only [State.Sees, State.finish, State.map, undoAll_xmin, hxmax, Set.mem_sdiff,
                Set.mem_singleton_iff]
              grind
        · rw [if_neg hmax] at hxmax
          cases mode with
          | snapshot =>
              simp only [State.Sees, State.finish, State.map, Function.update_of_ne hne,
                undoAll_xmin, hxmax]
          | current =>
              simp only [State.Sees, State.finish, State.map, undoAll_xmin, hxmax, Set.mem_sdiff,
                Set.mem_singleton_iff]
              grind

/-- While a transaction goes on, entries are only added to it. -/
theorem step_undo (step : Step P s s') (active : T ∈ s.active) (active' : T ∈ s'.active)
    (inv : Inv s) : s.undo T <:+ s'.undo T := by
  have hpush : ∀ x e, s.undo T <:+ Function.update s.undo x (e :: s.undo x) T := by
    intro x e
    rw [Function.update_apply (β := List (Entry ι ρ))]
    split
    · subst x
      exact List.suffix_cons _ _
    · exact List.suffix_rfl
  cases step with
  | begin =>
      have hT : T ≠ s.next := Nat.ne_of_lt (inv.active_lt T active)
      simp only [State.begin, Function.update_of_ne hT, List.suffix_rfl]
  | count | lock | read => exact List.suffix_rfl
  | insert => exact hpush _ _
  | delete => exact hpush _ _
  | commit | rollback =>
      simp only [State.finish, State.map, Function.update_of_ne active'.2, List.suffix_rfl]

theorem step_next (step : Step P s s') : s.next ≤ s'.next := by
  cases step with
  | begin => exact Nat.le_succ _
  | count | lock | read | insert | delete | commit | rollback => exact Nat.le_refl _

theorem steps_next (steps : Steps P s s') : s.next ≤ s'.next := by
  induction steps with
  | refl => exact Nat.le_refl _
  | tail _ step ih => exact Nat.le_trans ih (step_next step)

/-- A transaction number that is past is never active again. -/
theorem step_past (step : Step P s s') (past : T < s.next ∧ T ∉ s.active) :
    T < s'.next ∧ T ∉ s'.active := by
  cases step with
  | begin =>
      refine ⟨Nat.lt_succ_of_lt past.1, ?_⟩
      rintro (heq | hmem)
      · exact Nat.ne_of_lt past.1 heq
      · exact past.2 hmem
  | count | lock | read | insert | delete => exact past
  | commit | rollback => exact ⟨past.1, fun h => past.2 h.1⟩

theorem steps_past (steps : Steps P s s') (past : T < s.next ∧ T ∉ s.active) :
    T < s'.next ∧ T ∉ s'.active := by
  induction steps with
  | refl => exact past
  | tail _ step ih => exact step_past step ih

theorem steps_kept (clean : P.Clean) (inv : Inv s) (steps : Steps P s s') : Kept s s' := by
  induction steps with
  | refl => exact fun i v hv d hd _ => ⟨v, hv, rfl, hd⟩
  | @tail s₁ s₂ steps step ih =>
      intro i v hv d hd hended
      rcases ih i v hv d hd hended with ⟨w, hw, hid, hd'⟩
      have past := steps_past steps ⟨inv.xmax_lt i v hv d hd, hended⟩
      rcases step_kept clean (inv.steps steps) step i w hw d hd' past.2 with ⟨u, hu, hid', hd''⟩
      exact ⟨u, hu, hid'.trans hid, hd''⟩

/-- A history without a write of `T` leaves what `T` sees. -/
theorem steps_view (clean : P.Clean) (quiet : mode = .current → P.Quiet i) (inv : Inv s)
    (active : T ∈ s.active) (active' : T ∈ s'.active) (steps : Steps P s s') :
    s.undo T <:+ s'.undo T ∧ (s'.undo T = s.undo T → s'.view mode T i = s.view mode T i) := by
  induction steps with
  | refl => exact ⟨List.suffix_rfl, fun _ => rfl⟩
  | @tail s₁ s₂ steps step ih =>
      have inv₁ := inv.steps steps
      have hlt := inv.active_lt T active
      have active₁ : T ∈ s₁.active := by
        by_contra hnot
        have hnext : T < s₁.next := Nat.lt_of_lt_of_le hlt (steps_next steps)
        exact (step_past step ⟨hnext, hnot⟩).2 active'
      rcases ih active₁ with ⟨hsuffix, hview⟩
      have hstep := step_undo step active₁ active' inv₁
      refine ⟨hsuffix.trans hstep, fun heq => ?_⟩
      rw [heq] at hstep
      have hmid : s₁.undo T = s.undo T := hstep.eq_of_length_le hsuffix.length_le
      rw [step_view clean quiet inv₁ active₁ active' (heq.trans hmid.symm) step, hview hmid]

end Stability

end Histories

end Mvcc
