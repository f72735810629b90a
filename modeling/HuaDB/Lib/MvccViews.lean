import HuaDB.Lib.MvccCounts
import Mathlib.Algebra.Order.Group.Multiset

/-!
What transactions make of the tables.

`State.content` is what the transactions that have ended left of a table. A transaction
that begins sees it (`view_begin`); what it inserts and deletes shows in its own view only
(`Changes.view`, `Changes.content`). A commit puts the current view in the place of the
content (`content_commit`), which changes the other current views by as much
(`view_commit`) and no snapshot (`view_commit_snapshot`), and a rollback changes neither
(`content_rollback`, `view_rollback`).
-/

namespace Mvcc

variable {ι ρ δ : Type} {s : State ι ρ δ} {i : ι} {x y : Nat} {mode : Mode}

open Classical in
/-- The data of the versions that meet `p`. -/
noncomputable def shown (p : Version ρ δ → Prop) (versions : List (Version ρ δ)) : Multiset δ :=
  ((versions.filter fun v => p v).map Version.data : List δ)

/-- A version that is neither of an active transaction nor deleted by one that has ended. -/
def State.Settled (s : State ι ρ δ) (v : Version ρ δ) : Prop :=
  v.xmin ∉ s.active ∧ ∀ d, v.xmax = some d → d ∈ s.active

/-- What the transactions that have ended left of a table. -/
noncomputable def State.content (s : State ι ρ δ) (i : ι) : Multiset δ :=
  shown s.Settled (s.versions i)

theorem coe_view (s : State ι ρ δ) (mode : Mode) (x : Nat) (i : ι) :
    (s.view mode x i : Multiset δ) = shown (s.Sees mode x) (s.versions i) := rfl

section Shown

variable {p p' q q' : Version ρ δ → Prop} {vs : List (Version ρ δ)}

open Classical in
theorem shown_cons (p : Version ρ δ → Prop) (v : Version ρ δ) (vs : List (Version ρ δ)) :
    shown p (v :: vs) = (if p v then {v.data} else 0) + shown p vs := by
  by_cases hp : p v
  · rw [shown, List.filter_cons_of_pos (by simpa using hp), if_pos hp, List.map_cons,
      ← Multiset.cons_coe, Multiset.singleton_add]
    rfl
  · rw [shown, List.filter_cons_of_neg (by simpa using hp), if_neg hp, zero_add]
    rfl

theorem shown_congr (h : ∀ v ∈ vs, p v ↔ p' v) : shown p vs = shown p' vs := by
  classical
  induction vs with
  | nil => rfl
  | cons v vs ih =>
      rw [shown_cons, shown_cons, ih fun u hu => h u (List.mem_cons_of_mem _ hu),
        propext (h v List.mem_cons_self)]

theorem shown_of_none (h : ∀ v ∈ vs, ¬ p v) : shown p vs = 0 := by
  classical
  induction vs with
  | nil => rfl
  | cons v vs ih =>
      rw [shown_cons, ih fun u hu => h u (List.mem_cons_of_mem _ hu),
        if_neg (h v List.mem_cons_self), zero_add]

theorem shown_of_all (h : ∀ v ∈ vs, p v) : shown p vs = (vs.map Version.data : List δ) := by
  classical
  rw [shown, List.filter_eq_self.mpr fun v hv => decide_eq_true (h v hv)]

theorem shown_perm {vs' : List (Version ρ δ)} (perm : vs'.Perm vs) : shown p vs' = shown p vs :=
  Multiset.coe_eq_coe.mpr ((perm.filter _).map _)

theorem shown_append (p : Version ρ δ → Prop) (vs vs' : List (Version ρ δ)) :
    shown p (vs ++ vs') = shown p vs + shown p vs' := by
  rw [shown, List.filter_append, List.map_append, ← Multiset.coe_add]
  rfl

theorem shown_map {τ : Type} {f g : τ → Version ρ δ} {l : List τ}
    (data : ∀ t ∈ l, (g t).data = (f t).data) (h : ∀ t ∈ l, p' (g t) ↔ p (f t)) :
    shown p' (l.map g) = shown p (l.map f) := by
  classical
  induction l with
  | nil => rfl
  | cons t l ih =>
      rw [List.map_cons, List.map_cons, shown_cons, shown_cons, data t List.mem_cons_self,
        propext (h t List.mem_cons_self),
        ih (fun u hu => data u (List.mem_cons_of_mem _ hu)) fun u hu => h u (List.mem_cons_of_mem _ hu)]

/-- A version that moves from one side to the other does so on both. -/
theorem shown_add_shown
    (h : ∀ v ∈ vs, (p v ↔ p' v) ∧ (q v ↔ q' v) ∨ (p v ↔ q' v) ∧ (q v ↔ p' v)) :
    shown p vs + shown q vs = shown p' vs + shown q' vs := by
  classical
  induction vs with
  | nil => rfl
  | cons v vs ih =>
      have ih := ih fun u hu => h u (List.mem_cons_of_mem _ hu)
      rw [shown_cons, shown_cons, shown_cons, shown_cons, add_add_add_comm, ih,
        add_add_add_comm (if p' v then {v.data} else 0 : Multiset δ)]
      obtain ⟨hp, hq⟩ | ⟨hp, hq⟩ := h v List.mem_cons_self
      · rw [propext hp, propext hq]
      · rw [propext hp, propext hq, add_comm (if q' v then {v.data} else 0 : Multiset δ)
          (if p' v then {v.data} else 0)]

theorem shown_le (p : Version ρ δ → Prop) (vs : List (Version ρ δ)) :
    shown p vs ≤ (vs.map Version.data : List δ) := by
  rw [shown, Multiset.coe_le]
  exact ((vs.filter_sublist).map _).subperm

end Shown

/-! ## Steps of a transaction -/

section Steps

theorem content_begin (inv : Inv s) (i : ι) : s.begin.content i = s.content i := by
  apply shown_congr
  intro v hv
  have hmin := inv.xmin_lt i v hv
  have hmax := inv.xmax_lt i v hv
  simp only [State.Settled, State.begin, Set.mem_insert_iff]
  grind

/-- A transaction that has just begun sees what has been committed. -/
theorem view_begin (inv : Inv s) (mode : Mode) (i : ι) :
    (s.begin.view mode s.next i : Multiset δ) = s.content i := by
  apply shown_congr
  intro v hv
  have hmin := inv.xmin_lt i v hv
  have hmax := inv.xmax_lt i v hv
  cases mode with
  | snapshot =>
      simp only [State.Settled, State.Sees, State.begin, Function.update_self, Seen]
      grind
  | current =>
      simp only [State.Settled, State.Sees, State.begin, Set.mem_insert_iff]
      grind

theorem view_begin_of_active (inv : Inv s) (active : y ∈ s.active) (mode : Mode) (i : ι) :
    (s.begin.view mode y i : Multiset δ) = s.view mode y i := by
  apply shown_congr
  intro v hv
  have hmin := inv.xmin_lt i v hv
  have hmax := inv.xmax_lt i v hv
  have hne := inv.active_lt y active
  cases mode with
  | snapshot => simp only [State.Sees, State.begin, Function.update_of_ne (Nat.ne_of_lt hne)]
  | current =>
      simp only [State.Sees, State.begin, Set.mem_insert_iff]
      grind

/-- A commit puts what the transaction saw in the place of what had been committed. -/
theorem content_commit (s : State ι ρ δ) (e : Event ι ρ) (x : Nat) (i : ι) :
    (s.finish x e).content i = s.view .current x i := by
  apply shown_congr
  intro v _
  simp only [State.Settled, State.Sees, State.finish, Set.mem_sdiff, Set.mem_singleton_iff]
  grind

/-- It changes what every other transaction sees of the current state by as much. -/
theorem view_commit (inv : Inv s) (hne : y ≠ x)
    (e : Event ι ρ) (i : ι) :
    ((s.finish x e).view .current y i : Multiset δ) + s.content i =
      s.view .current y i + s.view .current x i := by
  apply shown_add_shown
  intro v hv
  have hown := inv.own i v hv
  simp only [State.Settled, State.Sees, State.finish, Set.mem_sdiff, Set.mem_singleton_iff]
  cases hxmax : v.xmax with
  | none => grind
  | some d => grind

theorem view_commit_snapshot (s : State ι ρ δ) (hne : y ≠ x) (e : Event ι ρ) (i : ι) :
    ((s.finish x e).view .snapshot y i : Multiset δ) = s.view .snapshot y i := by
  apply shown_congr
  intro v _
  simp only [State.Sees, State.finish, Function.update_of_ne hne]

section Rollback

variable [DecidableEq ι] [DecidableEq ρ] (inv : Inv s) (hx : x ∈ s.active)
include inv hx

theorem content_rollback (e : Event ι ρ) (i : ι) :
    ((s.map (undoAll x (s.undo x))).finish x e).content i = s.content i := by
  have hsame : ∀ v ∈ s.versions i, ((s.map (undoAll x (s.undo x))).finish x e).Settled
      (undoAll x (s.undo x) i v) ↔ s.Settled v := by
    intro v hv
    have hxmax := inv.undoAll_xmax hx hv
    have hown := inv.own i v hv
    simp only [State.Settled, State.finish, State.map, Set.mem_sdiff, Set.mem_singleton_iff,
      undoAll_xmin, hxmax]
    grind
  have hmap := shown_map (f := id) (l := s.versions i) (fun v _ => undoAll_data) hsame
  rw [List.map_id] at hmap
  exact hmap

theorem view_rollback (hy : y ∈ s.active) (hne : y ≠ x) (mode : Mode) (e : Event ι ρ) (i : ι) :
    (((s.map (undoAll x (s.undo x))).finish x e).view mode y i : Multiset δ) = s.view mode y i := by
  have hunseen := inv.not_seen hy hx hne.symm
  have hsame : ∀ v ∈ s.versions i, ((s.map (undoAll x (s.undo x))).finish x e).Sees mode y
      (undoAll x (s.undo x) i v) ↔ s.Sees mode y v := by
    intro v hv
    have hxmax := inv.undoAll_xmax hx hv
    have hown := inv.own i v hv
    cases mode with
    | snapshot =>
        simp only [State.Sees, State.finish, State.map, Function.update_of_ne hne, undoAll_xmin,
          hxmax]
        grind
    | current =>
        simp only [State.Sees, State.finish, State.map, Set.mem_sdiff, Set.mem_singleton_iff,
          undoAll_xmin, hxmax]
        grind
  have hmap := shown_map (f := id) (l := s.versions i) (fun v _ => undoAll_data) hsame
  rw [List.map_id] at hmap
  exact hmap

end Rollback

end Steps

/-! ## Writes -/

/-- What is seen of a version is read off its stamps. -/
theorem sees_iff {v w : Version ρ δ} (hxmin : w.xmin = v.xmin) (hxmax : w.xmax = v.xmax) :
    s.Sees mode y w ↔ s.Sees mode y v := by
  cases mode with
  | snapshot => simp only [State.Sees, hxmin, hxmax]
  | current => simp only [State.Sees, hxmin, hxmax]

/-- What a snapshot shows that has no deleter is there in the current state. -/
theorem Inv.sees_current (inv : Inv s) (active : x ∈ s.active) {v : Version ρ δ}
    (hxmax : v.xmax = none) (sees : s.Sees .snapshot x v) : s.Sees .current x v := by
  obtain ⟨⟨hnot, hle⟩, -⟩ := sees
  refine ⟨?_, fun d hd => nomatch hxmax.symm.trans hd⟩
  rcases Nat.lt_or_eq_of_le hle with hlt | heq
  · exact .inr fun hxmin => hnot (inv.snapshot_active x active _ hxmin hlt)
  · exact .inl heq

/-- What one transaction has done to a table: it deleted `gone` and inserted `new`. -/
structure Changes {τ : Type} (s s' : State ι ρ δ) (i : ι) (x : Nat) (f g : τ → Version ρ δ)
    (rows gone : List τ) (new : List (Version ρ δ)) : Prop where
  active : s'.active = s.active
  snapshot : s'.snapshot = s.snapshot
  own : x ∈ s.active
  before : s.versions i = rows.map f
  after : (s'.versions i).Perm (rows.map g ++ new)
  data : ∀ t ∈ rows, (g t).data = (f t).data
  xmin : ∀ t ∈ rows, (g t).xmin = (f t).xmin
  goes : ∀ t ∈ gone, (f t).xmax = none ∧ (g t).xmax = some x
  stays : ∀ t ∈ rows, t ∉ gone → (g t).xmax = (f t).xmax
  inserted : ∀ v ∈ new, v.xmin = x ∧ v.xmax = none
  sub : gone ⊆ rows
  nodup : rows.Nodup ∧ gone.Nodup

namespace Changes

variable {τ : Type} {s' : State ι ρ δ} {f g : τ → Version ρ δ} {rows gone : List τ}
  {new : List (Version ρ δ)} (changes : Changes s s' i x f g rows gone new)
include changes

theorem content : s'.content i = s.content i := by
  have hsettled : s'.Settled = s.Settled := by
    funext v
    simp only [State.Settled, changes.active]
  have hnew : shown s.Settled new = 0 := by
    apply shown_of_none
    intro v hv hsettled
    exact hsettled.1 ((changes.inserted v hv).1 ▸ changes.own)
  rw [State.content, State.content, hsettled, shown_perm changes.after, shown_append, hnew, add_zero,
    changes.before]
  apply shown_map changes.data
  intro t ht
  have hown := changes.own
  rw [State.Settled, State.Settled, changes.xmin t ht]
  by_cases hgone : t ∈ gone
  · obtain ⟨hbefore, hafter⟩ := changes.goes t hgone
    rw [hbefore, hafter]
    grind
  · rw [changes.stays t ht hgone]

theorem sees_eq (mode : Mode) (y : Nat) : s'.Sees mode y = s.Sees mode y := by
  funext v
  cases mode with
  | snapshot => simp only [State.Sees, changes.snapshot]
  | current => simp only [State.Sees, changes.active]

theorem view_of_ne (inv : Inv s) (hy : y ∈ s.active) (hne : y ≠ x) (mode : Mode) :
    (s'.view mode y i : Multiset δ) = s.view mode y i := by
  have hown := changes.own
  have hnew : shown (s.Sees mode y) new = 0 := by
    apply shown_of_none
    intro v hv
    have hxmin := (changes.inserted v hv).1
    exact inv.not_sees hy (hxmin ▸ hown) (hxmin ▸ hne.symm)
  rw [coe_view, coe_view, changes.sees_eq, shown_perm changes.after, shown_append, hnew, add_zero,
    changes.before]
  apply shown_map changes.data
  intro t ht
  by_cases hgone : t ∈ gone
  · obtain ⟨hbefore, hafter⟩ := changes.goes t hgone
    have hsees : s.Sees mode y (g t) ↔ s.Sees mode y { g t with xmax := none } :=
      inv.sees_of_xmax hy hown hne.symm hafter
    have hbefore' : (f t).xmax = ({ g t with xmax := none } : Version ρ δ).xmax := hbefore
    exact hsees.trans (sees_iff (changes.xmin t ht) hbefore'.symm)
  · exact sees_iff (changes.xmin t ht) (changes.stays t ht hgone)

section Own

variable (inv : Inv s)
include inv

theorem seen_self : Seen (s.snapshot x) x x :=
  ⟨fun hmem => Nat.lt_irrefl x (inv.snapshot_lt x changes.own x hmem), Nat.le_refl x⟩

theorem shown_new : shown (s.Sees mode x) new = (new.map Version.data : List δ) := by
  have hself := changes.seen_self inv
  apply shown_of_all
  intro v hv
  obtain ⟨hxmin, hxmax⟩ := changes.inserted v hv
  cases mode with
  | snapshot => exact ⟨hxmin ▸ hself, fun d hd => nomatch hxmax.symm.trans hd⟩
  | current => exact ⟨.inl hxmin, fun d hd => nomatch hxmax.symm.trans hd⟩

theorem not_sees_gone {t : τ} (hgone : t ∈ gone) : ¬ s.Sees mode x (g t) := by
  intro hsees
  have hafter := (changes.goes t hgone).2
  cases mode with
  | snapshot => exact hsees.2 x hafter (changes.seen_self inv)
  | current => exact (hsees.2 x hafter).2 rfl

open Classical in
/-- Of the rows that were there, those remain that are not gone. -/
theorem shown_after : shown (s.Sees mode x) (rows.map g) =
    shown (s.Sees mode x) ((rows.filter (· ∉ gone)).map f) := by
  have hperm := (List.filter_append_perm (fun t => decide (t ∉ gone)) rows).symm.map g
  have hnone : shown (s.Sees mode x) ((rows.filter fun t => !decide (t ∉ gone)).map g) = 0 := by
    apply shown_of_none
    intro v hv
    obtain ⟨t, ht, rfl⟩ := List.mem_map.mp hv
    have hgone := (List.mem_filter.mp ht).2
    exact changes.not_sees_gone inv (by simpa using hgone)
  rw [shown_perm hperm, List.map_append, shown_append, hnone, add_zero]
  apply shown_map
  · exact fun t ht => changes.data t (List.mem_of_mem_filter ht)
  · intro t ht
    obtain ⟨hmem, hgone⟩ := List.mem_filter.mp ht
    exact sees_iff (changes.xmin t hmem) (changes.stays t hmem (of_decide_eq_true hgone))

omit inv in
open Classical in
theorem perm_gone : (rows.map f).Perm ((rows.filter (· ∉ gone)).map f ++ gone.map f) := by
  rw [← List.map_append]
  apply List.Perm.map
  have hperm : (rows.filter fun t => !decide (t ∉ gone)).Perm gone := by
    apply (List.perm_ext_iff_of_nodup (changes.nodup.1.filter _) changes.nodup.2).mpr
    intro t
    rw [List.mem_filter]
    simpa using fun h => changes.sub h
  exact (List.filter_append_perm (fun t => decide (t ∉ gone)) rows).symm.trans (hperm.append_left _)

/-- The transaction itself sees what it inserted, and no more what it deleted. -/
theorem view [DecidableEq δ] :
    (s'.view mode x i : Multiset δ) =
      s.view mode x i - shown (s.Sees mode x) (gone.map f) + (new.map Version.data : List δ) := by
  rw [coe_view, coe_view, changes.sees_eq, shown_perm changes.after, changes.before, shown_append,
    changes.shown_new inv, changes.shown_after inv, shown_perm changes.perm_gone, shown_append,
    Multiset.add_sub_cancel_right]

omit inv in
theorem shown_gone_le (mode : Mode) :
    shown (s.Sees mode x) (gone.map f) ≤ (s.view mode x i : Multiset δ) := by
  rw [coe_view, changes.before, shown_perm changes.perm_gone, shown_append]
  exact Multiset.le_add_left _ _

end Own

end Changes

end Mvcc
