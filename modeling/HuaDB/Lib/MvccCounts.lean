import HuaDB.Lib.MvccHistory
import Mathlib.Data.List.Count

/-!
How many rows transactions see that replace rows.

`Level base n` counts, for the transactions from `base` on, as many versions inserted as
deleted, and `n` older ones that are left. A reader by a snapshot that has all of the older
transactions behind it sees `n` rows then (`Level.length_view`), as long as it sees the
inserter of a version whenever it sees the deleter (`InOrder`).
-/

namespace Mvcc

variable {ι ρ δ : Type}

/-- The versions inserted by transactions of `p`. -/
def born (p : Nat → Bool) (versions : List (Version ρ δ)) : Nat :=
  versions.countP fun v => p v.xmin

/-- The versions deleted by transactions of `p`. -/
def dead (p : Nat → Bool) (versions : List (Version ρ δ)) : Nat :=
  versions.countP fun v => v.xmax.any p

/-- The transactions from `base` on, those in `except` aside, inserted as many versions as
they deleted, and those before `base` inserted `n` more than were deleted by their like. -/
structure Level (base n : Nat) (except : Set Nat) (versions : List (Version ρ δ)) : Prop where
  balanced : ∀ y, base ≤ y → y ∉ except → dead (· = y) versions = born (· = y) versions
  old : born (· < base) versions = n + dead (· < base) versions

section Counts

variable {base n : Nat} {except : Set Nat} {vs vs' : List (Version ρ δ)}

theorem Level.mono {except' : Set Nat} (level : Level base n except vs) (h : except ⊆ except') :
    Level base n except' vs where
  balanced y hy hnot := level.balanced y hy fun hmem => hnot (h hmem)
  old := level.old

/-- What is true of each transaction is true of a set of them. -/
theorem Level.dead_eq (level : Level base n ∅ vs) {p : Nat → Bool} (hp : ∀ y, p y → base ≤ y) :
    dead p vs = born p vs := by
  have hborn : ∀ p : Nat → Bool, (vs.map Version.xmin).countP p = born p vs :=
    fun p => List.countP_map
  have hdead : ∀ p : Nat → Bool, (vs.filterMap Version.xmax).countP p = dead p vs := by
    intro p
    rw [List.countP_filterMap]
    apply List.countP_congr
    intro v _
    cases v.xmax <;> simp
  have hperm : ((vs.filterMap Version.xmax).filter p).Perm ((vs.map Version.xmin).filter p) := by
    rw [List.perm_iff_count]
    intro y
    cases hy : p y with
    | true =>
        rw [List.count_filter hy, List.count_filter hy]
        have hlevel := level.balanced y (hp y hy) (Set.notMem_empty y)
        rw [← hborn, ← hdead] at hlevel
        exact hlevel
    | false =>
        have hnot : ∀ l : List Nat, (l.filter p).count y = 0 := by
          intro l
          apply List.count_eq_zero_of_not_mem
          intro hmem
          exact Bool.false_ne_true (hy.symm.trans (List.mem_filter.mp hmem).2)
        rw [hnot, hnot]
  rw [← hborn, ← hdead, List.countP_eq_length_filter, List.countP_eq_length_filter]
  exact hperm.length_eq

/-- All that is left of what the transactions of `p` wrote. -/
theorem Level.born_eq (level : Level base n ∅ vs) {p : Nat → Bool} (hp : ∀ y < base, p y = true) :
    born p vs = n + dead p vs := by
  have hnew : dead (fun y => p y && decide (base ≤ y)) vs =
      born (fun y => p y && decide (base ≤ y)) vs := by
    apply level.dead_eq
    intro y hy
    simpa using (Bool.and_eq_true_iff.mp hy).2
  have hold : ∀ y, (p y && !decide (base ≤ y)) = decide (y < base) := by
    intro y
    by_cases hy : y < base
    · simp [hp y hy, hy]
    · simp [hy, Nat.le_of_not_lt hy]
  have hborn : born p vs = born (fun y => p y && decide (base ≤ y)) vs + born (· < base) vs := by
    rw [born, List.countP_eq_countP_filter_add vs _ fun v => decide (base ≤ v.xmin),
      List.countP_filter, List.countP_filter]
    simp only [hold]
    rfl
  have hdead : dead p vs = dead (fun y => p y && decide (base ≤ y)) vs + dead (· < base) vs := by
    rw [dead, List.countP_eq_countP_filter_add vs _ fun v => v.xmax.any fun y => decide (base ≤ y),
      List.countP_filter, List.countP_filter]
    congr 1
    · apply List.countP_congr
      intro v _
      cases v.xmax <;> simp
    · apply List.countP_congr
      intro v _
      cases v.xmax with
      | none => simp
      | some d => simp only [Option.any_some, hold d]
  rw [hborn, hdead, hnew, level.old]
  omega

/-- A version whose deleter is seen is one whose inserter is seen. -/
theorem born_eq_of_order {q : Nat → Prop} [DecidablePred q]
    (order : ∀ v ∈ vs, ∀ d, v.xmax = some d → q d → q v.xmin) :
    born (fun y => q y) vs =
      (vs.filter fun v => decide (q v.xmin) && !v.xmax.any fun d => q d).length +
        dead (fun y => q y) vs := by
  induction vs with
  | nil => rfl
  | cons v vs ih =>
      have ih := ih fun w hw => order w (List.mem_cons_of_mem _ hw)
      have hv := order v List.mem_cons_self
      simp only [born, dead, List.countP_cons, List.filter_cons] at ih ⊢
      rw [ih]
      cases hxmax : v.xmax with
      | none => by_cases hq : q v.xmin <;> simp [hq]; omega
      | some d =>
          have hd := hv d hxmax
          by_cases hq : q v.xmin
          · by_cases hq' : q d <;> simp [hq, hq'] <;> omega
          · have hq' : ¬ q d := fun h => hq (hd h)
            simp [hq, hq']

/-- What has been replaced one for one. -/
theorem Level.length_view {s : State ι ρ δ} {i : ι} {T : Nat}
    (level : Level base n ∅ (s.versions i)) (old : ∀ y < base, Seen (s.snapshot T) T y)
    (order : ∀ v ∈ s.versions i, ∀ d, v.xmax = some d → Seen (s.snapshot T) T d →
      Seen (s.snapshot T) T v.xmin) : (s.view .snapshot T i).length = n := by
  classical
  have hborn := level.born_eq (p := fun y => Seen (s.snapshot T) T y) fun y hy =>
    decide_eq_true (old y hy)
  have hview := born_eq_of_order order
  rw [State.view, List.length_map]
  have hsame : (s.versions i).filter (fun v => decide (s.Sees .snapshot T v)) =
      (s.versions i).filter fun v => decide (Seen (s.snapshot T) T v.xmin) &&
        !v.xmax.any fun d => Seen (s.snapshot T) T d := by
    refine List.filter_congr fun v _ => ?_
    cases hxmax : v.xmax <;> simp [State.Sees, hxmax]
  rw [hsame]
  omega

/-- Where nobody has begun since `base`. -/
theorem level_of_lt (hmin : ∀ v ∈ vs, v.xmin < base) (hmax : ∀ v ∈ vs, ∀ d, v.xmax = some d → d < base) :
    Level base (vs.countP fun v => v.xmax.isNone) ∅ vs where
  balanced y hy _ := by
    have hborn : born (· = y) vs = 0 := by
      apply List.countP_eq_zero.mpr
      intro v hv
      simpa using Nat.ne_of_lt (Nat.lt_of_lt_of_le (hmin v hv) hy)
    have hdead : dead (· = y) vs = 0 := by
      apply List.countP_eq_zero.mpr
      intro v hv
      cases hxmax : v.xmax with
      | none => simp
      | some d => simpa using Nat.ne_of_lt (Nat.lt_of_lt_of_le (hmax v hv d hxmax) hy)
    rw [hborn, hdead]
  old := by
    have hborn : born (· < base) vs = vs.length := by
      apply List.countP_eq_length.mpr
      intro v hv
      exact decide_eq_true (hmin v hv)
    have hdead : dead (· < base) vs = vs.countP fun v => ¬ v.xmax.isNone := by
      apply List.countP_congr
      intro v hv
      cases hxmax : v.xmax with
      | none => simp
      | some d => simp [hmax v hv d hxmax]
    rw [hborn, hdead]
    exact List.length_eq_countP_add_countP _

/-! ## Writes -/

theorem born_append (p : Nat → Bool) : born p (vs ++ vs') = born p vs + born p vs' :=
  List.countP_append

theorem dead_append (p : Nat → Bool) : dead p (vs ++ vs') = dead p vs + dead p vs' :=
  List.countP_append

theorem Level.perm (level : Level base n except vs) (h : vs'.Perm vs) : Level base n except vs' := by
  have hborn : ∀ p, born p vs' = born p vs := fun p => h.countP_eq _
  have hdead : ∀ p, dead p vs' = dead p vs := fun p => h.countP_eq _
  constructor
  · intro y hy hnot
    rw [hborn, hdead]
    exact level.balanced y hy hnot
  · rw [hborn, hdead]
    exact level.old

/-- What one transaction from `base` on does to the versions that were there. -/
structure Stamps {τ : Type} (x : Nat) (gone : τ → Bool) (f g : τ → Version ρ δ) (l : List τ) :
    Prop where
  xmin : ∀ t ∈ l, (g t).xmin = (f t).xmin
  goes : ∀ t ∈ l, gone t → (f t).xmax = none ∧ (g t).xmax = some x
  stays : ∀ t ∈ l, ¬ gone t → (g t).xmax = (f t).xmax

section Write

variable {τ : Type} {x : Nat} {gone : τ → Bool} {f g : τ → Version ρ δ} {l : List τ}
  (stamps : Stamps x gone f g l)
include stamps

theorem Stamps.born (p : Nat → Bool) : Mvcc.born p (l.map g) = Mvcc.born p (l.map f) := by
  rw [Mvcc.born, Mvcc.born, List.countP_map, List.countP_map]
  apply List.countP_congr
  intro t ht
  simp only [Function.comp_apply, stamps.xmin t ht]

theorem Stamps.dead_of_not {p : Nat → Bool} (hp : p x = false) :
    dead p (l.map g) = dead p (l.map f) := by
  rw [dead, dead, List.countP_map, List.countP_map]
  apply List.countP_congr
  intro t ht
  by_cases hgone : gone t
  · rcases stamps.goes t ht hgone with ⟨hf, hg⟩
    simp [hf, hg, hp]
  · simp [stamps.stays t ht hgone]

theorem Stamps.dead_self : dead (· = x) (l.map g) = dead (· = x) (l.map f) + l.countP gone := by
  induction l with
  | nil => rfl
  | cons t l ih =>
      have ih := ih ⟨fun u hu => stamps.xmin u (List.mem_cons_of_mem _ hu),
        fun u hu => stamps.goes u (List.mem_cons_of_mem _ hu),
        fun u hu => stamps.stays u (List.mem_cons_of_mem _ hu)⟩
      simp only [dead, List.map_cons, List.countP_cons] at ih ⊢
      rw [ih]
      by_cases hgone : gone t
      · rcases stamps.goes t List.mem_cons_self hgone with ⟨hf, hg⟩
        simp [hf, hg, hgone]
        omega
      · simp [stamps.stays t List.mem_cons_self hgone, hgone]
        omega

variable {new : List (Version ρ δ)} (hnew : ∀ v ∈ new, v.xmin = x ∧ v.xmax = none) (hx : base ≤ x)
  (level : Level base n ∅ (l.map f)) (perm : vs'.Perm (l.map g ++ new))
include hnew hx level perm

omit stamps hx level perm in
theorem dead_new (p : Nat → Bool) : dead p new = 0 := by
  apply List.countP_eq_zero.mpr
  intro v hv
  simp [(hnew v hv).2]

omit stamps hx level perm in
theorem born_new (p : Nat → Bool) : Mvcc.born p new = if p x then new.length else 0 := by
  have hcongr : Mvcc.born p new = new.countP fun _ => p x := by
    apply List.countP_congr
    intro v hv
    rw [(hnew v hv).1]
  rw [hcongr]
  cases p x <;> simp

/-- Only the count of the transaction itself is changed. -/
theorem Stamps.level_except : Level base n {x} vs' := by
  have hold : ∀ p : Nat → Bool, p x = false →
      Mvcc.born p (l.map g ++ new) = Mvcc.born p (l.map f) ∧
        dead p (l.map g ++ new) = dead p (l.map f) := by
    intro p hp
    rw [born_append, stamps.born, born_new hnew, dead_append, stamps.dead_of_not hp, dead_new hnew, hp]
    exact ⟨rfl, rfl⟩
  apply Level.perm _ perm
  constructor
  · intro y hy hnot
    have hne : decide (x = y) = false := decide_eq_false fun h => hnot h.symm
    rw [(hold _ hne).1, (hold _ hne).2]
    exact level.balanced y hy (Set.notMem_empty y)
  · have hlt : decide (x < base) = false := decide_eq_false (Nat.not_lt.mpr hx)
    rw [(hold _ hlt).1, (hold _ hlt).2]
    exact level.old

/-- As many versions are inserted as deleted. -/
theorem Stamps.balanced (hcount : l.countP gone = new.length) : Level base n ∅ vs' where
  old := (stamps.level_except hnew hx level perm).old
  balanced y hy _ := by
    by_cases hyx : y = x
    · subst hyx
      have hdead : dead (· = y) vs' = dead (· = y) (l.map g ++ new) := perm.countP_eq _
      have hborn : Mvcc.born (· = y) vs' = Mvcc.born (· = y) (l.map g ++ new) := perm.countP_eq _
      have hlevel := level.balanced y hy (Set.notMem_empty y)
      rw [hdead, hborn, dead_append, stamps.dead_self, dead_new hnew, born_append, stamps.born,
        born_new hnew, hlevel, hcount]
      simp
    · exact (stamps.level_except hnew hx level perm).balanced y hy hyx

end Write

/-- What is rolled back is balanced. -/
theorem Level.rollback [DecidableEq ι] [DecidableEq ρ] {s : State ι ρ δ} {i : ι} {x : Nat}
    (inv : Inv s) (active : x ∈ s.active) (hx : base ≤ x) (level : Level base n {x} (s.versions i)) :
    Level base n ∅ ((s.versions i).map (undoAll x (s.undo x) i)) := by
  have hborn : ∀ p, born p ((s.versions i).map (undoAll x (s.undo x) i)) = born p (s.versions i) := by
    intro p
    rw [born, List.countP_map]
    apply List.countP_congr
    intro v _
    simp only [Function.comp_apply, undoAll_xmin]
  have hdead : ∀ p : Nat → Bool, p x = false →
      dead p ((s.versions i).map (undoAll x (s.undo x) i)) = dead p (s.versions i) := by
    intro p hp
    rw [dead, List.countP_map]
    apply List.countP_congr
    intro v hv
    rw [Function.comp_apply, inv.undoAll_xmax active hv]
    by_cases hmin : v.xmin = x
    · have hown := inv.own i v hv (hmin ▸ active)
      rw [if_pos hmin]
      cases hxmax : v.xmax with
      | none => simp [hp]
      | some d => simp [hp, hown d hxmax, hmin]
    · rw [if_neg hmin]
      by_cases hmax : v.xmax = some x
      · simp [hmax, hp]
      · rw [if_neg hmax]
  constructor
  · intro y hy _
    by_cases hyx : y = x
    · subst hyx
      rw [hborn, dead, List.countP_map]
      apply List.countP_congr
      intro v hv
      rw [Function.comp_apply, inv.undoAll_xmax active hv]
      by_cases hmin : v.xmin = y
      · simp [hmin]
      · rw [if_neg hmin]
        by_cases hmax : v.xmax = some y
        · simp [hmax, hmin]
        · rw [if_neg hmax]
          cases hxmax : v.xmax with
          | none => simp [hmin]
          | some d =>
              have hne : d ≠ y := fun h => hmax (h ▸ hxmax)
              simp [hne, hmin]
    · rw [hborn, hdead _ (decide_eq_false fun h => hyx h.symm)]
      exact level.balanced y hy hyx
  · rw [hborn, hdead _ (decide_eq_false (Nat.not_lt.mpr hx))]
    exact level.old

end Counts

/-! ## Readers -/

/-- The transactions that go on, and those in their snapshots, have begun since `base`, and
see the inserter of a version whenever they see its deleter. -/
structure InOrder (base : Nat) (s : State ι ρ δ) : Prop where
  next : base ≤ s.next
  active : ∀ T ∈ s.active, base ≤ T
  snapshot : ∀ T ∈ s.active, ∀ y ∈ s.snapshot T, base ≤ y
  order : ∀ T ∈ s.active, ∀ i, ∀ v ∈ s.versions i, ∀ d, v.xmax = some d →
    Seen (s.snapshot T) T d → Seen (s.snapshot T) T v.xmin

section Readers

variable {s s' : State ι ρ δ} {base n T : Nat} {i : ι}

theorem inOrder_of_idle (idle : ∀ x, x ∉ s.active) : InOrder s.next s where
  next := Nat.le_refl _
  active T hT := absurd hT (idle T)
  snapshot T hT := absurd hT (idle T)
  order T hT := absurd hT (idle T)

theorem InOrder.seen (h : InOrder base s) (active : T ∈ s.active) {y : Nat} (hy : y < base) :
    Seen (s.snapshot T) T y :=
  ⟨fun hmem => Nat.lt_irrefl y (Nat.lt_of_lt_of_le hy (h.snapshot T active y hmem)),
    Nat.le_of_lt (Nat.lt_of_lt_of_le hy (h.active T active))⟩

/-- A reader sees the rows that were there at `base`, or what they were replaced by. -/
theorem InOrder.length_view (h : InOrder base s) (active : T ∈ s.active)
    (level : Level base n ∅ (s.versions i)) : (s.view .snapshot T i).length = n :=
  level.length_view (fun _ => h.seen active) fun v hv => h.order T active i v hv

variable [DecidableEq ι] [DecidableEq ρ] {P : Policy ι ρ δ}

theorem step_inOrder (bySnapshot : ∀ mode A v, P.delete mode A v → mode = .snapshot)
    (inv : Inv s) (h : InOrder base s) (step : Step P s s') : InOrder base s' := by
  have hother : ∀ x e, x ∈ s.active → InOrder base (s.finish x e) := by
    intro x e hx
    constructor
    · exact h.next
    · exact fun T hT => h.active T hT.1
    · intro T hT
      simp only [State.finish, Function.update_of_ne hT.2]
      exact h.snapshot T hT.1
    · intro T hT
      simp only [State.finish, Function.update_of_ne hT.2]
      exact h.order T hT.1
  cases step with
  | begin =>
      constructor
      · exact Nat.le_succ_of_le h.next
      · rintro T (rfl | hT)
        · exact h.next
        · exact h.active T hT
      · rintro T (rfl | hT)
        · simp only [State.begin, Function.update_self]
          exact h.active
        · have hne : T ≠ s.next := Nat.ne_of_lt (inv.active_lt T hT)
          simp only [State.begin, Function.update_of_ne hne]
          exact h.snapshot T hT
      · rintro T (rfl | hT) j v hv d hxmax
        · simp only [State.begin, Function.update_self]
          -- an inserter that goes on is the only deleter
          rintro ⟨hnot, -⟩
          refine ⟨fun hmin => ?_, Nat.le_of_lt (inv.xmin_lt j v hv)⟩
          exact hnot (inv.own j v hv hmin d hxmax ▸ hmin)
        · have hne : T ≠ s.next := Nat.ne_of_lt (inv.active_lt T hT)
          simp only [State.begin, Function.update_of_ne hne]
          exact h.order T hT j v hv d hxmax
  | count | lock | read => exact ⟨h.next, h.active, h.snapshot, h.order⟩
  | @insert j v pre post hactive xmax counted split fresh =>
      refine ⟨h.next, h.active, h.snapshot, ?_⟩
      intro T hT k w hw d hd
      rcases (Inv.mem_update split).mp hw with hold | ⟨rfl, rfl⟩
      · exact h.order T hT k w hold d hd
      · cases xmax.symm.trans hd
  | @delete mode x c j v hactive mem visible policy own alone =>
      refine ⟨h.next, h.active, h.snapshot, ?_⟩
      intro T hT k w hw d hd
      rcases List.mem_map.mp hw with ⟨u, hu, rfl⟩
      rw [stamp_xmax] at hd
      rw [stamp_xmin]
      split at hd
      · rename_i hstamp
        rcases hstamp with ⟨rfl, hid⟩
        cases Option.some.inj hd
        cases inv.eq_of_id hu mem hid
        intro hseen
        by_cases hx : x = T
        · subst hx
          cases bySnapshot _ _ _ policy
          exact visible.2.1
        · exact absurd hseen (inv.not_seen hT hactive hx)
      · exact h.order T hT k u hu d hd
  | commit hactive policy => exact hother _ _ hactive
  | @rollback x hactive =>
      have hfinish := hother x (.rolledBack x) hactive
      refine ⟨hfinish.next, hfinish.active, hfinish.snapshot, ?_⟩
      intro T hT k w hw d hd
      rcases List.mem_map.mp hw with ⟨u, hu, rfl⟩
      rw [inv.undoAll_xmax hactive hu] at hd
      rw [undoAll_xmin]
      split at hd
      · rename_i hmin
        cases Option.some.inj hd
        rw [hmin]
        exact id
      · split at hd
        · cases hd
        · exact hfinish.order T hT k u hu d hd

theorem steps_inOrder (bySnapshot : ∀ mode A v, P.delete mode A v → mode = .snapshot)
    (inv : Inv s) (h : InOrder base s) (steps : Steps P s s') : InOrder base s' := by
  induction steps with
  | refl => exact h
  | tail steps step ih => exact step_inOrder bySnapshot (inv.steps steps) ih step

end Readers

end Mvcc
