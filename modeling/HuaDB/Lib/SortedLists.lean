import Mathlib.Data.List.Sort

/-!
Lists without repetitions in one order, and what they are mapped to.

Two strictly sorted lists that differ only in elements that contribute nothing are
mapped to one list (`flatMap_eq_of_sorted`).
-/

namespace SortedLists

variable {α β : Type} {l l' : List α} {f g : α → List β}

/-- Elements that contribute nothing can be left out. -/
theorem flatMap_filter_of_nil {p : α → Bool} (h : ∀ a ∈ l, p a = false → f a = []) :
    (l.filter p).flatMap f = l.flatMap f := by
  induction l with
  | nil => rfl
  | cons a l ih =>
      have ih := ih fun b hb => h b (List.mem_cons_of_mem a hb)
      cases hp : p a with
      | false =>
          rw [List.filter_cons_of_neg (by rw [hp]; exact Bool.false_ne_true), ih, List.flatMap_cons,
            h a List.mem_cons_self hp, List.nil_append]
      | true => rw [List.filter_cons_of_pos hp, List.flatMap_cons, ih, List.flatMap_cons]

variable [LinearOrder α]

theorem filter_eq_of_sorted (hl : l.Pairwise (· < ·)) (hl' : l'.Pairwise (· < ·)) :
    l.filter (· ∈ l') = l'.filter (· ∈ l) := by
  refine (hl.filter _).eq_of_mem_iff (hl'.filter _) fun a => ?_
  simp only [List.mem_filter, decide_eq_true_eq]
  exact And.comm

theorem flatMap_eq_of_sorted (hl : l.Pairwise (· < ·)) (hl' : l'.Pairwise (· < ·))
    (hboth : ∀ a ∈ l, a ∈ l' → f a = g a) (hleft : ∀ a ∈ l, a ∉ l' → f a = [])
    (hright : ∀ a ∈ l', a ∉ l → g a = []) : l.flatMap f = l'.flatMap g := by
  have hf : (l.filter (· ∈ l')).flatMap f = l.flatMap f :=
    flatMap_filter_of_nil fun a ha hnot => hleft a ha (of_decide_eq_false hnot)
  have hg : (l'.filter (· ∈ l)).flatMap g = l'.flatMap g :=
    flatMap_filter_of_nil fun a ha hnot => hright a ha (of_decide_eq_false hnot)
  rw [← hf, ← hg, ← filter_eq_of_sorted hl hl']
  refine List.flatMap_congr fun a ha => ?_
  obtain ⟨hmem, hmem'⟩ := List.mem_filter.mp ha
  exact hboth a hmem (of_decide_eq_true hmem')

/-- What two strictly sorted lists are mapped to differs in what only one of them has. -/
theorem perm_flatMap_iff (hl : l.Pairwise (· < ·)) (hl' : l'.Pairwise (· < ·)) :
    (l.flatMap f).Perm (l'.flatMap f) ↔
      ((l.filter (· ∉ l')).flatMap f).Perm ((l'.filter (· ∉ l)).flatMap f) := by
  have hsplit (l l' : List α) : (l.flatMap f).Perm
      ((l.filter (· ∈ l')).flatMap f ++ (l.filter (· ∉ l')).flatMap f) := by
    rw [← List.flatMap_append]
    refine List.Perm.flatMap_right f (List.Perm.symm ?_)
    have hnot : l.filter (· ∉ l') = l.filter fun a => !decide (a ∈ l') :=
      List.filter_congr fun a _ => decide_not
    rw [hnot]
    exact List.filter_append_perm _ l
  have hcommon := filter_eq_of_sorted hl hl'
  constructor
  · intro h
    have h := ((hsplit l l').symm.trans h).trans (hsplit l' l)
    rw [hcommon] at h
    exact (List.perm_append_left_iff _).mp h
  · intro h
    have h := (List.perm_append_left_iff ((l'.filter (· ∈ l)).flatMap f)).mpr h
    rw [← hcommon] at h
    refine (hsplit l l').trans (h.trans ?_)
    rw [hcommon]
    exact (hsplit l' l).symm

/-- The first `m` numbers, and the first `n`. -/
theorem filterMap_range_eq {m n : Nat} {f g : Nat → Option β}
    (hboth : ∀ i < m, i < n → f i = g i) (hleft : ∀ i < m, n ≤ i → f i = none)
    (hright : ∀ i < n, m ≤ i → g i = none) :
    (List.range m).filterMap f = (List.range n).filterMap g := by
  rw [List.filterMap_eq_flatMap_toList, List.filterMap_eq_flatMap_toList]
  refine flatMap_eq_of_sorted List.pairwise_lt_range List.pairwise_lt_range (fun i hi hi' => ?_)
    (fun i hi hi' => ?_) fun i hi hi' => ?_
  · rw [hboth i (List.mem_range.mp hi) (List.mem_range.mp hi')]
  · rw [hleft i (List.mem_range.mp hi) (Nat.le_of_not_lt (mt List.mem_range.mpr hi'))]
    rfl
  · rw [hright i (List.mem_range.mp hi) (Nat.le_of_not_lt (mt List.mem_range.mpr hi'))]
    rfl

end SortedLists
