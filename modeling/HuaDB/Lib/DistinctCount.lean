import Mathlib.Data.Finset.Card
import Mathlib.Data.Finset.SDiff
import Mathlib.Data.List.Perm.Basic

/-!
How many distinct elements a list has, for an equality that need not be one: a relation that is
symmetric and transitive on the elements in question, but may fail to be reflexive.

`count same seen l` counts the elements of `l` that are the same as none of `seen` and none before
them. Of what was seen only matters which elements it covers (`count_congr`); the order of a list
does not matter (`count_perm`), and a list in two parts has the elements of the first and those
that are new in the second (`count_append`). For equality it is the number of
elements of a finite set (`count_eq_card`).
-/

namespace DistinctCount

variable {α : Type*} (same : α → α → Prop) [DecidableRel same]

/-- How many distinct elements a list has besides those seen. -/
def count (seen : List α) : List α → Nat
  | [] => 0
  | a :: l => if ∃ b ∈ seen, same a b then count seen l else count (a :: seen) l + 1

/-- The relation is an equality on some elements, where they are the same as anything. -/
structure PerOn (U : α → Prop) : Prop where
  symm : ∀ {a b}, U a → U b → same a b → same b a
  trans : ∀ {a b c}, U a → U b → U c → same a b → same b c → same a c

section

variable {same} {U : α → Prop} {seen seen' l l' : List α}

/-- Only what the seen elements cover matters. -/
theorem count_congr (h : ∀ a ∈ l, (∃ b ∈ seen, same a b) ↔ ∃ b ∈ seen', same a b) :
    count same seen l = count same seen' l := by
  induction l generalizing seen seen' with
  | nil => rfl
  | cons a l ih =>
      obtain ⟨hhead, htail⟩ := List.forall_mem_cons.mp h
      by_cases hseen : ∃ b ∈ seen, same a b
      · rw [count, if_pos hseen, count, if_pos (hhead.mp hseen), ih htail]
      · rw [count, if_neg hseen, count, if_neg (mt hhead.mpr hseen)]
        refine congrArg (· + 1) (ih fun c hc => ?_)
        rw [List.exists_mem_cons_iff, List.exists_mem_cons_iff, htail c hc]

theorem count_le_length (seen l : List α) : count same seen l ≤ l.length := by
  induction l generalizing seen with
  | nil => exact Nat.le_refl 0
  | cons a l ih =>
      rw [count, List.length_cons]
      split
      · exact (ih seen).trans (Nat.le_succ _)
      · exact Nat.succ_le_succ (ih (a :: seen))

/-- The elements of a list cover what they add. -/
theorem count_append (per : PerOn same U) (hl : ∀ a ∈ l, U a) (hl' : ∀ a ∈ l', U a)
    (hseen : ∀ a ∈ seen, U a) :
    count same seen (l ++ l') = count same seen l + count same (l ++ seen) l' := by
  induction l generalizing seen with
  | nil => rw [List.nil_append, count, Nat.zero_add, List.nil_append]
  | cons a l ih =>
      obtain ⟨ha, hl⟩ := List.forall_mem_cons.mp hl
      rw [List.cons_append, count, count]
      by_cases hcover : ∃ b ∈ seen, same a b
      · rw [if_pos hcover, if_pos hcover, ih hl hseen]
        refine congrArg (count same seen l + ·) (count_congr fun c hc => ?_)
        obtain ⟨b, hb, hab⟩ := hcover
        rw [List.cons_append, List.exists_mem_cons_iff]
        refine ⟨.inr, fun h => h.elim (fun hca => ?_) id⟩
        exact ⟨b, List.mem_append_right _ hb, per.trans (hl' c hc) ha (hseen b hb) hca hab⟩
      · rw [if_neg hcover, if_neg hcover, ih hl (List.forall_mem_cons.mpr ⟨ha, hseen⟩),
          Nat.add_right_comm]
        refine congrArg (count same (a :: seen) l + 1 + ·) (count_congr fun c _ => ?_)
        simp only [List.mem_append, List.mem_cons, List.cons_append]
        grind

/-- The order of a list does not matter. -/
theorem count_perm (per : PerOn same U) (h : l.Perm l') (hl : ∀ a ∈ l, U a) :
    count same seen l = count same seen l' := by
  induction h generalizing seen with
  | nil => rfl
  | cons a h ih =>
      have hl := (List.forall_mem_cons.mp hl).2
      rw [count, count, ih hl, ih hl]
  | trans h h' ih ih' => exact (ih hl).trans (ih' fun a ha => hl a (h.mem_iff.mpr ha))
  | swap a b l =>
      obtain ⟨hb, hl⟩ := List.forall_mem_cons.mp hl
      obtain ⟨ha, hl⟩ := List.forall_mem_cons.mp hl
      have hsymm : same b a ↔ same a b := ⟨per.symm hb ha, per.symm ha hb⟩
      by_cases hsa : ∃ x ∈ seen, same a x <;> by_cases hsb : ∃ x ∈ seen, same b x
      · simp only [count, hsa, hsb, if_true]
      · simp only [count, hsa, hsb, List.exists_mem_cons_iff, or_true, if_true, if_false]
      · simp only [count, hsa, hsb, List.exists_mem_cons_iff, or_true, if_true, if_false]
      · simp only [count, hsa, hsb, List.exists_mem_cons_iff, or_false, hsymm, if_false]
        by_cases hab : same a b
        · -- one of the two counts, and covers what the other covers
          rw [if_pos hab, if_pos hab]
          refine congrArg (· + 1) (count_congr fun c hc => ?_)
          have hcover : same c b ↔ same c a :=
            ⟨fun h => per.trans (hl c hc) hb ha h (hsymm.mpr hab),
              fun h => per.trans (hl c hc) ha hb h hab⟩
          rw [List.exists_mem_cons_iff, List.exists_mem_cons_iff, hcover]
        · rw [if_neg hab, if_neg hab]
          refine congrArg (· + 1 + 1) (count_congr fun c _ => ?_)
          simp only [List.exists_mem_cons_iff]
          exact or_left_comm

/-- Elements that are told apart by a function are counted by their images. -/
theorem count_map {β : Type*} {same' : β → β → Prop} [DecidableRel same'] {f : α → β}
    (h : ∀ a b, same' (f a) (f b) ↔ same a b) :
    count same' (seen.map f) (l.map f) = count same seen l := by
  induction l generalizing seen with
  | nil => rfl
  | cons a l ih =>
      have hseen : (∃ b ∈ seen.map f, same' (f a) b) ↔ ∃ b ∈ seen, same a b := by
        simp only [List.mem_map, exists_exists_and_eq_and, h]
      rw [List.map_cons, count, count, ih, ← List.map_cons, ih]
      simp only [hseen]

/-- For equality it is the number of elements not seen. -/
theorem count_eq_card [DecidableEq α] (seen l : List α) :
    count (· = ·) seen l = (l.toFinset \ seen.toFinset).card := by
  induction l generalizing seen with
  | nil => rw [count, List.toFinset_nil, Finset.empty_sdiff, Finset.card_empty]
  | cons a l ih =>
      rw [count, ih, ih, List.toFinset_cons, List.toFinset_cons]
      by_cases ha : a ∈ seen
      · rw [if_pos ⟨a, ha, rfl⟩, Finset.insert_sdiff_of_mem _ (List.mem_toFinset.mpr ha)]
      · have hnew : ¬ ∃ b ∈ seen, a = b := fun ⟨b, hb, hab⟩ => ha (hab ▸ hb)
        rw [if_neg hnew, Finset.insert_sdiff_of_notMem _ (mt List.mem_toFinset.mp ha),
          Finset.sdiff_insert, ← Finset.card_insert_of_notMem (Finset.notMem_erase a _)]
        congr 1
        ext c
        simp only [Finset.mem_insert, Finset.mem_erase]
        tauto

end

end DistinctCount
