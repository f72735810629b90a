import Mathlib.Data.List.Pairwise
import Mathlib.Order.Defs.LinearOrder
import Mathlib.Order.Lattice

/-!
Sorting by a comparator that is a strict weak order, with nothing known of the order of
equivalent elements, and lexicographic order by several comparators.

A list that is sorted by the first comparator is in lexicographic order when elements that
the first one does not tell apart are equivalent to the others (`lexicographic_of_ties`).
Among the sorted arrangements there is one that puts chosen elements before those they are
equivalent to (`exists_sorted`), so that nothing less will do.
-/

namespace Sorting

variable {α : Type}

/-- A strict weak order on the elements of a list. -/
structure StrictWeakOn (lt : α → α → Bool) (as : List α) : Prop where
  irrefl : ∀ a ∈ as, lt a a = false
  trans : ∀ a ∈ as, ∀ b ∈ as, ∀ c ∈ as, lt a b = true → lt b c = true → lt a c = true
  incomparable : ∀ a ∈ as, ∀ b ∈ as, ∀ c ∈ as, lt a b = false → lt b a = false →
    lt b c = false → lt c b = false → lt a c = false ∧ lt c a = false

/-- Neither comes before the other. -/
def Equivalent (lt : α → α → Bool) (a b : α) : Prop := lt a b = false ∧ lt b a = false

instance (lt : α → α → Bool) (a b : α) : Decidable (Equivalent lt a b) :=
  inferInstanceAs (Decidable (_ ∧ _))

/-- No element comes before one that stands to the left of it. -/
def Sorted (lt : α → α → Bool) (as : List α) : Prop := as.Pairwise fun a b => lt b a = false

namespace StrictWeakOn

variable {lt lt' : α → α → Bool} {as bs : List α}

theorem mono (h : StrictWeakOn lt as) (hsub : bs ⊆ as) : StrictWeakOn lt bs where
  irrefl a ha := h.irrefl a (hsub ha)
  trans a ha b hb c hc := h.trans a (hsub ha) b (hsub hb) c (hsub hc)
  incomparable a ha b hb c hc := h.incomparable a (hsub ha) b (hsub hb) c (hsub hc)

theorem congr (h : StrictWeakOn lt as) (heq : ∀ a ∈ as, ∀ b ∈ as, lt a b = lt' a b) :
    StrictWeakOn lt' as where
  irrefl a ha := heq a ha a ha ▸ h.irrefl a ha
  trans a ha b hb c hc := by
    rw [← heq a ha b hb, ← heq b hb c hc, ← heq a ha c hc]
    exact h.trans a ha b hb c hc
  incomparable a ha b hb c hc := by
    rw [← heq a ha b hb, ← heq b hb a ha, ← heq b hb c hc, ← heq c hc b hb, ← heq a ha c hc,
      ← heq c hc a ha]
    exact h.incomparable a ha b hb c hc

/-- The order that a function carries back. -/
theorem comap {β : Type} {f : β → α} {bs : List β} (h : StrictWeakOn lt (bs.map f)) :
    StrictWeakOn (fun a b => lt (f a) (f b)) bs where
  irrefl _ ha := h.irrefl _ (List.mem_map_of_mem ha)
  trans _ ha _ hb _ hc :=
    h.trans _ (List.mem_map_of_mem ha) _ (List.mem_map_of_mem hb) _ (List.mem_map_of_mem hc)
  incomparable _ ha _ hb _ hc :=
    h.incomparable _ (List.mem_map_of_mem ha) _ (List.mem_map_of_mem hb) _ (List.mem_map_of_mem hc)

theorem asymm (h : StrictWeakOn lt as) {a b : α} (ha : a ∈ as) (hb : b ∈ as)
    (hlt : lt a b = true) : lt b a = false := by
  cases hba : lt b a with
  | false => rfl
  | true =>
      rw [← h.irrefl a ha]
      exact (h.trans a ha b hb a ha hlt hba).symm

/-- Not coming before is transitive. -/
theorem not_lt_trans (h : StrictWeakOn lt as) {a b c : α} (ha : a ∈ as) (hb : b ∈ as)
    (hc : c ∈ as) (hab : lt a b = false) (hbc : lt b c = false) : lt a c = false := by
  cases hac : lt a c with
  | false => rfl
  | true =>
      cases hba : lt b a with
      | true => rw [← hbc, h.trans b hb a ha c hc hba hac]
      | false =>
          cases hcb : lt c b with
          | true => rw [← hab, h.trans a ha c hc b hb hac hcb]
          | false => rw [← hac, (h.incomparable a ha b hb c hc hab hba hbc hcb).1]

/-- The order of a key in a linear order. -/
theorem of_key {κ : Type} [LinearOrder κ] (key : α → κ) (as : List α) :
    StrictWeakOn (fun a b => decide (key a < key b)) as where
  irrefl a _ := by simp
  trans a _ b _ c _ hab hbc := by
    simp only [decide_eq_true_eq] at hab hbc ⊢
    exact lt_trans hab hbc
  incomparable a _ b _ c _ hab hba hbc hcb := by
    simp only [decide_eq_false_iff_not, not_lt] at hab hba hbc hcb ⊢
    exact ⟨le_trans hbc hab, le_trans hba hcb⟩

end StrictWeakOn

/-! ## Arrangements -/

section Arrangements

variable {lt : α → α → Bool} {as : List α}

/-- Not behind, and if equivalent, not chosen after one that is not. -/
def Ranked (lt : α → α → Bool) (p : α → Bool) (a b : α) : Prop :=
  lt b a = false ∧ (lt a b = false → p b = true → p a = true)

instance (p : α → Bool) (a b : α) : Decidable (Ranked lt p a b) :=
  inferInstanceAs (Decidable (_ ∧ _))

theorem Ranked.trans (h : StrictWeakOn lt as) {p : α → Bool} {a b c : α} (ha : a ∈ as)
    (hb : b ∈ as) (hc : c ∈ as) (hab : Ranked lt p a b) (hbc : Ranked lt p b c) :
    Ranked lt p a c := by
  refine ⟨h.not_lt_trans hc hb ha hbc.1 hab.1, fun hac hpc => ?_⟩
  have hab' : lt a b = false := h.not_lt_trans ha hc hb hac hbc.1
  have hbc' : lt b c = false := h.not_lt_trans hb ha hc hab.1 hac
  exact hab.2 hab' (hbc.2 hbc' hpc)

theorem Ranked.total (h : StrictWeakOn lt as) (p : α → Bool) {a b : α} (ha : a ∈ as)
    (hb : b ∈ as) : Ranked lt p a b ∨ Ranked lt p b a := by
  cases hab : lt a b with
  | true => exact .inl ⟨h.asymm ha hb hab, fun hfalse => by rw [hab] at hfalse; cases hfalse⟩
  | false =>
      cases hba : lt b a with
      | true => exact .inr ⟨hab, fun hfalse => by rw [hba] at hfalse; cases hfalse⟩
      | false =>
          cases hp : p a with
          | true => exact .inl ⟨hba, fun _ _ => hp⟩
          | false => exact .inr ⟨hab, fun _ hpa => by rw [hp] at hpa; cases hpa⟩

/-- There is a sorted arrangement with the chosen ones among equivalent elements in front. -/
theorem exists_sorted (h : StrictWeakOn lt as) (p : α → Bool) :
    ∃ bs : List α, bs.Perm as ∧ bs.Pairwise (Ranked lt p) := by
  let le : {a // a ∈ as} → {a // a ∈ as} → Bool := fun a b => Ranked lt p a b
  refine ⟨(as.attach.mergeSort le).map Subtype.val, ?_, ?_⟩
  · have hperm := (List.mergeSort_perm as.attach le).map Subtype.val
    rwa [List.attach_map_subtype_val] at hperm
  · apply List.pairwise_map.mpr
    have hle : (as.attach.mergeSort le).Pairwise fun a b => le a b = true := by
      apply List.pairwise_mergeSort
      · rintro ⟨a, ha⟩ ⟨b, hb⟩ ⟨c, hc⟩ hab hbc
        exact decide_eq_true
          (Ranked.trans h ha hb hc (of_decide_eq_true hab) (of_decide_eq_true hbc))
      · rintro ⟨a, ha⟩ ⟨b, hb⟩
        simpa [le] using Ranked.total h p ha hb
    exact hle.imp fun hab => of_decide_eq_true hab

end Arrangements

/-! ## Lexicographic order -/

/-- The first comparator that tells two elements apart decides. -/
def lexicographic : List (α → α → Bool) → α → α → Bool
  | [], _, _ => false
  | lt :: lts, a, b => lt a b || (!lt b a && lexicographic lts a b)

section Lexicographic

variable {lt : α → α → Bool} {lts : List (α → α → Bool)} {a b : α} {as : List α}

theorem equivalent_lexicographic_iff :
    Equivalent (lexicographic lts) a b ↔ ∀ lt ∈ lts, Equivalent lt a b := by
  induction lts with
  | nil => simp [Equivalent, lexicographic]
  | cons lt lts ih =>
      rw [List.forall_mem_cons, ← ih]
      simp only [Equivalent, lexicographic]
      cases lt a b <;> cases lt b a <;> simp

/-- Comparators that agree with others on the images of two elements. -/
theorem lexicographic_comap {β : Type} {f : α → β} {lts' : List (β → β → Bool)}
    (h : List.Forall₂ (fun lt lt' => lt a b = lt' (f a) (f b) ∧ lt b a = lt' (f b) (f a)) lts lts') :
    lexicographic lts a b = lexicographic lts' (f a) (f b) := by
  induction h with
  | nil => rfl
  | cons hlt _ ih => rw [lexicographic, lexicographic, hlt.1, hlt.2, ih]

theorem lexicographic_of_ties (hsorted : Sorted lt as)
    (hties : ∀ a ∈ as, ∀ b ∈ as, Equivalent lt a b → ∀ lt' ∈ lts, Equivalent lt' a b) :
    Sorted (lexicographic (lt :: lts)) as := by
  apply hsorted.imp_of_mem
  intro a b ha hb hba
  rw [lexicographic, hba, Bool.false_or]
  cases hab : lt a b with
  | true => rfl
  | false =>
      have htie := equivalent_lexicographic_iff.mpr (hties a ha b hb ⟨hab, hba⟩)
      rw [htie.2, Bool.and_false]

/-- When `b` comes first among equivalent elements, another one that the order puts before
it stands behind it. -/
theorem not_sorted_of_ranked (hne : a ≠ b) (ha : a ∈ as) (hb : b ∈ as) (htie : Equivalent lt a b)
    (hlater : lexicographic lts a b = true) {p : α → Bool} (hpa : p a = false) (hpb : p b = true)
    (hranked : as.Pairwise (Ranked lt p)) : ¬ Sorted (lexicographic (lt :: lts)) as := by
  intro hsorted
  let R : α → α → Prop := fun x y => Ranked lt p x y ∧ lexicographic (lt :: lts) y x = false
  have hboth : as.Pairwise fun x y => R x y ∨ R y x := (hranked.and hsorted).imp Or.inl
  have hsymm : Std.Symm fun x y => R x y ∨ R y x := ⟨fun _ _ h => h.symm⟩
  rcases hboth.forall ha hb hne with ⟨hab, -⟩ | ⟨-, hab⟩
  · rw [hab.2 htie.1 hpb] at hpa
    cases hpa
  · rw [lexicographic, htie.1, htie.2, hlater] at hab
    cases hab

end Lexicographic

end Sorting
