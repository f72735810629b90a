import Mathlib.Data.List.Basic
import Mathlib.Data.List.Pairwise

/-!
Lists of items that lie one after the other in a range of positions.

`Tiles pos size lo l hi` says that the first item starts at `lo`, every item
starts where the one before it ends, and the last one ends at `hi`. With items
of positive size a position determines its item (`Tiles.eq_of_pos_eq`), so an
item can be looked up by position (`Tiles.find?_pos`), and a cut by position is
a cut of the list (`Tiles.split_filter`).
-/

variable {α : Type} {pos size : α → Nat}

/-- The items of `l` fill `[lo, hi)` in order, without gaps. -/
def Tiles (pos size : α → Nat) : Nat → List α → Nat → Prop
  | lo, [], hi => lo = hi
  | lo, a :: l, hi => pos a = lo ∧ Tiles pos size (lo + size a) l hi

namespace Tiles

@[simp] theorem nil_iff {lo hi : Nat} : Tiles pos size lo [] hi ↔ lo = hi := Iff.rfl

@[simp] theorem cons_iff {lo hi : Nat} {a : α} {l : List α} :
    Tiles pos size lo (a :: l) hi ↔ pos a = lo ∧ Tiles pos size (lo + size a) l hi := Iff.rfl

theorem append_iff {lo hi : Nat} {l₁ l₂ : List α} :
    Tiles pos size lo (l₁ ++ l₂) hi ↔
      ∃ mid, Tiles pos size lo l₁ mid ∧ Tiles pos size mid l₂ hi := by
  induction l₁ generalizing lo with
  | nil => simp
  | cons a l₁ ih => simp [ih, and_assoc]

theorem append {lo mid hi : Nat} {l₁ l₂ : List α} (h₁ : Tiles pos size lo l₁ mid)
    (h₂ : Tiles pos size mid l₂ hi) : Tiles pos size lo (l₁ ++ l₂) hi :=
  append_iff.mpr ⟨mid, h₁, h₂⟩

theorem concat {lo mid : Nat} {l : List α} (h : Tiles pos size lo l mid) {a : α}
    (ha : pos a = mid) : Tiles pos size lo (l ++ [a]) (mid + size a) :=
  h.append ⟨ha, rfl⟩

theorem le {lo hi : Nat} {l : List α} (h : Tiles pos size lo l hi) : lo ≤ hi := by
  induction l generalizing lo with
  | nil => exact Nat.le_of_eq h
  | cons a l ih => exact Nat.le_trans (Nat.le_add_right _ _) (ih h.2)

/-- Two tilings of one list from one start end together. -/
theorem end_unique {lo hi hi' : Nat} {l : List α} (h : Tiles pos size lo l hi)
    (h' : Tiles pos size lo l hi') : hi = hi' := by
  induction l generalizing lo with
  | nil => exact h.symm.trans h'
  | cons a l ih => exact ih h.2 h'.2

theorem bounds_of_mem {lo hi : Nat} {l : List α} (h : Tiles pos size lo l hi) {a : α}
    (ha : a ∈ l) : lo ≤ pos a ∧ pos a + size a ≤ hi := by
  induction l generalizing lo with
  | nil => cases ha
  | cons b l ih =>
      obtain ⟨hb, hl⟩ := h
      rcases List.mem_cons.mp ha with rfl | hmem
      · exact ⟨Nat.le_of_eq hb.symm, hb ▸ hl.le⟩
      · exact ⟨Nat.le_trans (Nat.le_add_right _ _) (ih hl hmem).1, (ih hl hmem).2⟩

theorem le_pos {lo hi : Nat} {l : List α} (h : Tiles pos size lo l hi) {a : α} (ha : a ∈ l) :
    lo ≤ pos a :=
  (h.bounds_of_mem ha).1

theorem end_le {lo hi : Nat} {l : List α} (h : Tiles pos size lo l hi) {a : α} (ha : a ∈ l) :
    pos a + size a ≤ hi :=
  (h.bounds_of_mem ha).2

/-- No two items of a tiling meet. -/
theorem pairwise_end_le {lo hi : Nat} {l : List α} (h : Tiles pos size lo l hi) :
    l.Pairwise fun a b => pos a + size a ≤ pos b := by
  induction l generalizing lo with
  | nil => exact .nil
  | cons a l ih =>
      obtain ⟨ha, hl⟩ := h
      refine .cons (fun b hb => ?_) (ih hl)
      rw [ha]
      exact hl.le_pos hb

/-- Cut a tiling at one of its items. -/
theorem exists_split_of_mem {lo hi : Nat} {l : List α} (h : Tiles pos size lo l hi) {a : α}
    (ha : a ∈ l) :
    ∃ l₁ l₂, l = l₁ ++ a :: l₂ ∧ Tiles pos size lo l₁ (pos a) ∧
      Tiles pos size (pos a + size a) l₂ hi := by
  obtain ⟨l₁, l₂, rfl⟩ := List.append_of_mem ha
  obtain ⟨mid, h₁, hpos, h₂⟩ := append_iff.mp h
  cases hpos
  exact ⟨l₁, l₂, rfl, h₁, h₂⟩

section Positive

variable (sizePos : ∀ a, 0 < size a)
include sizePos

theorem pos_lt {lo hi : Nat} {l : List α} (h : Tiles pos size lo l hi) {a : α} (ha : a ∈ l) :
    pos a < hi :=
  Nat.lt_of_lt_of_le (Nat.lt_add_of_pos_right (sizePos a)) (h.end_le ha)

/-- The items of a tiling start in list order. -/
theorem pairwise {lo hi : Nat} {l : List α} (h : Tiles pos size lo l hi) :
    l.Pairwise fun a b => pos a < pos b := by
  induction l generalizing lo with
  | nil => exact .nil
  | cons a l ih =>
      refine .cons (fun b hb => ?_) (ih h.2)
      have hab : lo + size a ≤ pos b := h.2.le_pos hb
      have := sizePos a
      have ha : pos a = lo := h.1
      omega

theorem eq_of_pos_eq {lo hi : Nat} {l : List α} (h : Tiles pos size lo l hi) {a b : α}
    (ha : a ∈ l) (hb : b ∈ l) (hab : pos a = pos b) : a = b := by
  induction l generalizing lo with
  | nil => cases ha
  | cons c l ih =>
      have later : ∀ d ∈ l, pos c < pos d := (List.pairwise_cons.mp (h.pairwise sizePos)).1
      rcases List.mem_cons.mp ha with hac | hal <;> rcases List.mem_cons.mp hb with hbc | hbl
      · exact hac.trans hbc.symm
      · exact absurd (hac ▸ hab) (Nat.ne_of_lt (later b hbl))
      · exact absurd (hbc ▸ hab).symm (Nat.ne_of_lt (later a hal))
      · exact ih h.2 hal hbl

/-- An item is found by its position, from either end. -/
theorem find?_pos {lo hi : Nat} {l : List α} (h : Tiles pos size lo l hi) {a : α} (ha : a ∈ l) :
    l.find? (fun b => pos b = pos a) = some a := by
  cases hf : l.find? (fun b => pos b = pos a) with
  | none => exact absurd (List.find?_eq_none.mp hf a ha) (by simp)
  | some b =>
      have hb : pos b = pos a := by simpa using List.find?_some hf
      rw [h.eq_of_pos_eq sizePos (List.mem_of_find?_eq_some hf) ha hb]

theorem find?_reverse_pos {lo hi : Nat} {l : List α} (h : Tiles pos size lo l hi) {a : α}
    (ha : a ∈ l) : l.reverse.find? (fun b => pos b = pos a) = some a := by
  cases hf : l.reverse.find? (fun b => pos b = pos a) with
  | none => exact absurd (List.find?_eq_none.mp hf a (List.mem_reverse.mpr ha)) (by simp)
  | some b =>
      have hb : pos b = pos a := by simpa using List.find?_some hf
      have hmem : b ∈ l := List.mem_reverse.mp (List.mem_of_find?_eq_some hf)
      rw [h.eq_of_pos_eq sizePos hmem ha hb]

/-- A test that holds of every item before one it holds of cuts a tiling in two. -/
theorem split_filter {lo hi : Nat} {l : List α} (h : Tiles pos size lo l hi) {p : α → Bool}
    (down : ∀ a b, pos a < pos b → p b = true → p a = true) :
    l = l.filter p ++ l.filter (fun a => !p a) ∧
      ∃ mid, Tiles pos size lo (l.filter p) mid ∧
        Tiles pos size mid (l.filter fun a => !p a) hi := by
  induction l generalizing lo with
  | nil => exact ⟨rfl, lo, rfl, h⟩
  | cons a l ih =>
      by_cases hp : p a = true
      · obtain ⟨heq, mid, h₁, h₂⟩ := ih h.2
        refine ⟨?_, mid, ?_, ?_⟩
        · simpa [hp] using heq
        · simpa [hp] using ⟨h.1, h₁⟩
        · simpa [hp] using h₂
      · have none : ∀ b ∈ l, ¬ p b = true := fun b hb hpb =>
          hp (down a b ((List.pairwise_cons.mp (h.pairwise sizePos)).1 b hb) hpb)
        have hnil : (a :: l).filter p = [] :=
          List.filter_eq_nil_iff.mpr (List.forall_mem_cons.mpr ⟨hp, none⟩)
        have hall : (a :: l).filter (fun a => !p a) = a :: l :=
          List.filter_eq_self.mpr fun b hb => by
            rcases List.mem_cons.mp hb with rfl | hb
            · simpa using hp
            · simpa using none b hb
        rw [hnil, hall]
        exact ⟨rfl, lo, rfl, h⟩

end Positive

end Tiles
