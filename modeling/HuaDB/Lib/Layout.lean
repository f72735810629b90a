import Mathlib.Algebra.BigOperators.Group.List.Basic
import Mathlib.Logic.Nontrivial.Basic
import Mathlib.Algebra.Order.Ring.Nat

/-!
# Rows side by side

Every key has a row of its own width.  The rows of a list of keys, one after the other, are
read by position.  A position is in the row of one key, at one place of that row
(`locate`), whatever the rows hold.  So two lists of keys give the same entry at a
position for all rows exactly if they locate it alike (`getElem?_concat_eq_iff`), which for a
position of one list is that its key starts in the other where it does here
(`locate_eq_iff_startsAt`).
-/

namespace Layout

variable {κ α : Type*} (width : κ → Nat)

/-- A row for every key. -/
structure Rows (α : Type*) where
  row : κ → List α
  length_row : ∀ key, (row key).length = width key

/-- The rows of the keys, one after the other. -/
def Rows.concat {width : κ → Nat} (rows : Rows width α) (keys : List κ) : List α :=
  keys.flatMap rows.row

/-- The width of the rows of the keys. -/
def total (keys : List κ) : Nat := (keys.map width).sum

/-- The key whose row has a position, and the place in that row. -/
def locate : List κ → Nat → Option (κ × Nat)
  | [], _ => none
  | key :: keys, i => if i < width key then some (key, i) else locate keys (i - width key)

/-- The row of the key starts at the position. -/
def StartsAt (keys : List κ) (key : κ) (start : Nat) : Prop :=
  ∃ before after, keys = before ++ key :: after ∧ total width before = start

section

variable {width} {keys keys' : List κ} {key : κ} {i j start : Nat}

theorem locate_eq_some_iff :
    locate width keys i = some (key, j) ↔
      j < width key ∧ ∃ start, StartsAt width keys key start ∧ i = start + j := by
  induction keys generalizing i with
  | nil =>
      constructor
      · intro h
        cases h
      · rintro ⟨-, start, ⟨before, after, h, -⟩, -⟩
        exact absurd h.symm (List.append_ne_nil_of_right_ne_nil _ (List.cons_ne_nil _ _))
  | cons first keys ih =>
      rw [locate]
      split
      · rename_i hlt
        constructor
        · intro h
          cases h
          exact ⟨hlt, 0, ⟨[], keys, rfl, rfl⟩, (Nat.zero_add _).symm⟩
        · rintro ⟨hj, start, ⟨before, after, h, rfl⟩, hi⟩
          cases before with
          | nil =>
              cases h
              rw [total, List.map_nil, List.sum_nil, Nat.zero_add] at hi
              rw [hi]
          | cons other before =>
              cases h
              rw [total, List.map_cons, List.sum_cons] at hi
              omega
      · rename_i hlt
        rw [ih]
        apply and_congr_right
        intro hj
        constructor
        · rintro ⟨start, ⟨before, after, h, rfl⟩, hi⟩
          refine ⟨width first + total width before, ⟨first :: before, after, ?_, ?_⟩, by omega⟩
          · rw [h, List.cons_append]
          · rw [total, List.map_cons, List.sum_cons]
            rfl
        · rintro ⟨start, ⟨before, after, h, rfl⟩, hi⟩
          cases before with
          | nil =>
              cases h
              rw [total, List.map_nil, List.sum_nil, Nat.zero_add] at hi
              omega
          | cons other before =>
              cases h
              rw [total, List.map_cons, List.sum_cons] at hi
              refine ⟨total width before, ⟨before, after, rfl, rfl⟩, ?_⟩
              rw [total]
              omega

theorem exists_locate (h : i < total width keys) : ∃ key j, locate width keys i = some (key, j) := by
  induction keys generalizing i with
  | nil => exact absurd h (Nat.not_lt_zero i)
  | cons first keys ih =>
      rw [locate]
      split
      · exact ⟨first, i, rfl⟩
      · apply ih
        rw [total, List.map_cons, List.sum_cons] at h
        rw [total]
        omega

theorem StartsAt.mem (h : StartsAt width keys key start) : key ∈ keys := by
  obtain ⟨before, after, rfl, -⟩ := h
  exact List.mem_append_right _ List.mem_cons_self

/-- A place that is located in one list of keys is located alike in another one exactly if
the row of its key starts at the same position there. -/
theorem locate_eq_iff_startsAt (hj : j < width key) :
    locate width keys (start + j) = some (key, j) ↔ StartsAt width keys key start := by
  rw [locate_eq_some_iff]
  constructor
  · rintro ⟨-, start', hstart, hi⟩
    obtain rfl : start = start' := by omega
    exact hstart
  · intro hstart
    exact ⟨hj, start, hstart, rfl⟩

/-- An entry of the rows is the entry of one of them. -/
theorem getElem?_concat (rows : Rows width α) (keys : List κ) (i : Nat) :
    (rows.concat keys)[i]? = (locate width keys i).bind fun place => (rows.row place.1)[place.2]? := by
  induction keys generalizing i with
  | nil => rfl
  | cons first keys ih =>
      rw [Rows.concat, List.flatMap_cons, List.getElem?_append, rows.length_row, locate]
      split
      · rfl
      · exact ih (i - width first)

theorem Rows.concat_append (rows : Rows width α) (keys keys' : List κ) :
    rows.concat (keys ++ keys') = rows.concat keys ++ rows.concat keys' :=
  List.flatMap_append

/-- Rows for some keys together with rows for others. -/
theorem Rows.exists_concat_eq (rows rows' : Rows width α) (h : keys.Disjoint keys') :
    ∃ both : Rows width α, both.concat keys = rows.concat keys ∧
      both.concat keys' = rows'.concat keys' := by
  classical
  refine ⟨⟨fun key => if key ∈ keys then rows.row key else rows'.row key, ?_⟩, ?_, ?_⟩
  · intro key
    split
    · exact rows.length_row key
    · exact rows'.length_row key
  · apply List.flatMap_congr
    intro key hkey
    exact if_pos hkey
  · apply List.flatMap_congr
    intro key hkey
    exact if_neg fun hmem => h hmem hkey

/-- Rows that have one entry at one place of one key and another entry everywhere else. -/
def Rows.mark [DecidableEq κ] (width : κ → Nat) (key : κ) (j : Nat) (marked other : α) :
    Rows width α where
  row key' := (List.range (width key')).map fun j' =>
    if key' = key ∧ j' = j then marked else other
  length_row key' := by rw [List.length_map, List.length_range]

theorem getElem?_mark [DecidableEq κ] {marked other : α} {key' : κ} {j' : Nat}
    (h : (Rows.mark width key j marked other |>.row key')[j']? = some marked)
    (hne : marked ≠ other) : key' = key ∧ j' = j := by
  rw [Rows.mark, List.getElem?_map, Option.map_eq_some_iff] at h
  obtain ⟨place, hplace, hmarked⟩ := h
  obtain ⟨hlt, hplace⟩ := List.getElem?_eq_some_iff.mp hplace
  rw [List.getElem_range] at hplace
  subst hplace
  by_contra hnot
  rw [if_neg hnot] at hmarked
  exact hne hmarked.symm

/-- Whatever the rows hold, the position has the same entry in both, exactly if both locate
it alike. -/
theorem getElem?_concat_eq_iff [Nontrivial α] (h : locate width keys i = some (key, j)) :
    (∀ rows : Rows width α, (rows.concat keys')[i]? = (rows.concat keys)[i]?) ↔
      locate width keys' i = some (key, j) := by
  classical
  constructor
  · intro hrows
    obtain ⟨marked, other, hne⟩ := exists_pair_ne α
    obtain ⟨hj, -⟩ := locate_eq_some_iff.mp h
    have hentry := hrows (Rows.mark width key j marked other)
    have hmarked : ((Rows.mark width key j marked other).row key)[j]? = some marked := by
      rw [Rows.mark, List.getElem?_map, List.getElem?_range hj, Option.map_some,
        if_pos ⟨rfl, rfl⟩]
    rw [getElem?_concat, getElem?_concat, h, Option.bind_some, hmarked,
      Option.bind_eq_some_iff] at hentry
    obtain ⟨place, hplace, hentry⟩ := hentry
    obtain ⟨hkey, hcolumn⟩ := getElem?_mark hentry hne
    rw [hplace, ← hkey, ← hcolumn]
  · intro hsame rows
    rw [getElem?_concat, getElem?_concat, h, hsame]

end

end Layout
