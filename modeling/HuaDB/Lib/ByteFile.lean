import Mathlib.Data.List.Basic
import Mathlib.Data.UInt

/-!
A file as an array of bytes: reads that fail past its end, writes that may extend
it, and changes of its size.

What a write places at a position is `placed`; a sequence of writes leaves at each
position what the last write there placed (`lastPlaced`).
-/

/-- A file. Positions past its end hold zero, so that a larger size shows zeros. -/
structure ByteFile where
  size : Nat
  content : Nat → UInt8
  content_eq_zero : ∀ p, size ≤ p → content p = 0

/-- What writing `data` at `offset` places at a position. -/
def placed (offset : Nat) (data : List UInt8) (p : Nat) : Option UInt8 :=
  if offset ≤ p then data[p - offset]? else none

theorem placed_eq_none {offset : Nat} {data : List UInt8} {p : Nat}
    (h : offset + data.length ≤ p) : placed offset data p = none := by
  unfold placed
  rw [if_pos (by omega), List.getElem?_eq_none (by omega)]

@[simp] theorem placed_add (offset : Nat) (data : List UInt8) (i : Nat) :
    placed offset data (offset + i) = data[i]? := by
  unfold placed
  rw [if_pos (Nat.le_add_right _ _), Nat.add_sub_cancel_left]

/-- Of two pieces of data, one after the other, the second is placed last. -/
theorem placed_append (offset : Nat) (data data' : List UInt8) (p : Nat) :
    placed offset (data ++ data') p =
      (placed (offset + data.length) data' p).or (placed offset data p) := by
  unfold placed
  by_cases hle : offset ≤ p
  · rw [if_pos hle, if_pos hle]
    by_cases hlast : offset + data.length ≤ p
    · rw [if_pos hlast, List.getElem?_append_right (by omega),
        List.getElem?_eq_none (l := data) (by omega), Option.or_none, Nat.sub_sub]
    · rw [if_neg hlast, List.getElem?_append_left (by omega), Option.none_or]
  · rw [if_neg hle, if_neg hle, if_neg (by omega), Option.none_or]

namespace ByteFile

/-- A file of zeros. -/
def zeros (n : Nat) : ByteFile where
  size := n
  content _ := 0
  content_eq_zero _ _ := rfl

variable (f : ByteFile)

/-- Cut the file or extend it with zeros. -/
def resize (n : Nat) : ByteFile where
  size := n
  content p := if p < n then f.content p else 0
  content_eq_zero _ h := if_neg (Nat.not_lt.mpr h)

/-- Write at an offset; a write past the end extends the file. -/
def write (offset : Nat) (data : List UInt8) : ByteFile where
  size := if data = [] then f.size else max f.size (offset + data.length)
  content p := (placed offset data p).getD (f.content p)
  content_eq_zero p h := by
    split at h
    · rename_i hnil
      subst hnil
      rw [placed, List.getElem?_nil, ite_self]
      exact f.content_eq_zero p h
    · rw [placed_eq_none (by omega)]
      exact f.content_eq_zero p (by omega)

/-- Read `count` bytes at an offset. -/
def read (offset count : Nat) : Option (List UInt8) :=
  if offset + count ≤ f.size then
    some ((List.range count).map fun i => f.content (offset + i))
  else
    none

@[simp] theorem size_resize (n : Nat) : (f.resize n).size = n := rfl

theorem content_resize {n : Nat} (h : f.size ≤ n) : (f.resize n).content = f.content := by
  funext p
  unfold resize
  dsimp only
  split
  · rfl
  · exact (f.content_eq_zero p (by omega)).symm

theorem size_write {offset : Nat} {data : List UInt8} (h : data ≠ []) :
    (f.write offset data).size = max f.size (offset + data.length) := if_neg h

theorem read_eq_some_iff {offset count : Nat} {window : List UInt8} :
    f.read offset count = some window ↔
      offset + count ≤ f.size ∧ window = (List.range count).map fun i => f.content (offset + i) := by
  unfold read
  split
  · simp [*, eq_comm]
  · simp [*]

/-- A read starts with given bytes. -/
theorem prefix_window_iff (offset count : Nat) (data : List UInt8) :
    data <+: (List.range count).map (fun i => f.content (offset + i)) ↔
      data.length ≤ count ∧ ∀ i < data.length, data[i]? = some (f.content (offset + i)) := by
  rw [List.prefix_iff_getElem?]
  constructor
  · intro h
    have hle : data.length ≤ count := by
      by_contra hlt
      have := h count (by omega)
      simp at this
    refine ⟨hle, fun i hi => ?_⟩
    have hwindow := h i hi
    rw [List.getElem?_map, List.getElem?_range (by omega)] at hwindow
    rw [List.getElem?_eq_getElem hi, ← hwindow]
    rfl
  · intro ⟨hle, h⟩ i hi
    have hdata := h i hi
    rw [List.getElem?_eq_getElem hi] at hdata
    rw [List.getElem?_map, List.getElem?_range (by omega), hdata]
    rfl

/-- A window on a file where some data lies is a window on the data and what
follows. -/
theorem window_eq_take {offset : Nat} {data : List UInt8} (count : Nat)
    (h : ∀ i < data.length, data[i]? = some (f.content (offset + i))) :
    (List.range count).map (fun i => f.content (offset + i)) =
      (data ++ (List.range count).map fun i => f.content (offset + data.length + i)).take
        count := by
  refine List.ext_getElem? fun i => ?_
  rw [List.getElem?_take, List.getElem?_map]
  by_cases hi : i < count
  · rw [if_pos hi, List.getElem?_range hi, List.getElem?_append]
    split
    · rename_i hdata
      rw [h i hdata]
      rfl
    · rename_i hdata
      rw [List.getElem?_map, List.getElem?_range (by omega), Option.map_some, Option.map_some,
        show offset + data.length + (i - data.length) = offset + i by omega]
  · rw [if_neg hi, List.getElem?_eq_none (by rw [List.length_range]; omega)]
    rfl

end ByteFile

/-! ## Sequences of writes -/

/-- What the last of a sequence of writes at a position placed there. -/
def lastPlaced (writes : List (Nat × List UInt8)) (p : Nat) : Option UInt8 :=
  writes.foldl (fun b w => (placed w.1 w.2 p).or b) none

theorem lastPlaced_concat (writes : List (Nat × List UInt8)) (offset : Nat) (data : List UInt8)
    (p : Nat) :
    lastPlaced (writes ++ [(offset, data)]) p = (placed offset data p).or (lastPlaced writes p) := by
  rw [lastPlaced, List.foldl_append]
  rfl

/-- A write places something at each of its positions, which a later one may
replace. -/
theorem lastPlaced_isSome {writes : List (Nat × List UInt8)} {offset : Nat} {data : List UInt8}
    (h : (offset, data) ∈ writes) {i : Nat} (hi : i < data.length) :
    (lastPlaced writes (offset + i)).isSome := by
  induction writes using List.reverseRecOn with
  | nil => cases h
  | append_singleton writes w ih =>
      obtain ⟨offset', data'⟩ := w
      rw [lastPlaced_concat, Option.isSome_or, Bool.or_eq_true]
      rcases List.mem_append.mp h with h | h
      · exact .inr (ih h)
      · cases List.mem_singleton.mp h
        rw [placed_add, List.getElem?_eq_getElem hi]
        exact .inl rfl

/-- Writes that leave a position alone. -/
theorem lastPlaced_append_of_forall_none {writes later : List (Nat × List UInt8)} {p : Nat}
    (h : ∀ w ∈ later, placed w.1 w.2 p = none) :
    lastPlaced (writes ++ later) p = lastPlaced writes p := by
  induction later using List.reverseRecOn with
  | nil => rw [List.append_nil]
  | append_singleton later w ih =>
      rw [← List.append_assoc, lastPlaced_concat, h w (by simp), Option.none_or]
      exact ih fun w hw => h w (by simp [hw])

/-! ## Windows -/

namespace ByteFile

/-- The bytes at the positions from an offset on. -/
def window (f : ByteFile) (offset count : Nat) : List UInt8 :=
  (List.range count).map fun i => f.content (offset + i)

section

variable (f : ByteFile) {f' : ByteFile} {offset offset' count : Nat} {data : List UInt8}

@[simp] theorem length_window : (f.window offset count).length = count := by
  rw [window, List.length_map, List.length_range]

theorem window_append (offset m n : Nat) :
    f.window offset (m + n) = f.window offset m ++ f.window (offset + m) n := by
  unfold window
  rw [List.range_add, List.map_append, List.map_map]
  congr 1
  apply List.map_congr_left
  intro i _
  rw [Function.comp_apply, Nat.add_assoc]

theorem window_congr (h : ∀ p, offset ≤ p → p < offset + count → f'.content p = f.content p) :
    f'.window offset count = f.window offset count := by
  apply List.map_congr_left
  intro i hi
  rw [List.mem_range] at hi
  exact h (offset + i) (by omega) (by omega)

/-- Windows that are equal show the same bytes. -/
theorem content_eq_of_window_eq (h : f'.window offset count = f.window offset count) {p : Nat}
    (hle : offset ≤ p) (hlt : p < offset + count) : f'.content p = f.content p := by
  obtain ⟨i, rfl⟩ := Nat.exists_eq_add_of_le hle
  have hi : i < count := by omega
  have hbyte := congrArg (fun bytes => bytes[i]?) h
  simpa only [window, List.getElem?_map, List.getElem?_range hi, Option.map_some,
    Option.some.injEq] using hbyte

theorem content_write (data : List UInt8) (p : Nat) :
    (f.write offset data).content p = (placed offset data p).getD (f.content p) := rfl

theorem content_write_of_outside {p : Nat} (h : p < offset ∨ offset + data.length ≤ p) :
    (f.write offset data).content p = f.content p := by
  change (placed offset data p).getD (f.content p) = _
  rcases h with h | h
  · rw [placed, if_neg (by omega)]
    rfl
  · rw [placed_eq_none h]
    rfl

/-- What was written is read. -/
theorem window_write_self (offset : Nat) (data : List UInt8) :
    (f.write offset data).window offset data.length = data := by
  apply List.ext_getElem
  · rw [length_window]
  · intro i _ hi
    simp only [window, List.getElem_map, List.getElem_range]
    change (placed offset data (offset + i)).getD _ = _
    rw [placed_add, List.getElem?_eq_getElem hi]
    rfl

end

end ByteFile
