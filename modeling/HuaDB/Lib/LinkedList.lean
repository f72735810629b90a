import Mathlib.Data.List.Basic

/-!
Singly linked lists in a store: each cell has a link to the next one, and a
sentinel ends the list.

`Segment next stop a l b` says that from `a` the links lead through the cells of
`l` to `b`. Segments split and join with their lists (`Segment.append_iff`), and a
store that agrees on the cells of a segment has it too (`Segment.congr`); appending
a cell and unlinking one follow. What is reached from `a` are the cells of the
segment that ends at the sentinel (`Segment.reached_iff`).
-/

namespace LinkedList

variable {α : Type} (next : α → Option α) (stop : α)

/-- From `a` the links lead through `l` to `b`, and none of `l` is the sentinel. -/
def Segment : α → List α → α → Prop
  | a, [], b => a = b
  | a, c :: l, b => a ≠ stop ∧ c = a ∧ ∃ a', next a = some a' ∧ Segment a' l b

/-- What following the links from `a` comes to. -/
inductive Reached (a : α) : α → Prop
  | start : a ≠ stop → Reached a a
  | link {b c : α} : Reached a b → next b = some c → c ≠ stop → Reached a c

variable {next stop} {a b c : α} {l l₁ l₂ : List α}

theorem Reached.cons (hne : a ≠ stop) (hlink : next a = some b) (h : Reached next stop b c) :
    Reached next stop a c := by
  induction h with
  | start hb => exact .link (.start hne) hlink hb
  | link _ hnext hc ih => exact .link ih hnext hc

namespace Segment

theorem append_iff :
    Segment next stop a (l₁ ++ l₂) c ↔ ∃ b, Segment next stop a l₁ b ∧ Segment next stop b l₂ c := by
  induction l₁ generalizing a with
  | nil => exact ⟨fun h => ⟨a, rfl, h⟩, fun ⟨_, h, h'⟩ => h ▸ h'⟩
  | cons d l₁ ih =>
      constructor
      · rintro ⟨hne, rfl, a', hnext, h⟩
        obtain ⟨b, h₁, h₂⟩ := ih.mp h
        exact ⟨b, ⟨hne, rfl, a', hnext, h₁⟩, h₂⟩
      · rintro ⟨b, ⟨hne, rfl, a', hnext, h₁⟩, h₂⟩
        exact ⟨hne, rfl, a', hnext, ih.mpr ⟨b, h₁, h₂⟩⟩

/-- A store with the same links on the segment. -/
theorem congr {next' : α → Option α} (h : Segment next stop a l b)
    (hnext : ∀ d ∈ l, next' d = next d) : Segment next' stop a l b := by
  induction l generalizing a with
  | nil => exact h
  | cons d l ih =>
      obtain ⟨hne, rfl, a', hlink, h⟩ := h
      exact ⟨hne, rfl, a', (hnext d List.mem_cons_self).trans hlink,
        ih h fun e he => hnext e (List.mem_cons_of_mem _ he)⟩

theorem ne_stop (h : Segment next stop a l b) {d : α} (hd : d ∈ l) : d ≠ stop := by
  induction l generalizing a with
  | nil => cases hd
  | cons e l ih =>
      obtain ⟨hne, rfl, a', -, h⟩ := h
      rcases List.mem_cons.mp hd with rfl | hd
      · exact hne
      · exact ih h hd

/-- Every cell has a link. -/
theorem exists_next (h : Segment next stop a l b) {d : α} (hd : d ∈ l) : ∃ e, next d = some e := by
  obtain ⟨l₁, l₂, rfl⟩ := List.append_of_mem hd
  obtain ⟨_, -, -, rfl, e, hlink, -⟩ := append_iff.mp h
  exact ⟨e, hlink⟩

/-- The list is determined by where it starts. -/
theorem unique {l' : List α} (h : Segment next stop a l stop) (h' : Segment next stop a l' stop) :
    l = l' := by
  induction l generalizing a l' with
  | nil =>
      cases l' with
      | nil => rfl
      | cons d l' => exact absurd h h'.1
  | cons d l ih =>
      obtain ⟨hne, rfl, a', hlink, h⟩ := h
      cases l' with
      | nil => exact absurd h' hne
      | cons e l' =>
          obtain ⟨-, rfl, a'', hlink', h'⟩ := h'
          cases hlink.symm.trans hlink'
          rw [ih h h']

/-- The cells of a list that ends are distinct. -/
theorem nodup (h : Segment next stop a l stop) : l.Nodup := by
  induction l generalizing a with
  | nil => exact List.nodup_nil
  | cons d l ih =>
      obtain ⟨-, rfl, a', hlink, h⟩ := h
      refine List.nodup_cons.mpr ⟨fun hmem => ?_, ih h⟩
      -- a cell that came again would start a shorter list, and the same one
      obtain ⟨l₁, l₂, rfl⟩ := List.append_of_mem hmem
      obtain ⟨_, -, -, rfl, a'', hlink', h'⟩ := append_iff.mp h
      cases hlink.symm.trans hlink'
      have hlength := congrArg List.length (h.unique h')
      rw [List.length_append, List.length_cons] at hlength
      omega

/-- A new cell after the last. -/
theorem concat {next' : α → Option α} (h : Segment next stop a (l ++ [b]) stop)
    (hnext : ∀ d ∈ l, next' d = next d) (hlink : next' b = some c) (hne : c ≠ stop)
    (hlast : next' c = some stop) : Segment next' stop a (l ++ [b, c]) stop := by
  obtain ⟨_, h₁, hb, rfl, _, -, -⟩ := append_iff.mp h
  exact append_iff.mpr ⟨b, h₁.congr hnext, hb, rfl, c, hlink, hne, rfl, stop, hlast, rfl⟩

/-- Linking a cell to the successor of the one after it takes that one out. -/
theorem unlink {next' : α → Option α} (h : Segment next stop a (l₁ ++ b :: c :: l₂) stop)
    (hnext : ∀ d ∈ l₁ ++ l₂, next' d = next d) (hlink : next' b = next c) :
    Segment next' stop a (l₁ ++ b :: l₂) stop := by
  obtain ⟨_, h₁, hb, rfl, _, -, -, rfl, e, hc, h₂⟩ := append_iff.mp h
  refine append_iff.mpr ⟨b, h₁.congr fun d hd => hnext d (List.mem_append_left _ hd), hb, rfl, e,
    hlink.trans hc, h₂.congr fun d hd => hnext d (List.mem_append_right _ hd)⟩

theorem reached (h : Segment next stop a l c) (hb : b ∈ l) : Reached next stop a b := by
  induction l generalizing a with
  | nil => cases hb
  | cons d l ih =>
      obtain ⟨hne, rfl, a', hlink, h⟩ := h
      rcases List.mem_cons.mp hb with rfl | hb
      · exact .start hne
      · exact .cons hne hlink (ih h hb)

/-- What is reached is the cells of the list. -/
theorem reached_iff (h : Segment next stop a l stop) : Reached next stop a b ↔ b ∈ l := by
  constructor
  · intro reached
    induction reached with
    | start hne =>
        cases l with
        | nil => exact absurd h hne
        | cons d l =>
            obtain ⟨-, rfl, -⟩ := h
            exact List.mem_cons_self
    | @link b c _ hlink hne ih =>
        obtain ⟨l₁, l₂, rfl⟩ := List.append_of_mem ih
        obtain ⟨_, -, -, rfl, e, hb, h₂⟩ := append_iff.mp h
        cases hb.symm.trans hlink
        cases l₂ with
        | nil => exact absurd h₂ hne
        | cons d l₂ =>
            obtain ⟨-, rfl, -⟩ := h₂
            simp
  · exact h.reached

end Segment

/-- The cells from one on to the sentinel, where they are few enough. -/
def walk [DecidableEq α] (next : α → Option α) (stop : α) : Nat → α → Option (List α)
  | 0, _ => none
  | n + 1, a =>
      if a = stop then
        some []
      else
        (next a).bind fun b => (walk next stop n b).map (a :: ·)

theorem segment_of_walk [DecidableEq α] {n : Nat} (h : walk next stop n a = some l) :
    Segment next stop a l stop := by
  induction n generalizing a l with
  | zero => cases h
  | succ n ih =>
      unfold walk at h
      split at h
      · rename_i heq
        cases h
        exact heq
      · rename_i hne
        obtain ⟨b, hnext, h⟩ := Option.bind_eq_some_iff.mp h
        obtain ⟨l, hwalk, rfl⟩ := Option.map_eq_some_iff.mp h
        exact ⟨hne, rfl, b, hnext, ih hwalk⟩

end LinkedList
