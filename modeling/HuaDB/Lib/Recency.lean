import Mathlib.Data.List.Nodup
import Mathlib.Data.List.TakeDrop

/-!
Lists ordered by recency: the most recently used element first, each element once.

Using an element moves it to the front (`Recency.access`). The first `n` elements
of such a list are what a cache of capacity `n` holds under least-recently-used
replacement: a hit reorders them (`take_access_of_mem`), a miss puts the new element
in front and drops the last one (`take_access_of_not_mem`).
-/

namespace Recency

variable {α β : Type*} [DecidableEq α] [DecidableEq β] {a : α} {l : List α} {n : Nat}

/-- Use an element. -/
def access (a : α) (l : List α) : List α := a :: l.erase a

theorem mem_access {b : α} : b ∈ access a l ↔ b = a ∨ b ∈ l := by
  by_cases h : b = a
  · simp [access, h]
  · simp [access, h, List.mem_erase_of_ne h]

theorem nodup_access (nd : l.Nodup) : (access a l).Nodup :=
  List.nodup_cons.mpr ⟨nd.not_mem_erase, nd.erase a⟩

/-- A hit. -/
theorem take_access_of_mem (h : a ∈ l.take n) : (access a l).take n = access a (l.take n) := by
  induction l generalizing n with
  | nil => simp at h
  | cons b l ih =>
      cases n with
      | zero => simp at h
      | succ n =>
          by_cases hb : b = a
          · subst hb
            simp [access]
          have hmem : a ∈ l.take n := by
            rw [List.take_succ_cons] at h
            exact (List.mem_cons.mp h).resolve_left (Ne.symm hb)
          have htail := ih hmem
          cases n with
          | zero => simp at hmem
          | succ n =>
              have hne : ¬((b == a) = true) := fun h => hb (beq_iff_eq.mp h)
              rw [access, access, List.take_succ_cons, List.cons.injEq] at htail
              calc (access a (b :: l)).take (n + 1 + 1)
                  = a :: b :: (l.erase a).take n := by
                    rw [access, List.erase_cons_tail hne, List.take_succ_cons, List.take_succ_cons]
                _ = a :: b :: (l.take (n + 1)).erase a := by rw [htail.2]
                _ = access a ((b :: l).take (n + 1 + 1)) := by
                    rw [access, List.take_succ_cons, List.erase_cons_tail hne]

/-- A miss. -/
theorem take_access_of_not_mem (h : a ∉ l.take n) :
    (access a l).take (n + 1) = a :: l.take n := by
  have herase : (l.erase a).take n = l.take n := by
    induction l generalizing n with
    | nil => rfl
    | cons b l ih =>
        cases n with
        | zero => rfl
        | succ n =>
            rw [List.take_succ_cons] at h
            obtain ⟨hb, hmem⟩ := not_or.mp (mt List.mem_cons.mpr h)
            rw [List.erase_cons_tail (by simpa using Ne.symm hb), List.take_succ_cons, ih hmem,
              List.take_succ_cons]
  rw [access, List.take_succ_cons, herase]

/-- What a use drives out of the first `n` is the last of them. -/
theorem getLast?_of_driven_out {b : α} (h : b ∈ l.take n) (hout : b ∉ (access a l).take n) :
    (l.take n).getLast? = some b := by
  cases n with
  | zero => simp at h
  | succ n =>
      by_cases ha : a ∈ l.take (n + 1)
      · rw [take_access_of_mem ha] at hout
        exact (hout (mem_access.mpr (.inr h))).elim
      · have ha' : a ∉ l.take n := fun h' => ha (List.take_subset_take_left l (Nat.le_succ n) h')
        rw [take_access_of_not_mem ha', List.mem_cons, not_or] at hout
        rw [List.take_add_one] at h ⊢
        rcases List.mem_append.mp h with h | h
        · exact (hout.2 h).elim
        · cases hn : l[n]? with
          | none =>
              rw [hn] at h
              simp at h
          | some c =>
              rw [hn] at h
              simp only [Option.toList_some, List.mem_singleton] at h
              simp [h]

/-- Looking at some elements only. -/
theorem filter_access {p : α → Bool} (nd : l.Nodup) (ha : p a = true) :
    (access a l).filter p = access a (l.filter p) := by
  rw [access, access, List.filter_cons_of_pos ha, (nd.filter p).erase_eq_filter,
    nd.erase_eq_filter, List.filter_filter, List.filter_filter]
  congr 2
  funext b
  exact Bool.and_comm _ _

/-- Renaming the elements. -/
theorem map_access {f : α → β} (inj : ∀ b ∈ l, f b = f a → b = a) :
    (access a l).map f = access (f a) (l.map f) := by
  rw [access, access, List.map_cons]
  congr 1
  induction l with
  | nil => rfl
  | cons b l ih =>
      have htail := ih fun c hc => inj c (List.mem_cons_of_mem _ hc)
      by_cases hb : b = a
      · subst hb
        simp
      · have hf : f b ≠ f a := fun h => hb (inj b List.mem_cons_self h)
        rw [List.erase_cons_tail (by simpa using hb), List.map_cons, List.map_cons,
          List.erase_cons_tail (by simpa using hf), htail]

/-- The last element leaves. -/
theorem erase_getLast (nd : l.Nodup) (h : l.getLast? = some a) : l.erase a = l.dropLast := by
  obtain ⟨l', rfl⟩ := List.getLast?_eq_some_iff.mp h
  have hmem : a ∉ l' := fun hmem => (List.nodup_append.mp nd).2.2 a hmem a List.mem_cons_self rfl
  rw [List.erase_append_right _ hmem, List.dropLast_concat]
  simp

end Recency
