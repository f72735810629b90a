import Mathlib.Data.List.Basic

/-!
Items chained backwards: each stores the position of the one before it, and the
first stores a sentinel.

`BackChain pos prev stop p l` says that following the stored positions from `p`
visits the items of `l`, in that order, and stops at the sentinel. A bounded walk
through a lookup by position (`follow`) computes that list when the lookup finds
the items (`BackChain.follow_eq`).
-/

variable {α : Type} (pos prev : α → Nat) (stop : Nat)

/-- From position `p`, the stored positions lead through `l` to the sentinel. -/
def BackChain : Nat → List α → Prop
  | p, [] => p = stop
  | p, a :: l => p ≠ stop ∧ pos a = p ∧ BackChain (prev a) l

/-- Follow the stored positions from `p`, for at most `fuel` items. -/
def follow (find : Nat → Option α) : Nat → Nat → Option (List α)
  | 0, p => if p = stop then some [] else none
  | fuel + 1, p =>
      if p = stop then
        some []
      else
        match find p with
        | none => none
        | some a => (follow find fuel (prev a)).map (a :: ·)

namespace BackChain

variable {pos prev stop}

/-- A walk with enough fuel visits the chain. -/
theorem follow_eq {find : Nat → Option α} {l : List α} {p : Nat}
    (chain : BackChain pos prev stop p l) (found : ∀ a ∈ l, find (pos a) = some a) {fuel : Nat}
    (hfuel : l.length ≤ fuel) : follow prev stop find fuel p = some l := by
  induction l generalizing p fuel with
  | nil =>
      cases fuel with
      | zero => exact if_pos chain
      | succ fuel => exact if_pos chain
  | cons a l ih =>
      obtain ⟨hne, rfl, rest⟩ := chain
      cases fuel with
      | zero => exact absurd hfuel (Nat.not_succ_le_zero _)
      | succ fuel =>
          have hrest := ih rest (fun b hb => found b (List.mem_cons_of_mem _ hb))
            (Nat.le_of_succ_le_succ hfuel)
          rw [follow, if_neg hne, found a List.mem_cons_self]
          dsimp only
          rw [hrest]
          rfl

/-- A chain is determined by where it starts and how items are found. -/
theorem unique {find : Nat → Option α} {l l' : List α} {p : Nat}
    (chain : BackChain pos prev stop p l) (chain' : BackChain pos prev stop p l')
    (found : ∀ a ∈ l, find (pos a) = some a) (found' : ∀ a ∈ l', find (pos a) = some a) :
    l = l' := by
  have h := chain.follow_eq found (Nat.le_max_left l.length l'.length)
  have h' := chain'.follow_eq found' (Nat.le_max_right l.length l'.length)
  exact Option.some.inj (h.symm.trans h')

end BackChain
