import Mathlib.Order.Basic
import Mathlib.Logic.Relation

/-!
Locks that owners record before they are granted.

An owner records modes on objects, recorded modes only get stronger until the
owner releases, and a request is granted when a recorded mode that covers it is
compatible with everything other owners have recorded on the object. Requests
that are refused may leave their modes recorded.

`LockStep.safe` is the safety of one step and `LockState.Safe.of_run` that of a
run: granted modes of different owners on one object are compatible. It needs
only that compatibility is symmetric and inherited by weaker modes.
-/

variable {τ ο μ : Type} [PartialOrder μ]

/-- What each owner has recorded on, and was granted on, each object. -/
structure LockState (τ ο μ : Type) where
  recorded : τ → ο → μ → Prop
  granted : τ → ο → μ → Prop

/-- A recorded mode at least as strong. -/
def Covers (recorded : ο → μ → Prop) (o : ο) (m : μ) : Prop := ∃ n, recorded o n ∧ m ≤ n

namespace LockState

/-- The modes of one owner became stronger, and nobody else's changed. -/
structure Raised (t : τ) (s s' : LockState τ ο μ) : Prop where
  own : ∀ o m, s.recorded t o m → Covers (s'.recorded t) o m
  others : ∀ t', t' ≠ t → s'.recorded t' = s.recorded t'

theorem Raised.covers {t t' : τ} {s s' : LockState τ ο μ} (h : Raised t s s') {o : ο} {m : μ}
    (hm : Covers (s.recorded t') o m) : Covers (s'.recorded t') o m := by
  obtain ⟨n, hn, hle⟩ := hm
  by_cases ht : t' = t
  · subst ht
    obtain ⟨n', hn', hle'⟩ := h.own o n hn
    exact ⟨n', hn', hle.trans hle'⟩
  · rw [h.others t' ht]
    exact ⟨n, hn, hle⟩

end LockState

/-- One step of a lock table. The modes a request asks for are `wanted`. -/
inductive LockStep (compat : μ → μ → Prop) : LockState τ ο μ → LockState τ ο μ → Prop
  /-- A refused request. -/
  | refuse {s s' : LockState τ ο μ} {t : τ} (raised : s.Raised t s')
      (granted : s'.granted = s.granted) : LockStep compat s s'
  | grant {s s' : LockState τ ο μ} {t : τ} (wanted : ο → μ → Prop) (raised : s.Raised t s')
      (admitted : ∀ o m, wanted o m → ∃ n, s'.recorded t o n ∧ m ≤ n ∧
        ∀ t' n', t' ≠ t → s'.recorded t' o n' → compat n' n)
      (granted : ∀ t' o m, s'.granted t' o m → s.granted t' o m ∨ t' = t ∧ wanted o m) :
      LockStep compat s s'
  | release {s s' : LockState τ ο μ} (t : τ) (others : ∀ t', t' ≠ t → s'.recorded t' = s.recorded t')
      (granted : ∀ t' o m, s'.granted t' o m → s.granted t' o m ∧ t' ≠ t) : LockStep compat s s'

/-- Every granted mode is covered by a recorded one, and granted modes exclude
each other. -/
structure LockState.Safe (compat : μ → μ → Prop) (s : LockState τ ο μ) : Prop where
  covered : ∀ t o m, s.granted t o m → Covers (s.recorded t) o m
  exclusive : ∀ t t' o m m', t ≠ t' → s.granted t o m → s.granted t' o m' → compat m m'

section Safety

variable {compat : μ → μ → Prop} (symm : ∀ a b, compat a b → compat b a)
  (anti : ∀ a a' b, a' ≤ a → compat a b → compat a' b)
include symm anti

theorem LockStep.safe {s s' : LockState τ ο μ} (step : LockStep compat s s')
    (safe : s.Safe compat) : s'.Safe compat := by
  cases step with
  | refuse raised granted =>
      refine ⟨fun t o m h => raised.covers (safe.covered t o m (granted ▸ h)), ?_⟩
      rw [granted]
      exact safe.exclusive
  | @grant t wanted raised admitted granted =>
      have covered : ∀ t' o m, s'.granted t' o m → Covers (s'.recorded t') o m := by
        intro t' o m h
        rcases granted t' o m h with hold | ⟨rfl, hnew⟩
        · exact raised.covers (safe.covered t' o m hold)
        · obtain ⟨n, hn, hle, -⟩ := admitted o m hnew
          exact ⟨n, hn, hle⟩
      -- a new mode is compatible with the modes that cover what the others hold
      have fresh : ∀ t' o m m', t' ≠ t → wanted o m → s'.granted t' o m' → compat m' m := by
        intro t' o m m' ht hnew h
        obtain ⟨n, -, hle, hcompat⟩ := admitted o m hnew
        obtain ⟨n', hn', hle'⟩ := covered t' o m' h
        have strong : compat n' n := hcompat t' n' ht hn'
        exact anti n' m' m hle' (symm m n' (anti n m n' hle (symm n' n strong)))
      refine ⟨covered, fun t₁ t₂ o m m' hne h₁ h₂ => ?_⟩
      rcases granted t₁ o m h₁ with hold₁ | ⟨rfl, hnew₁⟩
      · rcases granted t₂ o m' h₂ with hold₂ | ⟨rfl, hnew₂⟩
        · exact safe.exclusive t₁ t₂ o m m' hne hold₁ hold₂
        · exact fresh t₁ o m' m hne hnew₂ h₁
      · exact symm m' m (fresh t₂ o m m' (Ne.symm hne) hnew₁ h₂)
  | @release t others granted =>
      refine ⟨fun t' o m h => ?_, fun t₁ t₂ o m m' hne h₁ h₂ => ?_⟩
      · obtain ⟨hold, ht⟩ := granted t' o m h
        rw [others t' ht]
        exact safe.covered t' o m hold
      · exact safe.exclusive t₁ t₂ o m m' hne (granted t₁ o m h₁).1 (granted t₂ o m' h₂).1

/-- Safety of a whole run. -/
theorem LockState.Safe.of_run {s s' : LockState τ ο μ}
    (run : Relation.ReflTransGen (LockStep compat) s s') (safe : s.Safe compat) :
    s'.Safe compat := by
  induction run with
  | refl => exact safe
  | tail _ step ih => exact step.safe symm anti ih

end Safety
