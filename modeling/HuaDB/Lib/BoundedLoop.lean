import Mathlib.Logic.Relation

/-!
# Loops with a bound on their rounds

A `while` loop of an imperative program need not end, so `BoundedLoop.run` cuts it off
after a number of rounds and reports the exit `bound`.  What the loop does without a bound
is then a statement about all bounds, and each is decided by the states that the loop
reaches:

* `exists_run_ok_iff`: it ends in `t` when it reaches `t` and the test stops it there;
* `exists_run_error_iff`: it fails when the round of a state reached does;
* `run_ne_bound_of_measure`: it ends, or fails, when a measure goes down in every round;
* `run_eq_bound_of_invariant`: it goes on for ever when an invariant keeps the test from
  stopping it and the round from failing.
-/

namespace BoundedLoop

variable {σ ε : Type*} (done : σ → Bool) (step : σ → Except ε σ) (bound : ε)

/-- The loop, cut off after a number of rounds. -/
def run : Nat → σ → Except ε σ
  | rounds, s =>
      match done s, rounds with
      | true, _ => .ok s
      | false, 0 => .error bound
      | false, rounds + 1 =>
          match step s with
          | .ok s' => run rounds s'
          | .error e => .error e

/-- One round of the loop. -/
structure Round (s s' : σ) : Prop where
  not_done : done s = false
  step_eq : step s = .ok s'

/-- The states that the loop comes to at the start of a round, or ends in. -/
abbrev Reaches : σ → σ → Prop := Relation.ReflTransGen (Round done step)

variable {done step bound}

theorem run_of_done {s : σ} (h : done s = true) (rounds : Nat) :
    run done step bound rounds s = .ok s := by
  cases rounds <;> simp only [run, h]

theorem run_succ {s s' : σ} (h : Round done step s s') (rounds : Nat) :
    run done step bound (rounds + 1) s = run done step bound rounds s' := by
  simp only [run, h.not_done, h.step_eq]

theorem run_succ_of_error {s : σ} {e : ε} (hd : done s = false) (hs : step s = .error e)
    (rounds : Nat) : run done step bound (rounds + 1) s = .error e := by
  simp only [run, hd, hs]

/-- The states reached are on the way of the bounded loop, a number of rounds later. -/
theorem Reaches.run_eq (bound : ε) {s t : σ} (h : Reaches done step s t) :
    ∃ before, ∀ rounds, run done step bound (before + rounds) s = run done step bound rounds t := by
  induction h with
  | refl =>
      refine ⟨0, ?_⟩
      intro rounds
      rw [Nat.zero_add]
  | tail _ hround ih =>
      obtain ⟨before, hbefore⟩ := ih
      refine ⟨before + 1, ?_⟩
      intro rounds
      rw [Nat.add_assoc, Nat.add_comm 1, hbefore, run_succ hround]

/-- What a bounded run comes to: the loop ends, its bound is used up, or a round fails. -/
theorem run_cases (done : σ → Bool) (step : σ → Except ε σ) (bound : ε) (rounds : Nat) (s : σ) :
    (∃ t, Reaches done step s t ∧ done t = true ∧ run done step bound rounds s = .ok t) ∨
      (∃ t, Reaches done step s t ∧ done t = false ∧
        run done step bound rounds s = .error bound) ∨
      ∃ t e, Reaches done step s t ∧ done t = false ∧ step t = .error e ∧
        run done step bound rounds s = .error e := by
  induction rounds generalizing s with
  | zero =>
      cases hd : done s with
      | true => exact .inl ⟨s, .refl, hd, run_of_done hd 0⟩
      | false => exact .inr (.inl ⟨s, .refl, hd, by simp only [run, hd]⟩)
  | succ rounds ih =>
      cases hd : done s with
      | true => exact .inl ⟨s, .refl, hd, run_of_done hd _⟩
      | false =>
          cases hs : step s with
          | error e => exact .inr (.inr ⟨s, e, .refl, hd, hs, run_succ_of_error hd hs rounds⟩)
          | ok s' =>
              have hround : Round done step s s' := ⟨hd, hs⟩
              rw [run_succ hround]
              rcases ih s' with ⟨t, ht, hdone, hrun⟩ | ⟨t, ht, hdone, hrun⟩ | ⟨t, e, ht, hdone, he, hrun⟩
              · exact .inl ⟨t, ht.head hround, hdone, hrun⟩
              · exact .inr (.inl ⟨t, ht.head hround, hdone, hrun⟩)
              · exact .inr (.inr ⟨t, e, ht.head hround, hdone, he, hrun⟩)

theorem reaches_of_run_ok {s t : σ} {rounds : Nat} (h : run done step bound rounds s = .ok t) :
    Reaches done step s t ∧ done t = true := by
  rcases run_cases done step bound rounds s with
    ⟨t', ht, hdone, hrun⟩ | ⟨t', ht, hdone, hrun⟩ | ⟨t', e, ht, hdone, he, hrun⟩
  · rw [h] at hrun
    cases hrun
    exact ⟨ht, hdone⟩
  all_goals
    rw [h] at hrun
    cases hrun

/-- The loop ends in a state when it reaches it and the test stops it there. -/
theorem exists_run_ok_iff {s t : σ} :
    (∃ rounds, run done step bound rounds s = .ok t) ↔ Reaches done step s t ∧ done t = true := by
  constructor
  · rintro ⟨rounds, h⟩
    exact reaches_of_run_ok h
  · rintro ⟨h, hdone⟩
    obtain ⟨before, hbefore⟩ := h.run_eq bound
    exact ⟨before + 0, by rw [hbefore 0, run_of_done hdone]⟩

/-- The loop fails when the round of a state reached does. -/
theorem exists_run_error_iff {s : σ} {e : ε} (hb : e ≠ bound) :
    (∃ rounds, run done step bound rounds s = .error e) ↔
      ∃ t, Reaches done step s t ∧ done t = false ∧ step t = .error e := by
  constructor
  · rintro ⟨rounds, h⟩
    rcases run_cases done step bound rounds s with
      ⟨t, ht, hdone, hrun⟩ | ⟨t, ht, hdone, hrun⟩ | ⟨t, e', ht, hdone, he, hrun⟩
    · rw [h] at hrun
      cases hrun
    · rw [h] at hrun
      cases hrun
      exact absurd rfl hb
    · rw [h] at hrun
      cases hrun
      exact ⟨t, ht, hdone, he⟩
  · rintro ⟨t, ht, hdone, he⟩
    obtain ⟨before, hbefore⟩ := ht.run_eq bound
    exact ⟨before + 1, by rw [hbefore 1, run_succ_of_error hdone he]⟩

/-- What every round keeps holds of every state reached. -/
theorem Reaches.invariant {I : σ → Prop} (hI : ∀ s s', I s → Round done step s s' → I s')
    {s t : σ} (h : Reaches done step s t) (hs : I s) : I t := by
  induction h with
  | refl => exact hs
  | tail _ hround ih => exact hI _ _ ih hround

/-- Every state reached is on the way to the state that the loop ends in. -/
theorem Reaches.of_done {s a t : σ} (ha : Reaches done step s a) (ht : Reaches done step s t)
    (hdone : done t = true) : Reaches done step a t := by
  induction ha with
  | refl => exact ht
  | tail _ hround ih =>
      rcases ih.cases_head with heq | ⟨c, hround', hc⟩
      · subst heq
        rw [hround.not_done] at hdone
        cases hdone
      · have heq := hround.step_eq.symm.trans hround'.step_eq
        cases heq
        exact hc

/-- The loop ends, or fails, when a measure goes down in every round. -/
theorem run_ne_bound_of_measure (I : σ → Prop) (measure : σ → Nat)
    (hb : ∀ s, step s ≠ .error bound)
    (hI : ∀ s s', I s → Round done step s s' → I s' ∧ measure s' < measure s)
    {rounds : Nat} {s : σ} (hs : I s) (hm : measure s < rounds) :
    run done step bound rounds s ≠ .error bound := by
  induction rounds generalizing s with
  | zero => omega
  | succ rounds ih =>
      intro h
      cases hd : done s with
      | true =>
          rw [run_of_done hd] at h
          cases h
      | false =>
          cases hstep : step s with
          | error e =>
              rw [run_succ_of_error hd hstep] at h
              cases h
              exact hb s hstep
          | ok s' =>
              have hround : Round done step s s' := ⟨hd, hstep⟩
              obtain ⟨hs', hlt⟩ := hI s s' hs hround
              rw [run_succ hround] at h
              exact ih hs' (by omega) h

/-- The loop goes on for ever when an invariant keeps the test from stopping it and the
round from failing. -/
theorem run_eq_bound_of_invariant (I : σ → Prop)
    (hI : ∀ s, I s → ∃ s', Round done step s s' ∧ I s') (rounds : Nat) {s : σ} (hs : I s) :
    run done step bound rounds s = .error bound := by
  induction rounds generalizing s with
  | zero =>
      obtain ⟨s', hround, -⟩ := hI s hs
      simp only [run, hround.not_done]
  | succ rounds ih =>
      obtain ⟨s', hround, hs'⟩ := hI s hs
      rw [run_succ hround]
      exact ih hs'

end BoundedLoop
