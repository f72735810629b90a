import Mathlib.Logic.Relation

/-!
Reasoning about `EStateM` programs by their successful runs.

A successful run of a sequence splits into successful runs of its parts
(`bind_eq_ok_iff`), and a step known to succeed can be replaced by its result
(`bind_of_ok`). `RunsFrom R s x` says that every successful run of `x` from `s`
ends in a state related to `s` by `R`; for a preorder `R` it is closed under
sequencing, so a fact about every primitive step becomes a fact about every
program. `Ends s x ok error` says how the one run of `x` from `s` ends, by a postcondition
for either outcome; `bind_apply` and its companions execute a program step by step.
`Matches E Q x y` compares two programs: `y` ends as `x` does, wherever `x` succeeds or
fails with an error of `E`. `Except.bind_eq_ok_iff` is the first of these rules for programs
without a state, `StateT.bind_eq_ok_iff` for programs whose errors keep no state.
-/

theorem Except.bind_eq_ok_iff {ε α β : Type} {x : Except ε α} {f : α → Except ε β} {b : β} :
    x >>= f = .ok b ↔ ∃ a, x = .ok a ∧ f a = .ok b := by
  cases x with
  | ok a =>
      constructor
      · exact fun h => ⟨a, rfl, h⟩
      · rintro ⟨_, ha, hf⟩
        cases ha
        exact hf
  | error e =>
      constructor
      · intro h
        cases h
      · rintro ⟨_, ha, -⟩
        cases ha

namespace StateT

variable {ε σ α β : Type} {s : σ}

theorem bind_eq_ok_iff {x : StateT σ (Except ε) α} {f : α → StateT σ (Except ε) β} {r : β × σ} :
    (x >>= f) s = .ok r ↔ ∃ a s', x s = .ok (a, s') ∧ f a s' = .ok r := by
  change (x s >>= fun p => f p.1 p.2) = .ok r ↔ _
  rw [Except.bind_eq_ok_iff]
  constructor
  · intro h
    obtain ⟨⟨a, s'⟩, hx, hf⟩ := h
    exact ⟨a, s', hx, hf⟩
  · intro h
    obtain ⟨a, s', hx, hf⟩ := h
    exact ⟨(a, s'), hx, hf⟩

theorem lift_eq_ok_iff {x : Except ε α} {r : α × σ} :
    (liftM x : StateT σ (Except ε) α) s = .ok r ↔ x = .ok r.1 ∧ r.2 = s := by
  change (x >>= fun a => .ok (a, s)) = .ok r ↔ _
  rw [Except.bind_eq_ok_iff]
  constructor
  · intro h
    obtain ⟨a, hx, hr⟩ := h
    cases hr
    exact ⟨hx, rfl⟩
  · intro h
    obtain ⟨a, t⟩ := r
    obtain ⟨hx, rfl⟩ := h
    exact ⟨a, hx, rfl⟩

/-- A part without a state goes on from the state it has. -/
theorem lift_bind_eq_ok_iff {x : Except ε α} {f : α → StateT σ (Except ε) β} {r : β × σ} :
    (liftM x >>= f) s = .ok r ↔ ∃ a, x = .ok a ∧ f a s = .ok r := by
  rw [bind_eq_ok_iff]
  constructor
  · intro h
    obtain ⟨a, s', hrun, hf⟩ := h
    obtain ⟨hx, hs⟩ := lift_eq_ok_iff.mp hrun
    cases hs
    exact ⟨a, hx, hf⟩
  · intro h
    obtain ⟨a, hx, hf⟩ := h
    exact ⟨a, s, lift_eq_ok_iff.mpr ⟨hx, rfl⟩, hf⟩

end StateT

namespace EStateM

variable {ε σ α β : Type}

theorem bind_eq_ok_iff {x : EStateM ε σ α} {f : α → EStateM ε σ β} {s s'' : σ} {b : β} :
    (x >>= f) s = .ok b s'' ↔ ∃ a s', x s = .ok a s' ∧ f a s' = .ok b s'' := by
  change EStateM.bind x f s = .ok b s'' ↔ _
  unfold EStateM.bind
  cases hx : x s with
  | ok a s' =>
      constructor
      · exact fun h => ⟨a, s', rfl, h⟩
      · rintro ⟨_, _, h, hf⟩
        cases h
        exact hf
  | error e s' => simp

/-- A check of what a program that succeeds gives. -/
def Result.okAnd (p : α → σ → Bool) : Result ε σ α → Bool
  | .ok a s => p a s
  | .error _ _ => false

/-- A check of what a program that fails leaves. -/
def Result.errorAnd (p : ε → σ → Bool) : Result ε σ α → Bool
  | .ok _ _ => false
  | .error e s => p e s

theorem Result.okAnd_iff {p : α → σ → Bool} {r : Result ε σ α} :
    r.okAnd p = true ↔ ∃ a s, r = .ok a s ∧ p a s = true := by
  constructor
  · intro h
    cases r with
    | ok a s => exact ⟨a, s, rfl, h⟩
    | error e s => cases h
  · rintro ⟨a, s, rfl, h⟩
    exact h

theorem Result.errorAnd_iff {p : ε → σ → Bool} {r : Result ε σ α} :
    r.errorAnd p = true ↔ ∃ e s, r = .error e s ∧ p e s = true := by
  constructor
  · intro h
    cases r with
    | ok a s => cases h
    | error e s => exact ⟨e, s, rfl, h⟩
  · rintro ⟨e, s, rfl, h⟩
    exact h

theorem bind_of_ok {x : EStateM ε σ α} {f : α → EStateM ε σ β} {s s' : σ} {a : α}
    (hx : x s = .ok a s') : (x >>= f) s = f a s' := by
  change EStateM.bind x f s = _
  unfold EStateM.bind
  rw [hx]

theorem bind_of_error {x : EStateM ε σ α} {f : α → EStateM ε σ β} {s s' : σ} {e : ε}
    (hx : x s = .error e s') : (x >>= f) s = .error e s' := by
  change EStateM.bind x f s = _
  unfold EStateM.bind
  rw [hx]

theorem pure_eq_ok_iff {a b : α} {s s' : σ} :
    (pure a : EStateM ε σ α) s = .ok b s' ↔ a = b ∧ s = s' := by
  change (Result.ok a s : Result ε σ α) = .ok b s' ↔ _
  simp

theorem get_eq_ok_iff {s s' a : σ} :
    (get : EStateM ε σ σ) s = .ok a s' ↔ s = a ∧ s = s' := by
  change (Result.ok s s : Result ε σ σ) = .ok a s' ↔ _
  simp

theorem set_eq_ok_iff {s s' t : σ} {u : PUnit} :
    (set t : EStateM ε σ PUnit) s = .ok u s' ↔ t = s' := by
  change (Result.ok PUnit.unit t : Result ε σ PUnit) = .ok u s' ↔ _
  simp

theorem modify_eq_ok_iff {f : σ → σ} {s s' : σ} {u : PUnit} :
    (modify f : EStateM ε σ PUnit) s = .ok u s' ↔ f s = s' := by
  change (Result.ok PUnit.unit (f s) : Result ε σ PUnit) = .ok u s' ↔ _
  simp

theorem throw_eq_ok_iff {e : ε} {s s' : σ} {a : α} :
    (throw e : EStateM ε σ α) s = .ok a s' ↔ False := by
  change (Result.error e s : Result ε σ α) = .ok a s' ↔ _
  simp

/-! ## Step by step -/

theorem bind_apply (x : EStateM ε σ α) (f : α → EStateM ε σ β) (s : σ) :
    (x >>= f) s = match x s with
      | .ok a s' => f a s'
      | .error e s' => .error e s' := rfl

theorem pure_apply (a : α) (s : σ) : (pure a : EStateM ε σ α) s = .ok a s := rfl

theorem get_apply (s : σ) : (get : EStateM ε σ σ) s = .ok s s := rfl

theorem modify_apply (f : σ → σ) (s : σ) :
    (modify f : EStateM ε σ PUnit) s = .ok PUnit.unit (f s) := rfl

theorem throw_apply (e : ε) (s : σ) : (throw e : EStateM ε σ α) s = .error e s := rfl

theorem tryCatch_apply (x : EStateM ε σ α) (handle : ε → EStateM ε σ α) (s : σ) :
    (tryCatch x handle) s = match x s with
      | .ok a s' => .ok a s'
      | .error e s' => handle e s' := by
  change EStateM.tryCatch x handle s = _
  unfold EStateM.tryCatch
  cases x s <;> rfl

/-! ## Postconditions of either outcome -/

/-- How the run of `x` from `s` ends. -/
def Ends (s : σ) (x : EStateM ε σ α) (ok : α → σ → Prop) (error : ε → σ → Prop) : Prop :=
  match x s with
  | .ok a s' => ok a s'
  | .error e s' => error e s'

namespace Ends

variable {s : σ} {x : EStateM ε σ α} {ok : α → σ → Prop} {error : ε → σ → Prop}

theorem of_eq_ok {a : α} {s' : σ} (hx : x s = .ok a s') (h : ok a s') : Ends s x ok error := by
  rw [Ends, hx]
  exact h

theorem of_eq_error {e : ε} {s' : σ} (hx : x s = .error e s') (h : error e s') :
    Ends s x ok error := by
  rw [Ends, hx]
  exact h

theorem ok_of {a : α} {s' : σ} (h : Ends s x ok error) (hx : x s = .ok a s') : ok a s' := by
  rw [Ends, hx] at h
  exact h

theorem error_of {e : ε} {s' : σ} (h : Ends s x ok error) (hx : x s = .error e s') :
    error e s' := by
  rw [Ends, hx] at h
  exact h

theorem mono {ok' : α → σ → Prop} {error' : ε → σ → Prop} (h : Ends s x ok error)
    (hok : ∀ a s', ok a s' → ok' a s') (herror : ∀ e s', error e s' → error' e s') :
    Ends s x ok' error' := by
  cases hx : x s with
  | ok a s' => exact of_eq_ok hx (hok a s' (h.ok_of hx))
  | error e s' => exact of_eq_error hx (herror e s' (h.error_of hx))

theorem trivial (s : σ) (x : EStateM ε σ α) : Ends s x (fun _ _ => True) fun _ _ => True := by
  cases hx : x s with
  | ok a s' => exact of_eq_ok hx True.intro
  | error e s' => exact of_eq_error hx True.intro

theorem and {ok' : α → σ → Prop} {error' : ε → σ → Prop} (h : Ends s x ok error)
    (h' : Ends s x ok' error') :
    Ends s x (fun a s' => ok a s' ∧ ok' a s') fun e s' => error e s' ∧ error' e s' := by
  cases hx : x s with
  | ok a s' => exact of_eq_ok hx ⟨h.ok_of hx, h'.ok_of hx⟩
  | error e s' => exact of_eq_error hx ⟨h.error_of hx, h'.error_of hx⟩

theorem pure {a : α} (h : ok a s) : Ends s (Pure.pure a : EStateM ε σ α) ok error := h

theorem throw {e : ε} (h : error e s) : Ends s (MonadExcept.throw e : EStateM ε σ α) ok error := h

theorem bind {f : α → EStateM ε σ β} {mid : α → σ → Prop} {ok : β → σ → Prop}
    (hx : Ends s x mid error) (hf : ∀ a s', mid a s' → Ends s' (f a) ok error) :
    Ends s (x >>= f) ok error := by
  cases hxs : x s with
  | ok a s' =>
      have hfa := hf a s' (hx.ok_of hxs)
      rw [Ends, bind_of_ok hxs]
      exact hfa
  | error e s' => exact of_eq_error (bind_of_error hxs) (hx.error_of hxs)

theorem bind_of_ok {f : α → EStateM ε σ β} {ok : β → σ → Prop} {a : α} {s' : σ}
    (hx : x s = .ok a s') (hf : Ends s' (f a) ok error) : Ends s (x >>= f) ok error := by
  rw [Ends, EStateM.bind_of_ok hx]
  exact hf

theorem bind_of_error {f : α → EStateM ε σ β} {ok : β → σ → Prop} {e : ε} {s' : σ}
    (hx : x s = .error e s') (h : error e s') : Ends s (x >>= f) ok error :=
  of_eq_error (EStateM.bind_of_error hx) h

theorem get_bind {f : σ → EStateM ε σ β} {ok : β → σ → Prop} (h : Ends s (f s) ok error) :
    Ends s (MonadState.get >>= f) ok error := h

theorem modify {f : σ → σ} {ok : PUnit → σ → Prop} (h : ok PUnit.unit (f s)) :
    Ends s (modify f : EStateM ε σ PUnit) ok error := h

theorem tryCatch {handle : ε → EStateM ε σ α} {fails : ε → σ → Prop} (hx : Ends s x ok fails)
    (hhandle : ∀ e s', fails e s' → Ends s' (handle e) ok error) :
    Ends s (MonadExcept.tryCatch x handle) ok error := by
  cases hxs : x s with
  | ok a s' =>
      have hrun : (MonadExcept.tryCatch x handle : EStateM ε σ α) s = .ok a s' := by
        rw [tryCatch_apply, hxs]
      exact of_eq_ok hrun (hx.ok_of hxs)
  | error e s' =>
      have hrun : (MonadExcept.tryCatch x handle : EStateM ε σ α) s = handle e s' := by
        rw [tryCatch_apply, hxs]
      rw [Ends, hrun]
      exact hhandle e s' (hx.error_of hxs)

end Ends

/-! ## Checks -/

/-- `if (condition) throw error`. -/
def throwIf (c : Prop) [Decidable c] (e : ε) : EStateM ε σ Unit := if c then throw e else pure ()

namespace Ends

variable {s : σ} {ok : β → σ → Prop} {error : ε → σ → Prop}

theorem throwIf_bind {c : Prop} [Decidable c] {e : ε} {f : Unit → EStateM ε σ β}
    (herror : c → error e s) (hok : ¬ c → Ends s (f ()) ok error) :
    Ends s (throwIf c e >>= f) ok error := by
  unfold throwIf
  split
  · rename_i h
    exact bind_of_error rfl (herror h)
  · rename_i h
    exact bind_of_ok rfl (hok h)

theorem ofExcept_bind {x : Except ε α} {f : α → EStateM ε σ β}
    (herror : ∀ e, x = .error e → error e s) (hok : ∀ a, x = .ok a → Ends s (f a) ok error) :
    Ends s (ofExcept x >>= f) ok error := by
  rcases x with e | a
  · exact bind_of_error rfl (herror e rfl)
  · exact bind_of_ok rfl (hok a rfl)

theorem modify_bind {g : σ → σ} {f : PUnit → EStateM ε σ β}
    (h : Ends (g s) (f PUnit.unit) ok error) :
    Ends s ((MonadStateOf.modifyGet fun s => (PUnit.unit, g s)) >>= f) ok error := h

end Ends

/-- Every successful run of `x` from `s` ends in a state related to `s` by `R`. -/
def RunsFrom (R : σ → σ → Prop) (s : σ) (x : EStateM ε σ α) : Prop :=
  ∀ s' a, x s = .ok a s' → R s s'

namespace RunsFrom

variable {R : σ → σ → Prop} {s : σ}

theorem pure (refl : ∀ s, R s s) (a : α) : RunsFrom R s (Pure.pure a : EStateM ε σ α) := by
  intro s' b run
  obtain ⟨-, rfl⟩ := pure_eq_ok_iff.mp run
  exact refl s

theorem throw (e : ε) : RunsFrom R s (MonadExcept.throw e : EStateM ε σ α) :=
  fun _ _ run => (throw_eq_ok_iff.mp run).elim

theorem throw_bind (e : ε) (f : α → EStateM ε σ β) :
    RunsFrom R s ((MonadExcept.throw e : EStateM ε σ α) >>= f) := by
  intro s' b run
  obtain ⟨_, _, hthrow, -⟩ := bind_eq_ok_iff.mp run
  exact (throw_eq_ok_iff.mp hthrow).elim

theorem set {t : σ} (h : R s t) : RunsFrom R s (MonadStateOf.set t : EStateM ε σ PUnit) := by
  intro s' u run
  cases set_eq_ok_iff.mp run
  exact h

theorem modify {f : σ → σ} (h : R s (f s)) :
    RunsFrom R s (MonadStateOf.modifyGet fun s => (PUnit.unit, f s) : EStateM ε σ PUnit) := by
  intro s' u run
  cases modify_eq_ok_iff.mp run
  exact h

theorem bind (trans : ∀ a b c, R a b → R b c → R a c) {x : EStateM ε σ α}
    {f : α → EStateM ε σ β} (hx : RunsFrom R s x) (hf : ∀ a s', RunsFrom R s' (f a)) :
    RunsFrom R s (x >>= f) := by
  intro s'' b run
  obtain ⟨a, s', hxs, hfs⟩ := bind_eq_ok_iff.mp run
  exact trans _ _ _ (hx s' a hxs) (hf a s' s'' b hfs)

theorem modify_bind (trans : ∀ a b c, R a b → R b c → R a c) {g : σ → σ}
    {f : PUnit → EStateM ε σ β} (hg : R s (g s)) (hf : RunsFrom R (g s) (f PUnit.unit)) :
    RunsFrom R s ((MonadStateOf.modifyGet fun s => (PUnit.unit, g s)) >>= f) := by
  intro s'' b run
  obtain ⟨_, s', hmodify, run⟩ := bind_eq_ok_iff.mp run
  cases modify_eq_ok_iff.mp hmodify
  exact trans _ _ _ hg (hf s'' b run)

/-- The second part may use what the first is known to do. -/
theorem bind_rel (trans : ∀ a b c, R a b → R b c → R a c) {x : EStateM ε σ α}
    {f : α → EStateM ε σ β} (hx : RunsFrom R s x)
    (hf : ∀ a s', x s = .ok a s' → R s s' → RunsFrom R s' (f a)) : RunsFrom R s (x >>= f) := by
  intro s'' b run
  obtain ⟨a, s', hxs, hfs⟩ := bind_eq_ok_iff.mp run
  exact trans _ _ _ (hx s' a hxs) (hf a s' hxs (hx s' a hxs) s'' b hfs)

/-- Reading the state hands the program the state it runs from. -/
theorem get_bind {f : σ → EStateM ε σ β} (h : RunsFrom R s (f s)) :
    RunsFrom R s (MonadState.get >>= f) := by
  intro s' b run
  rw [bind_of_ok (get_eq_ok_iff.mpr ⟨rfl, rfl⟩)] at run
  exact h s' b run

end RunsFrom

/-! ## One program matched by another -/

/-- From every state, `y` has the successful runs of `x`, with results related by `Q`,
and its runs that end in an error of `E`. -/
def Matches (E : ε → Prop) (Q : α → β → Prop) (x : EStateM ε σ α) (y : EStateM ε σ β) : Prop :=
  ∀ s, match x s with
    | .ok a s' => ∃ b, y s = .ok b s' ∧ Q a b
    | .error e s' => E e → y s = .error e s'

namespace Matches

variable {E : ε → Prop} {γ δ : Type}

theorem refl {Q : α → α → Prop} (hQ : ∀ a, Q a a) (x : EStateM ε σ α) : Matches E Q x x := by
  intro s
  cases x s with
  | ok a s' => exact ⟨a, rfl, hQ a⟩
  | error e s' => exact fun _ => rfl

theorem pure {Q : α → β → Prop} {a : α} {b : β} (h : Q a b) :
    Matches E Q (Pure.pure a : EStateM ε σ α) (Pure.pure b) :=
  fun _ => ⟨b, rfl, h⟩

/-- What fails with an error that does not count is matched by anything. -/
theorem throw {Q : α → β → Prop} {e : ε} (h : ¬ E e) (y : EStateM ε σ β) :
    Matches E Q (MonadExcept.throw e) y :=
  fun _ he => (h he).elim

theorem mono {Q Q' : α → β → Prop} {x : EStateM ε σ α} {y : EStateM ε σ β}
    (h : Matches E Q x y) (hQ : ∀ a b, Q a b → Q' a b) : Matches E Q' x y := by
  intro s
  have hs := h s
  cases hx : x s with
  | ok a s' =>
      rw [hx] at hs
      rcases hs with ⟨b, hy, hab⟩
      exact ⟨b, hy, hQ a b hab⟩
  | error e s' =>
      rw [hx] at hs
      exact hs

theorem trans {Q : α → β → Prop} {Q' : β → γ → Prop} {Q'' : α → γ → Prop}
    {x : EStateM ε σ α} {y : EStateM ε σ β} {z : EStateM ε σ γ} (h : Matches E Q x y)
    (h' : Matches E Q' y z) (hQ : ∀ a b c, Q a b → Q' b c → Q'' a c) : Matches E Q'' x z := by
  intro s
  have hs := h s
  have hs' := h' s
  cases hx : x s with
  | ok a s' =>
      rw [hx] at hs
      rcases hs with ⟨b, hy, hab⟩
      rw [hy] at hs'
      rcases hs' with ⟨c, hz, hbc⟩
      exact ⟨c, hz, hQ a b c hab hbc⟩
  | error e s' =>
      rw [hx] at hs
      intro he
      rw [hs he] at hs'
      exact hs' he

theorem bind {Q : α → β → Prop} {Q' : γ → δ → Prop} {x : EStateM ε σ α} {y : EStateM ε σ β}
    {f : α → EStateM ε σ γ} {g : β → EStateM ε σ δ} (h : Matches E Q x y)
    (hfg : ∀ a b, Q a b → Matches E Q' (f a) (g b)) : Matches E Q' (x >>= f) (y >>= g) := by
  intro s
  have hs := h s
  rw [bind_apply, bind_apply]
  cases hx : x s with
  | ok a s' =>
      rw [hx] at hs
      rcases hs with ⟨b, hy, hab⟩
      rw [hy]
      exact hfg a b hab s'
  | error e s' =>
      rw [hx] at hs
      intro he
      rw [hs he]

end Matches

end EStateM
