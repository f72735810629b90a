import Mathlib.Data.Finset.Max
import Mathlib.Data.List.Basic

/-!
Two sorted lists and the pairs with equal keys in them.

A merge goes from one common key to the next: from a left key to the first right key that
is not below it, from there to the first left key that is not below that one, and takes it
for granted that the two are equal. `Meets` says of the keys alone when that is so at every
turn. It is decided turn by turn (`not_meets_of_below`, `meets_of_above`, `not_meets_of_not_mem`,
`meets_iff_above`), as the pairs are (`equiJoin_eq_append`).
-/

namespace MergeJoin

variable {α β γ κ : Type} [LinearOrder κ]

/-! ## Sorted lists -/

section Sorted

variable {p : α → Bool} {as : List α}

/-- A test that holds from the front of the list on, and then no longer. -/
theorem takeWhile_eq_filter (h : as.Pairwise fun a b => p b = true → p a = true) :
    as.takeWhile p = as.filter p := by
  induction as with
  | nil => rfl
  | cons a as ih =>
      rcases List.pairwise_cons.mp h with ⟨ha, has⟩
      cases hp : p a with
      | true => rw [List.takeWhile_cons_of_pos hp, List.filter_cons_of_pos hp, ih has]
      | false =>
          have hnone : as.filter p = [] := by
            apply List.filter_eq_nil_iff.mpr
            intro b hb hpb
            rw [ha b hb hpb] at hp
            cases hp
          rw [List.takeWhile_cons_of_neg (by simp [hp]), List.filter_cons_of_neg (by simp [hp]),
            hnone]

theorem dropWhile_eq_filter (h : as.Pairwise fun a b => p b = true → p a = true) :
    as.dropWhile p = as.filter fun a => !p a := by
  induction as with
  | nil => rfl
  | cons a as ih =>
      rcases List.pairwise_cons.mp h with ⟨ha, has⟩
      cases hp : p a with
      | true => rw [List.dropWhile_cons_of_pos hp, List.filter_cons_of_neg (by simp [hp]), ih has]
      | false =>
          have hall : (a :: as).filter (fun a => !p a) = a :: as := by
            apply List.filter_eq_self.mpr
            intro b hb
            rcases List.mem_cons.mp hb with rfl | hb
            · simp [hp]
            · cases hpb : p b with
              | false => rfl
              | true =>
                  rw [ha b hb hpb] at hp
                  cases hp
          rw [List.dropWhile_cons_of_neg (by simp [hp]), hall]

variable {h : α → κ} {b : κ}

/-- A list sorted by a key, from a key on. -/
theorem dropWhile_lt (sorted : as.Pairwise fun a a' => h a ≤ h a') :
    as.dropWhile (fun a => h a < b) = as.filter fun a => b ≤ h a := by
  rw [dropWhile_eq_filter]
  · simp only [← decide_not, not_lt]
  · apply sorted.imp
    intro a a' hle hlt
    exact decide_eq_true (hle.trans_lt (of_decide_eq_true hlt))

/-- The first record from a key on has the least key there. -/
theorem of_filter_le_eq_cons {s : α} {ss : List α} (sorted : as.Pairwise fun a a' => h a ≤ h a')
    (hss : (as.filter fun a => b ≤ h a) = s :: ss) :
    s ∈ as ∧ b ≤ h s ∧ ∀ a ∈ as, b ≤ h a → h s ≤ h a := by
  have hs : s ∈ as.filter fun a => b ≤ h a := hss ▸ List.mem_cons_self
  rcases List.mem_filter.mp hs with ⟨hmem, hle⟩
  refine ⟨hmem, of_decide_eq_true hle, fun a ha hle => ?_⟩
  have hsorted : (s :: ss).Pairwise fun a a' => h a ≤ h a' := hss ▸ sorted.filter _
  have hmema : a ∈ s :: ss := hss ▸ List.mem_filter.mpr ⟨ha, decide_eq_true hle⟩
  rcases List.mem_cons.mp hmema with rfl | hmema
  · exact le_rfl
  · exact (List.pairwise_cons.mp hsorted).1 a hmema

theorem pairwise_eq_of_le (sorted : as.Pairwise fun a a' => h a ≤ h a') :
    (as.filter fun a => b ≤ h a).Pairwise
      fun a a' => decide (h a' = b) = true → decide (h a = b) = true := by
  apply (List.pairwise_filter.mpr (sorted.imp fun hle hb _ => (⟨hle, hb⟩ : _ ∧ _))).imp
  rintro a a' ⟨hle, hb⟩ heq
  rw [of_decide_eq_true heq] at hle
  exact decide_eq_true (le_antisymm hle (of_decide_eq_true hb))

/-- The run of one key at the front. -/
theorem takeWhile_eq (sorted : as.Pairwise fun a a' => h a ≤ h a') :
    (as.filter fun a => b ≤ h a).takeWhile (fun a => h a = b) = as.filter fun a => h a = b := by
  rw [takeWhile_eq_filter (pairwise_eq_of_le sorted), List.filter_filter]
  apply List.filter_congr
  intro a _
  by_cases heq : h a = b
  · simp [heq]
  · simp [heq]

/-- What follows the run of one key. -/
theorem dropWhile_eq (sorted : as.Pairwise fun a a' => h a ≤ h a') :
    (as.filter fun a => b ≤ h a).dropWhile (fun a => h a = b) = as.filter fun a => b < h a := by
  rw [dropWhile_eq_filter (pairwise_eq_of_le sorted), List.filter_filter]
  apply List.filter_congr
  intro a _
  rw [← decide_not, ← Bool.decide_and, decide_eq_decide]
  exact ⟨fun hboth => lt_of_le_of_ne hboth.2 (Ne.symm hboth.1), fun hlt => ⟨hlt.ne', hlt.le⟩⟩

end Sorted

/-! ## The keys of a merge -/

/-- Every right key that is no left key and has left keys above it has right keys above it
as well, and the last left key below it, if there is one, is a right key. -/
def Meets (ls rs : List κ) : Prop :=
  ∀ b ∈ rs, b ∉ ls → (∃ c ∈ ls, b < c) →
    (∃ d ∈ rs, b < d) ∧ ∀ a ∈ ls, a < b → (∀ a' ∈ ls, a' < b → a' ≤ a) → a ∈ rs

instance (ls rs : List κ) : Decidable (Meets ls rs) :=
  inferInstanceAs (Decidable (∀ b ∈ rs, b ∉ ls → (∃ c ∈ ls, b < c) →
    (∃ d ∈ rs, b < d) ∧ ∀ a ∈ ls, a < b → (∀ a' ∈ ls, a' < b → a' ≤ a) → a ∈ rs))

/-- What is left when all up to a key has been merged. -/
def above (b : κ) (keys : List κ) : List κ := keys.filter (b < ·)

section Meets

variable {ls rs : List κ} {a b : κ}

theorem mem_above {k : κ} {keys : List κ} : k ∈ above b keys ↔ k ∈ keys ∧ b < k := by
  simp [above]

theorem above_map (h : α → κ) (as : List α) :
    above b (as.map h) = (as.filter fun a => b < h a).map h := List.filter_map

theorem meets_nil_left (rs : List κ) : Meets [] rs := by
  rintro b - - ⟨c, hc, -⟩
  cases hc

theorem meets_nil_right (ls : List κ) : Meets ls [] := by
  intro b hb
  cases hb

theorem exists_greatest {keys : List κ} (h : keys ≠ []) : ∃ m ∈ keys, ∀ k ∈ keys, k ≤ m := by
  have hne : keys.toFinset.Nonempty := List.toFinset_nonempty_iff keys |>.mpr h
  refine ⟨keys.toFinset.max' hne, List.mem_toFinset.mp (Finset.max'_mem _ hne), fun k hk => ?_⟩
  exact Finset.le_max' _ k (List.mem_toFinset.mpr hk)

/-- The right list ends below the first left key. -/
theorem not_meets_of_below (ha : a ∈ ls) (hfirst : ∀ k ∈ ls, a ≤ k) (hrs : rs ≠ [])
    (hbelow : ∀ k ∈ rs, k < a) : ¬ Meets ls rs := by
  rcases exists_greatest hrs with ⟨b, hb, hgreatest⟩
  intro h
  have hnot : b ∉ ls := fun hmem => absurd (hbelow b hb) (not_lt.mpr (hfirst b hmem))
  rcases (h b hb hnot ⟨a, ha, hbelow b hb⟩).1 with ⟨d, hd, hlt⟩
  exact absurd (hgreatest d hd) (not_le.mpr hlt)

/-- The left list ends below the first right key that is not below the first left one. -/
theorem meets_of_above (hfirst : ∀ k ∈ ls, a ≤ k) (hb : b ∈ rs)
    (hnext : ∀ k ∈ rs, a ≤ k → b ≤ k) (hbelow : ∀ k ∈ ls, k < b) : Meets ls rs := by
  rintro k hk hnot ⟨c, hc, hlt⟩
  have hkb : k < b := hlt.trans (hbelow c hc)
  refine ⟨⟨b, hb, hkb⟩, fun a' ha' hlt' _ => ?_⟩
  have hle : b ≤ k := hnext k hk ((hfirst a' ha').trans hlt'.le)
  exact absurd hkb (not_lt.mpr hle)

/-- Left keys go on above that right key without being equal to it. -/
theorem not_meets_of_not_mem (ha : a ∈ ls) (hb : b ∈ rs) (hab : a ≤ b)
    (hnext : ∀ k ∈ rs, a ≤ k → b ≤ k) (hnot : b ∉ ls) {c : κ} (hc : c ∈ ls) (hbc : b < c) :
    ¬ Meets ls rs := by
  intro h
  have hlt : a < b := lt_of_le_of_ne hab fun heq => hnot (heq ▸ ha)
  have hmem : a ∈ ls.filter (· < b) := List.mem_filter.mpr ⟨ha, decide_eq_true hlt⟩
  rcases exists_greatest (List.ne_nil_of_mem hmem) with ⟨m, hm, hgreatest⟩
  rcases List.mem_filter.mp hm with ⟨hml, hmb⟩
  have hmr : m ∈ rs := by
    apply (h b hb hnot ⟨c, hc, hbc⟩).2 m hml (of_decide_eq_true hmb)
    intro a' ha' hlt'
    exact hgreatest a' (List.mem_filter.mpr ⟨ha', decide_eq_true hlt'⟩)
  exact absurd (hnext m hmr (hgreatest a hmem)) (not_le.mpr (of_decide_eq_true hmb))

/-- From a common key on, only what is above it matters. -/
theorem meets_iff_above (hfirst : ∀ k ∈ ls, a ≤ k) (hbl : b ∈ ls) (hbr : b ∈ rs)
    (hnext : ∀ k ∈ rs, a ≤ k → b ≤ k) : Meets ls rs ↔ Meets (above b ls) (above b rs) := by
  constructor
  · rintro h k hk hnot ⟨c, hc, hlt⟩
    rcases mem_above.mp hk with ⟨hkr, hbk⟩
    rcases mem_above.mp hc with ⟨hcl, -⟩
    have hnotl : k ∉ ls := fun hmem => hnot (mem_above.mpr ⟨hmem, hbk⟩)
    rcases h k hkr hnotl ⟨c, hcl, hlt⟩ with ⟨⟨d, hd, hkd⟩, hlast⟩
    refine ⟨⟨d, mem_above.mpr ⟨hd, hbk.trans hkd⟩, hkd⟩, fun a' ha' hlt' hgreatest => ?_⟩
    rcases mem_above.mp ha' with ⟨hal, hba⟩
    refine mem_above.mpr ⟨hlast a' hal hlt' fun a'' ha'' hlt'' => ?_, hba⟩
    rcases lt_or_ge b a'' with hb | hb
    · exact hgreatest a'' (mem_above.mpr ⟨ha'', hb⟩) hlt''
    · exact hb.trans hba.le
  · rintro h k hk hnot ⟨c, hc, hlt⟩
    rcases lt_trichotomy k b with hkb | rfl | hbk
    · refine ⟨⟨b, hbr, hkb⟩, fun a' ha' hlt' _ => ?_⟩
      have hle : b ≤ k := hnext k hk ((hfirst a' ha').trans hlt'.le)
      exact absurd hkb (not_lt.mpr hle)
    · exact absurd hbl hnot
    · have hnota : k ∉ above b ls := fun hmem => hnot (mem_above.mp hmem).1
      rcases h k (mem_above.mpr ⟨hk, hbk⟩) hnota ⟨c, mem_above.mpr ⟨hc, hbk.trans hlt⟩, hlt⟩
        with ⟨⟨d, hd, hkd⟩, hlast⟩
      refine ⟨⟨d, (mem_above.mp hd).1, hkd⟩, fun a' ha' hlt' hgreatest => ?_⟩
      rcases eq_or_lt_of_le (hgreatest b hbl hbk) with rfl | hba
      · exact hbr
      · refine (mem_above.mp (hlast a' (mem_above.mpr ⟨ha', hba⟩) hlt' ?_)).1
        exact fun a'' ha'' => hgreatest a'' (mem_above.mp ha'').1

end Meets

/-! ## The pairs of a merge -/

section Pairs

variable (f : α → κ) (g : β → κ) (join : α → β → γ)

/-- The pairs with equal keys, by rows. -/
def equiJoin (as : List α) (bs : List β) : List γ :=
  as.flatMap fun a => (bs.filter fun b => f a = g b).map (join a)

variable {f g join} {as : List α} {bs : List β} {k : κ}

theorem equiJoin_eq_nil (h : ∀ a ∈ as, ∀ b ∈ bs, f a ≠ g b) : equiJoin f g join as bs = [] := by
  apply List.flatMap_eq_nil_iff.mpr
  intro a ha
  apply List.map_eq_nil_iff.mpr
  apply List.filter_eq_nil_iff.mpr
  intro b hb heq
  exact h a ha b hb (of_decide_eq_true heq)

/-- The pairs come one key after another. -/
theorem equiJoin_eq_append (hsorted : as.Pairwise fun a a' => f a ≤ f a')
    (hbelow : ∀ a ∈ as, f a < k → ∀ b ∈ bs, f a ≠ g b) :
    equiJoin f g join as bs =
      (as.filter fun a => f a = k).flatMap
          (fun a => (bs.filter fun b => g b = k).map (join a)) ++
        equiJoin f g join (as.filter fun a => k < f a) (bs.filter fun b => k < g b) := by
  induction as with
  | nil => rfl
  | cons a as ih =>
      rcases List.pairwise_cons.mp hsorted with ⟨ha, has⟩
      have ih := ih has fun a' ha' => hbelow a' (List.mem_cons_of_mem _ ha')
      have hcons : ∀ as : List α, equiJoin f g join (a :: as) bs =
          (bs.filter fun b => f a = g b).map (join a) ++ equiJoin f g join as bs := fun _ => rfl
      rw [hcons, ih]
      rcases lt_trichotomy (f a) k with hlt | heq | hgt
      · have hnone : (bs.filter fun b => f a = g b) = [] := by
          apply List.filter_eq_nil_iff.mpr
          intro b hb heq
          exact hbelow a List.mem_cons_self hlt b hb (of_decide_eq_true heq)
        rw [hnone, List.filter_cons_of_neg (by simp [hlt.ne]),
          List.filter_cons_of_neg (by simp [hlt.le])]
        rfl
      · have hsame : (bs.filter fun b => f a = g b) = bs.filter fun b => g b = k := by
          simp only [heq, eq_comm]
        rw [hsame, List.filter_cons_of_pos (by simp [heq]),
          List.filter_cons_of_neg (by simp [heq]), List.flatMap_cons, List.append_assoc]
      · have hnone : (as.filter fun a => f a = k) = [] := by
          apply List.filter_eq_nil_iff.mpr
          intro a' ha' heq
          rw [← of_decide_eq_true heq] at hgt
          exact absurd (ha a' ha') (not_le.mpr hgt)
        have hsame : (bs.filter fun b => f a = g b) =
            (bs.filter fun b => k < g b).filter fun b => f a = g b := by
          rw [List.filter_filter]
          apply List.filter_congr
          intro b _
          by_cases heq : f a = g b
          · have hgb : k < g b := heq ▸ hgt
            simp [heq, hgb]
          · simp [heq]
        rw [hsame, List.filter_cons_of_neg (by simp [hgt.ne']),
          List.filter_cons_of_pos (by simp [hgt]), hnone]
        rfl

end Pairs

end MergeJoin
