import HuaDB.Lib.Exec
import Mathlib.Data.List.Forall2

/-!
`mapM` and `filterMapM` over a list, in `Except`: they succeed if every round does
(`mapM_eq_ok`, `filterMapM_eq_ok`) and only then (`exists_ok_of_mapM`, `exists_ok_of_filterMapM`),
and what they give comes from a round each (`exists_of_mem_mapM`, `exists_of_mem_filterMapM`).
With a state that the rounds keep, `mapM` relates each element to its result
(`StateT.forall₂_of_mapM`).
-/

/-- An element of the second of two related lists is related to one of the first. -/
theorem List.Forall₂.exists_of_mem_right {α β : Type} {R : α → β → Prop} {as : List α}
    {bs : List β} (h : List.Forall₂ R as bs) {b : β} (hb : b ∈ bs) : ∃ a ∈ as, R a b := by
  induction h with
  | nil => cases hb
  | cons hab _ ih =>
      rcases List.mem_cons.mp hb with rfl | hb
      · exact ⟨_, List.mem_cons_self, hab⟩
      · obtain ⟨a, ha, hR⟩ := ih hb
        exact ⟨a, List.mem_cons_of_mem _ ha, hR⟩

namespace Except

variable {ε α β : Type} {as : List α} {bs : List β}

theorem mapM_eq_ok {f : α → Except ε β} {g : α → β} (h : ∀ a ∈ as, f a = .ok (g a)) :
    as.mapM f = .ok (as.map g) := by
  induction as with
  | nil => rfl
  | cons a as ih =>
      rw [List.mapM_cons, h a List.mem_cons_self, ih fun a' ha' => h a' (List.mem_cons_of_mem _ ha')]
      rfl

theorem filterMapM_eq_ok {f : α → Except ε (Option β)} {g : α → Option β}
    (h : ∀ a ∈ as, f a = .ok (g a)) : as.filterMapM f = .ok (as.filterMap g) := by
  induction as with
  | nil => rfl
  | cons a as ih =>
      rw [List.filterMapM_cons, h a List.mem_cons_self,
        ih fun a' ha' => h a' (List.mem_cons_of_mem _ ha'), List.filterMap_cons]
      cases g a <;> rfl

/-- The first round and the others. -/
theorem mapM_cons_eq_ok {f : α → Except ε β} {a : α} (h : (a :: as).mapM f = .ok bs) :
    ∃ b rest, f a = .ok b ∧ as.mapM f = .ok rest ∧ bs = b :: rest := by
  rw [List.mapM_cons] at h
  rcases bind_eq_ok_iff.mp h with ⟨b, hb, h⟩
  rcases bind_eq_ok_iff.mp h with ⟨rest, hrest, h⟩
  cases h
  exact ⟨b, rest, hb, hrest, rfl⟩

theorem filterMapM_cons_eq_ok {f : α → Except ε (Option β)} {a : α}
    (h : (a :: as).filterMapM f = .ok bs) :
    ∃ found rest, f a = .ok found ∧ as.filterMapM f = .ok rest ∧ bs = found.toList ++ rest := by
  rw [List.filterMapM_cons] at h
  rcases bind_eq_ok_iff.mp h with ⟨found, hfound, h⟩
  cases found with
  | none => exact ⟨none, bs, hfound, h, rfl⟩
  | some b =>
      rcases bind_eq_ok_iff.mp h with ⟨rest, hrest, h⟩
      cases h
      exact ⟨some b, rest, hfound, hrest, rfl⟩

theorem exists_ok_of_mapM {f : α → Except ε β} (h : as.mapM f = .ok bs) :
    ∀ a ∈ as, ∃ b, f a = .ok b := by
  induction as generalizing bs with
  | nil => exact fun a ha => (List.not_mem_nil ha).elim
  | cons a as ih =>
      rcases mapM_cons_eq_ok h with ⟨b, rest, hb, hrest, -⟩
      exact List.forall_mem_cons.mpr ⟨⟨b, hb⟩, ih hrest⟩

theorem exists_ok_of_filterMapM {f : α → Except ε (Option β)} (h : as.filterMapM f = .ok bs) :
    ∀ a ∈ as, ∃ found, f a = .ok found := by
  induction as generalizing bs with
  | nil => exact fun a ha => (List.not_mem_nil ha).elim
  | cons a as ih =>
      rcases filterMapM_cons_eq_ok h with ⟨found, rest, hfound, hrest, -⟩
      exact List.forall_mem_cons.mpr ⟨⟨found, hfound⟩, ih hrest⟩

theorem exists_of_mem_mapM {f : α → Except ε β} (h : as.mapM f = .ok bs) :
    ∀ b ∈ bs, ∃ a ∈ as, f a = .ok b := by
  induction as generalizing bs with
  | nil =>
      cases h
      exact fun b hb => (List.not_mem_nil hb).elim
  | cons a as ih =>
      rcases mapM_cons_eq_ok h with ⟨b, rest, hb, hrest, rfl⟩
      refine List.forall_mem_cons.mpr ⟨⟨a, List.mem_cons_self, hb⟩, fun b' hb' => ?_⟩
      rcases ih hrest b' hb' with ⟨a', ha', hf⟩
      exact ⟨a', List.mem_cons_of_mem _ ha', hf⟩

/-- What every round keeps is kept in order. -/
theorem map_eq_of_mapM {γ : Type} {f : α → Except ε β} {g : α → γ} {g' : β → γ}
    (h : as.mapM f = .ok bs) (hf : ∀ a ∈ as, ∀ b, f a = .ok b → g' b = g a) :
    bs.map g' = as.map g := by
  induction as generalizing bs with
  | nil =>
      cases h
      rfl
  | cons a as ih =>
      obtain ⟨hhead, htail⟩ := List.forall_mem_cons.mp hf
      rcases mapM_cons_eq_ok h with ⟨b, rest, hb, hrest, rfl⟩
      rw [List.map_cons, List.map_cons, hhead b hb, ih hrest htail]

theorem exists_of_mem_filterMapM {f : α → Except ε (Option β)} (h : as.filterMapM f = .ok bs) :
    ∀ b ∈ bs, ∃ a ∈ as, f a = .ok (some b) := by
  induction as generalizing bs with
  | nil =>
      cases h
      exact fun b hb => (List.not_mem_nil hb).elim
  | cons a as ih =>
      rcases filterMapM_cons_eq_ok h with ⟨found, rest, hfound, hrest, rfl⟩
      intro b hb
      rcases List.mem_append.mp hb with hb | hb
      · rw [Option.mem_toList.mp hb] at hfound
        exact ⟨a, List.mem_cons_self, hfound⟩
      · rcases ih hrest b hb with ⟨a', ha', hf⟩
        exact ⟨a', List.mem_cons_of_mem _ ha', hf⟩

end Except

namespace StateT

variable {ε σ α β : Type} {s : σ}

/-- A loop whose rounds keep the state, and relate each element to its result. -/
theorem forall₂_of_mapM {f : α → StateT σ (Except ε) β} {R : α → β → Prop} {as : List α}
    {bs : List β} {s' : σ}
    (hround : ∀ a ∈ as, ∀ b s', f a s = .ok (b, s') → s' = s ∧ R a b)
    (h : as.mapM f s = .ok (bs, s')) : s' = s ∧ List.Forall₂ R as bs := by
  induction as generalizing bs s' with
  | nil =>
      cases h
      exact ⟨rfl, .nil⟩
  | cons a as ih =>
      obtain ⟨hhead, htail⟩ := List.forall_mem_cons.mp hround
      rw [List.mapM_cons, bind_eq_ok_iff] at h
      obtain ⟨b, t, hb, h⟩ := h
      obtain ⟨ht, hab⟩ := hhead b t hb
      subst t
      rw [bind_eq_ok_iff] at h
      obtain ⟨rest, t, hrest, h⟩ := h
      obtain ⟨ht, hall⟩ := ih htail hrest
      subst t
      cases h
      exact ⟨rfl, .cons hab hall⟩

end StateT
