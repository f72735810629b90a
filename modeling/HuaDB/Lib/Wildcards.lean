import Mathlib.Data.List.Basic

/-!
Matching with wildcards, over any alphabet.

A pattern is a list of letters and wildcards, of which one matches a letter and the other a
sequence of letters; what letters they match is a parameter. Two facts relate two such
matchings: wildcards that pass some letters by (`matches_avoid_iff`), and a pattern that is
matched on the codes of its letters (`matches_encode_iff`).
-/

namespace Wildcards

variable {α β : Type}

inductive Wildcard (α : Type) where
  | many
  | one
  | lit (a : α)
deriving DecidableEq, Repr

namespace Wildcard

def literal? : Wildcard α → Option α
  | lit a => some a
  | _ => none

end Wildcard

/-- The letters of a pattern. -/
def literals (ws : List (Wildcard α)) : List α := ws.filterMap Wildcard.literal?

/-- A list splits into what the parts of a pattern match. -/
inductive Matches (admits : α → Prop) : List (Wildcard α) → List α → Prop
  | nil : Matches admits [] []
  | many {ws : List (Wildcard α)} {bs : List α} (as : List α) (has : ∀ a ∈ as, admits a)
      (h : Matches admits ws bs) : Matches admits (.many :: ws) (as ++ bs)
  | one {ws : List (Wildcard α)} {a : α} {bs : List α} (ha : admits a)
      (h : Matches admits ws bs) : Matches admits (.one :: ws) (a :: bs)
  | lit {ws : List (Wildcard α)} {bs : List α} (a : α) (h : Matches admits ws bs) :
      Matches admits (.lit a :: ws) (a :: bs)

namespace Matches

variable {admits admits' : α → Prop} {ws : List (Wildcard α)} {as : List α}

theorem mono (hadmits : ∀ a, admits a → admits' a) (h : Matches admits ws as) :
    Matches admits' ws as := by
  induction h with
  | nil => exact nil
  | many as has h ih => exact many as (fun a ha => hadmits a (has a ha)) ih
  | one ha h ih => exact one (hadmits _ ha) ih
  | lit a h ih => exact lit a ih

/-- Letters of a kind stand in the list as often as in the pattern, and under wildcards. -/
theorem countP_le (h : Matches admits ws as) (p : α → Bool) :
    (literals ws).countP p ≤ as.countP p := by
  induction h with
  | nil => exact Nat.le_refl 0
  | many as has h ih =>
      rw [List.countP_append]
      exact Nat.le_add_left_of_le ih
  | one ha h ih =>
      rw [List.countP_cons]
      exact Nat.le_add_right_of_le ih
  | lit a h ih =>
      change (a :: literals _).countP p ≤ _
      rw [List.countP_cons, List.countP_cons]
      exact Nat.add_le_add_right ih _

end Matches

/-- Wildcards do not have to match any letter of a kind if and only if the list has no more of
them than the pattern. -/
theorem matches_avoid_iff {ws : List (Wildcard α)} {as : List α} (p : α → Bool) :
    Matches (fun a => p a = false) ws as ↔
      Matches (fun _ => True) ws as ∧ as.countP p ≤ (literals ws).countP p := by
  constructor
  · intro h
    refine ⟨h.mono fun _ _ => trivial, ?_⟩
    induction h with
    | nil => exact Nat.le_refl 0
    | many as has h ih =>
        have hnone : as.countP p = 0 :=
          List.countP_eq_zero.mpr fun a ha => ne_true_of_eq_false (has a ha)
        rw [List.countP_append, hnone, Nat.zero_add]
        exact ih
    | one ha h ih =>
        rw [List.countP_cons_of_neg (ne_true_of_eq_false ha)]
        exact ih
    | lit a h ih =>
        change _ ≤ (a :: literals _).countP p
        rw [List.countP_cons, List.countP_cons]
        exact Nat.add_le_add_right ih _
  · rintro ⟨h, hcount⟩
    induction h with
    | nil => exact .nil
    | @many ws bs as has h ih =>
        change _ ≤ (literals ws).countP p at hcount
        have hle := h.countP_le p
        rw [List.countP_append] at hcount
        have hnone : as.countP p = 0 := by omega
        refine .many as (fun a ha => ?_) (ih (by omega))
        exact eq_false_of_ne_true (List.countP_eq_zero.mp hnone a ha)
    | @one ws a bs ha h ih =>
        change _ ≤ (literals ws).countP p at hcount
        have hle := h.countP_le p
        rw [List.countP_cons] at hcount
        by_cases hp : p a = true
        · rw [if_pos hp] at hcount
          omega
        · exact .one (eq_false_of_ne_true hp) (ih (by omega))
    | lit a h ih =>
        change _ ≤ (a :: literals _).countP p at hcount
        rw [List.countP_cons, List.countP_cons] at hcount
        exact .lit a (ih (Nat.le_of_add_le_add_right hcount))

/-! ## Deciding a match -/

section Matcher

variable (admits : α → Bool)

/-- Some rest of a list is accepted, and a wildcard matches the letters before it. -/
def anyRest (accepts : List α → Bool) : List α → Bool
  | [] => accepts []
  | a :: as => accepts (a :: as) || (admits a && anyRest accepts as)

def matcher [DecidableEq α] : List (Wildcard α) → List α → Bool
  | [], as => as.isEmpty
  | .many :: ws, as => anyRest admits (matcher ws) as
  | .one :: ws, a :: as => admits a && matcher ws as
  | .lit b :: ws, a :: as => b = a && matcher ws as
  | .one :: _, [] | .lit _ :: _, [] => false

variable {admits}

theorem anyRest_iff {accepts : List α → Bool} {as : List α} :
    anyRest admits accepts as = true ↔
      ∃ bs cs, as = bs ++ cs ∧ (∀ b ∈ bs, admits b = true) ∧ accepts cs = true := by
  constructor
  · intro h
    induction as with
    | nil => exact ⟨[], [], rfl, fun b hb => (List.not_mem_nil hb).elim, h⟩
    | cons a as ih =>
        rw [anyRest, Bool.or_eq_true, Bool.and_eq_true] at h
        rcases h with h | ⟨ha, h⟩
        · exact ⟨[], a :: as, rfl, fun b hb => (List.not_mem_nil hb).elim, h⟩
        · rcases ih h with ⟨bs, cs, rfl, hbs, hcs⟩
          exact ⟨a :: bs, cs, rfl, List.forall_mem_cons.mpr ⟨ha, hbs⟩, hcs⟩
  · rintro ⟨bs, cs, rfl, hbs, hcs⟩
    induction bs with
    | nil => cases cs <;> simp [anyRest, hcs]
    | cons b bs ih =>
        rcases List.forall_mem_cons.mp hbs with ⟨hb, hbs⟩
        rw [List.cons_append, anyRest, hb, ih hbs, Bool.true_and, Bool.or_true]

theorem matcher_iff [DecidableEq α] {ws : List (Wildcard α)} {as : List α} :
    matcher admits ws as = true ↔ Matches (fun a => admits a = true) ws as := by
  induction ws generalizing as with
  | nil =>
      rw [matcher, List.isEmpty_iff]
      constructor
      · rintro rfl
        exact .nil
      · rintro ⟨⟩
        rfl
  | cons w ws ih =>
      cases w with
      | many =>
          rw [matcher, anyRest_iff]
          constructor
          · rintro ⟨bs, cs, rfl, hbs, hcs⟩
            exact .many bs hbs (ih.mp hcs)
          · intro h
            cases h with
            | many bs hbs h => exact ⟨bs, _, rfl, hbs, ih.mpr h⟩
      | one =>
          cases as with
          | nil => exact iff_of_false Bool.false_ne_true fun h => by cases h
          | cons a as =>
              rw [matcher, Bool.and_eq_true, ih]
              constructor
              · exact fun h => .one h.1 h.2
              · intro h
                cases h with
                | one ha h => exact ⟨ha, h⟩
      | lit b =>
          cases as with
          | nil => exact iff_of_false Bool.false_ne_true fun h => by cases h
          | cons a as =>
              rw [matcher, Bool.and_eq_true, decide_eq_true_iff, ih]
              constructor
              · rintro ⟨rfl, h⟩
                exact .lit b h
              · intro h
                cases h with
                | lit b h => exact ⟨rfl, h⟩

end Matcher

/-! ## Codes -/

/-- A code of letters by words: a word can be told from what follows it, and its first code unit
from the others. -/
structure IsCode (code : α → List β) (isTrail : β → Prop) : Prop where
  lead : ∀ a, ∃ b bs, code a = b :: bs ∧ ¬ isTrail b ∧ ∀ c ∈ bs, isTrail c
  cancel : ∀ {a a' bs bs'}, code a ++ bs = code a' ++ bs' → a = a' ∧ bs = bs'

/-- A part of a pattern, on codes. -/
def Wildcard.encode (code : α → List β) : Wildcard α → List (Wildcard β)
  | many => [many]
  | one => [one]
  | lit a => (code a).map lit

section Encode

variable {code : α → List β} {isTrail : β → Prop} {ws : List (Wildcard α)} {as : List α}

theorem literals_encode (ws : List (Wildcard α)) :
    literals (ws.flatMap (Wildcard.encode code)) = (literals ws).flatMap code := by
  have hlits : ∀ bs : List β, literals (bs.map .lit) = bs := by
    intro bs
    rw [literals, List.filterMap_map]
    exact List.filterMap_some
  induction ws with
  | nil => rfl
  | cons w ws ih =>
      rw [List.flatMap_cons, literals, List.filterMap_append]
      cases w with
      | many => exact ih
      | one => exact ih
      | lit a =>
          change literals ((code a).map .lit) ++ literals (ws.flatMap (Wildcard.encode code)) =
            (a :: literals ws).flatMap code
          rw [hlits, ih, List.flatMap_cons]

theorem matches_lits_append {admits : β → Prop} {bs us : List β} {vs : List (Wildcard β)} :
    Matches admits (bs.map .lit ++ vs) us ↔ ∃ us', us = bs ++ us' ∧ Matches admits vs us' := by
  induction bs generalizing us with
  | nil => exact ⟨fun h => ⟨us, rfl, h⟩, fun ⟨us', hus, h⟩ => hus ▸ h⟩
  | cons b bs ih =>
      constructor
      · intro h
        cases h with
        | lit b h =>
            rcases ih.mp h with ⟨us', rfl, hrest⟩
            exact ⟨us', rfl, hrest⟩
      · rintro ⟨us', rfl, h⟩
        exact .lit b (ih.mpr ⟨us', rfl, h⟩)

theorem matches_encode (h : Matches (fun _ => True) ws as)
    (hone : .one ∈ ws → ∀ a ∈ as, ∃ b, code a = [b]) :
    Matches (fun _ => True) (ws.flatMap (Wildcard.encode code)) (as.flatMap code) := by
  induction h with
  | nil => exact .nil
  | many as has h ih =>
      rw [List.flatMap_append]
      refine .many _ (fun _ _ => trivial) (ih fun hmem a ha => ?_)
      exact hone (List.mem_cons_of_mem _ hmem) a (List.mem_append_right _ ha)
  | @one ws a as ha h ih =>
      rcases hone List.mem_cons_self a List.mem_cons_self with ⟨b, hb⟩
      rw [List.flatMap_cons, List.flatMap_cons, hb]
      refine .one trivial (ih fun hmem a ha => ?_)
      exact hone (List.mem_cons_of_mem _ hmem) a (List.mem_cons_of_mem _ ha)
  | lit a h ih =>
      refine matches_lits_append.mpr ⟨_, rfl, ih fun hmem a ha => ?_⟩
      exact hone (List.mem_cons_of_mem _ hmem) a (List.mem_cons_of_mem _ ha)

/-- A cut through the codes of letters leaves the rest of one code, and codes of letters. -/
theorem exists_cut (hcode : IsCode code isTrail) {us vs : List β} (h : as.flatMap code = us ++ vs) :
    ∃ as₁ as₂ trail, as = as₁ ++ as₂ ∧ vs = trail ++ as₂.flatMap code ∧
      (∀ b ∈ trail, isTrail b) ∧ ((∀ a ∈ as, ∃ b, code a = [b]) → trail = []) := by
  induction as generalizing us with
  | nil =>
      rcases List.append_eq_nil_iff.mp h.symm with ⟨-, rfl⟩
      exact ⟨[], [], [], rfl, rfl, fun b hb => (List.not_mem_nil hb).elim, fun _ => rfl⟩
  | cons a as ih =>
      rw [List.flatMap_cons] at h
      rcases List.append_eq_append_iff.mp h with ⟨ts, rfl, hrest⟩ | ⟨ts, ha, rfl⟩
      · rcases ih hrest with ⟨as₁, as₂, trail, rfl, rfl, htrail, hsingle⟩
        refine ⟨a :: as₁, as₂, trail, rfl, rfl, htrail, fun hall => hsingle fun a ha => ?_⟩
        exact hall a (List.mem_cons_of_mem _ ha)
      · rcases hcode.lead a with ⟨b, bs, hb, -, hbs⟩
        rcases us with - | ⟨u, us⟩
        · refine ⟨[], a :: as, [], rfl, ?_, fun b hb => (List.not_mem_nil hb).elim, fun _ => rfl⟩
          rw [List.flatMap_cons, ha]
          rfl
        · obtain ⟨rfl, rfl⟩ : b = u ∧ bs = us ++ ts := List.cons_eq_cons.mp (hb.symm.trans ha)
          refine ⟨[a], as, ts, rfl, rfl, fun c hc => hbs c (List.mem_append_right _ hc), ?_⟩
          intro hall
          rcases hall a List.mem_cons_self with ⟨b', hsingle⟩
          have hnil : us ++ ts = [] := (List.cons_eq_cons.mp (hb.symm.trans hsingle)).2
          exact (List.append_eq_nil_iff.mp hnil).2

theorem matches_of_encode (hcode : IsCode code isTrail) (trail : List β)
    (h : Matches (fun _ => True) (ws.flatMap (Wildcard.encode code)) (trail ++ as.flatMap code))
    (htrail : ∀ b ∈ trail, isTrail b)
    (hone : .one ∈ ws → trail = [] ∧ ∀ a ∈ as, ∃ b, code a = [b]) :
    Matches (fun _ => True) ws as := by
  induction ws generalizing trail as with
  | nil =>
      generalize hus : trail ++ as.flatMap code = us at h
      cases h
      rcases List.append_eq_nil_iff.mp hus with ⟨-, hnil⟩
      cases as with
      | nil => exact .nil
      | cons a as =>
          rcases hcode.lead a with ⟨b, bs, hb, -⟩
          rw [List.flatMap_cons, hb] at hnil
          cases hnil
  | cons w ws ih =>
      cases w with
      | many =>
          generalize hus : trail ++ as.flatMap code = us at h
          cases h with
          | many vs hvs h =>
              rcases List.append_eq_append_iff.mp hus with ⟨ts, rfl, hrest⟩ | ⟨ts, rfl, rfl⟩
              · rcases exists_cut hcode hrest with ⟨as₁, as₂, trail', rfl, rfl, htrail', hsingle⟩
                refine .many as₁ (fun _ _ => trivial) (ih trail' h htrail' fun hmem => ?_)
                have hall := (hone (List.mem_cons_of_mem _ hmem)).2
                exact ⟨hsingle hall, fun a ha => hall a (List.mem_append_right _ ha)⟩
              · refine .many [] (fun _ _ => trivial) (ih ts h ?_ fun hmem => ?_)
                · exact fun b hb => htrail b (List.mem_append_right _ hb)
                · rcases hone (List.mem_cons_of_mem _ hmem) with ⟨hnil, hall⟩
                  exact ⟨(List.append_eq_nil_iff.mp hnil).2, hall⟩
      | one =>
          rcases hone List.mem_cons_self with ⟨rfl, hall⟩
          cases as with
          | nil => cases h
          | cons a as =>
              rcases hall a List.mem_cons_self with ⟨b, hb⟩
              rw [List.nil_append, List.flatMap_cons, List.flatMap_cons, hb] at h
              cases h with
              | one ha h =>
                  refine .one trivial (ih [] h htrail fun _ => ⟨rfl, fun a ha => ?_⟩)
                  exact hall a (List.mem_cons_of_mem _ ha)
      | lit a =>
          rcases matches_lits_append.mp h with ⟨us', hus, hrest⟩
          rcases hcode.lead a with ⟨b, bs, hb, hlead, -⟩
          rcases trail with - | ⟨c, trail⟩
          · cases as with
            | nil =>
                rw [hb] at hus
                cases hus
            | cons a' as =>
                rw [List.nil_append, List.flatMap_cons] at hus
                rcases hcode.cancel hus with ⟨rfl, rfl⟩
                refine .lit a' (ih [] hrest htrail fun hmem => ⟨rfl, fun a ha => ?_⟩)
                exact (hone (List.mem_cons_of_mem _ hmem)).2 a (List.mem_cons_of_mem _ ha)
          · rw [hb] at hus
            obtain ⟨rfl, -⟩ : c = b ∧ trail ++ as.flatMap code = bs ++ us' := List.cons_eq_cons.mp hus
            exact absurd (htrail c List.mem_cons_self) hlead

/-- A pattern is matched on codes if it is matched on letters, where its wildcards for one letter
meet letters of one code unit. -/
theorem matches_encode_iff (hcode : IsCode code isTrail)
    (hone : .one ∈ ws → ∀ a ∈ as, ∃ b, code a = [b]) :
    Matches (fun _ => True) (ws.flatMap (Wildcard.encode code)) (as.flatMap code) ↔
      Matches (fun _ => True) ws as := by
  constructor
  · intro h
    exact matches_of_encode hcode [] h (fun b hb => (List.not_mem_nil hb).elim)
      fun hmem => ⟨rfl, hone hmem⟩
  · exact fun h => matches_encode h hone

end Encode

end Wildcards
