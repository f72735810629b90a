import Mathlib.Data.List.Nodup

/-!
Lists with an index: a map from the keys of the elements to their positions.

`Indexed key l index` says that the index leads from each key to the one position
that holds it. Adding an element of a new key (`Indexed.push`), replacing an element
(`Indexed.set`) and changing elements without their keys (`Indexed.of_map_eq`) keep it,
with the index updated accordingly.
-/

variable {α κ : Type*} {key : α → κ} {l : List α} {index : κ → Option Nat}

theorem List.getElem?_modify_self {a : α} {i : Nat} (h : l[i]? = some a) (g : α → α) :
    (l.modify i g)[i]? = some (g a) := by
  rw [List.getElem?_modify, h, Option.map_eq_map, Option.map_some, if_pos rfl]

theorem List.mem_modify {a : α} {g : α → α} {i : Nat} (h : a ∈ l.modify i g) :
    (∃ b, l[i]? = some b ∧ a = g b) ∨ a ∈ l := by
  obtain ⟨j, hj⟩ := List.mem_iff_getElem?.mp h
  rw [List.getElem?_modify] at hj
  obtain ⟨b, hb, hab⟩ := Option.map_eq_some_iff.mp hj
  by_cases hij : i = j
  · rw [if_pos hij] at hab
    exact .inl ⟨b, hij ▸ hb, hab.symm⟩
  · rw [if_neg hij] at hab
    exact .inr (hab ▸ List.mem_of_getElem? hb)

theorem List.mem_modify_of_mem {a : α} (g : α → α) (i : Nat) (h : a ∈ l) :
    l[i]? = some a ∨ a ∈ l.modify i g := by
  obtain ⟨j, hj⟩ := List.mem_iff_getElem?.mp h
  by_cases hij : i = j
  · exact .inl (hij ▸ hj)
  · right
    apply List.mem_of_getElem? (i := j)
    rw [List.getElem?_modify, hj, Option.map_eq_map, Option.map_some, if_neg hij]

/-- An element of a list has a last position there. -/
theorem List.exists_last_of_mem {a : α} (h : a ∈ l) :
    ∃ before after, l = before ++ a :: after ∧ a ∉ after := by
  obtain ⟨after, before, hreverse, hlast⟩ := List.eq_append_cons_of_mem (List.mem_reverse.mpr h)
  refine ⟨before.reverse, after.reverse, ?_, mt List.mem_reverse.mp hlast⟩
  rw [← List.reverse_reverse l, hreverse, List.reverse_append, List.reverse_cons, List.append_assoc,
    List.singleton_append]

/-- `index` leads from each key of `l` to the one position that holds it. -/
def Indexed (key : α → κ) (l : List α) (index : κ → Option Nat) : Prop :=
  ∀ k i, index k = some i ↔ (l[i]?).map key = some k

namespace Indexed

theorem nil (h : ∀ k, index k = none) : Indexed key [] index := by
  intro k i
  rw [h]
  simp

/-- No two positions hold one key. -/
theorem inj (ix : Indexed key l index) {k : κ} {i j : Nat} (hi : (l[i]?).map key = some k)
    (hj : (l[j]?).map key = some k) : i = j :=
  Option.some.inj (((ix k i).mpr hi).symm.trans ((ix k j).mpr hj))

theorem exists_of_some (ix : Indexed key l index) {k : κ} {i : Nat} (h : index k = some i) :
    ∃ a, l[i]? = some a ∧ key a = k :=
  Option.map_eq_some_iff.mp ((ix k i).mp h)

theorem some_of_getElem? (ix : Indexed key l index) {a : α} {i : Nat} (h : l[i]? = some a) :
    index (key a) = some i :=
  (ix _ _).mpr (by rw [h, Option.map_some])

/-- Elements with one key are equal. -/
theorem eq_of_mem (ix : Indexed key l index) {a b : α} (ha : a ∈ l) (hb : b ∈ l)
    (hkey : key a = key b) : a = b := by
  obtain ⟨i, hi⟩ := List.mem_iff_getElem?.mp ha
  obtain ⟨j, hj⟩ := List.mem_iff_getElem?.mp hb
  have hij : i = j :=
    ix.inj (k := key b) (by rw [hi, Option.map_some, hkey]) (by rw [hj, Option.map_some])
  rw [hij, hj] at hi
  exact (Option.some.inj hi).symm

theorem nodup (ix : Indexed key l index) : (l.map key).Nodup := by
  apply List.nodup_iff_getElem?_ne_getElem?.mpr
  intro i j hij hj heq
  rw [List.getElem?_map, List.getElem?_map] at heq
  have hjl : j < l.length := by simpa using hj
  have hkey : (l[j]?).map key = some (key l[j]) := by rw [List.getElem?_eq_getElem hjl, Option.map_some]
  exact Nat.ne_of_lt hij (ix.inj (heq.trans hkey) hkey)

/-- Elements may change, as long as their keys do not. -/
theorem of_map_eq {l' : List α} (ix : Indexed key l index) (h : l'.map key = l.map key) :
    Indexed key l' index := by
  intro k i
  rw [ix, ← List.getElem?_map, ← List.getElem?_map, h]

/-- An element changes, but not its key. -/
theorem modify (ix : Indexed key l index) {g : α → α} (hkey : ∀ a, key (g a) = key a) (i : Nat) :
    Indexed key (l.modify i g) index := by
  intro k j
  rw [ix, List.getElem?_modify]
  cases l[j]? with
  | none => simp
  | some a =>
      by_cases hij : i = j
      · simp [hij, hkey]
      · simp [hij]

/-- An element of a new key is added. -/
theorem push [DecidableEq κ] (ix : Indexed key l index) {a : α} (h : index (key a) = none) :
    Indexed key (l ++ [a]) fun k => if k = key a then some l.length else index k := by
  intro k i
  beta_reduce
  by_cases hk : k = key a
  · subst hk
    rw [if_pos rfl, Option.some.injEq]
    constructor
    · rintro rfl
      simp
    · intro hi
      obtain ⟨b, hb, hkey⟩ := Option.map_eq_some_iff.mp hi
      by_contra hne
      have hlt : i < l.length := by
        have := (List.getElem?_eq_some_iff.mp hb).1
        rw [List.length_append, List.length_singleton] at this
        omega
      rw [List.getElem?_append_left hlt] at hb
      rw [← hkey, ix.some_of_getElem? hb] at h
      cases h
  · rw [if_neg hk, ix]
    rcases Nat.lt_or_ge i l.length with hlt | hge
    · rw [List.getElem?_append_left hlt]
    · rw [List.getElem?_eq_none hge, List.getElem?_append_right hge]
      cases hi : i - l.length with
      | zero => simpa using Ne.symm hk
      | succ n => simp

/-- An element is replaced by one of a key that no other position holds. -/
theorem set [DecidableEq κ] (ix : Indexed key l index) {a b : α} {i : Nat}
    (hi : l[i]? = some b) (h : ∀ j, index (key a) = some j → j = i) :
    Indexed key (l.set i a) fun k =>
      if k = key a then some i else if k = key b then none else index k := by
  have hlt : i < l.length := (List.getElem?_eq_some_iff.mp hi).1
  intro k j
  beta_reduce
  by_cases hji : j = i
  · subst hji
    rw [List.getElem?_set_self hlt, Option.map_some, Option.some.injEq]
    by_cases hk : k = key a
    · simp [hk]
    · rw [if_neg hk]
      constructor
      · intro hk'
        by_cases hkb : k = key b
        · rw [if_pos hkb] at hk'
          cases hk'
        · rw [if_neg hkb] at hk'
          obtain ⟨c, hc, rfl⟩ := ix.exists_of_some hk'
          rw [hi, Option.some.injEq] at hc
          exact (hkb (by rw [hc])).elim
      · intro heq
        exact (hk heq.symm).elim
  · rw [List.getElem?_set_ne (Ne.symm hji), ← ix]
    by_cases hk : k = key a
    · subst hk
      rw [if_pos rfl]
      constructor
      · intro heq
        exact (hji (Option.some.inj heq).symm).elim
      · intro heq
        exact (hji (h j heq)).elim
    · rw [if_neg hk]
      by_cases hkb : k = key b
      · subst hkb
        rw [if_pos rfl, ix.some_of_getElem? hi, Option.some.injEq]
        constructor
        · intro heq
          cases heq
        · intro heq
          exact (hji heq.symm).elim
      · rw [if_neg hkb]

end Indexed
