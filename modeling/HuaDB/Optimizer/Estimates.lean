import Mathlib.Data.List.Perm.Subperm
import Mathlib.Data.List.TakeWhile
import Mathlib.Data.Nat.ModEq
import Mathlib.Algebra.BigOperators.Group.List.Lemmas
import HuaDB.Optimizer.ReorderJoin

/-!
# The divisors of the estimates

`mul_feature` is a product of distinct counts modulo `2 ^ 32`.  `estimate_error_iff` says
when a division by it traps, `nextTable_error_iff` when a choice does, and
`nextTable_of_blank` which table is chosen once the cardinalities multiply to zero.
-/

namespace HuaDB

/-! ## Statistics -/

namespace Statistics

variable (stats : Statistics)

def names : List String := stats.tables.map TableStatistics.name

theorem names_nodup : stats.names.Nodup := by
  have h : stats.names.Pairwise fun a b => a < b := List.pairwise_map.mpr stats.sorted
  exact h.imp fun hlt => String.ne_of_lt hlt

theorem distinctsOf_lt (name : String) : ∀ entry ∈ stats.distinctsOf name, entry.2 < 2 ^ 32 := by
  intro entry hentry
  rw [distinctsOf] at hentry
  cases htable : stats.tables.find? (·.name = name) with
  | none =>
      rw [htable] at hentry
      cases hentry
  | some table =>
      rw [htable] at hentry
      exact table.distincts_lt entry hentry

theorem distinctsOf_nodup (name : String) : (Assoc.keys (stats.distinctsOf name)).Nodup := by
  rw [distinctsOf]
  cases stats.tables.find? (·.name = name) with
  | none => exact List.nodup_nil
  | some table =>
      have h : (Assoc.keys table.distincts).Pairwise fun a b => a < b :=
        List.pairwise_map.mpr table.sorted
      exact h.imp fun hlt => String.ne_of_lt hlt

theorem not_mem_names_iff {name : String} :
    name ∉ stats.names ↔ stats.tables.find? (·.name = name) = none := by
  simp only [names, List.mem_map, not_exists, not_and, List.find?_eq_none, decide_eq_true_eq]

theorem cardinalityOf_of_not_mem {name : String} (h : name ∉ stats.names) :
    stats.cardinalityOf name = 0 := by
  rw [cardinalityOf, stats.not_mem_names_iff.mp h]
  rfl

theorem distinctsOf_of_not_mem {name : String} (h : name ∉ stats.names) :
    stats.distinctsOf name = [] := by
  rw [distinctsOf, stats.not_mem_names_iff.mp h]
  rfl

/-- The distinct count of a column, or one where the table has no such column. -/
def distinctAt (column name : String) : Nat :=
  ((stats.distinctsOf name).find? column).getD 1

/-- The product of the distinct counts of the columns of one name. -/
def distinctProduct (tables : List String) (column : String) : Nat :=
  (tables.map (stats.distinctAt column)).prod

/-- No name of a table is empty or has a comma in it. -/
def Plain : Prop := ∀ name ∈ stats.names, name ≠ "" ∧ ',' ∉ name.toList

variable {stats}

theorem Plain.blank (h : stats.Plain) : "" ∉ stats.names := fun hmem => (h "" hmem).1 rfl

theorem Plain.distinctAt_blank (h : stats.Plain) (column : String) :
    stats.distinctAt column "" = 1 := by
  rw [distinctAt, stats.distinctsOf_of_not_mem h.blank]
  rfl

/-- The tables chosen multiply into a part of the product over all tables. -/
theorem distinctProduct_dvd {tables : List String} (column : String)
    (hplain : stats.Plain) (hnodup : (tables.filter (· ≠ "")).Nodup)
    (hsub : ∀ name ∈ tables, name = "" ∨ name ∈ stats.names) :
    stats.distinctProduct tables column ∣ stats.distinctProduct stats.names column := by
  have hfilter : stats.distinctProduct tables column =
      stats.distinctProduct (tables.filter (· ≠ "")) column := by
    unfold distinctProduct
    clear hnodup hsub
    induction tables with
    | nil => rfl
    | cons name tables ih =>
        rw [List.map_cons, List.prod_cons, ih]
        by_cases hname : name = ""
        · subst hname
          rw [hplain.distinctAt_blank, Nat.one_mul]
          rfl
        · rw [List.filter_cons_of_pos (by simpa using hname), List.map_cons, List.prod_cons]
  rw [hfilter]
  have hsubperm : (tables.filter (· ≠ "")).Subperm stats.names := by
    apply List.subperm_of_subset hnodup
    intro name hname
    simp only [List.mem_filter, decide_eq_true_eq] at hname
    exact (hsub name hname.1).resolve_left hname.2
  obtain ⟨l, hperm, hl⟩ := hsubperm
  unfold distinctProduct
  rw [← (hperm.map (stats.distinctAt column)).prod_eq]
  exact (hl.map _).prod_dvd_prod

/-- A list with all tables has the product over all of them. -/
theorem dvd_distinctProduct {tables : List String} (column : String)
    (hsub : stats.names ⊆ tables) :
    stats.distinctProduct stats.names column ∣ stats.distinctProduct tables column := by
  obtain ⟨l, hperm, hl⟩ := List.subperm_of_subset stats.names_nodup hsub
  unfold distinctProduct
  rw [← (hperm.map (stats.distinctAt column)).prod_eq]
  exact (hl.map _).prod_dvd_prod

end Statistics

namespace Optimizer

/-! ## The products -/

/-- `mul_feature[column]`, or one. -/
def productAt (fs : Features) (column : String) : Nat :=
  ((fs.find? column).map Prod.snd).getD 1

/-- The products are 32-bit numbers, and a column has one of them. -/
structure FeaturesOk (fs : Features) : Prop where
  nodup : fs.keys.Nodup
  lt : ∀ column value, fs.find? column = some value → value.2 < 2 ^ 32

theorem FeaturesOk.addDistinct {fs : Features} (h : FeaturesOk fs) {entry : String × Nat}
    (hlt : entry.2 < 2 ^ 32) : FeaturesOk (addDistinct fs entry) where
  nodup := Assoc.nodup_keys_upsert _ _ _ h.nodup
  lt := by
    intro column value hvalue
    rw [Optimizer.addDistinct, Assoc.find?_upsert] at hvalue
    split at hvalue
    · cases hold : fs.find? entry.1 with
      | none =>
          rw [hold] at hvalue
          cases hvalue
          exact hlt
      | some old =>
          rw [hold] at hvalue
          cases hvalue
          exact Nat.mod_lt _ (by decide)
    · exact h.lt column value hvalue

theorem productAt_addDistinct (fs : Features) (entry : String × Nat) (column : String) :
    productAt (addDistinct fs entry) column ≡
      productAt fs column * (if entry.1 = column then entry.2 else 1) [MOD 2 ^ 32] := by
  rw [productAt, productAt, addDistinct, Assoc.find?_upsert]
  split
  · rename_i hcolumn
    subst hcolumn
    cases fs.find? entry.1 with
    | none => simp only [Option.map_some, Option.map_none, Option.getD_some, Option.getD_none,
        Nat.one_mul, Nat.ModEq.refl]
    | some old => exact Nat.mod_modEq _ _
  · rw [Nat.mul_one]

theorem productAt_foldl_addDistinct {entries : Assoc String Nat} (hnodup : entries.keys.Nodup)
    (fs : Features) (column : String) :
    productAt (entries.foldl addDistinct fs) column ≡
      productAt fs column * (entries.find? column).getD 1 [MOD 2 ^ 32] := by
  induction entries generalizing fs with
  | nil => simp only [List.foldl_nil, Assoc.find?_nil, Option.getD_none, Nat.mul_one, Nat.ModEq.refl]
  | cons entry entries ih =>
      rw [Assoc.keys, List.map_cons, List.nodup_cons] at hnodup
      rw [List.foldl_cons]
      refine (ih hnodup.2 _).trans ?_
      refine ((productAt_addDistinct fs entry column).mul_right _).trans ?_
      rw [Assoc.find?_cons]
      split
      · rename_i hcolumn
        subst hcolumn
        rw [Assoc.find?_eq_none_iff.mpr hnodup.1]
        simp only [Option.getD_some, Option.getD_none, Nat.mul_one, Nat.ModEq.refl]
      · rw [Nat.mul_one]

theorem FeaturesOk.foldl_addDistinct {entries : Assoc String Nat}
    (hlt : ∀ entry ∈ entries, entry.2 < 2 ^ 32) {fs : Features} (h : FeaturesOk fs) :
    FeaturesOk (entries.foldl Optimizer.addDistinct fs) := by
  induction entries generalizing fs with
  | nil => exact h
  | cons entry entries ih =>
      apply ih
      · intro e he
        exact hlt e (List.mem_cons_of_mem _ he)
      · exact h.addDistinct (hlt entry List.mem_cons_self)

section

variable (stats : Statistics)

theorem features_ok (rNow : List String) (candidate : String) :
    FeaturesOk (features stats rNow candidate) := by
  have hfold : ∀ (tables : List String) (fs : Features), FeaturesOk fs →
      FeaturesOk (tables.foldl (fun fs r => (stats.distinctsOf r).foldl addDistinct fs) fs) := by
    intro tables
    induction tables with
    | nil => exact fun fs h => h
    | cons r tables ih => exact fun fs h => ih _ (h.foldl_addDistinct (stats.distinctsOf_lt r))
  refine hfold _ [] ⟨List.nodup_nil, ?_⟩
  intro column value hvalue
  cases hvalue

/-- `mul_feature` is the product of the distinct counts, modulo `2 ^ 32`. -/
theorem productAt_features (rNow : List String) (candidate column : String) :
    productAt (features stats rNow candidate) column ≡
      stats.distinctProduct (candidate :: rNow) column [MOD 2 ^ 32] := by
  have hfold : ∀ (tables : List String) (fs : Features),
      productAt (tables.foldl (fun fs r => (stats.distinctsOf r).foldl addDistinct fs) fs) column ≡
        productAt fs column * stats.distinctProduct tables column [MOD 2 ^ 32] := by
    intro tables
    induction tables with
    | nil =>
        intro fs
        rw [Statistics.distinctProduct, List.map_nil, List.prod_nil, Nat.mul_one]
        rfl
    | cons r tables ih =>
        intro fs
        refine (ih _).trans ?_
        refine ((productAt_foldl_addDistinct (stats.distinctsOf_nodup r) fs column).mul_right
          _).trans ?_
        rw [Nat.mul_assoc]
        rfl
  have h := hfold (candidate :: rNow) []
  have hone : productAt [] column = 1 := rfl
  rwa [hone, Nat.one_mul] at h

/-- A divisor is zero where the product of the distinct counts wraps around to zero. -/
theorem exists_product_eq_zero_iff (rNow : List String) (candidate : String) :
    (∃ feature ∈ features stats rNow candidate, feature.2.2 = 0) ↔
      ∃ column, 2 ^ 32 ∣ stats.distinctProduct (candidate :: rNow) column := by
  have hok := features_ok stats rNow candidate
  constructor
  · rintro ⟨⟨column, least, product⟩, hmem, hzero⟩
    refine ⟨column, ?_⟩
    have hfind := Assoc.find?_of_mem_nodup hok.nodup hmem
    have hmod := productAt_features stats rNow candidate column
    rw [productAt, hfind] at hmod
    replace hzero : product = 0 := hzero
    subst hzero
    exact Nat.modEq_zero_iff_dvd.mp hmod.symm
  · rintro ⟨column, hdvd⟩
    have hmod := (productAt_features stats rNow candidate column).trans
      (Nat.modEq_zero_iff_dvd.mpr hdvd)
    rw [productAt] at hmod
    cases hfind : (features stats rNow candidate).find? column with
    | none =>
        rw [hfind] at hmod
        exact absurd hmod (by decide)
    | some value =>
        rw [hfind] at hmod
        refine ⟨(column, value), Assoc.mem_of_find? hfind, ?_⟩
        exact Nat.eq_zero_of_dvd_of_lt (Nat.modEq_zero_iff_dvd.mp hmod) (hok.lt column value hfind)

/-! ## The divisions -/

theorem foldlM_divide (fs : Features) (v : Nat) :
    (∃ feature ∈ fs, feature.2.2 = 0) ∧ fs.foldlM divide v = .error .divisionByZero ∨
      (¬∃ feature ∈ fs, feature.2.2 = 0) ∧
        ∃ w, fs.foldlM divide v = .ok w ∧ (v = 0 → w = 0) := by
  induction fs generalizing v with
  | nil =>
      refine .inr ⟨?_, v, rfl, id⟩
      rintro ⟨feature, hmem, -⟩
      cases hmem
  | cons feature fs ih =>
      rw [List.foldlM_cons]
      by_cases hzero : feature.2.2 = 0
      · refine .inl ⟨⟨feature, List.mem_cons_self, hzero⟩, ?_⟩
        rw [divide, if_pos hzero]
        rfl
      · rw [divide, if_neg hzero]
        rcases ih (v * feature.2.1 % 2 ^ 32 / feature.2.2) with
          ⟨⟨other, hmem, hother⟩, herror⟩ | ⟨hnone, w, hw, hv⟩
        · exact .inl ⟨⟨other, List.mem_cons_of_mem _ hmem, hother⟩, herror⟩
        · refine .inr ⟨?_, w, hw, ?_⟩
          · rintro ⟨other, hmem, hother⟩
            rcases List.mem_cons.mp hmem with rfl | hmem
            · exact hzero hother
            · exact hnone ⟨other, hmem, hother⟩
          · intro hvzero
            apply hv
            rw [hvzero, Nat.zero_mul, Nat.zero_mod, Nat.zero_div]

/-- An estimate divides by zero where a product wraps around to zero; otherwise it has a
value. -/
theorem estimate_cases (rNow : List String) (candidate : String) :
    (∃ column, 2 ^ 32 ∣ stats.distinctProduct (candidate :: rNow) column) ∧
        estimate stats rNow candidate = .error .divisionByZero ∨
      (¬∃ column, 2 ^ 32 ∣ stats.distinctProduct (candidate :: rNow) column) ∧
        ∃ w, estimate stats rNow candidate = .ok w ∧
          (mulAll stats rNow candidate = 0 → w = 0) := by
  have h := foldlM_divide (features stats rNow candidate) (mulAll stats rNow candidate)
  rw [exists_product_eq_zero_iff] at h
  exact h

/-- A table without rows among those chosen makes the cardinalities multiply to zero. -/
theorem mulAll_eq_zero {rNow : List String} {name : String} (hname : name ∈ rNow)
    (hzero : stats.cardinalityOf name = 0) (candidate : String) :
    mulAll stats rNow candidate = 0 := by
  have hstay : ∀ rs : List String,
      rs.foldl (fun product r => product * stats.cardinalityOf r % 2 ^ 32) 0 = 0 := by
    intro rs
    induction rs with
    | nil => rfl
    | cons r rs ih => rw [List.foldl_cons, Nat.zero_mul, Nat.zero_mod, ih]
  obtain ⟨before, after, rfl⟩ := List.append_of_mem hname
  rw [mulAll, List.foldl_append, List.foldl_cons, hzero, Nat.mul_zero, Nat.zero_mod]
  exact hstay after

/-! ## The choice -/

theorem mem_candidates {rNow : List String} {name : String} :
    name ∈ candidates stats rNow ↔ name ∈ stats.names ∧ name ∉ rNow := by
  simp only [candidates, Statistics.names, List.mem_filter, decide_eq_true_eq]

/-- The loop over `v_map` keeps what it has, or ends with an entry. -/
theorem foldl_cheapest (estimates : List (String × Nat)) (best : String × Nat) :
    (∀ entry ∈ estimates, ¬entry.2 < best.2) ∧
        estimates.foldl (fun best entry => if entry.2 < best.2 then entry else best) best = best ∨
      estimates.foldl (fun best entry => if entry.2 < best.2 then entry else best) best ∈
        estimates := by
  induction estimates generalizing best with
  | nil =>
      refine .inl ⟨?_, rfl⟩
      intro entry hentry
      cases hentry
  | cons entry estimates ih =>
      rw [List.foldl_cons]
      split
      · rcases ih entry with ⟨-, heq⟩ | hmem
        · rw [heq]
          exact .inr List.mem_cons_self
        · exact .inr (List.mem_cons_of_mem _ hmem)
      · rename_i hnot
        rcases ih best with ⟨hall, heq⟩ | hmem
        · refine .inl ⟨?_, heq⟩
          intro other hother
          rcases List.mem_cons.mp hother with rfl | hother
          · exact hnot
          · exact hall other hother
        · exact .inr (List.mem_cons_of_mem _ hmem)

theorem cheapest_eq_blank_or_mem (estimates : List (String × Nat)) :
    cheapest estimates = "" ∨ cheapest estimates ∈ estimates.map Prod.fst := by
  rcases foldl_cheapest estimates ("", invalidCardinality) with ⟨-, heq⟩ | hmem
  · left
    rw [cheapest, heq]
  · exact .inr (List.mem_map_of_mem hmem)

theorem cheapest_mem {estimates : List (String × Nat)} {entry : String × Nat}
    (hentry : entry ∈ estimates) (hlt : entry.2 < invalidCardinality) :
    cheapest estimates ∈ estimates.map Prod.fst := by
  rcases foldl_cheapest estimates ("", invalidCardinality) with ⟨hall, -⟩ | hmem
  · exact absurd hlt (hall entry hentry)
  · exact List.mem_map_of_mem hmem

theorem afterComma_eq {name : String} (h : ',' ∉ name.toList) : afterComma name = name := by
  have hall : ∀ c ∈ name.toList.reverse, decide (c ≠ ',') = true := by
    intro c hc
    rw [List.mem_reverse] at hc
    exact decide_eq_true (fun hcomma => h (hcomma ▸ hc))
  rw [afterComma, List.takeWhile_eq_self_iff.mpr hall, List.reverse_reverse, String.ofList_toList]

/-- The estimates of some tables: one of them divides by zero, or all have a value. -/
theorem mapM_estimate (rNow names : List String) :
    (∃ name ∈ names, ∃ column, 2 ^ 32 ∣ stats.distinctProduct (name :: rNow) column) ∧
        (names.mapM fun name => do
          return (name, ← estimate stats rNow name)) = .error .divisionByZero ∨
      (¬∃ name ∈ names, ∃ column, 2 ^ 32 ∣ stats.distinctProduct (name :: rNow) column) ∧
        ∃ estimates : List (String × Nat),
          (names.mapM fun name => do
            return (name, ← estimate stats rNow name)) = .ok estimates ∧
          estimates.map Prod.fst = names ∧
          ∀ entry ∈ estimates, mulAll stats rNow entry.1 = 0 → entry.2 = 0 := by
  induction names with
  | nil =>
      refine .inr ⟨?_, [], rfl, rfl, ?_⟩
      · rintro ⟨name, hname, -⟩
        cases hname
      · intro entry hentry
        cases hentry
  | cons name names ih =>
      rw [List.mapM_cons]
      rcases estimate_cases stats rNow name with ⟨hdvd, herror⟩ | ⟨hdvd, w, hw, hzero⟩
      · refine .inl ⟨⟨name, List.mem_cons_self, hdvd⟩, ?_⟩
        rw [herror]
        rfl
      · rw [hw]
        rcases ih with ⟨⟨other, hother, hdvd'⟩, herror⟩ | ⟨hnone, estimates, hmap, hfst, hzeros⟩
        · refine .inl ⟨⟨other, List.mem_cons_of_mem _ hother, hdvd'⟩, ?_⟩
          rw [herror]
          rfl
        · refine .inr ⟨?_, (name, w) :: estimates, ?_, ?_, ?_⟩
          · rintro ⟨other, hother, hdvd'⟩
            rcases List.mem_cons.mp hother with rfl | hother
            · exact hdvd hdvd'
            · exact hnone ⟨other, hother, hdvd'⟩
          · rw [hmap]
            rfl
          · rw [List.map_cons, hfst]
          · intro entry hentry
            rcases List.mem_cons.mp hentry with rfl | hentry
            · exact hzero
            · exact hzeros entry hentry

/-- A choice divides by zero where a product wraps around to zero; otherwise a table is
chosen by the estimates. -/
theorem nextTable_cases (rNow : List String) :
    (∃ name ∈ candidates stats rNow, ∃ column,
          2 ^ 32 ∣ stats.distinctProduct (name :: rNow) column) ∧
        nextTable stats rNow = .error .divisionByZero ∨
      (¬∃ name ∈ candidates stats rNow, ∃ column,
          2 ^ 32 ∣ stats.distinctProduct (name :: rNow) column) ∧
        ∃ estimates : List (String × Nat),
          nextTable stats rNow = .ok (afterComma (cheapest estimates)) ∧
          estimates.map Prod.fst = candidates stats rNow ∧
          ∀ entry ∈ estimates, mulAll stats rNow entry.1 = 0 → entry.2 = 0 := by
  rcases mapM_estimate stats rNow (candidates stats rNow) with
    ⟨hdvd, herror⟩ | ⟨hnone, estimates, hmap, hfst, hzero⟩
  · refine .inl ⟨hdvd, ?_⟩
    rw [nextTable, herror]
    rfl
  · refine .inr ⟨hnone, estimates, ?_, hfst, hzero⟩
    rw [nextTable, hmap]
    rfl

theorem nextTable_error_iff {rNow : List String} {e : ReorderError} :
    nextTable stats rNow = .error e ↔ e = .divisionByZero ∧
      ∃ name ∈ candidates stats rNow, ∃ column,
        2 ^ 32 ∣ stats.distinctProduct (name :: rNow) column := by
  rcases nextTable_cases stats rNow with ⟨hdvd, herror⟩ | ⟨hnone, estimates, hok, -⟩
  · rw [herror]
    constructor
    · intro h
      cases h
      exact ⟨rfl, hdvd⟩
    · intro h
      rw [h.1]
  · rw [hok]
    constructor
    · intro h
      cases h
    · intro h
      exact absurd h.2 hnone

variable {stats}

/-- A table not chosen before is chosen, or none. -/
theorem nextTable_mem (hplain : stats.Plain) {rNow : List String} {next : String}
    (h : nextTable stats rNow = .ok next) : next = "" ∨ next ∈ candidates stats rNow := by
  rcases nextTable_cases stats rNow with ⟨-, herror⟩ | ⟨-, estimates, hok, hfst, -⟩
  · rw [herror] at h
    cases h
  · rw [hok] at h
    cases h
    rcases cheapest_eq_blank_or_mem estimates with hblank | hmem
    · left
      rw [hblank]
      rfl
    · right
      rw [hfst] at hmem
      rw [afterComma_eq (hplain _ ((mem_candidates stats).mp hmem).1).2]
      exact hmem

/-- Once none was chosen the cardinalities multiply to zero, and the tables left are chosen. -/
theorem nextTable_of_blank (hplain : stats.Plain) {rNow : List String} {next : String}
    (hblank : "" ∈ rNow) (hleft : candidates stats rNow ≠ [])
    (h : nextTable stats rNow = .ok next) : next ∈ candidates stats rNow := by
  rcases nextTable_cases stats rNow with ⟨-, herror⟩ | ⟨-, estimates, hok, hfst, hzero⟩
  · rw [herror] at h
    cases h
  · rw [hok] at h
    cases h
    rcases estimates with _ | ⟨entry, estimates⟩
    · exact absurd hfst.symm hleft
    · have hentry : entry.2 = 0 := by
        apply hzero entry List.mem_cons_self
        exact mulAll_eq_zero stats hblank (stats.cardinalityOf_of_not_mem hplain.blank) _
      have hlt : entry.2 < invalidCardinality := by
        rw [hentry]
        decide
      have hmem : cheapest (entry :: estimates) ∈ (entry :: estimates).map Prod.fst :=
        cheapest_mem List.mem_cons_self hlt
      rw [hfst] at hmem
      rw [afterComma_eq (hplain _ ((mem_candidates stats).mp hmem).1).2]
      exact hmem

end

end Optimizer

end HuaDB
