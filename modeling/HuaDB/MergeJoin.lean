import HuaDB.Lib.MergeJoin
import HuaDB.Lib.VolcanoLists
import HuaDB.SortKeys

/-!
`MergeJoinExecutor` against the pairs with equal keys.

The join ends with exactly these pairs, in the order of a nested-loop join, when the keys
of its inputs meet (`Meets`); otherwise it reads an iterator at the end of its list or one
that was never set (`mergeJoin_eq`).
-/

namespace HuaDB

open Volcano MergeJoin

/-! ## The loops -/

section Loops

variable {κ : Type} [LinearOrder κ] {f g : ExecRecord → κ}
  {less equal greater test : ExecRecord → ExecRecord → Except EvalError Bool}
  {ls rs : List ExecRecord}

/-- The tests compare the keys of the records of two lists. -/
structure ComparesKeys (f g : ExecRecord → κ)
    (less equal greater : ExecRecord → ExecRecord → Except EvalError Bool)
    (ls rs : List ExecRecord) : Prop where
  less : ∀ l ∈ ls, ∀ r ∈ rs, less l r = .ok (decide (f l < g r))
  equal : ∀ l ∈ ls, ∀ r ∈ rs, equal l r = .ok (decide (f l = g r))
  greater : ∀ l ∈ ls, ∀ r ∈ rs, greater l r = .ok (decide (g r < f l))

theorem ComparesKeys.mono {ls' rs' : List ExecRecord} (h : ComparesKeys f g less equal greater ls rs)
    (hls : ls' ⊆ ls) (hrs : rs' ⊆ rs) : ComparesKeys f g less equal greater ls' rs' where
  less l hl r hr := h.less l (hls hl) r (hrs hr)
  equal l hl r hr := h.equal l (hls hl) r (hrs hr)
  greater l hl r hr := h.greater l (hls hl) r (hrs hr)

theorem dropWhileM_eq {test : ExecRecord → Except EvalError Bool} {p : ExecRecord → Bool}
    (h : ∀ r ∈ rs, test r = .ok (p r)) : dropWhileM test rs = .ok (rs.dropWhile p) := by
  induction rs with
  | nil => rfl
  | cons r rs ih =>
      have ih := ih fun r' hr' => h r' (List.mem_cons_of_mem _ hr')
      rw [dropWhileM, h r List.mem_cons_self]
      cases hp : p r with
      | true => rw [List.dropWhile_cons_of_pos hp, ← ih]; rfl
      | false => rw [List.dropWhile_cons_of_neg (by simp [hp])]; rfl

theorem mergeRun_eq {l : ExecRecord} {p : ExecRecord → Bool}
    (h : ∀ r ∈ rs, equal l r = .ok (p r)) :
    mergeRun equal l rs = .ok ((rs.takeWhile p).map l.append, rs.dropWhile p) := by
  induction rs with
  | nil => rfl
  | cons r rs ih =>
      have ih := ih fun r' hr' => h r' (List.mem_cons_of_mem _ hr')
      rw [mergeRun, h r List.mem_cons_self]
      cases hp : p r with
      | true =>
          rw [List.takeWhile_cons_of_pos hp, List.dropWhile_cons_of_pos hp, ih]
          rfl
      | false =>
          rw [List.takeWhile_cons_of_neg (by simp [hp]), List.dropWhile_cons_of_neg (by simp [hp])]
          rfl

/-- The loop over the left records of one key: they are joined with the run of the key on
the right, and the run is left behind if there was a round. -/
theorem mergeRuns_eq {s : ExecRecord} {ss run rest : List ExecRecord} {p : ExecRecord → Bool}
    (hs : ∀ l ∈ ls, equal l s = .ok (p l))
    (hrun : ∀ l ∈ ls, p l = true → mergeRun equal l (s :: ss) = .ok (run.map l.append, rest)) :
    mergeRuns equal (s :: ss) ls = .ok ((ls.takeWhile p).flatMap (fun l => run.map l.append),
      ls.dropWhile p, if ls.takeWhile p = [] then none else some rest) := by
  induction ls with
  | nil => rfl
  | cons l ls ih =>
      have ih := ih (fun l' hl' => hs l' (List.mem_cons_of_mem _ hl'))
        fun l' hl' => hrun l' (List.mem_cons_of_mem _ hl')
      rw [mergeRuns, hs l List.mem_cons_self]
      cases hp : p l with
      | true =>
          rw [List.takeWhile_cons_of_pos hp, List.dropWhile_cons_of_pos hp,
            hrun l List.mem_cons_self hp, ih]
          by_cases hnone : ls.takeWhile p = []
          · rw [if_pos hnone]
            rfl
          · rw [if_neg hnone]
            rfl
      | false =>
          rw [List.takeWhile_cons_of_neg (by simp [hp]), List.dropWhile_cons_of_neg (by simp [hp])]
          rfl

theorem mergeLoop_nil {fuel : Nat} : mergeLoop less equal greater fuel [] rs = .ok [] := by
  cases fuel <;> rfl

/-- One turn of the outer loop, from keys `f l` of the left and `g s` of the right. -/
theorem mergeLoop_succ {fuel : Nat} {l s : ExecRecord} {ss : List ExecRecord}
    (h : ComparesKeys f g less equal greater (l :: ls) rs)
    (hss : (rs.filter fun r => f l ≤ g r) = s :: ss)
    (hls : (l :: ls).Pairwise fun a b => f a ≤ f b) (hrs : rs.Pairwise fun a b => g a ≤ g b) :
    mergeLoop less equal greater (fuel + 1) (l :: ls) rs =
      if ((l :: ls).filter fun l => f l = g s) = [] then
        if ((l :: ls).filter fun l => g s < f l) = [] then .ok [] else .error .undefined
      else
        mergeLoop less equal greater fuel ((l :: ls).filter fun l => g s < f l)
            (rs.filter fun r => g s < g r) >>= fun joined =>
          .ok (((l :: ls).filter fun l => f l = g s).flatMap
            (fun l => (rs.filter fun r => g r = g s).map l.append) ++ joined) := by
  have hl : l ∈ l :: ls := List.mem_cons_self
  have hdrop : dropWhileM (fun r => greater l r) rs = .ok (s :: ss) := by
    rw [dropWhileM_eq fun r hr => h.greater l hl r hr, dropWhile_lt hrs, hss]
  have hmem : ∀ r ∈ s :: ss, r ∈ rs := by
    rw [← hss]
    exact fun r hr => List.mem_of_mem_filter hr
  obtain ⟨hs, hle, hnext⟩ := of_filter_le_eq_cons hrs hss
  have hskip : dropWhileM (fun r => less r s) (l :: ls) =
      .ok ((l :: ls).filter fun l => g s ≤ f l) := by
    rw [dropWhileM_eq fun r hr => h.less r hr s hs, dropWhile_lt hls]
  have hfrom : s :: ss = rs.filter fun r => g s ≤ g r := by
    rw [← hss]
    apply List.filter_congr
    intro r hr
    rw [decide_eq_decide]
    exact ⟨hnext r hr, hle.trans⟩
  have hequal : ∀ a ∈ (l :: ls).filter fun l => g s ≤ f l, equal a s = .ok (decide (f a = g s)) :=
    fun a ha => h.equal a (List.mem_of_mem_filter ha) s hs
  have hrun : ∀ a ∈ (l :: ls).filter fun l => g s ≤ f l, decide (f a = g s) = true →
      mergeRun equal a (s :: ss) =
        .ok ((rs.filter fun r => g r = g s).map a.append, rs.filter fun r => g s < g r) := by
    intro a ha heq
    rw [mergeRun_eq fun r hr => h.equal a (List.mem_of_mem_filter ha) r (hmem r hr),
      of_decide_eq_true heq, hfrom]
    simp only [eq_comm (a := g s)]
    rw [takeWhile_eq hrs, dropWhile_eq hrs]
  have hruns := mergeRuns_eq hequal hrun
  rw [takeWhile_eq hls, dropWhile_eq hls] at hruns
  rw [mergeLoop, hdrop]
  · simp only [bind, Except.bind, hskip, hruns]
    generalize ((l :: ls).filter fun l => g s < f l) = left
    by_cases hjoined : ((l :: ls).filter fun l => f l = g s) = []
    · rw [if_pos hjoined, if_pos hjoined, hjoined]
      cases left with
      | nil => rfl
      | cons a left => rfl
    · rw [if_neg hjoined, if_neg hjoined]
      cases left with
      | nil =>
          rw [mergeLoop_nil]
          exact congrArg Except.ok (List.append_nil _).symm
      | cons a left => rfl
  · exact List.ne_nil_of_mem hs

/-- The right iterator comes to the end of its list. -/
theorem mergeLoop_of_below {fuel : Nat} {l : ExecRecord}
    (h : ComparesKeys f g less equal greater (l :: ls) rs)
    (hrs : rs.Pairwise fun a b => g a ≤ g b) (hne : rs ≠ [])
    (hss : (rs.filter fun r => f l ≤ g r) = []) :
    mergeLoop less equal greater (fuel + 1) (l :: ls) rs = .error .undefined := by
  have hdrop : dropWhileM (fun r => greater l r) rs = .ok [] := by
    rw [dropWhileM_eq fun r hr => h.greater l List.mem_cons_self r hr, dropWhile_lt hrs, hss]
  rw [mergeLoop, hdrop]
  · rfl
  · exact hne

/-- A turn at a right key that is no left key: it is the last one if no left key is above. -/
theorem meets_iff_of_not_joined {l s : ExecRecord} (hl : l ∈ ls) (hfirst : ∀ a ∈ ls, f l ≤ f a)
    (hs : s ∈ rs) (hle : f l ≤ g s) (hnext : ∀ r ∈ rs, f l ≤ g r → g s ≤ g r)
    (hnot : ∀ a ∈ ls, f a ≠ g s) :
    Meets (ls.map f) (rs.map g) ↔ (ls.filter fun a => g s < f a) = [] := by
  have hfirstKey : ∀ k ∈ ls.map f, f l ≤ k := List.forall_mem_map.mpr hfirst
  have hnextKey : ∀ k ∈ rs.map g, f l ≤ k → g s ≤ k := List.forall_mem_map.mpr hnext
  have hsKey : g s ∈ rs.map g := List.mem_map_of_mem hs
  by_cases hrest : (ls.filter fun a => g s < f a) = []
  · refine iff_of_true (meets_of_above hfirstKey hsKey hnextKey ?_) hrest
    refine List.forall_mem_map.mpr fun a ha => ?_
    have hle : f a ≤ g s := by simpa using List.filter_eq_nil_iff.mp hrest a ha
    exact lt_of_le_of_ne hle (hnot a ha)
  · rcases List.exists_mem_of_ne_nil _ hrest with ⟨a, ha⟩
    rcases List.mem_filter.mp ha with ⟨ha, hlt⟩
    refine iff_of_false ?_ hrest
    refine not_meets_of_not_mem (List.mem_map_of_mem hl) hsKey hle hnextKey ?_
      (List.mem_map_of_mem ha) (of_decide_eq_true hlt)
    intro hmem
    rcases List.mem_map.mp hmem with ⟨a, ha, heq⟩
    exact hnot a ha heq

/-- Left keys below the next right key have no equal ones. -/
theorem ne_of_lt_next {l s : ExecRecord} (hfirst : ∀ a ∈ ls, f l ≤ f a)
    (hnext : ∀ r ∈ rs, f l ≤ g r → g s ≤ g r) :
    ∀ a ∈ ls, f a < g s → ∀ r ∈ rs, f a ≠ g r := by
  intro a ha hlt r hr heq
  exact absurd hlt (not_lt.mpr (heq ▸ hnext r hr (heq ▸ hfirst a ha)))

/-- The join ends if the keys meet, and then with the pairs of equal keys. -/
theorem mergeLoop_eq {fuel : Nat} (h : ComparesKeys f g less equal greater ls rs)
    (hls : ls.Pairwise fun a b => f a ≤ f b) (hrs : rs.Pairwise fun a b => g a ≤ g b)
    (hfuel : ls.length < fuel) :
    mergeLoop less equal greater fuel ls rs =
      if Meets (ls.map f) (rs.map g) then .ok (equiJoin f g ExecRecord.append ls rs)
      else .error .undefined := by
  induction fuel generalizing ls rs with
  | zero => cases hfuel
  | succ fuel ih =>
      rcases ls with - | ⟨l, ls⟩
      · exact (if_pos (meets_nil_left (rs.map g))).symm
      rcases rs with - | ⟨r, rs⟩
      · rw [List.map_nil, if_pos (meets_nil_right _), equiJoin_eq_nil fun _ _ _ hr => by cases hr]
        rfl
      generalize hright : r :: rs = right at h hrs ⊢
      have hne : right ≠ [] := hright ▸ List.cons_ne_nil r rs
      have hl : l ∈ l :: ls := List.mem_cons_self
      have hfirst : ∀ a ∈ l :: ls, f l ≤ f a := by
        intro a ha
        rcases List.mem_cons.mp ha with rfl | ha
        · exact le_rfl
        · exact (List.pairwise_cons.mp hls).1 a ha
      have hfirstKey : ∀ k ∈ (l :: ls).map f, f l ≤ k := List.forall_mem_map.mpr hfirst
      cases hss : right.filter fun r => f l ≤ g r with
      | nil =>
          have hbelow : ∀ k ∈ right.map g, k < f l := by
            refine List.forall_mem_map.mpr fun r hr => ?_
            simpa using List.filter_eq_nil_iff.mp hss r hr
          rw [mergeLoop_of_below h hrs hne hss, if_neg]
          exact not_meets_of_below (List.mem_map_of_mem hl) hfirstKey (by simpa using hne) hbelow
      | cons s ss =>
          obtain ⟨hs, hle, hnext⟩ := of_filter_le_eq_cons hrs hss
          have hbelow := ne_of_lt_next hfirst hnext
          rw [mergeLoop_succ h hss hls hrs]
          by_cases hjoined : ((l :: ls).filter fun a => f a = g s) = []
          · have hnot : ∀ a ∈ l :: ls, f a ≠ g s := by
              intro a ha heq
              exact List.filter_eq_nil_iff.mp hjoined a ha (decide_eq_true heq)
            have hmeets := meets_iff_of_not_joined hl hfirst hs hle hnext hnot
            rw [if_pos hjoined]
            by_cases hrest : ((l :: ls).filter fun a => g s < f a) = []
            · rw [if_pos hrest, if_pos (hmeets.mpr hrest), equiJoin_eq_nil]
              intro a ha
              have hle : f a ≤ g s := by simpa using List.filter_eq_nil_iff.mp hrest a ha
              exact hbelow a ha (lt_of_le_of_ne hle (hnot a ha))
            · rw [if_neg hrest, if_neg fun h => hrest (hmeets.mp h)]
          · rcases List.exists_mem_of_ne_nil _ hjoined with ⟨a, ha⟩
            rcases List.mem_filter.mp ha with ⟨ha, heq⟩
            have hmem : g s ∈ (l :: ls).map f := List.mem_map.mpr ⟨a, ha, of_decide_eq_true heq⟩
            have hshort : ((l :: ls).filter fun a => g s < f a).length < (l :: ls).length := by
              apply List.length_filter_lt_length_iff_exists.mpr
              exact ⟨a, ha, by simp [of_decide_eq_true heq]⟩
            have hloop := ih (h.mono (List.filter_subset_self _) (List.filter_subset_self _))
              (hls.filter _) (hrs.filter fun r => g s < g r)
              (hshort.trans_le (Nat.le_of_lt_succ hfuel))
            have hmeets := meets_iff_above hfirstKey hmem (List.mem_map_of_mem hs)
              (List.forall_mem_map.mpr hnext)
            rw [above_map, above_map] at hmeets
            rw [if_neg hjoined, hloop, equiJoin_eq_append hls hbelow]
            by_cases hrest : Meets ((l :: ls).map f) (right.map g)
            · rw [if_pos hrest, if_pos (hmeets.mp hrest)]
              rfl
            · rw [if_neg hrest, if_neg fun h => hrest (hmeets.mpr h)]
              rfl

end Loops

/-! ## The executor -/

section Executor

variable {regexMatch : RegexMatch} {leftKey rightKey : OperatorExpression} {T : ValueType}
  {ls rs : List ExecRecord}

/-- The records are in ascending order of their keys. -/
def Ascending (regexMatch : RegexMatch) (key : OperatorExpression) (rows : List ExecRecord) : Prop :=
  rows.Pairwise fun a b =>
    (keyOf regexMatch key b).less (keyOf regexMatch key a) = .ok false

/-- The pairs of records with equal keys, by rows. -/
def equalPairs (regexMatch : RegexMatch) (leftKey rightKey : OperatorExpression)
    (ls rs : List ExecRecord) : List ExecRecord :=
  ls.flatMap fun l =>
    (rs.filter fun r =>
      (keyOf regexMatch leftKey l).equal (keyOf regexMatch rightKey r) = .ok true).map l.append

/-- The keys of a list of records, to be compared lexicographically. -/
def sortKeys (regexMatch : RegexMatch) (key : OperatorExpression) (rows : List ExecRecord) :
    List (List Int) :=
  rows.map fun row => (keyOf regexMatch key row).sortKey

theorem HasKeys.ascending_iff {key : OperatorExpression} {rows : List ExecRecord}
    (hT : Value.IsKeyType T) (h : HasKeys regexMatch key T rows) :
    Ascending regexMatch key rows ↔
      rows.Pairwise fun a b =>
        (keyOf regexMatch key a).sortKey ≤ (keyOf regexMatch key b).sortKey := by
  apply List.Pairwise.iff_of_mem
  intro a b ha hb
  rw [Value.less_eq hT (h.getType_eq hb) (h.getType_eq ha)]
  simp

theorem equalPairs_eq (hT : Value.IsKeyType T) (hl : HasKeys regexMatch leftKey T ls)
    (hr : HasKeys regexMatch rightKey T rs) :
    equalPairs regexMatch leftKey rightKey ls rs =
      equiJoin (fun l => (keyOf regexMatch leftKey l).sortKey)
        (fun r => (keyOf regexMatch rightKey r).sortKey) ExecRecord.append ls rs := by
  apply List.flatMap_congr
  intro l hmem
  apply congrArg (List.map l.append)
  apply List.filter_congr
  intro r hmem'
  rw [Value.equal_eq hT (hl.getType_eq hmem) (hr.getType_eq hmem'), decide_eq_decide,
    Except.ok.injEq, decide_eq_true_iff]

/-- `MergeJoinExecutor::Next` on two sorted lists. -/
theorem mergeJoin_eq (hT : Value.IsKeyType T) (hl : HasKeys regexMatch leftKey T ls)
    (hr : HasKeys regexMatch rightKey T rs) (hls : Ascending regexMatch leftKey ls)
    (hrs : Ascending regexMatch rightKey rs) :
    mergeJoin regexMatch leftKey rightKey ls rs =
      if Meets (sortKeys regexMatch leftKey ls) (sortKeys regexMatch rightKey rs) then
        .ok (equalPairs regexMatch leftKey rightKey ls rs)
      else
        .error .undefined := by
  rw [equalPairs_eq hT hl hr]
  have compares : ComparesKeys (fun l => (keyOf regexMatch leftKey l).sortKey)
      (fun r => (keyOf regexMatch rightKey r).sortKey)
      (fun l r => do
        Value.less (← leftKey.evaluate regexMatch l.values) (← rightKey.evaluate regexMatch r.values))
      (fun l r => do
        Value.equal (← leftKey.evaluate regexMatch l.values) (← rightKey.evaluate regexMatch r.values))
      (fun l r => do
        Value.greater (← leftKey.evaluate regexMatch l.values)
          (← rightKey.evaluate regexMatch r.values)) ls rs := by
    constructor
    · intro l hmem r hmem'
      rw [hl.evaluate_eq hmem, hr.evaluate_eq hmem']
      exact (Value.less_eq hT (hl.getType_eq hmem) (hr.getType_eq hmem')).trans
        (congrArg Except.ok (decide_eq_decide.mpr Iff.rfl))
    · intro l hmem r hmem'
      rw [hl.evaluate_eq hmem, hr.evaluate_eq hmem']
      exact (Value.equal_eq hT (hl.getType_eq hmem) (hr.getType_eq hmem')).trans
        (congrArg Except.ok (decide_eq_decide.mpr Iff.rfl))
    · intro l hmem r hmem'
      rw [hl.evaluate_eq hmem, hr.evaluate_eq hmem']
      exact (Value.greater_eq hT (hl.getType_eq hmem) (hr.getType_eq hmem')).trans
        (congrArg Except.ok (decide_eq_decide.mpr Iff.rfl))
  exact mergeLoop_eq compares ((hl.ascending_iff hT).mp hls) ((hr.ascending_iff hT).mp hrs)
    (Nat.lt_succ_self _)

end Executor

/-! ## Merge joins of two tables -/

def mergeTables : Operator :=
  .mergeJoin [] (.seqScan [] 1 "l" none) (.seqScan [] 2 "r" none) leftColumn rightColumn

theorem hasKeys_column {regexMatch : RegexMatch} {T type : ValueType} {name : String} {size : Nat}
    {isLeft : Bool} {values : List Value} (h : ∀ value ∈ values, value.getType = T) :
    HasKeys regexMatch (.columnValue 0 type name size isLeft) T (column values) := by
  refine List.forall_mem_map.mpr fun value hvalue => ?_
  exact ⟨value, rfl, h value hvalue⟩

instance {regexMatch : RegexMatch} {key : OperatorExpression} {rows : List ExecRecord} :
    Decidable (Ascending regexMatch key rows) :=
  inferInstanceAs (Decidable (rows.Pairwise _))

end HuaDB
