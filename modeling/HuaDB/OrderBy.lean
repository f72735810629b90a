import HuaDB.Lib.Sorting
import HuaDB.SortKeys

/-!
`OrderByExecutor`, which sorts once per term, from the last to the first.

`std::sort` is any function that the standard allows (`IsSort`): its result is a sorted
permutation, with equivalent records in any order. So the last sort, by the first term, may
undo what the others did, and the records come in lexicographic order for certain if and
only if records that agree in the first key agree in all (`orderBy_gives_iff`).
-/

namespace HuaDB

open Volcano Sorting

/-- A comparison of two records, which may throw. -/
abbrev RecordTest := ExecRecord → ExecRecord → Except EvalError Bool

/-- What the standard guarantees of `std::sort`. -/
def IsSort (sort : RecordTest → List ExecRecord → Except EvalError (List ExecRecord)) : Prop :=
  ∀ (test : RecordTest) (lt : ExecRecord → ExecRecord → Bool) (rows : List ExecRecord),
    (∀ a ∈ rows, ∀ b ∈ rows, test a b = .ok (lt a b)) → StrictWeakOn lt rows →
      ∃ sorted, sort test rows = .ok sorted ∧ sorted.Perm rows ∧ Sorted lt sorted

/-! ## Terms -/

section Terms

variable (regexMatch : RegexMatch) (term : OrderByType × OperatorExpression)

/-- The comparator of one term. -/
def termTest : RecordTest := fun a b => do
  let x ← term.2.evaluate regexMatch a.values
  let y ← term.2.evaluate regexMatch b.values
  if term.1 = .desc then x.greater y else x.less y

/-- One record comes before another by the keys of a term. -/
def comesBefore (a b : ExecRecord) : Bool :=
  match termTest regexMatch term a b with
  | .ok result => result
  | .error _ => false

/-- The records have non-NULL keys of one type that `Less` and `Greater` compare. Among
DOUBLE keys there is none that is not a number. -/
def Comparable (rows : List ExecRecord) : Prop :=
  ∃ T, HasKeys regexMatch term.2 T rows ∧
    (Value.IsKeyType T ∨ T = .double ∧ StrictWeakOn (comesBefore regexMatch term) rows)

variable {regexMatch term} {rows : List ExecRecord}

theorem Comparable.mono {rows' : List ExecRecord} (h : Comparable regexMatch term rows)
    (hsub : rows' ⊆ rows) : Comparable regexMatch term rows' := by
  rcases h with ⟨T, hkeys, hT⟩
  exact ⟨T, fun row hrow => hkeys row (hsub hrow), hT.imp_right fun h => ⟨h.1, h.2.mono hsub⟩⟩

theorem exists_compareWith {name : String} {bool : Option (Bool → Bool → Bool)}
    {int : Int32 → Int32 → Bool} {double : Float → Float → Bool}
    {str : List UInt8 → List UInt8 → Bool} {x y : Value} {T : ValueType}
    (hT : Value.IsKeyType T ∨ T = .double) (hx : x.getType = T) (hy : y.getType = T) :
    ∃ result, Value.compareWith name bool int double str x y = .ok result := by
  rcases hT with hT | rfl
  · rcases Value.cases_of_isKeyType hT hx hy with ⟨n, m, rfl, rfl⟩ | ⟨s, t, rfl, rfl⟩ | ⟨s, t, rfl, rfl⟩
    · exact ⟨int n m, rfl⟩
    · exact ⟨str s t, rfl⟩
    · exact ⟨str s t, rfl⟩
  · cases x <;> cases hx
    cases y <;> cases hy
    exact ⟨_, rfl⟩

theorem termTest_of_evaluate {a b : ExecRecord} {x y : Value}
    (hx : term.2.evaluate regexMatch a.values = .ok x)
    (hy : term.2.evaluate regexMatch b.values = .ok y) :
    termTest regexMatch term a b = if term.1 = .desc then x.greater y else x.less y := by
  rw [termTest, hx, hy]
  rfl

/-- The comparator does not throw. -/
theorem Comparable.termTest_eq (h : Comparable regexMatch term rows) {a b : ExecRecord}
    (ha : a ∈ rows) (hb : b ∈ rows) :
    termTest regexMatch term a b = .ok (comesBefore regexMatch term a b) := by
  rcases h with ⟨T, hkeys, hT⟩
  have hT : Value.IsKeyType T ∨ T = .double := hT.imp_right And.left
  have htest := termTest_of_evaluate (hkeys.evaluate_eq ha) (hkeys.evaluate_eq hb)
  rw [comesBefore, htest]
  by_cases hdesc : term.1 = .desc
  · rw [if_pos hdesc]
    rcases exists_compareWith hT (hkeys.getType_eq ha) (hkeys.getType_eq hb) with ⟨result, hresult⟩
    rw [Value.greater, hresult]
  · rw [if_neg hdesc]
    rcases exists_compareWith hT (hkeys.getType_eq ha) (hkeys.getType_eq hb) with ⟨result, hresult⟩
    rw [Value.less, hresult]

theorem Comparable.strictWeakOn (h : Comparable regexMatch term rows) :
    StrictWeakOn (comesBefore regexMatch term) rows := by
  rcases h with ⟨T, hkeys, hT | ⟨-, hweak⟩⟩
  · let key := fun row => (keyOf regexMatch term.2 row).sortKey
    by_cases hdesc : term.1 = .desc
    · apply (StrictWeakOn.of_key (fun row => OrderDual.toDual (key row)) rows).congr
      intro a ha b hb
      rw [comesBefore, termTest_of_evaluate (hkeys.evaluate_eq ha) (hkeys.evaluate_eq hb),
        if_pos hdesc, Value.greater_eq hT (hkeys.getType_eq ha) (hkeys.getType_eq hb)]
      exact decide_eq_decide.mpr Iff.rfl
    · apply (StrictWeakOn.of_key key rows).congr
      intro a ha b hb
      rw [comesBefore, termTest_of_evaluate (hkeys.evaluate_eq ha) (hkeys.evaluate_eq hb),
        if_neg hdesc, Value.less_eq hT (hkeys.getType_eq ha) (hkeys.getType_eq hb)]
      exact decide_eq_decide.mpr Iff.rfl
  · exact hweak

end Terms

/-! ## The executor -/

section Executor

variable {regexMatch : RegexMatch} {orderBys : List (OrderByType × OperatorExpression)}
  {sort : RecordTest → List ExecRecord → Except EvalError (List ExecRecord)}
  {rows : List ExecRecord}

/-- The records are in lexicographic order by the terms. -/
def InOrder (regexMatch : RegexMatch) (orderBys : List (OrderByType × OperatorExpression))
    (rows : List ExecRecord) : Prop :=
  Sorted (lexicographic (orderBys.map (comesBefore regexMatch))) rows

/-- Records that agree in the key of the first term agree in the keys of all. -/
def TiesAgree (regexMatch : RegexMatch) :
    List (OrderByType × OperatorExpression) → List ExecRecord → Prop
  | [], _ => True
  | first :: rest, rows =>
      ∀ a ∈ rows, ∀ b ∈ rows, Equivalent (comesBefore regexMatch first) a b →
        ∀ term ∈ rest, Equivalent (comesBefore regexMatch term) a b

instance (orderBys : List (OrderByType × OperatorExpression)) (rows : List ExecRecord) :
    Decidable (TiesAgree regexMatch orderBys rows) :=
  match orderBys with
  | [] => .isTrue trivial
  | first :: rest => inferInstanceAs (Decidable (∀ a ∈ rows, ∀ b ∈ rows,
      Equivalent (comesBefore regexMatch first) a b →
        ∀ term ∈ rest, Equivalent (comesBefore regexMatch term) a b))

/-- With any `std::sort` that the standard allows, the executor gives a permutation of its
input in lexicographic order. -/
def GivesInOrder (regexMatch : RegexMatch) (orderBys : List (OrderByType × OperatorExpression))
    (rows : List ExecRecord) : Prop :=
  ∀ (σ : Type) (db : Storage σ) (test : OperatorExpression → ExecRecord → Except Stop Bool)
    (child : Operator) (columnList : ColumnList) (fuel : Nat) (state : σ),
    db.regexMatch = regexMatch → IsSort db.sort →
    (executor db test child).Gives fuel state rows → rows.length < fuel →
    ∃ sorted, (executor db test (.orderBy columnList child orderBys)).Gives fuel state sorted ∧
      sorted.Perm rows ∧ InOrder regexMatch orderBys sorted

theorem sortBy_cons {first : OrderByType × OperatorExpression} :
    sortBy regexMatch sort (first :: orderBys) rows =
      sortBy regexMatch sort orderBys rows >>= sort (termTest regexMatch first) := by
  rw [sortBy, List.reverse_cons, List.foldlM_append]
  simp only [List.foldlM_cons, List.foldlM_nil, bind_pure]
  rfl

/-- The sorts end well, whatever they do with equivalent records. -/
theorem exists_sortBy (hsort : IsSort sort)
    (hterms : ∀ term ∈ orderBys, Comparable regexMatch term rows) :
    ∃ sorted, sortBy regexMatch sort orderBys rows = .ok sorted ∧ sorted.Perm rows := by
  induction orderBys with
  | nil => exact ⟨rows, rfl, List.Perm.refl _⟩
  | cons first rest ih =>
      rcases ih fun term hterm => hterms term (List.mem_cons_of_mem _ hterm) with ⟨mid, hmid, hperm⟩
      have hfirst := (hterms first List.mem_cons_self).mono hperm.subset
      rcases hsort _ _ mid (fun a ha b hb => hfirst.termTest_eq ha hb) hfirst.strictWeakOn with
        ⟨sorted, hsorted, hperm', -⟩
      refine ⟨sorted, ?_, hperm'.trans hperm⟩
      rw [sortBy_cons, hmid]
      exact hsorted

/-- The last sort is by the first term. -/
theorem sortBy_cons_eq {first : OrderByType × OperatorExpression} {P : List ExecRecord → Prop}
    (hsort : IsSort sort) (hterms : ∀ term ∈ first :: orderBys, Comparable regexMatch term rows)
    (hlast : ∀ mid : List ExecRecord, mid.Perm rows →
      ∃ sorted, sort (termTest regexMatch first) mid = .ok sorted ∧ sorted.Perm mid ∧ P sorted) :
    ∃ sorted, sortBy regexMatch sort (first :: orderBys) rows = .ok sorted ∧ sorted.Perm rows ∧
      P sorted := by
  rcases exists_sortBy hsort fun term hterm => hterms term (List.mem_cons_of_mem _ hterm) with
    ⟨mid, hmid, hperm⟩
  rcases hlast mid hperm with ⟨sorted, hsorted, hperm', hP⟩
  refine ⟨sorted, ?_, hperm'.trans hperm, hP⟩
  rw [sortBy_cons, hmid]
  exact hsorted

theorem orderBy_gives {σ : Type} {db : Storage σ}
    {test : OperatorExpression → ExecRecord → Except Stop Bool} {child : Operator}
    (columnList : ColumnList) {fuel : Nat} {state : σ} {sorted : List ExecRecord}
    (hchild : (executor db test child).Gives fuel state rows) (hfuel : rows.length < fuel)
    (hsorted : sortBy db.regexMatch db.sort orderBys rows = .ok sorted)
    (hperm : sorted.Perm rows) :
    (executor db test (.orderBy columnList child orderBys)).Gives fuel state sorted := by
  by_cases hempty : rows = []
  · subst hempty
    rw [hperm.eq_nil]
    exact hchild.blocking_nil hfuel rfl
  · apply hchild.blocking hfuel
    rw [if_neg hempty]
    exact expression_bind_ok hsorted _ _

/-- A sort that puts the chosen ones among equivalent records in front. -/
noncomputable def favouring (p : ExecRecord → Bool) (test : RecordTest) (rows : List ExecRecord) :
    Except EvalError (List ExecRecord) :=
  open Classical in
  if h : ∃ sorted : List ExecRecord, ∃ lt, (∀ a ∈ rows, ∀ b ∈ rows, test a b = .ok (lt a b)) ∧
      sorted.Perm rows ∧ sorted.Pairwise (Ranked lt p) then .ok h.choose
  else .ok rows

theorem favouring_eq (p : ExecRecord → Bool) {test : RecordTest}
    {lt : ExecRecord → ExecRecord → Bool}
    (htest : ∀ a ∈ rows, ∀ b ∈ rows, test a b = .ok (lt a b)) (hweak : StrictWeakOn lt rows) :
    ∃ sorted, favouring p test rows = .ok sorted ∧ sorted.Perm rows ∧
      sorted.Pairwise (Ranked lt p) := by
  have h : ∃ sorted : List ExecRecord, ∃ lt, (∀ a ∈ rows, ∀ b ∈ rows, test a b = .ok (lt a b)) ∧
      sorted.Perm rows ∧ sorted.Pairwise (Ranked lt p) := by
    rcases exists_sorted hweak p with ⟨sorted, hperm, hranked⟩
    exact ⟨sorted, lt, htest, hperm, hranked⟩
  refine ⟨h.choose, ?_, ?_⟩
  · rw [favouring, dif_pos h]
  · rcases h.choose_spec with ⟨lt', htest', hperm, hranked⟩
    refine ⟨hperm, hranked.imp_of_mem fun {a b} ha hb hab => ?_⟩
    have heq : ∀ a ∈ rows, ∀ b ∈ rows, lt' a b = lt a b := by
      intro a ha b hb
      exact Except.ok.inj ((htest' a ha b hb).symm.trans (htest a ha b hb))
    have ha := hperm.subset ha
    have hb := hperm.subset hb
    rwa [Ranked, heq a ha b hb, heq b hb a ha] at hab

theorem isSort_favouring (p : ExecRecord → Bool) : IsSort (favouring p) := by
  intro test lt rows htest hweak
  rcases favouring_eq p htest hweak with ⟨sorted, hsorted, hperm, hranked⟩
  exact ⟨sorted, hsorted, hperm, hranked.imp And.left⟩

/-- Two records that the first term does not tell apart, of which the later ones put `a`
first. -/
theorem exists_of_not_tiesAgree {first : OrderByType × OperatorExpression}
    (h : ¬ TiesAgree regexMatch (first :: orderBys) rows) :
    ∃ a ∈ rows, ∃ b ∈ rows, Equivalent (comesBefore regexMatch first) a b ∧
      lexicographic (orderBys.map (comesBefore regexMatch)) a b = true := by
  simp only [TiesAgree, not_forall] at h
  rcases h with ⟨a, ha, b, hb, htie, term, hterm, hnot⟩
  have hlater : ¬ Equivalent (lexicographic (orderBys.map (comesBefore regexMatch))) a b := by
    intro h
    exact hnot (equivalent_lexicographic_iff.mp h _ (List.mem_map_of_mem hterm))
  cases hab : lexicographic (orderBys.map (comesBefore regexMatch)) a b with
  | true => exact ⟨a, ha, b, hb, htie, hab⟩
  | false =>
      cases hba : lexicographic (orderBys.map (comesBefore regexMatch)) b a with
      | true => exact ⟨b, hb, a, ha, htie.symm, hba⟩
      | false => exact absurd ⟨hab, hba⟩ hlater

/-- A sort that puts the wrong one of two such records in front spoils the order. -/
theorem tiesAgree_of_givesInOrder (hterms : ∀ term ∈ orderBys, Comparable regexMatch term rows)
    (h : GivesInOrder regexMatch orderBys rows) : TiesAgree regexMatch orderBys rows := by
  rcases orderBys with - | ⟨first, rest⟩
  · trivial
  by_contra hnot
  rcases exists_of_not_tiesAgree hnot with ⟨a, ha, b, hb, htie, hlater⟩
  classical
  let p : ExecRecord → Bool := fun row => row = b
  have hlast : ∀ mid : List ExecRecord, mid.Perm rows →
      ∃ sorted, favouring p (termTest regexMatch first) mid = .ok sorted ∧ sorted.Perm mid ∧
        sorted.Pairwise (Ranked (comesBefore regexMatch first) p) := by
    intro mid hperm
    have hfirst := (hterms first List.mem_cons_self).mono hperm.subset
    exact favouring_eq p (fun a ha b hb => hfirst.termTest_eq ha hb) hfirst.strictWeakOn
  rcases sortBy_cons_eq (isSort_favouring p) hterms hlast with ⟨sorted, hsorted, hperm, hranked⟩
  have hgives := Storage.gives_ofRows regexMatch (favouring p) (fun _ => rows)
    (fun _ _ => .ok true) [] 0 "" none (rows.length + 1)
  rcases h Unit _ _ _ [] _ () rfl (isSort_favouring p) hgives (Nat.lt_succ_self _) with
    ⟨out, hout, -, horder⟩
  have heq : out = sorted :=
    hout.unique (orderBy_gives [] hgives (Nat.lt_succ_self _) hsorted hperm)
  rw [heq, InOrder, List.map_cons] at horder
  have hself : Equivalent (lexicographic (rest.map (comesBefore regexMatch))) a a := by
    apply equivalent_lexicographic_iff.mpr
    refine List.forall_mem_map.mpr fun term hterm => ?_
    have hweak := (hterms term (List.mem_cons_of_mem _ hterm)).strictWeakOn
    exact ⟨hweak.irrefl a ha, hweak.irrefl a ha⟩
  have hne : a ≠ b := by
    intro heq
    rw [← heq, hself.1] at hlater
    cases hlater
  exact not_sorted_of_ranked hne (hperm.mem_iff.mpr ha) (hperm.mem_iff.mpr hb) htie hlater
    (decide_eq_false hne) (decide_eq_true rfl) hranked horder

theorem givesInOrder_of_tiesAgree (hterms : ∀ term ∈ orderBys, Comparable regexMatch term rows)
    (hties : TiesAgree regexMatch orderBys rows) : GivesInOrder regexMatch orderBys rows := by
  intro σ db test child columnList fuel state hregex hsort hchild hfuel
  subst hregex
  rcases orderBys with - | ⟨first, rest⟩
  · exact ⟨rows, orderBy_gives columnList hchild hfuel rfl (List.Perm.refl _), List.Perm.refl _,
      List.pairwise_of_forall fun _ _ => rfl⟩
  have hlast : ∀ mid : List ExecRecord, mid.Perm rows →
      ∃ sorted, db.sort (termTest db.regexMatch first) mid = .ok sorted ∧ sorted.Perm mid ∧
        Sorted (comesBefore db.regexMatch first) sorted := by
    intro mid hperm
    have hfirst := (hterms first List.mem_cons_self).mono hperm.subset
    exact hsort _ _ mid (fun a ha b hb => hfirst.termTest_eq ha hb) hfirst.strictWeakOn
  rcases sortBy_cons_eq hsort hterms hlast with ⟨sorted, hsorted, hperm, hlt⟩
  refine ⟨sorted, orderBy_gives columnList hchild hfuel hsorted hperm, hperm, ?_⟩
  apply lexicographic_of_ties hlt
  intro a ha b hb htie
  refine List.forall_mem_map.mpr fun term hterm => ?_
  exact hties a (hperm.subset ha) b (hperm.subset hb) htie term hterm

/-- `OrderByExecutor` gives its input in lexicographic order if and only if records that
agree in the first key agree in all. -/
theorem givesInOrder_iff (hterms : ∀ term ∈ orderBys, Comparable regexMatch term rows) :
    GivesInOrder regexMatch orderBys rows ↔ TiesAgree regexMatch orderBys rows :=
  ⟨tiesAgree_of_givesInOrder hterms, givesInOrder_of_tiesAgree hterms⟩

end Executor

/-! ## Two terms -/

/-- `ORDER BY a, b DESC`. -/
def orderColumns : List (OrderByType × OperatorExpression) :=
  [(.default, .columnValue 0 .int "t.a" 4 true), (.desc, .columnValue 1 .int "t.b" 4 true)]

/-- A table of two columns. -/
def pairs (rows : List (Int32 × Int32)) : List ExecRecord :=
  rows.map fun (a, b) => { values := [.int a, .int b] }

theorem comparable_pairs (rows : List (Int32 × Int32)) :
    ∀ term ∈ orderColumns, Comparable (fun _ _ => .ok false) term (pairs rows) := by
  have hkeys : ∀ i, i = 0 ∨ i = 1 → ∀ name, HasKeys (fun _ _ => .ok false)
      (.columnValue i .int name 4 true) .int (pairs rows) := by
    rintro i (rfl | rfl) name
    · exact List.forall_mem_map.mpr fun (a, b) _ => ⟨.int a, rfl, rfl⟩
    · exact List.forall_mem_map.mpr fun (a, b) _ => ⟨.int b, rfl, rfl⟩
  refine List.forall_mem_cons.mpr ⟨⟨.int, hkeys 0 (.inl rfl) _, .inl trivial⟩, ?_⟩
  exact List.forall_mem_singleton.mpr ⟨.int, hkeys 1 (.inr rfl) _, .inl trivial⟩

/-- No two records agree in the first key alone. -/
theorem givesInOrder_pairs :
    TiesAgree (fun _ _ => .ok false) orderColumns (pairs [(2, 7), (1, 4), (1, 4)]) ∧
      GivesInOrder (fun _ _ => .ok false) orderColumns (pairs [(2, 7), (1, 4), (1, 4)]) := by
  have hties : TiesAgree (fun _ _ => .ok false) orderColumns (pairs [(2, 7), (1, 4), (1, 4)]) := by
    decide
  exact ⟨hties, (givesInOrder_iff (comparable_pairs _)).mpr hties⟩

/-- The sort by `a` may leave the two records in any order. -/
theorem not_givesInOrder_pairs :
    ¬ GivesInOrder (fun _ _ => .ok false) orderColumns (pairs [(1, 1), (1, 2)]) := by
  intro h
  exact absurd (tiesAgree_of_givesInOrder (comparable_pairs _) h) (by decide)

end HuaDB
