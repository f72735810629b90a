import HuaDB.Executors
import HuaDB.Expansions

/-!
Boolean expressions in the three-valued logic of SQL, and as they are evaluated.

`sqlEvaluate` is the meaning: NULL is the third truth value, BETWEEN and IN are the
comparisons they stand for. An evaluation departs from it at an AND or OR of NULL and the
constant that decides it, at the negation of NULL, and at bounds and elements that are
NULL or of another type (`Plain`).
-/

namespace HuaDB

open Volcano

/-! ## Truth values -/

/-- TRUE, FALSE or NULL. -/
abbrev Truth := Option Bool

namespace Truth

def and : Truth → Truth → Truth
  | some false, _ | _, some false => some false
  | some true, some true => some true
  | _, _ => none

def or : Truth → Truth → Truth
  | some true, _ | _, some true => some true
  | some false, some false => some false
  | _, _ => none

def not (t : Truth) : Truth := t.map Bool.not

/-- A truth value as a value. -/
def toValue : Truth → Value
  | some b => .bool b
  | none => .null

/-- The truth value of a value of type BOOL. -/
def ofValue : Value → Except EvalError Truth
  | .bool b => .ok (some b)
  | .null => .ok none
  | _ => .error (.db "Type mismatch (expected bool)")

theorem or_false_left (t : Truth) : or (some false) t = t := by
  rcases t with - | (- | -) <;> rfl

theorem or_true_left (t : Truth) : or (some true) t = some true := by
  rcases t with - | (- | -) <;> rfl

theorem and_false_left (t : Truth) : and (some false) t = some false := by
  rcases t with - | (- | -) <;> rfl

end Truth

def LogicType.truth : LogicType → Truth → Truth → Truth
  | .and => Truth.and
  | .or => Truth.or

/-- The operand that decides a connective. -/
def LogicType.dominant : LogicType → Bool
  | .and => false
  | .or => true

/-! ## Meaning -/

namespace OperatorExpression

variable (regexMatch : RegexMatch)

/-- `x >= a AND x <= b`. -/
def sqlBetween (x : Value) : List Value → Except EvalError Truth
  | [a, b] => do
      let lower ← Comparison.compute regexMatch .greaterEqual x a
      let upper ← Comparison.compute regexMatch .lessEqual x b
      return Truth.and (← Truth.ofValue lower) (← Truth.ofValue upper)
  | _ => .error .undefined

/-- `x = v1 OR ... OR x = vn`. -/
def sqlIn (x : Value) : List Value → Except EvalError Truth
  | [] => .ok (some false)
  | value :: values => do
      let found ← Comparison.compute regexMatch .equal x value
      return Truth.or (← Truth.ofValue found) (← sqlIn x values)

/-- NULL is between no bounds and in no list, nor is it outside of them. -/
def sqlCompare (type : ComparisonType) (lhs rhs : Value) : Except EvalError Value :=
  if lhs.isNull ∨ rhs.isNull then
    .ok .null
  else
    match type with
    | .between => do return (← sqlBetween regexMatch lhs rhs.getValues).toValue
    | .notBetween => do return (← sqlBetween regexMatch lhs rhs.getValues).not.toValue
    | .in => do return (← sqlIn regexMatch lhs rhs.getValues).toValue
    | .notIn => do return (← sqlIn regexMatch lhs rhs.getValues).not.toValue
    | type => Comparison.compute regexMatch type lhs rhs

mutual

/-- The meaning of an expression in SQL. Where it has none, by its types, it fails. -/
def sqlEvaluate (record : List Value) : OperatorExpression → Except EvalError Value
  | .arithmetic type left right => do
      let lhs ← left.sqlEvaluate record
      let rhs ← right.sqlEvaluate record
      Arithmetic.compute type lhs rhs
  | .typeCast castType arg => do TypeCast.compute castType (← arg.sqlEvaluate record)
  | .columnValue colIdx _ _ _ _ => getValue record colIdx
  | .comparison type left right => do
      let lhs ← left.sqlEvaluate record
      let rhs ← right.sqlEvaluate record
      sqlCompare regexMatch type lhs rhs
  | .const value => .ok value
  | .funcCall functionName arg => do FuncCall.compute functionName (← arg.sqlEvaluate record)
  | .list exprs => do return .list (← sqlEvaluateAll record exprs)
  | .logic type left right => do
      let lhs ← left.sqlEvaluate record
      let rhs ← right.sqlEvaluate record
      return (type.truth (← Truth.ofValue lhs) (← Truth.ofValue rhs)).toValue
  | .logicNot arg => do return (← Truth.ofValue (← arg.sqlEvaluate record)).not.toValue
  | .nullTest isNull arg => do return NullTest.compute isNull (← arg.sqlEvaluate record)

def sqlEvaluateAll (record : List Value) : List OperatorExpression → Except EvalError (List Value)
  | [] => .ok []
  | expr :: exprs => do
      let value ← expr.sqlEvaluate record
      let values ← sqlEvaluateAll record exprs
      return value :: values

end

mutual

/-- An expression and all expressions in it. -/
def subexpressions : OperatorExpression → List OperatorExpression
  | .arithmetic type left right =>
      .arithmetic type left right :: (left.subexpressions ++ right.subexpressions)
  | .typeCast castType arg => .typeCast castType arg :: arg.subexpressions
  | .columnValue colIdx colType name size isLeft => [.columnValue colIdx colType name size isLeft]
  | .comparison type left right =>
      .comparison type left right :: (left.subexpressions ++ right.subexpressions)
  | .const value => [.const value]
  | .funcCall functionName arg => .funcCall functionName arg :: arg.subexpressions
  | .list exprs => .list exprs :: subexpressionsAll exprs
  | .logic type left right =>
      .logic type left right :: (left.subexpressions ++ right.subexpressions)
  | .logicNot arg => .logicNot arg :: arg.subexpressions
  | .nullTest isNull arg => .nullTest isNull arg :: arg.subexpressions

def subexpressionsAll : List OperatorExpression → List OperatorExpression
  | [] => []
  | expr :: exprs => expr.subexpressions ++ subexpressionsAll exprs

end

/-! ## Where an evaluation departs from it -/

/-- One operand is NULL and the other decides the connective. -/
def Absorbs (type : LogicType) : Value → Value → Prop
  | .null, .bool b | .bool b, .null => b = type.dominant
  | _, _ => False

/-- The bounds or elements that are read have the type of the operand. -/
def ReadsAlike (type : ComparisonType) (lhs rhs : Value) : Prop :=
  match type with
  | .between | .notBetween =>
      ∀ a b, rhs.getValues = [a, b] → Comparison.BoundsMatch regexMatch lhs a b
  | .in | .notIn => Comparison.KindsMatch regexMatch lhs rhs.getValues
  | _ => True

mutual

/-- No NULL stands beside the operand that decides an AND or OR, under a NOT, or among the
bounds and elements that are read; nor does a value of another type among these. -/
def Plain (record : List Value) : OperatorExpression → Prop
  | .arithmetic _ left right => left.Plain record ∧ right.Plain record
  | .typeCast _ arg => arg.Plain record
  | .columnValue .. => True
  | .comparison type left right =>
      left.Plain record ∧ right.Plain record ∧
        ∀ lhs rhs, left.sqlEvaluate regexMatch record = .ok lhs →
          right.sqlEvaluate regexMatch record = .ok rhs → lhs.isNull = false →
          ReadsAlike regexMatch type lhs rhs
  | .const _ => True
  | .funcCall _ arg => arg.Plain record
  | .list exprs => PlainAll record exprs
  | .logic type left right =>
      left.Plain record ∧ right.Plain record ∧
        ∀ lhs rhs, left.sqlEvaluate regexMatch record = .ok lhs →
          right.sqlEvaluate regexMatch record = .ok rhs → ¬ Absorbs type lhs rhs
  | .logicNot arg =>
      arg.Plain record ∧ ∀ value, arg.sqlEvaluate regexMatch record = .ok value →
        value.isNull = false
  | .nullTest _ arg => arg.Plain record

def PlainAll (record : List Value) : List OperatorExpression → Prop
  | [] => True
  | expr :: exprs => expr.Plain record ∧ PlainAll record exprs

end

variable {regexMatch} {type : ComparisonType} {record : List Value} {x a b value : Value}
  {values : List Value} {t : Truth}

/-! ## Connectives -/

theorem truth_of_ofValue {s : Truth} (h : Truth.ofValue a = .ok s) : a = s.toValue := by
  cases a <;> cases h <;> rfl

theorem logic_eq_iff {type : LogicType} {s : Truth} (ha : Truth.ofValue a = .ok s)
    (hb : Truth.ofValue b = .ok t) :
    Logic.compute type a b = .ok (type.truth s t).toValue ↔ ¬ Absorbs type a b := by
  cases truth_of_ofValue ha
  cases truth_of_ofValue hb
  cases type <;> rcases s with - | (- | -) <;> rcases t with - | (- | -) <;>
    first
      | exact iff_of_true rfl (fun h => by cases h)
      | exact iff_of_true rfl id
      | exact iff_of_false (fun h => by cases h) (fun h => h rfl)

theorem not_eq_iff (ha : Truth.ofValue a = .ok t) :
    a.not = .ok t.not.toValue ↔ a.isNull = false := by
  cases truth_of_ofValue ha
  rcases t with - | b
  · exact iff_of_false (fun h => by cases h) (fun h => by cases h)
  · exact iff_of_true rfl rfl

/-! ## Bounds and elements -/

theorem scalar_of_compute (htype : Comparison.IsBinary type) (hx : x.isNull = false) {w : Value}
    (h : Comparison.compute regexMatch type x value = .ok w) :
    value = .null ∧ w = .null ∨
      Comparison.IsScalar x ∧ Comparison.IsScalar value ∧ ∃ b, w = .bool b := by
  rcases htype with rfl | rfl | rfl <;> cases x <;> cases hx <;> cases value <;> cases h <;>
    first
      | exact .inl ⟨rfl, rfl⟩
      | exact .inr ⟨by constructor, by constructor, _, rfl⟩

theorem result_eq_iff {result : Except EvalError Bool} :
    ((result >>= fun b => Except.ok (Value.bool b)) = .ok t.toValue ↔
        ∃ e, result = .ok e ∧ t = some e) ∧
      ((result >>= fun b => Except.ok (Value.bool !b)) = .ok t.not.toValue ↔
        ∃ e, result = .ok e ∧ t = some e) := by
  rcases result with error | b
  · have hnone : ¬ ∃ e, (Except.error error : Except EvalError Bool) = .ok e ∧ t = some e :=
      fun ⟨e, he, _⟩ => by cases he
    exact ⟨iff_of_false (fun h => by cases h) hnone, iff_of_false (fun h => by cases h) hnone⟩
  · rcases t with - | c
    · have hnone : ¬ ∃ e, (Except.ok b : Except EvalError Bool) = .ok e ∧ none = some e :=
        fun ⟨e, _, he⟩ => by cases he
      exact ⟨iff_of_false (fun h => by cases h) hnone, iff_of_false (fun h => by cases h) hnone⟩
    · have hsome : (∃ e, (Except.ok b : Except EvalError Bool) = .ok e ∧ some c = some e) ↔
          b = c := by simp [eq_comm]
      rw [hsome]
      constructor
      · change Except.ok (Value.bool b) = Except.ok (Value.bool c) ↔ b = c
        simp
      · change Except.ok (Value.bool !b) = Except.ok (Value.bool !c) ↔ b = c
        simp

theorem between_iff (hx : x.isNull = false) (h : sqlBetween regexMatch x [a, b] = .ok t) :
    (∃ e, Comparison.isBetween x (.list [a, b]) = .ok e ∧ t = some e) ↔
      Comparison.BoundsMatch regexMatch x a b := by
  rcases Except.bind_eq_ok_iff.mp h with ⟨lower, hlower, h⟩
  rcases Except.bind_eq_ok_iff.mp h with ⟨upper, hupper, h⟩
  rcases scalar_of_compute (.inr (.inl rfl)) hx hlower with ⟨rfl, rfl⟩ | ⟨hscalar, ha, l, rfl⟩
  · refine iff_of_false (by rintro ⟨e, he, -⟩; cases x <;> cases he) fun hmatch => ?_
    rcases hmatch with ⟨hx | hx, ha, -⟩
    · rw [hx] at ha
      cases ha
    · rw [hx] at ha
      cases ha
  · rcases scalar_of_compute (.inr (.inr rfl)) hx hupper with ⟨rfl, rfl⟩ | ⟨-, hb, u, rfl⟩
    · cases h
      rw [← Comparison.isBetween_null_iff hscalar ha hlower]
      cases l <;> simp [Truth.and]
    · cases h
      rw [← Comparison.isBetween_iff hscalar ha hb hlower hupper]
      cases l <;> cases u <;> simp [Truth.and]

theorem in_iff (hx : x.isNull = false) (h : sqlIn regexMatch x values = .ok t) :
    (∃ e, Comparison.isIn x values = .ok e ∧ t = some e) ↔
      Comparison.KindsMatch regexMatch x values := by
  induction values generalizing t with
  | nil =>
      cases h
      exact iff_of_true ⟨false, rfl, rfl⟩ trivial
  | cons value values ih =>
      rcases Except.bind_eq_ok_iff.mp h with ⟨found, hfound, h⟩
      rcases Except.bind_eq_ok_iff.mp h with ⟨f, hf, h⟩
      rcases Except.bind_eq_ok_iff.mp h with ⟨r, hr, h⟩
      cases h
      rw [Comparison.KindsMatch, hfound]
      rcases scalar_of_compute (.inl rfl) hx hfound with ⟨rfl, rfl⟩ | ⟨hscalar, hv, f, rfl⟩
      · refine iff_of_false (by rintro ⟨e, he, -⟩; cases x <;> cases he) fun hmatch => ?_
        rcases hmatch.1 with hkind | ⟨-, hkind⟩
        · cases x <;> cases hkind
          cases hx
        · cases hkind
      · cases hf
        by_cases hkind : Comparison.SameKind x value
        · rw [Comparison.isIn_cons_of_sameKind hscalar hv hkind hfound]
          cases f with
          | true => exact iff_of_true ⟨true, rfl, Truth.or_true_left r⟩ ⟨hkind, .inl rfl⟩
          | false =>
              rw [Truth.or_false_left, if_neg Bool.false_ne_true, ih hr]
              exact ⟨fun h => ⟨hkind, .inr h⟩, fun h => h.2.resolve_left fun h => by cases h⟩
        · rcases Comparison.isIn_cons_of_not_sameKind values hscalar hv hkind hfound
            with ⟨error, herror⟩
          rw [herror]
          exact iff_of_false (by rintro ⟨e, he, -⟩; cases he) fun h => hkind h.1

theorem getValues_of_sqlBetween (h : sqlBetween regexMatch x value.getValues = .ok t) :
    ∃ a b, value = .list [a, b] := by
  cases value with
  | list values =>
      rcases values with - | ⟨a, - | ⟨b, - | ⟨c, values⟩⟩⟩
      · cases h
      · cases h
      · exact ⟨a, b, rfl⟩
      · cases h
  | _ => cases h

/-- The bounds of a BETWEEN in its two forms. -/
theorem readsAlike_between_iff {lhs rhs : Value} (hlhs : lhs.isNull = false)
    (h : sqlBetween regexMatch lhs rhs.getValues = .ok t) :
    (∃ e, Comparison.isBetween lhs rhs = .ok e ∧ t = some e) ↔
      ∀ a b, rhs.getValues = [a, b] → Comparison.BoundsMatch regexMatch lhs a b := by
  rcases getValues_of_sqlBetween h with ⟨a, b, rfl⟩
  rw [between_iff hlhs h]
  exact ⟨fun h a' b' heq => by cases heq; exact h, fun h => h a b rfl⟩

/-- The two forms of a comparison, against the two forms of its meaning. -/
theorem forms_eq_iff {result : Except EvalError Bool} {meaning : Except EvalError Truth} {P : Prop}
    (hP : ∀ {t}, meaning = .ok t → ((∃ e, result = .ok e ∧ t = some e) ↔ P)) :
    ((meaning >>= fun t => Except.ok t.toValue) = .ok value →
        ((result >>= fun b => Except.ok (Value.bool b)) = .ok value ↔ P)) ∧
      ((meaning >>= fun t => Except.ok t.not.toValue) = .ok value →
        ((result >>= fun b => Except.ok (Value.bool !b)) = .ok value ↔ P)) := by
  constructor
  · intro h
    rcases Except.bind_eq_ok_iff.mp h with ⟨t, ht, heq⟩
    cases heq
    rw [result_eq_iff.1]
    exact hP ht
  · intro h
    rcases Except.bind_eq_ok_iff.mp h with ⟨t, ht, heq⟩
    cases heq
    rw [result_eq_iff.2]
    exact hP ht

/-- A comparison is evaluated to its meaning if it reads its operands alike. -/
theorem compare_eq_iff {lhs rhs : Value} (h : sqlCompare regexMatch type lhs rhs = .ok value) :
    Comparison.compute regexMatch type lhs rhs = .ok value ↔
      (lhs.isNull = false → ReadsAlike regexMatch type lhs rhs) := by
  by_cases hnull : lhs.isNull = true ∨ rhs.isNull = true
  · have hsql : sqlCompare regexMatch type lhs rhs = .ok .null := if_pos hnull
    have hcompute : Comparison.compute regexMatch type lhs rhs = .ok .null := if_pos hnull
    rw [hcompute, ← hsql]
    refine iff_of_true h fun hlhs => ?_
    have hrhs : rhs.isNull = true := hnull.resolve_left fun htrue => by
      rw [hlhs] at htrue
      cases htrue
    cases rhs <;> cases hrhs
    cases type <;> first | trivial | exact fun a b heq => by cases heq
  · have hlhs : lhs.isNull = false := by simpa using fun h => hnull (.inl h)
    refine Iff.trans ?_ (forall_prop_of_true hlhs).symm
    cases type with
    | between =>
        have hcompute : Comparison.compute regexMatch .between lhs rhs =
            (Comparison.isBetween lhs rhs >>= fun b => .ok (.bool b)) := if_neg hnull
        rw [hcompute]
        exact (forms_eq_iff fun ht => readsAlike_between_iff hlhs ht).1 ((if_neg hnull).symm.trans h)
    | notBetween =>
        have hcompute : Comparison.compute regexMatch .notBetween lhs rhs =
            (Comparison.isBetween lhs rhs >>= fun b => .ok (.bool !b)) := if_neg hnull
        rw [hcompute]
        exact (forms_eq_iff fun ht => readsAlike_between_iff hlhs ht).2 ((if_neg hnull).symm.trans h)
    | «in» =>
        have hcompute : Comparison.compute regexMatch .in lhs rhs =
            (Comparison.isIn lhs rhs.getValues >>= fun b => .ok (.bool b)) := if_neg hnull
        rw [hcompute]
        exact (forms_eq_iff fun ht => in_iff hlhs ht).1 ((if_neg hnull).symm.trans h)
    | notIn =>
        have hcompute : Comparison.compute regexMatch .notIn lhs rhs =
            (Comparison.isIn lhs rhs.getValues >>= fun b => .ok (.bool !b)) := if_neg hnull
        rw [hcompute]
        exact (forms_eq_iff fun ht => in_iff hlhs ht).2 ((if_neg hnull).symm.trans h)
    | _ => exact iff_of_true ((if_neg hnull).symm.trans h) trivial

/-! ## Evaluation -/

theorem mem_subexpressions_self (expr : OperatorExpression) : expr ∈ expr.subexpressions := by
  cases expr <;> rw [subexpressions] <;> exact List.mem_cons_self

/-- All expressions in an expression are evaluated to their meanings. -/
def Follows (regexMatch : RegexMatch) (record : List Value) (exprs : List OperatorExpression) :
    Prop :=
  ∀ expr ∈ exprs, expr.evaluate regexMatch record = expr.sqlEvaluate regexMatch record

theorem Follows.evaluate_eq {expr : OperatorExpression}
    (h : Follows regexMatch record expr.subexpressions) :
    expr.evaluate regexMatch record = expr.sqlEvaluate regexMatch record :=
  h expr (mem_subexpressions_self expr)

section Nodes

variable {expr arg left right : OperatorExpression} {P Q R : Prop}

/-- A node over one argument. -/
theorem follows_unary (harg : Follows regexMatch record arg.subexpressions ↔ P)
    (hnode : arg.evaluate regexMatch record = arg.sqlEvaluate regexMatch record →
      (expr.evaluate regexMatch record = expr.sqlEvaluate regexMatch record ↔ R)) :
    Follows regexMatch record (expr :: arg.subexpressions) ↔ P ∧ R := by
  rw [Follows, List.forall_mem_cons]
  constructor
  · rintro ⟨hself, h⟩
    exact ⟨harg.mp h, (hnode (Follows.evaluate_eq h)).mp hself⟩
  · rintro ⟨hP, hR⟩
    have h := harg.mpr hP
    exact ⟨(hnode h.evaluate_eq).mpr hR, h⟩

/-- A node over one argument that does with its value what its meaning does. -/
theorem follows_iff_arg (harg : Follows regexMatch record arg.subexpressions ↔ P)
    (hnode : arg.evaluate regexMatch record = arg.sqlEvaluate regexMatch record →
      expr.evaluate regexMatch record = expr.sqlEvaluate regexMatch record) :
    Follows regexMatch record (expr :: arg.subexpressions) ↔ P := by
  rw [follows_unary harg fun h => iff_of_true (hnode h) trivial, and_true]

/-- A node over two arguments. -/
theorem follows_binary (hleft : Follows regexMatch record left.subexpressions ↔ P)
    (hright : Follows regexMatch record right.subexpressions ↔ Q)
    (hnode : left.evaluate regexMatch record = left.sqlEvaluate regexMatch record →
      right.evaluate regexMatch record = right.sqlEvaluate regexMatch record →
      (expr.evaluate regexMatch record = expr.sqlEvaluate regexMatch record ↔ R)) :
    Follows regexMatch record (expr :: (left.subexpressions ++ right.subexpressions)) ↔
      P ∧ Q ∧ R := by
  rw [Follows, List.forall_mem_cons, List.forall_mem_append]
  constructor
  · rintro ⟨hself, hl, hr⟩
    exact ⟨hleft.mp hl, hright.mp hr,
      (hnode (Follows.evaluate_eq hl) (Follows.evaluate_eq hr)).mp hself⟩
  · rintro ⟨hP, hQ, hR⟩
    have hl := hleft.mpr hP
    have hr := hright.mpr hQ
    exact ⟨(hnode hl.evaluate_eq hr.evaluate_eq).mpr hR, hl, hr⟩

end Nodes

theorem evaluateAll_eq_of_follows {exprs : List OperatorExpression}
    (h : Follows regexMatch record (subexpressionsAll exprs)) :
    evaluateAll regexMatch record exprs = sqlEvaluateAll regexMatch record exprs := by
  induction exprs with
  | nil => rfl
  | cons expr exprs ih =>
      rw [subexpressionsAll, Follows, List.forall_mem_append] at h
      rw [evaluateAll, sqlEvaluateAll, Follows.evaluate_eq h.1, ih h.2]

/-- What a condition on the values of two operands says when these are known. -/
theorem forall_operands_iff {x y : Except EvalError Value} {lhs rhs : Value}
    (hx : x = .ok lhs) (hy : y = .ok rhs) (P : Value → Value → Prop) :
    (∀ lhs rhs, x = .ok lhs → y = .ok rhs → P lhs rhs) ↔ P lhs rhs := by
  constructor
  · exact fun h => h lhs rhs hx hy
  · intro h lhs' rhs' hlhs hrhs
    cases hx.symm.trans hlhs
    cases hy.symm.trans hrhs
    exact h

mutual

/-- An expression that has a meaning is evaluated to it, and so are the expressions in it,
if and only if it is plain. -/
theorem follows_iff : ∀ (expr : OperatorExpression) {value : Value},
    expr.sqlEvaluate regexMatch record = .ok value →
      (Follows regexMatch record expr.subexpressions ↔ expr.Plain regexMatch record)
  | .arithmetic type left right, value, h => by
      rw [sqlEvaluate] at h
      rcases Except.bind_eq_ok_iff.mp h with ⟨lhs, hlhs, h⟩
      rcases Except.bind_eq_ok_iff.mp h with ⟨rhs, hrhs, -⟩
      have hnode : left.evaluate regexMatch record = left.sqlEvaluate regexMatch record →
          right.evaluate regexMatch record = right.sqlEvaluate regexMatch record →
          ((arithmetic type left right).evaluate regexMatch record =
            (arithmetic type left right).sqlEvaluate regexMatch record ↔ True) := fun hl hr => by
        rw [evaluate, sqlEvaluate, hl, hr]
        exact iff_of_true rfl trivial
      have hboth := follows_binary (follows_iff left hlhs) (follows_iff right hrhs) hnode
      rwa [and_true] at hboth
  | .comparison type left right, value, h => by
      have hsql := h
      rw [sqlEvaluate] at h
      rcases Except.bind_eq_ok_iff.mp h with ⟨lhs, hlhs, h⟩
      rcases Except.bind_eq_ok_iff.mp h with ⟨rhs, hrhs, h⟩
      refine follows_binary (follows_iff left hlhs) (follows_iff right hrhs) fun hl hr => ?_
      rw [hsql, evaluate, hl, hr, hlhs, hrhs, forall_operands_iff rfl rfl]
      exact compare_eq_iff h
  | .logic type left right, value, h => by
      have hsql := h
      rw [sqlEvaluate] at h
      rcases Except.bind_eq_ok_iff.mp h with ⟨lhs, hlhs, h⟩
      rcases Except.bind_eq_ok_iff.mp h with ⟨rhs, hrhs, h⟩
      rcases Except.bind_eq_ok_iff.mp h with ⟨s, hs, h⟩
      rcases Except.bind_eq_ok_iff.mp h with ⟨t, ht, h⟩
      cases h
      refine follows_binary (follows_iff left hlhs) (follows_iff right hrhs) fun hl hr => ?_
      rw [hsql, evaluate, hl, hr, hlhs, hrhs, forall_operands_iff rfl rfl]
      exact logic_eq_iff hs ht
  | .logicNot arg, value, h => by
      have hsql := h
      rw [sqlEvaluate] at h
      rcases Except.bind_eq_ok_iff.mp h with ⟨a, ha, h⟩
      rcases Except.bind_eq_ok_iff.mp h with ⟨t, ht, h⟩
      cases h
      refine follows_unary (follows_iff arg ha) fun hl => ?_
      rw [hsql, evaluate, hl, ha]
      refine (not_eq_iff ht).trans ⟨fun hnull value hvalue => ?_, fun h => h a rfl⟩
      cases hvalue
      exact hnull
  | .typeCast castType arg, value, h => by
      rw [sqlEvaluate] at h
      rcases Except.bind_eq_ok_iff.mp h with ⟨a, ha, -⟩
      refine follows_iff_arg (follows_iff arg ha) fun hl => ?_
      rw [evaluate, sqlEvaluate, hl]
  | .funcCall functionName arg, value, h => by
      rw [sqlEvaluate] at h
      rcases Except.bind_eq_ok_iff.mp h with ⟨a, ha, -⟩
      refine follows_iff_arg (follows_iff arg ha) fun hl => ?_
      rw [evaluate, sqlEvaluate, hl]
  | .nullTest isNull arg, value, h => by
      rw [sqlEvaluate] at h
      rcases Except.bind_eq_ok_iff.mp h with ⟨a, ha, -⟩
      refine follows_iff_arg (follows_iff arg ha) fun hl => ?_
      rw [evaluate, sqlEvaluate, hl]
  | .columnValue .., _, _ => by
      refine iff_of_true (List.forall_mem_singleton.mpr ?_) trivial
      rw [evaluate, sqlEvaluate]
  | .const _, _, _ => by
      refine iff_of_true (List.forall_mem_singleton.mpr ?_) trivial
      rw [evaluate, sqlEvaluate]
  | .list exprs, value, h => by
      rw [sqlEvaluate] at h
      rcases Except.bind_eq_ok_iff.mp h with ⟨values, hvalues, -⟩
      rw [subexpressions, Plain, ← followsAll_iff exprs hvalues, Follows, List.forall_mem_cons]
      refine ⟨And.right, fun hall => ⟨?_, hall⟩⟩
      rw [evaluate, sqlEvaluate, evaluateAll_eq_of_follows hall]

theorem followsAll_iff : ∀ (exprs : List OperatorExpression) {values : List Value},
    sqlEvaluateAll regexMatch record exprs = .ok values →
      (Follows regexMatch record (subexpressionsAll exprs) ↔ PlainAll regexMatch record exprs)
  | [], _, _ => iff_of_true (fun _ h => by cases h) trivial
  | expr :: exprs, values, h => by
      rw [sqlEvaluateAll] at h
      rcases Except.bind_eq_ok_iff.mp h with ⟨value, hvalue, h⟩
      rcases Except.bind_eq_ok_iff.mp h with ⟨rest, hrest, -⟩
      rw [subexpressionsAll, PlainAll, ← follows_iff expr hvalue, ← followsAll_iff exprs hrest,
        Follows, List.forall_mem_append]
      rfl

end

/-- The predicate is TRUE on a record. -/
def isTrueOn (regexMatch : RegexMatch) (predicate : OperatorExpression) (record : ExecRecord) :
    Bool :=
  match predicate.sqlEvaluate regexMatch record.values with
  | .ok (.bool b) => b
  | _ => false

/-- The test of a filter accepts the records on which its predicate is TRUE. -/
theorem accepts_of_evaluate_eq {predicate : OperatorExpression} {record : ExecRecord}
    (heval : predicate.evaluate regexMatch record.values =
      predicate.sqlEvaluate regexMatch record.values)
    (hmeaning : predicate.sqlEvaluate regexMatch record.values = .ok t.toValue) :
    accepts regexMatch predicate record = .ok (predicate.isTrueOn regexMatch record) := by
  rw [accepts, isTrueOn, heval, hmeaning]
  rcases t with - | b <;> rfl

end OperatorExpression

open OperatorExpression

/-! ## The filter -/

/-- On rows for which its predicate has a meaning: the predicate and all expressions in it are
evaluated to their meanings, and `FilterExecutor` keeps the rows on which it is TRUE, if and
only if the predicate is plain on every row. -/
theorem filter_gives_iff {σ : Type} (db : Storage σ) {child : Operator} (columnList : ColumnList)
    {predicate : OperatorExpression} {rows : List ExecRecord} {fuel : Nat} {state : σ}
    (hchild : (executor db (accepts db.regexMatch) child).Gives fuel state rows)
    (hfuel : rows.length < fuel)
    (hmeaning : ∀ row ∈ rows,
      ∃ t, predicate.sqlEvaluate db.regexMatch row.values = .ok (Truth.toValue t)) :
    ((∀ row ∈ rows, Follows db.regexMatch row.values predicate.subexpressions) ∧
        (executor db (accepts db.regexMatch) (.filter columnList child predicate)).Gives fuel state
          (rows.filter (predicate.isTrueOn db.regexMatch))) ↔
      ∀ row ∈ rows, predicate.Plain db.regexMatch row.values := by
  constructor
  · rintro ⟨hfollows, -⟩ row hrow
    rcases hmeaning row hrow with ⟨t, ht⟩
    exact (follows_iff predicate ht).mp (hfollows row hrow)
  · intro hplain
    have hfollows : ∀ row ∈ rows, Follows db.regexMatch row.values predicate.subexpressions := by
      intro row hrow
      rcases hmeaning row hrow with ⟨t, ht⟩
      exact (follows_iff predicate ht).mpr (hplain row hrow)
    refine ⟨hfollows, hchild.filter (fun row hrow => ?_) hfuel⟩
    rcases hmeaning row hrow with ⟨t, ht⟩
    exact accepts_of_evaluate_eq (hfollows row hrow).evaluate_eq ht

/-- `l.id BETWEEN 2 AND 5 OR l.id = 1`. -/
def betweenOrOne : OperatorExpression :=
  .logic .or (.comparison .between leftColumn (.list [.const (.int 2), .const (.int 5)]))
    (.comparison .equal leftColumn (.const (.int 1)))

theorem filter_gives_between :
    (∀ row ∈ column [.null, .int 1, .int 7],
        Follows (fun _ _ => .ok false) row.values betweenOrOne.subexpressions) ∧
      (executor (twoTables [.null, .int 1, .int 7] []) (accepts fun _ _ => .ok false)
        (.filter [] (.seqScan [] 1 "l" none) betweenOrOne)).Gives 5 ()
          ((column [.null, .int 1, .int 7]).filter (betweenOrOne.isTrueOn fun _ _ => .ok false)) := by
  have hchild : (executor (twoTables [.null, .int 1, .int 7] []) (accepts fun _ _ => .ok false)
      (.seqScan [] 1 "l" none)).Gives 5 () (column [.null, .int 1, .int 7]) :=
    Storage.gives_ofRows ..
  refine (filter_gives_iff (twoTables [.null, .int 1, .int 7] []) [] hchild (by decide) ?_).mpr ?_
  · refine List.forall_mem_map.mpr fun value hvalue => ?_
    simp only [List.mem_cons, List.not_mem_nil, or_false] at hvalue
    rcases hvalue with rfl | rfl | rfl
    · exact ⟨none, rfl⟩
    · exact ⟨some true, rfl⟩
    · exact ⟨some false, rfl⟩
  · refine List.forall_mem_map.mpr fun value hvalue => ?_
    simp only [List.mem_cons, List.not_mem_nil, or_false] at hvalue
    refine ⟨⟨trivial, ⟨trivial, trivial, trivial⟩, fun lhs rhs hlhs hrhs hnull => ?_⟩,
      ⟨trivial, trivial, fun _ _ _ _ _ => trivial⟩, fun lhs rhs hlhs hrhs => ?_⟩
    · cases hlhs
      cases hrhs
      rintro a b ⟨⟩
      rcases hvalue with rfl | rfl | rfl
      · cases hnull
      · exact ⟨.inl rfl, rfl, .inl rfl⟩
      · exact ⟨.inl rfl, rfl, .inl rfl⟩
    · rcases hvalue with rfl | rfl | rfl
      · cases hlhs
        cases hrhs
        exact id
      · cases hlhs
        cases hrhs
        exact id
      · cases hlhs
        cases hrhs
        exact id

/-- `NOT l.id = 1`. -/
def notOne : OperatorExpression := .logicNot (.comparison .equal leftColumn (.const (.int 1)))

/-- A NULL on the left: no row is given, not even the one on which the predicate is TRUE. -/
theorem not_gives_notOne :
    notOne.sqlEvaluate (fun _ _ => .ok false) [.null] = .ok .null ∧
      notOne.evaluate (fun _ _ => .ok false) [.null] =
        .error (.db "Type unsupported for Not operation") ∧
      (column [.null, .int 2]).filter (notOne.isTrueOn fun _ _ => .ok false) = column [.int 2] ∧
      ¬ (executor (twoTables [.null, .int 2] []) (accepts fun _ _ => .ok false)
        (.filter [] (.seqScan [] 1 "l" none) notOne)).Gives 5 () (column [.int 2]) := by
  refine ⟨rfl, rfl, rfl, ?_⟩
  rintro ⟨s, hinit, s', hnext, -⟩
  cases hinit
  cases hnext

end HuaDB
