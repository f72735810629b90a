import HuaDB.SelectRows

/-!
Planned expressions, which find their columns by position, against their values by name.

`Plans` relates an expression to what `PlanExpression` makes of it, for any resolution of the
names (`plans_of_planExpression`). Where the resolved columns read what the names stand for, the
planned expression has the value of the expression, on one record (`evaluate_of_plans`) and, as
a join condition, on two (`evaluateJoin_of_plans`).
-/

namespace HuaDB

open IndexedColumns

namespace Planning

open Binder

/-! ## Operators by name -/

namespace BinaryOperator

/-- The operator of a plan. -/
def build (left right : OperatorExpression) : BinaryOperator → OperatorExpression
  | .arithmetic type => .arithmetic type left right
  | .comparison type => .comparison type left right
  | .logic type => .logic type left right

variable {regexMatch : RegexMatch} {left right : OperatorExpression} {lhs rhs : Value}

theorem isList_build (operator : BinaryOperator) : (operator.build left right).isList = false := by
  cases operator <;> rfl

theorem evaluate_build {record : List Value} (operator : BinaryOperator)
    (hleft : left.evaluate regexMatch record = .ok lhs)
    (hright : right.evaluate regexMatch record = .ok rhs) :
    (operator.build left right).evaluate regexMatch record =
      operator.compute regexMatch lhs rhs := by
  cases operator <;> rw [build, OperatorExpression.evaluate, hleft, hright] <;> rfl

theorem evaluateJoin_build {l r : List Value} (operator : BinaryOperator)
    (hleft : left.evaluateJoin regexMatch l r = .ok lhs)
    (hright : right.evaluateJoin regexMatch l r = .ok rhs) :
    (operator.build left right).evaluateJoin regexMatch l r =
      operator.compute regexMatch lhs rhs := by
  cases operator <;> rw [build, OperatorExpression.evaluateJoin, hleft, hright] <;> rfl

end BinaryOperator

/-- The factory knows the operators by their names. -/
theorem binaryFactory_eq (opName : String) (left right : OperatorExpression) :
    binaryFactory opName left right =
      match binaryOperator right.isList opName with
      | some operator => .ok (operator.build left right)
      | none => .error (.db ("Unsupported binary operator in BinaryFactory: " ++ opName)) := by
  fun_cases binaryOperator right.isList opName
  case case18 => grind [binaryFactory]
  case case5 | case6 | case7 =>
    rw [binaryFactory]
    cases right.isList <;> rfl
  all_goals rfl

theorem binaryFactory_eq_ok {opName : String} {left right expr : OperatorExpression}
    (h : binaryFactory opName left right = .ok expr) :
    ∃ operator, binaryOperator right.isList opName = some operator ∧
      expr = operator.build left right := by
  rw [binaryFactory_eq] at h
  cases hknown : binaryOperator right.isList opName with
  | none =>
      rw [hknown] at h
      cases h
  | some operator =>
      rw [hknown] at h
      cases h
      exact ⟨operator, rfl, rfl⟩

/-! ## What an expression is planned as -/

mutual

/-- The expression is planned as an expression of operators; a name is planned as what it is
resolved to. -/
inductive Plans (resolve : String → OperatorExpression → Prop) :
    Binder.Expression → OperatorExpression → Prop
  | const {value : Value} : Plans resolve (.const value) (.const value)
  | columnRef {colName : List String} {expr : OperatorExpression}
      (resolved : resolve (".".intercalate colName) expr) : Plans resolve (.columnRef colName) expr
  | not {arg : Binder.Expression} {expr : OperatorExpression} (planned : Plans resolve arg expr) :
      Plans resolve (.unaryOp "not" arg) (.logicNot expr)
  | binaryOp {opName : String} {left right : Binder.Expression} {l r : OperatorExpression}
      {operator : BinaryOperator} (leftPlanned : Plans resolve left l)
      (rightPlanned : Plans resolve right r)
      (known : binaryOperator right.isList opName = some operator) :
      Plans resolve (.binaryOp opName left right) (operator.build l r)
  | list {args : List Binder.Expression} {exprs : List OperatorExpression}
      (planned : PlansAll resolve args exprs) : Plans resolve (.list args) (.list exprs)
  | typeCast {castType : ValueType} {arg : Binder.Expression} {expr : OperatorExpression}
      (planned : Plans resolve arg expr) :
      Plans resolve (.typeCast castType arg) (.typeCast castType expr)
  | nullTest {isNull : Bool} {arg : Binder.Expression} {expr : OperatorExpression}
      (planned : Plans resolve arg expr) :
      Plans resolve (.nullTest isNull arg) (.nullTest isNull expr)
  | funcCall {name : String} {function : FunctionName} {args : List Binder.Expression}
      {expr : OperatorExpression} (known : functionName name = some function)
      (planned : PlansAll resolve args [expr]) :
      Plans resolve (.funcCall name args) (.funcCall function expr)

inductive PlansAll (resolve : String → OperatorExpression → Prop) :
    List Binder.Expression → List OperatorExpression → Prop
  | nil : PlansAll resolve [] []
  | cons {arg : Binder.Expression} {args : List Binder.Expression} {expr : OperatorExpression}
      {exprs : List OperatorExpression} (head : Plans resolve arg expr)
      (tail : PlansAll resolve args exprs) : PlansAll resolve (arg :: args) (expr :: exprs)

end

section Values

variable {resolve : String → OperatorExpression → Prop} {regexMatch : RegexMatch} {env : Env}

/-- A list is planned as a list, and nothing else is. -/
theorem Plans.isList_eq (hcolumn : ∀ name expr, resolve name expr → expr.isList = false)
    {arg : Binder.Expression} {expr : OperatorExpression} (h : Plans resolve arg expr) :
    expr.isList = arg.isList := by
  cases h with
  | columnRef resolved => exact hcolumn _ _ resolved
  | binaryOp _ _ _ => exact BinaryOperator.isList_build _
  | _ => rfl

/-- On a record, what the names are resolved to has the value that the environment gives them. -/
def Reads (resolve : String → OperatorExpression → Prop) (regexMatch : RegexMatch) (env : Env)
    (record : List Value) (names : List String) : Prop :=
  ∀ name ∈ names, ∀ expr value, resolve name expr → env.find name = .ok value →
    expr.evaluate regexMatch record = .ok value

/-- The same of a join, on two records. -/
def ReadsJoin (resolve : String → OperatorExpression → Prop) (regexMatch : RegexMatch) (env : Env)
    (left right : List Value) (names : List String) : Prop :=
  ∀ name ∈ names, ∀ expr value, resolve name expr → env.find name = .ok value →
    expr.evaluateJoin regexMatch left right = .ok value

theorem Reads.append_iff {record : List Value} {names names' : List String} :
    Reads resolve regexMatch env record (names ++ names') ↔
      Reads resolve regexMatch env record names ∧ Reads resolve regexMatch env record names' :=
  List.forall_mem_append

theorem ReadsJoin.append_iff {left right : List Value} {names names' : List String} :
    ReadsJoin resolve regexMatch env left right (names ++ names') ↔
      ReadsJoin resolve regexMatch env left right names ∧
        ReadsJoin resolve regexMatch env left right names' :=
  List.forall_mem_append

variable {record left right : List Value}

mutual

/-- On a record that has the columns, a planned expression has the value of the expression. -/
theorem evaluate_of_plans : ∀ (arg : Binder.Expression) {expr : OperatorExpression} {value : Value},
    Plans resolve arg expr → Reads resolve regexMatch env record arg.names →
      arg.value regexMatch env = .ok value → expr.evaluate regexMatch record = .ok value
  | .const _, _, _, .const, _, hvalue => hvalue
  | .columnRef _, _, _, .columnRef resolved, hreads, hvalue =>
      hreads _ (List.mem_singleton_self _) _ _ resolved hvalue
  | .unaryOp _ arg, _, _, .not planned, hreads, hvalue => by
      rw [Expression.value, if_pos rfl] at hvalue
      obtain ⟨x, hx, hvalue⟩ := Except.bind_eq_ok_iff.mp hvalue
      rw [OperatorExpression.evaluate, evaluate_of_plans arg planned hreads hx]
      exact hvalue
  | .binaryOp _ left right, _, _, .binaryOp leftPlanned rightPlanned known, hreads, hvalue => by
      rw [Expression.names, Reads.append_iff] at hreads
      rw [Expression.value] at hvalue
      obtain ⟨lhs, hlhs, hvalue⟩ := Except.bind_eq_ok_iff.mp hvalue
      obtain ⟨rhs, hrhs, hvalue⟩ := Except.bind_eq_ok_iff.mp hvalue
      rw [known] at hvalue
      rw [BinaryOperator.evaluate_build _ (evaluate_of_plans left leftPlanned hreads.1 hlhs)
        (evaluate_of_plans right rightPlanned hreads.2 hrhs)]
      exact hvalue
  | .list args, _, _, .list planned, hreads, hvalue => by
      rw [Expression.value] at hvalue
      obtain ⟨xs, hxs, hvalue⟩ := Except.bind_eq_ok_iff.mp hvalue
      rw [OperatorExpression.evaluate, evaluateAll_of_plans args planned hreads hxs]
      exact hvalue
  | .typeCast _ arg, _, _, .typeCast planned, hreads, hvalue
  | .nullTest _ arg, _, _, .nullTest planned, hreads, hvalue => by
      rw [Expression.value] at hvalue
      obtain ⟨x, hx, hvalue⟩ := Except.bind_eq_ok_iff.mp hvalue
      rw [OperatorExpression.evaluate, evaluate_of_plans arg planned hreads hx]
      exact hvalue
  | .funcCall _ args, _, _, .funcCall known planned, hreads, hvalue => by
      rw [Expression.value] at hvalue
      obtain ⟨xs, hxs, hvalue⟩ := Except.bind_eq_ok_iff.mp hvalue
      have hall := evaluateAll_of_plans args planned hreads hxs
      obtain ⟨x, hx, hnil⟩ := Except.bind_eq_ok_iff.mp hall
      cases hnil
      rw [known] at hvalue
      rw [OperatorExpression.evaluate, hx]
      exact hvalue

theorem evaluateAll_of_plans : ∀ (args : List Binder.Expression) {exprs : List OperatorExpression}
    {values : List Value}, PlansAll resolve args exprs →
      Reads resolve regexMatch env record (Expression.namesAll args) →
        Expression.values regexMatch env args = .ok values →
          OperatorExpression.evaluateAll regexMatch record exprs = .ok values
  | [], _, _, .nil, _, hvalues => hvalues
  | arg :: args, _, _, .cons head tail, hreads, hvalues => by
      rw [Expression.namesAll, Reads.append_iff] at hreads
      rw [Expression.values] at hvalues
      obtain ⟨x, hx, hvalues⟩ := Except.bind_eq_ok_iff.mp hvalues
      obtain ⟨xs, hxs, hvalues⟩ := Except.bind_eq_ok_iff.mp hvalues
      rw [OperatorExpression.evaluateAll, evaluate_of_plans arg head hreads.1 hx,
        evaluateAll_of_plans args tail hreads.2 hxs]
      exact hvalues

end

mutual

/-- A planned join condition has the value of the condition, if it reads columns of the left record
only below NOT, null tests, casts and lists. -/
theorem evaluateJoin_of_plans : ∀ (arg : Binder.Expression) {expr : OperatorExpression}
    {value : Value}, Plans resolve arg expr → ReadsJoin resolve regexMatch env left right arg.names →
      Reads resolve regexMatch env left arg.namesBelow →
        arg.value regexMatch env = .ok value → expr.evaluateJoin regexMatch left right = .ok value
  | .const _, _, _, .const, _, _, hvalue => hvalue
  | .columnRef _, _, _, .columnRef resolved, hjoin, _, hvalue =>
      hjoin _ (List.mem_singleton_self _) _ _ resolved hvalue
  | .binaryOp _ l r, _, _, .binaryOp leftPlanned rightPlanned known, hjoin, hleft, hvalue => by
      rw [Expression.names, ReadsJoin.append_iff] at hjoin
      rw [Expression.namesBelow, Reads.append_iff] at hleft
      rw [Expression.value] at hvalue
      obtain ⟨lhs, hlhs, hvalue⟩ := Except.bind_eq_ok_iff.mp hvalue
      obtain ⟨rhs, hrhs, hvalue⟩ := Except.bind_eq_ok_iff.mp hvalue
      rw [known] at hvalue
      rw [BinaryOperator.evaluateJoin_build _
        (evaluateJoin_of_plans l leftPlanned hjoin.1 hleft.1 hlhs)
        (evaluateJoin_of_plans r rightPlanned hjoin.2 hleft.2 hrhs)]
      exact hvalue
  | .unaryOp _ arg, _, _, .not planned, _, hleft, hvalue => by
      rw [Expression.value, if_pos rfl] at hvalue
      obtain ⟨x, hx, hvalue⟩ := Except.bind_eq_ok_iff.mp hvalue
      rw [OperatorExpression.evaluateJoin, evaluate_of_plans arg planned hleft hx]
      exact hvalue
  | .list args, _, _, .list planned, _, hleft, hvalue => by
      rw [Expression.value] at hvalue
      obtain ⟨xs, hxs, hvalue⟩ := Except.bind_eq_ok_iff.mp hvalue
      rw [OperatorExpression.evaluateJoin, evaluateAll_of_plans args planned hleft hxs]
      exact hvalue
  | .typeCast _ arg, _, _, .typeCast planned, _, hleft, hvalue
  | .nullTest _ arg, _, _, .nullTest planned, _, hleft, hvalue => by
      rw [Expression.value] at hvalue
      obtain ⟨x, hx, hvalue⟩ := Except.bind_eq_ok_iff.mp hvalue
      rw [OperatorExpression.evaluateJoin, evaluate_of_plans arg planned hleft hx]
      exact hvalue
  | .funcCall _ args, _, _, .funcCall known planned, hjoin, hleft, hvalue => by
      rw [Expression.value] at hvalue
      obtain ⟨xs, hxs, hvalue⟩ := Except.bind_eq_ok_iff.mp hvalue
      cases evaluateJoinAll_of_plans args planned hjoin hleft hxs with
      | cons hx hnil =>
          cases hnil
          rw [known] at hvalue
          rw [OperatorExpression.evaluateJoin, hx]
          exact hvalue

theorem evaluateJoinAll_of_plans : ∀ (args : List Binder.Expression)
    {exprs : List OperatorExpression} {values : List Value}, PlansAll resolve args exprs →
      ReadsJoin resolve regexMatch env left right (Expression.namesAll args) →
        Reads resolve regexMatch env left (Expression.namesBelowAll args) →
          Expression.values regexMatch env args = .ok values →
            List.Forall₂ (fun expr value => expr.evaluateJoin regexMatch left right = .ok value)
              exprs values
  | [], _, _, .nil, _, _, hvalues => by
      cases hvalues
      exact .nil
  | arg :: args, _, _, .cons head tail, hjoin, hleft, hvalues => by
      rw [Expression.namesAll, ReadsJoin.append_iff] at hjoin
      rw [Expression.namesBelowAll, Reads.append_iff] at hleft
      rw [Expression.values] at hvalues
      obtain ⟨x, hx, hvalues⟩ := Except.bind_eq_ok_iff.mp hvalues
      obtain ⟨xs, hxs, hvalues⟩ := Except.bind_eq_ok_iff.mp hvalues
      cases hvalues
      exact .cons (evaluateJoin_of_plans arg head hjoin.1 hleft.1 hx)
        (evaluateJoinAll_of_plans args tail hjoin.2 hleft.2 hxs)

end

end Values

/-! ## `PlanExpression` -/

/-- What the planner resolves a name to. -/
def Resolves (children : List ColumnList) (state : State) (name : String)
    (expr : OperatorExpression) : Prop :=
  ∃ planned, planColumnRef name children state = .ok (planned, state) ∧ planned.expr = expr

/-- What is shared with the aliases is the expression there. -/
def Planned.Shares (planned : Planned) (state : State) : Prop :=
  ∀ place, planned.shared = some place →
    ∃ object, state.objects[place]? = some object ∧ object.expr = planned.expr

theorem Planned.shares_of (expr : OperatorExpression) (state : State) :
    (Planned.of expr).Shares state := by
  intro place hplace
  cases hplace

/-- A function call has one argument. -/
theorem funcCall_eq_ok {name : String} {args : List OperatorExpression} {expr : OperatorExpression}
    (h : funcCall name args = .ok expr) :
    ∃ function arg, functionName name = some function ∧ args = [arg] ∧
      expr = .funcCall function arg := by
  unfold funcCall at h
  split at h
  · cases h
  · rename_i function arg hknown
    split at h
    · cases h
      exact ⟨function, arg, hknown, rfl, rfl⟩
    · cases h
  · cases h

section Planning

variable {children : List ColumnList} {state state' : State} {planned : Planned} {name : String}

/-- An alias is found where there is one of the name, which names a column. -/
theorem planAlias_eq_ok (h : planAlias name state = .ok (planned, state')) :
    state' = state ∧ ∃ key place object, state.aliases.filter (·.1 = name) = [(key, place)] ∧
      state.objects[place]? = some object ∧ object.expr.isColumnValue = true ∧
      planned = { object with shared := some place } := by
  unfold planAlias at h
  split at h
  · cases h
  · rename_i key place hfilter
    split at h
    · cases h
    · rename_i object hobject
      split at h
      · rename_i hcolumn
        cases h
        exact ⟨rfl, key, place, object, hfilter, hobject, hcolumn, rfl⟩
      · cases h
  · cases h

/-- Over one child, a name is that of a column or of an alias. -/
theorem planColumnRef_one {columns : ColumnList}
    (h : planColumnRef name [columns] state = .ok (planned, state')) :
    (∃ i type size, (ofColumns columns).tryGetColumnIndex name = some i ∧
        planned = .of (.columnValue i type name size true) ∧ state' = state) ∨
      (ofColumns columns).tryGetColumnIndex name = none ∧
        planAlias name state = .ok (planned, state') := by
  rw [planColumnRef] at h
  cases hindex : (ofColumns columns).tryGetColumnIndex name with
  | none =>
      rw [hindex] at h
      exact .inr ⟨rfl, h⟩
  | some i =>
      simp only [hindex, StateT.lift_bind_eq_ok_iff] at h
      obtain ⟨column, -, h⟩ := h
      cases h
      exact .inl ⟨i, column.type, column.maxSize, rfl, rfl, rfl⟩

/-- Over two children, it is that of a column of one of them. -/
theorem planColumnRef_two {leftColumns rightColumns : ColumnList}
    (h : planColumnRef name [leftColumns, rightColumns] state = .ok (planned, state')) :
    ∃ i type size isLeft, planned = .of (.columnValue i type name size isLeft) ∧ state' = state ∧
      (if isLeft then
        (ofColumns leftColumns).tryGetColumnIndex name = some i
      else
        (ofColumns leftColumns).tryGetColumnIndex name = none ∧
          (ofColumns rightColumns).tryGetColumnIndex name = some i) := by
  rw [planColumnRef, StateT.lift_bind_eq_ok_iff] at h
  obtain ⟨expr, hexpr, h⟩ := h
  cases h
  unfold Planner.planIndexedColumnRef at hexpr
  split at hexpr
  · cases hexpr
  · rename_i i hleft hright
    obtain ⟨column, -, hexpr⟩ := Except.bind_eq_ok_iff.mp hexpr
    cases hexpr
    exact ⟨i, _, _, true, rfl, rfl, hleft⟩
  · rename_i i hleft hright
    obtain ⟨column, -, hexpr⟩ := Except.bind_eq_ok_iff.mp hexpr
    obtain ⟨sized, -, hexpr⟩ := Except.bind_eq_ok_iff.mp hexpr
    cases hexpr
    exact ⟨i, _, _, false, rfl, rfl, hleft, hright⟩
  · cases hexpr

/-- A name is resolved to a column, and the aliases stay as they are. -/
theorem planColumnRef_eq_ok (h : planColumnRef name children state = .ok (planned, state')) :
    state' = state ∧ planned.expr.isList = false ∧ planned.Shares state := by
  rcases children with _ | ⟨columns, _ | ⟨rightColumns, _ | ⟨third, rest⟩⟩⟩
  · cases h
  · rcases planColumnRef_one h with ⟨i, type, size, -, rfl, rfl⟩ | ⟨-, h⟩
    · exact ⟨rfl, rfl, Planned.shares_of _ _⟩
    · obtain ⟨hstate, key, place, object, -, hobject, hcolumn, rfl⟩ := planAlias_eq_ok h
      refine ⟨hstate, ?_, fun place' hplace => ?_⟩
      · cases hexpr : object.expr with
        | columnValue => rfl
        | _ =>
            rw [hexpr] at hcolumn
            cases hcolumn
      · cases hplace
        exact ⟨object, hobject, rfl⟩
  · obtain ⟨i, type, size, isLeft, rfl, rfl, -⟩ := planColumnRef_two h
    exact ⟨rfl, rfl, Planned.shares_of _ _⟩
  · cases h

theorem Resolves.isList_eq {expr : OperatorExpression} (h : Resolves children state name expr) :
    expr.isList = false := by
  obtain ⟨planned, hrun, rfl⟩ := h
  exact (planColumnRef_eq_ok hrun).2.1

mutual

/-- An expression without AS and aggregates is planned as `Plans` says, and the aliases stay as they
are. -/
theorem plans_of_planExpression : ∀ (arg : Binder.Expression) {planned : Planned} {state' : State},
    arg.isPlain = true → planExpression children arg state = .ok (planned, state') →
      state' = state ∧ Plans (Resolves children state) arg planned.expr ∧ planned.Shares state
  | .const _, _, _, _, h => by
      cases h
      exact ⟨rfl, .const, Planned.shares_of _ _⟩
  | .columnRef _, _, _, _, h => by
      rw [planExpression] at h
      obtain ⟨hstate, -, hshares⟩ := planColumnRef_eq_ok h
      cases hstate
      exact ⟨rfl, .columnRef ⟨_, h, rfl⟩, hshares⟩
  | .unaryOp opName arg, _, _, hplain, h => by
      rw [planExpression, StateT.bind_eq_ok_iff] at h
      obtain ⟨a, s, ha, h⟩ := h
      obtain ⟨hs, harg, -⟩ := plans_of_planExpression arg hplain ha
      subst s
      by_cases hop : opName = "not"
      · cases hop
        cases h
        exact ⟨rfl, .not harg, Planned.shares_of _ _⟩
      · simp only [hop, ↓reduceIte] at h
        cases h
  | .binaryOp opName left right, _, _, hplain, h => by
      rw [Expression.isPlain, Bool.and_eq_true] at hplain
      rw [planExpression, StateT.bind_eq_ok_iff] at h
      obtain ⟨l, s, hl, h⟩ := h
      obtain ⟨hs, hleft, -⟩ := plans_of_planExpression left hplain.1 hl
      subst s
      rw [StateT.bind_eq_ok_iff] at h
      obtain ⟨r, s, hr, h⟩ := h
      obtain ⟨hs, hright, -⟩ := plans_of_planExpression right hplain.2 hr
      subst s
      rw [StateT.lift_bind_eq_ok_iff] at h
      obtain ⟨expr, hexpr, h⟩ := h
      cases h
      obtain ⟨operator, hknown, rfl⟩ := binaryFactory_eq_ok hexpr
      rw [hright.isList_eq fun _ _ hresolved => hresolved.isList_eq] at hknown
      exact ⟨rfl, .binaryOp hleft hright hknown, Planned.shares_of _ _⟩
  | .list args, _, _, hplain, h => by
      rw [planExpression, StateT.bind_eq_ok_iff] at h
      obtain ⟨exprs, s, hexprs, h⟩ := h
      obtain ⟨hs, hargs⟩ := plansAll_of_planExpressions args hplain hexprs
      subst s
      cases h
      exact ⟨rfl, .list hargs, Planned.shares_of _ _⟩
  | .typeCast _ arg, _, _, hplain, h => by
      rw [planExpression, StateT.bind_eq_ok_iff] at h
      obtain ⟨a, s, ha, h⟩ := h
      obtain ⟨hs, harg, -⟩ := plans_of_planExpression arg hplain ha
      subst s
      cases h
      exact ⟨rfl, .typeCast harg, Planned.shares_of _ _⟩
  | .nullTest _ arg, _, _, hplain, h => by
      rw [planExpression, StateT.bind_eq_ok_iff] at h
      obtain ⟨a, s, ha, h⟩ := h
      obtain ⟨hs, harg, -⟩ := plans_of_planExpression arg hplain ha
      subst s
      cases h
      exact ⟨rfl, .nullTest harg, Planned.shares_of _ _⟩
  | .funcCall name args, _, _, hplain, h => by
      rw [planExpression, StateT.bind_eq_ok_iff] at h
      obtain ⟨exprs, s, hexprs, h⟩ := h
      obtain ⟨hs, hargs⟩ := plansAll_of_planExpressions args hplain hexprs
      subst s
      rw [StateT.lift_bind_eq_ok_iff] at h
      obtain ⟨expr, hexpr, h⟩ := h
      cases h
      obtain ⟨function, arg, hknown, rfl, rfl⟩ := funcCall_eq_ok hexpr
      exact ⟨rfl, .funcCall hknown hargs, Planned.shares_of _ _⟩
  | .star, _, _, _, h => by
      cases h

theorem plansAll_of_planExpressions : ∀ (args : List Binder.Expression)
    {exprs : List OperatorExpression} {state' : State}, Expression.arePlain args = true →
      planExpressions children args state = .ok (exprs, state') →
        state' = state ∧ PlansAll (Resolves children state) args exprs
  | [], _, _, _, h => by
      cases h
      exact ⟨rfl, .nil⟩
  | arg :: args, _, _, hplain, h => by
      rw [Expression.arePlain, Bool.and_eq_true] at hplain
      rw [planExpressions, StateT.bind_eq_ok_iff] at h
      obtain ⟨a, s, ha, h⟩ := h
      obtain ⟨hs, harg, -⟩ := plans_of_planExpression arg hplain.1 ha
      subst s
      rw [StateT.bind_eq_ok_iff] at h
      obtain ⟨rest, s, hrest, h⟩ := h
      obtain ⟨hs, hargs⟩ := plansAll_of_planExpressions args hplain.2 hrest
      subst s
      cases h
      exact ⟨rfl, .cons harg hargs⟩

end

end Planning

end Planning

end HuaDB
