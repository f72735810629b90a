import HuaDB.BindExpressions
import HuaDB.Lib.Indexed

/-!
Select lists against the expansions of their items.

`BindSelectList` replaces what it has so far by the columns of a `*`, where it would have to add
them. The items before a star are lost, and so are the columns of an earlier star.
-/

namespace HuaDB

namespace Binder

/-! ## What a select list stands for -/

/-- The columns of all joined tables, from left to right. -/
def TableRef.columns : TableRef → List (List String)
  | .baseTable table tableAlias columnList =>
      columnList.columns.map fun column => [tableAlias.getD table, column.name]
  | .crossJoin left right | .join left right => left.columns ++ right.columns
  | .empty | .expressionList => []

/-- A base table, or tables that are joined. -/
def TableRef.Joined : TableRef → Prop
  | .baseTable _ _ _ => True
  | .crossJoin left right | .join left right => left.Joined ∧ right.Joined
  | .empty | .expressionList => False

/-- A star stands for the columns of the table, any other expression for itself. -/
def Expression.expansion (table : TableRef) : Expression → List Expression
  | .star => table.columns.map .columnRef
  | expr => [expr]

/-- The item is a star. -/
def PgNode.isStar : PgNode → Bool
  | .aStar | .columnRef (.aStar :: _) => true
  | .resTarget none val => val.isStar
  | _ => false

/-- Only stars stand before a star, and where they do the table has no columns. -/
def StarsFirst (table : TableRef) (stars : List Bool) : Prop :=
  stars.Pairwise fun earlier later => later = true → earlier = true ∧ table.columns = []

instance (table : TableRef) (stars : List Bool) : Decidable (StarsFirst table stars) :=
  inferInstanceAs (Decidable (stars.Pairwise fun earlier later =>
    later = true → earlier = true ∧ table.columns = []))

theorem getAllColumns_eq_ok {table : TableRef} (h : table.Joined) :
    getAllColumns table = .ok (table.columns.map .columnRef) := by
  induction table with
  | baseTable table tableAlias columnList =>
      rw [getAllColumns, TableRef.columns, List.map_map]
      rfl
  | crossJoin left right ihl ihr | join left right ihl ihr =>
      rw [getAllColumns, ihl h.1, ihr h.2, TableRef.columns, List.map_append]
      rfl
  | empty | expressionList => exact h.elim

/-! ## Which items are stars -/

section

variable {scope : Scope} {aliases aliases' : Aliases}

theorem isStar_resolveColumn {columnName : List String} {expr : Expression}
    (h : resolveColumn scope columnName aliases = .ok (expr, aliases')) : expr.isStar = false := by
  obtain ⟨column, -, h⟩ := Except.bind_eq_ok_iff.mp h
  split at h
  · split at h
    · cases h
    · cases h
      rfl
  · cases h
    rfl
  · split at h
    · cases h
    · split at h
      · cases h
      · cases h
        rfl
  · cases h

theorem isStar_bindConstExpression {val : PgValue} {expr : Expression}
    (h : bindConstExpression scope val = .ok expr) : expr.isStar = false := by
  cases val with
  | integer ival | string str | null =>
      cases h
      rfl
  | float str =>
      obtain ⟨x, -, h⟩ := Except.bind_eq_ok_iff.mp h
      cases h
      rfl
  | other tag => cases h

theorem isStar_bindColumnRefExpression {fields : List PgField} {expr : Expression}
    (h : bindColumnRefExpression scope fields aliases = .ok (expr, aliases')) :
    expr.isStar = (PgNode.columnRef fields).isStar := by
  cases fields with
  | nil => cases h
  | cons field fields =>
      cases field with
      | string str =>
          obtain ⟨columnName, mid, -, h⟩ := StateT.bind_eq_ok_iff.mp h
          exact isStar_resolveColumn h
      | aStar =>
          cases h
          rfl
      | other tag => cases h

theorem isStar_funcCallExpression {functionName : String} {aggDistinct : Bool}
    {args : List Expression} {expr : Expression}
    (h : funcCallExpression functionName aggDistinct args = .ok expr) : expr.isStar = false := by
  rw [funcCallExpression] at h
  split at h
  · cases h
    rfl
  · split at h
    · split at h
      · cases h
      · cases h
        rfl
    · cases h

theorem isStar_foldl_binaryOp (opName : String) (exprs : List Expression) {expr : Expression}
    (hexpr : expr.isStar = false) :
    (exprs.foldl (.binaryOp opName) expr).isStar = false := by
  induction exprs generalizing expr with
  | nil => exact hexpr
  | cons right exprs ih => exact ih rfl

theorem isStar_boolExpression {boolop : PgBoolExprType} {exprs : List Expression}
    {expr : Expression} (h : boolExpression boolop exprs = .ok expr) : expr.isStar = false := by
  rw [boolExpression.eq_def] at h
  split at h
  · cases h
    exact isStar_foldl_binaryOp "and" _ rfl
  · cases h
    exact isStar_foldl_binaryOp "or" _ rfl
  · cases h
  · cases h
  · cases h
    rfl
  · cases h
  · cases h

/-- Binding gives a star for a star, and for nothing else. -/
theorem isStar_bindExpression :
    ∀ (node : PgNode) {expr : Expression} {aliases aliases' : Aliases},
      bindExpression scope node aliases = .ok (expr, aliases') → expr.isStar = node.isStar
  | .aConst val, expr, aliases, aliases', h => by
      rw [bindExpression] at h
      exact isStar_bindConstExpression (StateT.lift_eq_ok_iff.mp h).1
  | .resTarget none val, expr, aliases, aliases', h => by
      rw [bindExpression] at h
      exact isStar_bindExpression val h
  | .resTarget (some name) val, expr, aliases, aliases', h => by
      rw [bindExpression] at h
      obtain ⟨bound, mid, -, h⟩ := StateT.bind_eq_ok_iff.mp h
      obtain ⟨_, mid', -, h⟩ := StateT.bind_eq_ok_iff.mp h
      cases h
      rfl
  | .columnRef fields, expr, aliases, aliases', h => by
      rw [bindExpression] at h
      exact isStar_bindColumnRefExpression h
  | .aExpr kind name lexpr rexpr, expr, aliases, aliases', h => by
      rw [bindExpression.eq_def] at h
      cases kind with
      | other => cases h
      | _ =>
          obtain ⟨left, mid, -, h⟩ := StateT.bind_eq_ok_iff.mp h
          obtain ⟨right, mid', -, h⟩ := StateT.bind_eq_ok_iff.mp h
          split at h
          · cases h
            rfl
          · cases h
  | .aStar, expr, aliases, aliases', h => by
      rw [bindExpression] at h
      cases h
      rfl
  | .funcCall funcname args aggDistinct, expr, aliases, aliases', h => by
      rw [bindExpression] at h
      obtain ⟨bound, mid, -, h⟩ := StateT.bind_eq_ok_iff.mp h
      exact isStar_funcCallExpression (StateT.lift_eq_ok_iff.mp h).1
  | .boolExpr boolop args, expr, aliases, aliases', h => by
      rw [bindExpression.eq_def] at h
      cases boolop with
      | other => exact isStar_boolExpression (StateT.lift_eq_ok_iff.mp h).1
      | andExpr | orExpr | notExpr =>
          obtain ⟨bound, mid, -, h⟩ := StateT.bind_eq_ok_iff.mp h
          exact isStar_boolExpression (StateT.lift_eq_ok_iff.mp h).1
  | .nullTest arg nulltesttype, expr, aliases, aliases', h => by
      rw [bindExpression] at h
      obtain ⟨bound, mid, -, h⟩ := StateT.bind_eq_ok_iff.mp h
      cases nulltesttype with
      | isNull | isNotNull =>
          cases h
          rfl
      | other => cases h
  | .list items, expr, aliases, aliases', h => by
      rw [bindExpression] at h
      obtain ⟨bound, mid, -, h⟩ := StateT.bind_eq_ok_iff.mp h
      cases h
      rfl
  | .typeCast typeName arg, expr, aliases, aliases', h => by
      rw [bindExpression] at h
      obtain ⟨bound, mid, -, h⟩ := StateT.bind_eq_ok_iff.mp h
      obtain ⟨castType, mid', -, h⟩ := StateT.bind_eq_ok_iff.mp h
      cases h
      rfl
  | .other tag, expr, aliases, aliases', h => by
      rw [bindExpression] at h
      cases h

theorem isStar_bindExpressionList {items : List PgNode} {bound : List Expression}
    (h : bindExpressionList scope items aliases = .ok (bound, aliases')) :
    bound.map Expression.isStar = items.map PgNode.isStar := by
  induction items generalizing bound aliases with
  | nil =>
      rw [bindExpressionList] at h
      cases h
      rfl
  | cons node nodes ih =>
      rw [bindExpressionList] at h
      obtain ⟨expr, mid, hnode, h⟩ := StateT.bind_eq_ok_iff.mp h
      obtain ⟨exprs, mid', hnodes, h⟩ := StateT.bind_eq_ok_iff.mp h
      cases h
      rw [List.map_cons, List.map_cons, isStar_bindExpression node hnode, ih hnodes]

end

/-! ## What the loop collects -/

/-- What the loop has after the bound items, from what it had before them. -/
def collect (table : TableRef) (exprs : List Expression) : List Expression → List Expression
  | [] => exprs
  | expr :: bound =>
      if expr.isStar then collect table (table.columns.map .columnRef) bound
      else collect table (exprs ++ [expr]) bound

theorem bindSelectItems_eq_ok {scope : Scope} (joined : scope.table.Joined) {items : List PgNode}
    {bound : List Expression} {aliases aliases' : Aliases}
    (h : bindExpressionList scope items aliases = .ok (bound, aliases'))
    (exprs : List Expression) :
    bindSelectItems scope exprs items aliases
      = .ok (collect scope.table exprs bound, aliases') := by
  induction items generalizing bound aliases exprs with
  | nil =>
      rw [bindExpressionList] at h
      cases h
      rfl
  | cons node nodes ih =>
      rw [bindExpressionList] at h
      obtain ⟨expr, mid, hnode, h⟩ := StateT.bind_eq_ok_iff.mp h
      obtain ⟨rest, mid', hnodes, h⟩ := StateT.bind_eq_ok_iff.mp h
      cases h
      rw [bindSelectItems, StateT.bind_eq_ok_iff]
      refine ⟨expr, mid, hnode, ?_⟩
      rw [collect]
      cases hstar : expr.isStar with
      | true =>
          rw [if_pos rfl, if_pos rfl, StateT.bind_eq_ok_iff]
          have hcolumns := getAllColumns_eq_ok joined
          exact ⟨_, mid, StateT.lift_eq_ok_iff.mpr ⟨hcolumns, rfl⟩, ih hnodes _⟩
      | false => exact ih hnodes _

theorem collect_of_no_star {table : TableRef} {bound : List Expression}
    (h : ∀ expr ∈ bound, expr.isStar = false) (exprs : List Expression) :
    collect table exprs bound = exprs ++ bound := by
  induction bound generalizing exprs with
  | nil => exact (List.append_nil exprs).symm
  | cons expr bound ih =>
      obtain ⟨hexpr, hbound⟩ := List.forall_mem_cons.mp h
      rw [collect, hexpr, if_neg Bool.false_ne_true, ih hbound, List.append_assoc]
      rfl

/-- Of the items up to a star, the loop keeps the columns of that star. -/
theorem collect_append_star (table : TableRef) (exprs before after : List Expression) :
    collect table exprs (before ++ .star :: after)
      = collect table (table.columns.map .columnRef) after := by
  induction before generalizing exprs with
  | nil => rfl
  | cons expr before ih =>
      rw [List.cons_append, collect]
      split <;> exact ih _

theorem expansion_of_not_star {table : TableRef} {expr : Expression} (h : expr.isStar = false) :
    expr.expansion table = [expr] := by
  cases expr with
  | star => cases h
  | _ => rfl

theorem expansion_eq_nil_iff {table : TableRef} {expr : Expression} :
    expr.expansion table = [] ↔ expr.isStar = true ∧ table.columns = [] := by
  cases expr with
  | star => simp [Expression.expansion, Expression.isStar]
  | _ => simp [Expression.expansion, Expression.isStar]

theorem flatMap_expansion_of_no_star {table : TableRef} {bound : List Expression}
    (h : ∀ expr ∈ bound, expr.isStar = false) : bound.flatMap (·.expansion table) = bound := by
  rw [List.flatMap_congr fun expr hexpr => expansion_of_not_star (h expr hexpr)]
  exact List.flatMap_singleton' bound

theorem starsFirst_of_no_star {table : TableRef} {stars : List Bool} (h : true ∉ stars) :
    StarsFirst table stars :=
  List.pairwise_of_forall_mem_list fun _ _ _ hlater heq => absurd (heq ▸ hlater) h

/-- Nothing stands before the last star but stars, and these stand for no column. -/
theorem starsFirst_append_star_iff {table : TableRef} {before after : List Bool}
    (h : true ∉ after) :
    StarsFirst table (before ++ true :: after)
      ↔ ∀ star ∈ before, star = true ∧ table.columns = [] := by
  constructor
  · intro first star hstar
    exact (List.pairwise_append.mp first).2.2 star hstar true List.mem_cons_self rfl
  · intro hbefore
    have hlast : ∀ later ∈ after, later = true → true = true ∧ table.columns = [] :=
      fun later hlater heq => absurd (heq ▸ hlater) h
    exact List.pairwise_append.mpr
      ⟨List.pairwise_of_forall_mem_list fun star hstar _ _ _ => hbefore star hstar,
        List.pairwise_cons.mpr ⟨hlast, starsFirst_of_no_star h⟩,
        fun star hstar _ _ _ => hbefore star hstar⟩

theorem eq_star_of_isStar {expr : Expression} (h : expr.isStar = true) : expr = .star := by
  cases expr with
  | star => rfl
  | _ => cases h

/-- The loop collects what the items stand for exactly if nothing is lost at the last star. -/
theorem collect_eq_iff (table : TableRef) (bound : List Expression) :
    collect table [] bound = bound.flatMap (·.expansion table)
      ↔ StarsFirst table (bound.map Expression.isStar) := by
  have no_star {exprs : List Expression} (h : .star ∉ exprs) :
      ∀ expr ∈ exprs, expr.isStar = false := fun expr hexpr =>
    Bool.eq_false_iff.mpr fun hstar => h (eq_star_of_isStar hstar ▸ hexpr)
  have not_mem {exprs : List Expression} (h : .star ∉ exprs) :
      true ∉ exprs.map Expression.isStar := fun hmem => by
    obtain ⟨expr, hexpr, hstar⟩ := List.mem_map.mp hmem
    exact h (eq_star_of_isStar hstar ▸ hexpr)
  by_cases hstar : .star ∈ bound
  · obtain ⟨before, after, rfl, hafter⟩ := List.exists_last_of_mem hstar
    rw [collect_append_star, collect_of_no_star (no_star hafter), List.flatMap_append,
      List.flatMap_cons, flatMap_expansion_of_no_star (no_star hafter), Expression.expansion,
      List.self_eq_append_left, List.flatMap_eq_nil_iff, List.map_append, List.map_cons,
      Expression.isStar, starsFirst_append_star_iff (not_mem hafter), List.forall_mem_map]
    exact forall₂_congr fun expr _ => expansion_eq_nil_iff
  · rw [collect_of_no_star (no_star hstar), flatMap_expansion_of_no_star (no_star hstar)]
    exact iff_of_true (List.nil_append bound) (starsFirst_of_no_star (not_mem hstar))

/-! ## `BindSelectList` -/

/-- A select list is what its items stand for, in order, exactly if it has an item and no item
stands before a star; stars that stand for no column may. -/
theorem bindSelectList_eq_iff {scope : Scope} (joined : scope.table.Joined) {items : List PgNode}
    {bound : List Expression} {aliases aliases' : Aliases}
    (h : bindExpressionList scope items aliases = .ok (bound, aliases')) :
    bindSelectList scope items aliases
        = .ok (bound.flatMap (·.expansion scope.table), aliases')
      ↔ items ≠ [] ∧ StarsFirst scope.table (items.map PgNode.isStar) := by
  cases items with
  | nil =>
      constructor
      · intro hlist
        cases hlist
      · exact fun hlist => absurd rfl hlist.1
  | cons node nodes =>
      have hcollect := collect_eq_iff scope.table bound
      rw [isStar_bindExpressionList h] at hcollect
      rw [bindSelectList, bindSelectItems_eq_ok joined h, ← hcollect]
      · simp
      · exact List.cons_ne_nil node nodes

/-- `SELECT *, a FROM t`, for a table of one column. -/
theorem bindSelectList_eq_starFirst :
    bindSelectList
        ⟨fun _ => .error .undefined,
          .baseTable "t" none (.ofColumns [⟨"a", .int, 4⟩]), true⟩
        [.columnRef [.aStar], .columnRef [.string "a"]] []
      = .ok ([.columnRef ["t", "a"], .columnRef ["t", "a"]], []) :=
  (@bindSelectList_eq_iff
    ⟨fun _ => .error .undefined, .baseTable "t" none (.ofColumns [⟨"a", .int, 4⟩]), true⟩
    trivial
    [.columnRef [.aStar], .columnRef [.string "a"]] [.star, .columnRef ["t", "a"]] [] [] rfl).mpr
      ⟨List.cons_ne_nil _ _, by decide⟩

/-- `SELECT a, * FROM t` has one column, where its items stand for two. -/
theorem bindSelectList_ne_starLast :
    ¬ ∀ (scope : Scope), scope.table.Joined → ∀ items bound aliases aliases',
      bindExpressionList scope items aliases = .ok (bound, aliases') → items ≠ [] →
        bindSelectList scope items aliases
          = .ok (bound.flatMap (·.expansion scope.table), aliases') := by
  intro h
  have hlist := h
    ⟨fun _ => .error .undefined, .baseTable "t" none (.ofColumns [⟨"a", .int, 4⟩]), true⟩
    trivial
    [.columnRef [.string "a"], .columnRef [.aStar]] [.columnRef ["t", "a"], .star] [] [] rfl
    (List.cons_ne_nil _ _)
  have hlength := congrArg (fun r => (r.toOption.map fun p => p.1.length)) hlist
  exact absurd hlength (by decide)

end Binder

end HuaDB
