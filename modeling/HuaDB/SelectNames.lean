import HuaDB.PlannedExpressions

/-!
What the planner resolves names to, on a record that has the columns.

A column is read at the position that the column list gives to its name; the names of a list
are distinct. The planner keeps what AS names in `aliases_`, under a text that it compares before
it adds an entry, and renames the objects there. `Agrees` is what holds of the aliases between the
items of a select list: a name that has one entry stands for an expression with the value that the
name was first given.
-/

namespace HuaDB

open IndexedColumns

namespace Planning

open Binder

/-! ## Columns -/

section Columns

variable {columns leftColumns rightColumns : ColumnList} {record l r : List Value}

/-- The names of a column list. -/
def columnNames (columns : ColumnList) : List String := columns.map (·.name)

/-- The column that a name finds is that at the position of the name. -/
theorem find?_zip_columnNames (hlength : record.length = columns.length) (name : String) :
    Assoc.find? name ((columnNames columns).zip record) =
      (Planner.tryGetColumnIndex columns name).bind (record[·]?) := by
  induction columns generalizing record with
  | nil => rfl
  | cons column columns ih =>
      obtain _ | ⟨value, record⟩ := record
      · cases hlength
      rw [columnNames, List.map_cons, List.zip_cons_cons, Assoc.find?_cons,
        Planner.tryGetColumnIndex, List.findIdx?_cons]
      by_cases hname : column.name = name
      · rw [if_pos hname, if_pos (decide_eq_true hname)]
        rfl
      · rw [if_neg hname, if_neg (by simpa using hname), Option.bind_map]
        exact ih (Nat.succ.inj hlength)

theorem exists_getValue_of_index {name : String} {i : Nat} (hnodup : (columnNames columns).Nodup)
    (hlength : record.length = columns.length)
    (hindex : (ofColumns columns).tryGetColumnIndex name = some i) :
    ∃ value, Assoc.find? name ((columnNames columns).zip record) = some value ∧
      getValue record i = .ok value := by
  rw [tryGetColumnIndex_ofColumns hnodup] at hindex
  have hlt : i < record.length := by
    rw [hlength]
    exact (List.findIdx?_eq_some_iff_getElem.mp hindex).1
  refine ⟨record[i], ?_, ?_⟩
  · rw [find?_zip_columnNames hlength, hindex]
    exact List.getElem?_eq_getElem hlt
  · rw [getValue, List.getElem?_eq_getElem hlt]

theorem find?_zip_of_none {name : String} (hnodup : (columnNames columns).Nodup)
    (hlength : record.length = columns.length)
    (hindex : (ofColumns columns).tryGetColumnIndex name = none) :
    Assoc.find? name ((columnNames columns).zip record) = none := by
  rw [tryGetColumnIndex_ofColumns hnodup] at hindex
  rw [find?_zip_columnNames hlength, hindex]
  rfl

end Columns

/-! ## Names of one child or two -/

section Reads

variable {regexMatch : RegexMatch} {state : State}

/-- Without columns and aliases no name has a value. -/
theorem reads_empty {resolve : String → OperatorExpression → Prop} {record : List Value}
    {names : List String} : Reads resolve regexMatch {} record names := by
  intro name _ expr value _ hvalue
  cases hvalue

variable {leftColumns rightColumns : ColumnList} {l r : List Value}

/-- The columns of two records side by side. -/
def joinEnv (leftColumns rightColumns : ColumnList) (l r : List Value) : Env :=
  { columns := (columnNames leftColumns ++ columnNames rightColumns).zip (l ++ r) }

theorem find_joinEnv (hleft : l.length = leftColumns.length) {name : String} {value : Value}
    (h : (joinEnv leftColumns rightColumns l r).find name = .ok value) :
    (Assoc.find? name ((columnNames leftColumns).zip l)).or
      (Assoc.find? name ((columnNames rightColumns).zip r)) = some value := by
  have hzip : (columnNames leftColumns ++ columnNames rightColumns).zip (l ++ r) =
      (columnNames leftColumns).zip l ++ (columnNames rightColumns).zip r :=
    List.zip_append (by rw [columnNames, List.length_map, hleft])
  rw [Env.find, joinEnv, hzip, Assoc.find?_append] at h
  cases hfind : (Assoc.find? name ((columnNames leftColumns).zip l)).or
      (Assoc.find? name ((columnNames rightColumns).zip r)) with
  | none =>
      rw [hfind] at h
      cases h
  | some found =>
      rw [hfind] at h
      cases h
      rfl

variable (hleftNames : (columnNames leftColumns).Nodup)
  (hrightNames : (columnNames rightColumns).Nodup)
  (hleft : l.length = leftColumns.length) (hright : r.length = rightColumns.length)

include hleftNames hleft

include hrightNames hright in
/-- A name over two children is read from the record of its column. -/
theorem readsJoin_two (names : List String) :
    ReadsJoin (Resolves [leftColumns, rightColumns] state) regexMatch
      (joinEnv leftColumns rightColumns l r) l r names := by
  intro name _ expr value hresolves hvalue
  obtain ⟨planned, hrun, rfl⟩ := hresolves
  obtain ⟨i, type, size, isLeft, rfl, -, hindex⟩ := planColumnRef_two hrun
  have hfind := find_joinEnv hleft hvalue
  cases isLeft with
  | true =>
      obtain ⟨found, hfound, hget⟩ := exists_getValue_of_index hleftNames hleft hindex
      rw [hfound] at hfind
      cases hfind
      exact hget
  | false =>
      obtain ⟨hnone, hindex⟩ := hindex
      obtain ⟨found, hfound, hget⟩ := exists_getValue_of_index hrightNames hright hindex
      rw [find?_zip_of_none hleftNames hleft hnone, hfound] at hfind
      cases hfind
      exact hget

/-- A name of the left child is read from the left record. -/
theorem reads_left {names : List String} (hnames : ∀ name ∈ names, name ∈ columnNames leftColumns) :
    Reads (Resolves [leftColumns, rightColumns] state) regexMatch
      (joinEnv leftColumns rightColumns l r) l names := by
  intro name hname expr value hresolves hvalue
  obtain ⟨planned, hrun, rfl⟩ := hresolves
  obtain ⟨i, type, size, isLeft, rfl, -, hindex⟩ := planColumnRef_two hrun
  cases isLeft with
  | true =>
      obtain ⟨found, hfound, hget⟩ := exists_getValue_of_index hleftNames hleft hindex
      have hfind := find_joinEnv hleft hvalue
      rw [hfound] at hfind
      cases hfind
      exact hget
  | false =>
      obtain ⟨column, hcolumn, rfl⟩ := List.mem_map.mp (hnames name hname)
      obtain ⟨hnone, -⟩ := hindex
      rw [tryGetColumnIndex_ofColumns hleftNames] at hnone
      exact absurd (List.findIdx?_eq_none_iff.mp hnone column hcolumn) (by simp)

end Reads

/-! ## Aliases -/

theorem evaluate_setName (regexMatch : RegexMatch) (record : List Value) (name : String)
    (expr : OperatorExpression) :
    (expr.setName name).evaluate regexMatch record = expr.evaluate regexMatch record := by
  cases expr <;> rfl

/-- On a record, the aliases stand for what the environment has under their names. -/
structure Agrees (regexMatch : RegexMatch) (record : List Value) (state : State) (env : Env) :
    Prop where
  known : ∀ name, (Assoc.find? name env.aliases).isSome → (Assoc.find? name state.aliases).isSome
  named : ∀ name, (state.alias2colname.find? name).isSome → (Assoc.find? name state.aliases).isSome
  value : ∀ name place, Assoc.find? name state.aliases = some place →
    ∃ object result, state.objects[place]? = some object ∧
      Assoc.find? name env.aliases = some result ∧
      ∀ value, result = .ok value → object.expr.evaluate regexMatch record = .ok value

section Agrees

variable {regexMatch : RegexMatch} {record : List Value} {state state' : State} {env : Env}

theorem agrees_empty (columns : Assoc String Value) :
    Agrees regexMatch record {} { columns := columns } where
  known _ h := h
  named _ h := h
  value _ _ h := by cases h

/-- A name over one child is read from its record. -/
theorem Agrees.reads {columns : ColumnList} (h : Agrees regexMatch record state env)
    (hnodup : (columnNames columns).Nodup) (hlength : record.length = columns.length)
    (hcolumns : env.columns = (columnNames columns).zip record) (names : List String) :
    Reads (Resolves [columns] state) regexMatch env record names := by
  intro name _ expr value hresolves hvalue
  obtain ⟨planned, hrun, rfl⟩ := hresolves
  rw [Env.find, hcolumns] at hvalue
  rcases planColumnRef_one hrun with ⟨i, type, size, hindex, rfl, -⟩ | ⟨hindex, hrun⟩
  · obtain ⟨found, hfound, hget⟩ := exists_getValue_of_index hnodup hlength hindex
    rw [hfound] at hvalue
    cases hvalue
    exact hget
  · obtain ⟨-, key, place, object, hfilter, hobject, -, rfl⟩ := planAlias_eq_ok hrun
    obtain ⟨object', result, hobject', hresult, hvalue'⟩ :=
      h.value name place (Assoc.find?_of_filter hfilter)
    cases hobject.symm.trans hobject'
    rw [find?_zip_of_none hnodup hlength hindex, hresult] at hvalue
    exact hvalue' value hvalue

/-- An environment that gives the names the same results. -/
theorem Agrees.congr {env' : Env} (h : Agrees regexMatch record state env)
    (hsame : ∀ name, Assoc.find? name env.aliases = Assoc.find? name env'.aliases) :
    Agrees regexMatch record state env' where
  known name hname := h.known name (by rwa [hsame])
  named := h.named
  value name place hplace := by
    rw [← hsame]
    exact h.value name place hplace

/-- An object that is renamed has the values it had. -/
theorem Agrees.rename {bound : Planned} {place : Nat} (h : Agrees regexMatch record state env)
    (hshares : bound.Shares state) (hplace : bound.shared = some place) (name : String) :
    Agrees regexMatch record
      { state with objects := state.objects.set place (bound.setName name) } env where
  known := h.known
  named := h.named
  value name' place' hplace' := by
    obtain ⟨object, result, hobject, hresult, hvalue⟩ := h.value name' place' hplace'
    obtain ⟨shared, hshared, hexpr⟩ := hshares place hplace
    by_cases heq : place = place'
    · subst heq
      cases hobject.symm.trans hshared
      have hlt : place < state.objects.length := (List.getElem?_eq_some_iff.mp hobject).1
      refine ⟨bound.setName name, result, List.getElem?_set_self hlt, hresult, fun value hok => ?_⟩
      rw [Planned.setName, evaluate_setName, ← hexpr]
      exact hvalue value hok
    · exact ⟨object, result, by rwa [List.getElem?_set_ne heq], hresult, hvalue⟩

/-- A further object is not one that an alias stands for. -/
theorem Agrees.addObject (h : Agrees regexMatch record state env) (object : Planned) :
    Agrees regexMatch record { state with objects := state.objects ++ [object] } env where
  known := h.known
  named := h.named
  value name place hplace := by
    obtain ⟨object', result, hobject, hrest⟩ := h.value name place hplace
    have hlt : place < state.objects.length := (List.getElem?_eq_some_iff.mp hobject).1
    exact ⟨object', result, by rwa [List.getElem?_append_left hlt], hrest⟩

/-- A name that is known keeps the result it was first given. -/
theorem Agrees.again {name : String} (h : Agrees regexMatch record state env)
    (hknown : (Assoc.find? name state.aliases).isSome) (result : Except EvalError Value) :
    Agrees regexMatch record state { env with aliases := env.aliases ++ [(name, result)] } where
  known name' hname' := by
    rw [Assoc.find?_append] at hname'
    cases hfind : Assoc.find? name' env.aliases with
    | some found => exact h.known name' (by rw [hfind]; rfl)
    | none =>
        rw [hfind, Option.none_or, Assoc.find?_cons] at hname'
        by_cases heq : name = name'
        · rwa [← heq]
        · rw [if_neg heq] at hname'
          cases hname'
  named := h.named
  value name' place hplace := by
    obtain ⟨object, found, hobject, hfound, hvalue⟩ := h.value name' place hplace
    exact ⟨object, found, hobject, by rw [Assoc.find?_append, hfound]; rfl, hvalue⟩

/-- An entry for an object that has the result of the name. -/
theorem Agrees.push {place : Nat} {object : Planned} {result : Except EvalError Value}
    (h : Agrees regexMatch record state env) (hobject : state.objects[place]? = some object)
    (hvalue : ∀ value, result = .ok value → object.expr.evaluate regexMatch record = .ok value)
    (name colName : String) :
    Agrees regexMatch record
      { state with
        aliases := state.aliases ++ [(name, place)]
        alias2colname := state.alias2colname.insert name colName }
      { env with aliases := env.aliases ++ [(name, result)] } where
  known name' hname' := by
    rw [Assoc.find?_append, Option.isSome_or, Bool.or_eq_true] at hname' ⊢
    exact hname'.imp (h.known name') fun hlast => by
      rw [Assoc.find?_cons] at hlast ⊢
      split
      · rfl
      · rename_i heq
        rw [if_neg heq] at hlast
        cases hlast
  named name' hname' := by
    rw [Assoc.find?_append, Option.isSome_or, Bool.or_eq_true]
    rcases Assoc.find?_insert_isSome.mp hname' with rfl | hname'
    · exact .inr (by rw [Assoc.find?_cons, if_pos rfl]; rfl)
    · exact .inl (h.named name' hname')
  value name' place' hplace' := by
    rw [Assoc.find?_append] at hplace' ⊢
    cases hold : Assoc.find? name' state.aliases with
    | some oldPlace =>
        rw [hold] at hplace'
        cases hplace'
        obtain ⟨object', found, hobject', hfound, hvalue'⟩ := h.value name' place' hold
        exact ⟨object', found, hobject', by rw [hfound]; rfl, hvalue'⟩
    | none =>
        have hnone : Assoc.find? name' env.aliases = none := by
          by_contra hsome
          have hknown := h.known name' (Option.isSome_iff_ne_none.mpr hsome)
          rw [hold] at hknown
          cases hknown
        rw [hold, Option.none_or, Assoc.find?_cons] at hplace'
        split at hplace'
        · rename_i heq
          cases hplace'
          refine ⟨object, result, hobject, ?_, hvalue⟩
          rw [hnone, Option.none_or, Assoc.find?_cons, if_pos heq]
        · cases hplace'

/-- What AS does with the expression that it names keeps the agreement. -/
theorem Agrees.addAlias {name : String} {bound planned : Planned}
    {result : Except EvalError Value} (h : Agrees regexMatch record state env)
    (hshares : bound.Shares state)
    (hvalue : ∀ value, result = .ok value → bound.expr.evaluate regexMatch record = .ok value)
    (hrun : Planning.addAlias name bound state = .ok (planned, state')) :
    Agrees regexMatch record state' { env with aliases := env.aliases ++ [(name, result)] } ∧
      planned.expr.evaluate regexMatch record = bound.expr.evaluate regexMatch record := by
  have hrenamed : ∀ value, result = .ok value →
      (bound.setName name).expr.evaluate regexMatch record = .ok value := by
    intro value hok
    rw [Planned.setName, evaluate_setName]
    exact hvalue value hok
  unfold Planning.addAlias at hrun
  split at hrun
  · rename_i htext
    have hknown : (Assoc.find? name state.aliases).isSome := h.named name (by rw [htext]; rfl)
    cases hplace : bound.shared with
    | none =>
        simp only [hplace] at hrun
        cases hrun
        exact ⟨h.again hknown result, evaluate_setName ..⟩
    | some place =>
        simp only [hplace] at hrun
        cases hrun
        exact ⟨(h.rename hshares hplace name).again hknown result, evaluate_setName ..⟩
  · cases hplace : bound.shared with
    | none =>
        simp only [hplace] at hrun
        cases hrun
        have hobject : (state.objects ++ [bound.setName name])[state.objects.length]? =
            some (bound.setName name) := List.getElem?_concat_length
        exact ⟨(h.addObject (bound.setName name)).push hobject hrenamed name bound.name,
          evaluate_setName ..⟩
    | some place =>
        simp only [hplace] at hrun
        cases hrun
        obtain ⟨object, hobject, -⟩ := hshares place hplace
        have hlt : place < state.objects.length := (List.getElem?_eq_some_iff.mp hobject).1
        exact ⟨(h.rename hshares hplace name).push (List.getElem?_set_self hlt) hrenamed name
          bound.name, evaluate_setName ..⟩

end Agrees

/-! ## Select lists -/

mutual

theorem hasAggregation_eq_false : ∀ (expr : Binder.Expression), expr.isPlain = true →
    expr.hasAggregation = false
  | .binaryOp _ left right, hplain => by
      rw [Expression.isPlain, Bool.and_eq_true] at hplain
      rw [Expression.hasAggregation, hasAggregation_eq_false left hplain.1,
        hasAggregation_eq_false right hplain.2]
      rfl
  | .unaryOp _ arg, hplain => hasAggregation_eq_false arg hplain
  | .funcCall _ args, hplain => haveAggregation_eq_false args hplain
  | .typeCast .., _ | .columnRef _, _ | .const _, _ | .list _, _ | .nullTest .., _ | .star, _ => rfl

theorem haveAggregation_eq_false : ∀ (exprs : List Binder.Expression),
    Expression.arePlain exprs = true → Expression.haveAggregation exprs = false
  | [], _ => rfl
  | expr :: exprs, hplain => by
      rw [Expression.arePlain, Bool.and_eq_true] at hplain
      rw [Expression.haveAggregation, hasAggregation_eq_false expr hplain.1,
        haveAggregation_eq_false exprs hplain.2]
      rfl

end

theorem hasAggregation_item_eq_false {item : Binder.Expression} (hitem : item.isItem = true) :
    item.hasAggregation = false := by
  cases item with
  | aliasOf name expr => exact hasAggregation_eq_false expr hitem
  | _ => exact hasAggregation_eq_false _ hitem

section Items

variable {regexMatch : RegexMatch} {columns : ColumnList} {record : List Value}
  {state state' : State} {env : Env}

@[simp] theorem columns_addAlias (item : Binder.Expression) :
    (env.addAlias regexMatch item).columns = env.columns := by
  cases item <;> rfl

@[simp] theorem columns_foldl_addAlias (items : List Binder.Expression) :
    (items.foldl (Env.addAlias regexMatch) env).columns = env.columns := by
  induction items generalizing env with
  | nil => rfl
  | cons item items ih => rw [List.foldl_cons, ih, columns_addAlias]

/-- A name that has a result keeps it. -/
theorem find?_foldl_addAlias {name : String} {result : Except EvalError Value}
    (h : Assoc.find? name env.aliases = some result) (items : List Binder.Expression) :
    Assoc.find? name (items.foldl (Env.addAlias regexMatch) env).aliases = some result := by
  induction items generalizing env with
  | nil => exact h
  | cons item items ih =>
      apply ih
      cases item with
      | aliasOf name' expr =>
          change Assoc.find? name (env.aliases ++ [_]) = _
          rw [Assoc.find?_append, h]
          rfl
      | _ => exact h

/-- The names that AS gives have results. -/
theorem isSome_find?_foldl_addAlias {name : String} {expr : Binder.Expression}
    {items : List Binder.Expression}
    (h : .aliasOf name expr ∈ items) :
    (Assoc.find? name (items.foldl (Env.addAlias regexMatch) env).aliases).isSome := by
  induction items generalizing env with
  | nil => cases h
  | cons item items ih =>
      rcases List.mem_cons.mp h with rfl | h
      · have hnamed : ∃ result, Assoc.find? name
            (env.addAlias regexMatch (.aliasOf name expr)).aliases = some result := by
          rw [← Option.isSome_iff_exists]
          change (Assoc.find? name (env.aliases ++ [_])).isSome = true
          rw [Assoc.find?_append, Option.isSome_or, Assoc.find?_cons, if_pos rfl,
            Option.isSome_some, Bool.or_true]
        obtain ⟨result, hresult⟩ := hnamed
        rw [List.foldl_cons, find?_foldl_addAlias hresult]
        rfl
      · exact ih h

variable (hnodup : (columnNames columns).Nodup) (hlength : record.length = columns.length)
  (hcolumns : env.columns = (columnNames columns).zip record)

include hnodup hlength hcolumns

/-- An item is planned as an expression of its value, and AS has named it. -/
theorem Agrees.planItem {item : Binder.Expression} {planned : Planned}
    (h : Agrees regexMatch record state env) (hitem : item.isItem = true)
    (hrun : planExpression [columns] item state = .ok (planned, state')) :
    Agrees regexMatch record state' (env.addAlias regexMatch item) ∧
      ∀ value, item.value regexMatch env = .ok value →
        planned.expr.evaluate regexMatch record = .ok value := by
  have hreads := fun names => h.reads hnodup hlength hcolumns names
  have plain : ∀ expr : Binder.Expression, expr.isPlain = true → ∀ {bound : Planned} {s : State},
      planExpression [columns] expr state = .ok (bound, s) → s = state ∧ bound.Shares state ∧
        ∀ value, expr.value regexMatch env = .ok value →
          bound.expr.evaluate regexMatch record = .ok value := by
    intro expr hplain bound s hbound
    obtain ⟨hs, hplans, hshares⟩ := plans_of_planExpression expr hplain hbound
    exact ⟨hs, hshares, fun value => evaluate_of_plans expr hplans (hreads expr.names)⟩
  cases item with
  | aliasOf name expr =>
      rw [planExpression, StateT.bind_eq_ok_iff] at hrun
      obtain ⟨bound, s, hbound, hrun⟩ := hrun
      obtain ⟨hs, hshares, hvalue⟩ := plain expr hitem hbound
      subst s
      obtain ⟨hagrees, hsame⟩ := h.addAlias hshares hvalue hrun
      exact ⟨hagrees, fun value hok => hsame.trans (hvalue value hok)⟩
  | _ =>
      obtain ⟨hs, -, hvalue⟩ := plain _ hitem hrun
      subst hs
      exact ⟨h, hvalue⟩

/-- The first loop over the select list. -/
theorem Agrees.addAliases {items : List Binder.Expression} (h : Agrees regexMatch record state env)
    (hitems : ∀ item ∈ items, item.isItem = true)
    (hrun : Planning.addAliases columns items state = .ok ((), state')) :
    Agrees regexMatch record state' (items.foldl (Env.addAlias regexMatch) env) := by
  induction items generalizing state env with
  | nil =>
      cases hrun
      exact h
  | cons item items ih =>
      obtain ⟨hitem, hitems⟩ := List.forall_mem_cons.mp hitems
      rw [Planning.addAliases, List.forM, StateT.bind_eq_ok_iff] at hrun
      obtain ⟨_, s, hstep, hrun⟩ := hrun
      refine ih ?_ ?_ hitems hrun
      · rwa [columns_addAlias]
      · by_cases hnames : namesExpression item = true
        · rw [if_pos hnames, StateT.bind_eq_ok_iff] at hstep
          obtain ⟨planned, s', hplanned, hpure⟩ := hstep
          cases hpure
          exact (h.planItem hnodup hlength hcolumns hitem hplanned).1
        · rw [if_neg hnames] at hstep
          cases hstep
          cases item with
          | aliasOf name expr =>
              cases expr with
              | aggregate => cases hitem
              | _ => exact absurd rfl hnames
          | _ => exact h

/-- The second loop, with every name known. -/
theorem Agrees.planSelectList {items : List Binder.Expression}
    {exprs : List (OperatorExpression × String)} (h : Agrees regexMatch record state env)
    (hitems : ∀ item ∈ items, item.isItem = true)
    (hknown : ∀ name expr, .aliasOf name expr ∈ items → (Assoc.find? name env.aliases).isSome)
    (hrun : Planning.planSelectList columns items state = .ok (exprs, state')) :
    Agrees regexMatch record state' env ∧
      ∀ values, Expression.values regexMatch env items = .ok values →
        OperatorExpression.evaluateAll regexMatch record (exprs.map (·.1)) = .ok values := by
  induction items generalizing state exprs with
  | nil =>
      cases hrun
      exact ⟨h, fun values hvalues => hvalues⟩
  | cons item items ih =>
      obtain ⟨hitem, hitems⟩ := List.forall_mem_cons.mp hitems
      rw [Planning.planSelectList, StateT.bind_eq_ok_iff] at hrun
      obtain ⟨planned, s, hplanned, hrun⟩ := hrun
      obtain ⟨hagrees, hvalue⟩ := h.planItem hnodup hlength hcolumns hitem hplanned
      have hsame : ∀ name, Assoc.find? name (env.addAlias regexMatch item).aliases =
          Assoc.find? name env.aliases := by
        intro name
        cases item with
        | aliasOf name' expr =>
            obtain ⟨result, hresult⟩ :=
              Option.isSome_iff_exists.mp (hknown name' expr List.mem_cons_self)
            change Assoc.find? name (env.aliases ++ [(name', _)]) = _
            rw [Assoc.find?_append, Assoc.find?_cons]
            split
            · rename_i heq
              rw [← heq, hresult]
              rfl
            · exact Option.or_none
        | _ => rfl
      rw [StateT.bind_eq_ok_iff] at hrun
      obtain ⟨rest, s', hrest, hpure⟩ := hrun
      cases hpure
      obtain ⟨hagrees', hvalues⟩ := ih (hagrees.congr hsame) hitems
        (fun name expr hmem => hknown name expr (List.mem_cons_of_mem _ hmem)) hrest
      refine ⟨hagrees', fun values hok => ?_⟩
      rw [Expression.values] at hok
      obtain ⟨value, hhead, hok⟩ := Except.bind_eq_ok_iff.mp hok
      obtain ⟨tail, htail, hok⟩ := Except.bind_eq_ok_iff.mp hok
      rw [List.map_cons, OperatorExpression.evaluateAll, hvalue value hhead, hvalues tail htail]
      exact hok

end Items

end Planning

end HuaDB
