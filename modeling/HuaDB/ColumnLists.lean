import HuaDB.JoinConditions

/-!
`catalog/column_list.cpp`, and `Planner::PlanColumnRef` over two children.

A column list has its columns and `col2idx_`, the map from their names to positions. A name
that comes twice takes one entry, and the columns after it are entered one position too low.
Where the names are distinct, the map gives the position of each
(`tryGetColumnIndex_ofColumns`).
-/

namespace HuaDB

/-- `ColumnList`, with its `col2idx_`. -/
structure IndexedColumns where
  columns : ColumnList := []
  col2idx : Assoc String Nat := []
deriving DecidableEq, Repr

namespace IndexedColumns

/-- `AddColumn`: the entry gets the size that the map had. -/
def addColumn (list : IndexedColumns) (column : ColumnDefinition) : IndexedColumns where
  columns := list.columns ++ [column]
  col2idx := list.col2idx.insert column.name list.col2idx.length

/-- `ColumnList(columns)`. -/
def ofColumns (columns : ColumnList) : IndexedColumns := columns.foldl addColumn {}

/-- `TryGetColumnIndex`. -/
def tryGetColumnIndex (list : IndexedColumns) (name : String) : Option Nat :=
  list.col2idx.find? name

/-- `GetColumn`, which does not look whether there is one. -/
def getColumn (list : IndexedColumns) (index : Nat) : Except EvalError ColumnDefinition :=
  match list.columns[index]? with
  | some column => .ok column
  | none => .error .undefined

/-- The map leads to a column of that name. -/
def Leads (list : IndexedColumns) (name : String) : Prop :=
  ∃ i column, list.tryGetColumnIndex name = some i ∧ list.columns[i]? = some column ∧
    column.name = name

theorem not_leads_of_none {list : IndexedColumns} {name : String}
    (h : list.tryGetColumnIndex name = none) : ¬ list.Leads name := by
  rintro ⟨i, column, hindex, -⟩
  cases h.symm.trans hindex

/-! ## Distinct names -/

/-- The map has a position for each name, in order. -/
def Numbered (list : IndexedColumns) : Prop :=
  list.col2idx = (list.columns.map (·.name)).zipIdx

theorem Numbered.addColumn {list : IndexedColumns} (h : list.Numbered) {column : ColumnDefinition}
    (hnew : column.name ∉ list.columns.map (·.name)) : (list.addColumn column).Numbered := by
  have hkeys : list.col2idx.keys = list.columns.map (·.name) := by
    rw [h, Assoc.keys, List.zipIdx_map_fst]
  have hlength : list.col2idx.length = list.columns.length := by
    rw [h, List.length_zipIdx, List.length_map]
  simp only [Numbered, IndexedColumns.addColumn]
  rw [Assoc.insert_of_not_mem_keys (hkeys ▸ hnew), hlength, h, List.map_append, List.zipIdx_append,
    List.length_map, Nat.zero_add]
  rfl

theorem columns_foldl_addColumn (columns : ColumnList) (list : IndexedColumns) :
    (columns.foldl addColumn list).columns = list.columns ++ columns := by
  induction columns generalizing list with
  | nil => exact (List.append_nil _).symm
  | cons column columns ih =>
      rw [List.foldl_cons, ih, addColumn, List.append_assoc]
      rfl

@[simp] theorem columns_ofColumns (columns : ColumnList) : (ofColumns columns).columns = columns :=
  columns_foldl_addColumn columns {}

theorem numbered_foldl_addColumn {columns : ColumnList} {list : IndexedColumns} (h : list.Numbered)
    (hnodup : ((list.columns ++ columns).map (·.name)).Nodup) :
    (columns.foldl addColumn list).Numbered := by
  induction columns generalizing list with
  | nil => exact h
  | cons column columns ih =>
      have hnew : column.name ∉ list.columns.map (·.name) := by
        rw [List.map_append, List.map_cons] at hnodup
        intro hmem
        exact (List.nodup_append.mp hnodup).2.2 _ hmem _ List.mem_cons_self rfl
      apply ih (h.addColumn hnew)
      rw [addColumn, List.append_assoc]
      exact hnodup

theorem numbered_ofColumns {columns : ColumnList} (hnodup : (columns.map (·.name)).Nodup) :
    (ofColumns columns).Numbered :=
  numbered_foldl_addColumn rfl hnodup

theorem Numbered.tryGetColumnIndex_eq {list : IndexedColumns} (h : list.Numbered) (name : String) :
    list.tryGetColumnIndex name = Planner.tryGetColumnIndex list.columns name := by
  have hfind : ∀ (columns : ColumnList) (n : Nat),
      Assoc.find? name ((columns.map (·.name)).zipIdx n) =
        (columns.findIdx? (·.name = name)).map (· + n) := by
    intro columns
    induction columns with
    | nil => exact fun _ => rfl
    | cons column columns ih =>
        intro n
        rw [List.map_cons, List.zipIdx_cons, Assoc.find?_cons, List.findIdx?_cons]
        by_cases hname : column.name = name
        · simp [hname]
        · rw [if_neg hname, ih]
          simp only [hname, decide_false, Bool.false_eq_true, ↓reduceIte, Option.map_map]
          congr 1
          funext i
          exact Nat.add_right_comm i n 1
  rw [tryGetColumnIndex, h, hfind list.columns 0]
  exact Option.map_id'

/-- Where the names are distinct, the map gives the position of the column. -/
theorem tryGetColumnIndex_ofColumns {columns : ColumnList} (hnodup : (columns.map (·.name)).Nodup)
    (name : String) :
    (ofColumns columns).tryGetColumnIndex name = Planner.tryGetColumnIndex columns name := by
  rw [(numbered_ofColumns hnodup).tryGetColumnIndex_eq, columns_ofColumns]

theorem leads_ofColumns_iff {columns : ColumnList} (hnodup : (columns.map (·.name)).Nodup)
    (name : String) : (ofColumns columns).Leads name ↔ name ∈ columns.map (·.name) := by
  rw [Leads, columns_ofColumns, tryGetColumnIndex_ofColumns hnodup]
  constructor
  · rintro ⟨i, column, -, hcolumn, rfl⟩
    exact List.mem_map_of_mem (List.mem_of_getElem? hcolumn)
  · intro hmem
    rcases List.mem_map.mp hmem with ⟨column, hcolumn, rfl⟩
    have hsome : (columns.findIdx? (·.name = column.name)).isSome := by
      rw [List.findIdx?_isSome, List.any_eq_true]
      exact ⟨column, hcolumn, decide_eq_true rfl⟩
    rcases Option.isSome_iff_exists.mp hsome with ⟨i, hi⟩
    rcases List.findIdx?_eq_some_iff_getElem.mp hi with ⟨hlt, hname, -⟩
    exact ⟨i, columns[i], hi, List.getElem?_eq_getElem hlt, of_decide_eq_true hname⟩

end IndexedColumns

/-! ## References over two children -/

open IndexedColumns

namespace Planner

/-- `PlanColumnRef` over two children, on their column lists with their maps. The size of a
column of the right child is that of the column of the left one at the same position. -/
def planIndexedColumnRef (left right : IndexedColumns) (name : String) :
    Except EvalError OperatorExpression :=
  match left.tryGetColumnIndex name, right.tryGetColumnIndex name with
  | some _, some _ => .error (.db ("Ambiguous column name " ++ name ++ " in PlanColumnRef"))
  | some i, none => do
      let column ← left.getColumn i
      return .columnValue i column.type name column.maxSize true
  | none, some i => do
      let column ← right.getColumn i
      let sized ← left.getColumn i
      return .columnValue i column.type name sized.maxSize false
  | none, none => .error (.db (name ++ " not found in PlanColumnRef"))

theorem getColumn_of_tryGetColumnIndex {columns : ColumnList} {name : String} {i : Nat}
    (h : tryGetColumnIndex columns name = some i) :
    getColumn columns name = (ofColumns columns).getColumn i := by
  rcases List.findIdx?_eq_some_iff_getElem.mp h with ⟨hlt, hname, hbefore⟩
  have hfind : columns.find? (·.name = name) = some columns[i] :=
    List.find?_eq_some_iff_getElem.mpr
      ⟨hname, i, hlt, rfl, fun j hj => by simpa using hbefore j hj⟩
  rw [Planner.getColumn, hfind, IndexedColumns.getColumn, columns_ofColumns,
    List.getElem?_eq_getElem hlt]

/-- On columns with distinct names this is the reference as the plans of joins have it. -/
theorem planIndexedColumnRef_ofColumns {leftColumns rightColumns : ColumnList}
    (hleft : (leftColumns.map (·.name)).Nodup) (hright : (rightColumns.map (·.name)).Nodup)
    (name : String) :
    planIndexedColumnRef (ofColumns leftColumns) (ofColumns rightColumns) name =
      planJoinColumnRef leftColumns rightColumns name := by
  rw [planIndexedColumnRef, planJoinColumnRef, tryGetColumnIndex_ofColumns hleft,
    tryGetColumnIndex_ofColumns hright]
  rcases hl : tryGetColumnIndex leftColumns name with _ | i <;>
    rcases hr : tryGetColumnIndex rightColumns name with _ | j
  · rfl
  · rw [getColumn_of_tryGetColumnIndex hr]
    simp only [IndexedColumns.getColumn, columns_ofColumns]
    rcases rightColumns[j]? with _ | column
    · rfl
    · rcases leftColumns[j]? with _ | sized <;> rfl
  · rw [getColumn_of_tryGetColumnIndex hl]
  · rfl

/-- The result is a reference to a column of that name, with the index, the type and the
maximum size that it has in the list. -/
def Resolves (list : IndexedColumns) (isLeft : Bool) (name : String)
    (result : Except EvalError OperatorExpression) : Prop :=
  ∃ i column, list.columns[i]? = some column ∧ column.name = name ∧
    result = .ok (.columnValue i column.type name column.maxSize isLeft)

/-- The left list has a column of the same maximum size at the position that the right one
gives to the name. -/
def SameSize (left right : IndexedColumns) (name : String) : Prop :=
  ∃ i column sized, right.tryGetColumnIndex name = some i ∧ right.columns[i]? = some column ∧
    left.columns[i]? = some sized ∧ sized.maxSize = column.maxSize

end Planner

theorem IndexedColumns.getColumn_eq_ok_iff {list : IndexedColumns} {i : Nat}
    {column : ColumnDefinition} : list.getColumn i = .ok column ↔ list.columns[i]? = some column := by
  rw [getColumn]
  cases list.columns[i]? <;> simp

namespace Planner

variable {left right : IndexedColumns} {name : String}

theorem resolves_left_iff (hleft : (left.tryGetColumnIndex name).isSome)
    (hright : right.tryGetColumnIndex name = none) :
    Resolves left true name (planIndexedColumnRef left right name) ↔ left.Leads name := by
  rcases Option.isSome_iff_exists.mp hleft with ⟨i, hi⟩
  simp only [planIndexedColumnRef, hi, hright]
  constructor
  · rintro ⟨j, column, hcolumn, hname, hresult⟩
    rcases Except.bind_eq_ok_iff.mp hresult with ⟨found, -, hfound⟩
    have hindex : i = j := (OperatorExpression.columnValue.inj (Except.ok.inj hfound)).1
    subst hindex
    exact ⟨i, column, hi, hcolumn, hname⟩
  · rintro ⟨j, column, hj, hcolumn, hname⟩
    cases hi.symm.trans hj
    refine ⟨i, column, hcolumn, hname, ?_⟩
    rw [getColumn_eq_ok_iff.mpr hcolumn]
    rfl

theorem resolves_right_iff (hleft : left.tryGetColumnIndex name = none)
    (hright : (right.tryGetColumnIndex name).isSome) :
    Resolves right false name (planIndexedColumnRef left right name) ↔
      right.Leads name ∧ SameSize left right name := by
  rcases Option.isSome_iff_exists.mp hright with ⟨i, hi⟩
  simp only [planIndexedColumnRef, hi, hleft]
  constructor
  · rintro ⟨j, column, hcolumn, hname, hresult⟩
    rcases Except.bind_eq_ok_iff.mp hresult with ⟨found, hfound, hresult⟩
    rcases Except.bind_eq_ok_iff.mp hresult with ⟨sized, hsized, heq⟩
    injection heq with heq
    injection heq with hindex _ _ hsize _
    subst hindex
    exact ⟨⟨i, column, hi, hcolumn, hname⟩,
      i, column, sized, hi, hcolumn, getColumn_eq_ok_iff.mp hsized, hsize⟩
  · rintro ⟨⟨j, column, hj, hcolumn, hname⟩, k, column', sized, hk, hcolumn', hsized, hsize⟩
    cases hi.symm.trans hj
    cases hi.symm.trans hk
    cases hcolumn.symm.trans hcolumn'
    refine ⟨i, column, hcolumn, hname, ?_⟩
    rw [getColumn_eq_ok_iff.mpr hcolumn, getColumn_eq_ok_iff.mpr hsized, ← hsize]
    rfl

theorem not_resolves_left (hleft : left.tryGetColumnIndex name = none) :
    ¬ Resolves left true name (planIndexedColumnRef left right name) := by
  rintro ⟨i, column, -, -, hresult⟩
  rcases hright : right.tryGetColumnIndex name with _ | j
  · simp only [planIndexedColumnRef, hleft, hright] at hresult
    cases hresult
  · simp only [planIndexedColumnRef, hleft, hright] at hresult
    rcases Except.bind_eq_ok_iff.mp hresult with ⟨found, -, hresult⟩
    rcases Except.bind_eq_ok_iff.mp hresult with ⟨sized, -, heq⟩
    cases (OperatorExpression.columnValue.inj (Except.ok.inj heq)).2.2.2.2

theorem not_resolves_right (hright : right.tryGetColumnIndex name = none) :
    ¬ Resolves right false name (planIndexedColumnRef left right name) := by
  rintro ⟨i, column, -, -, hresult⟩
  rcases hleft : left.tryGetColumnIndex name with _ | j
  · simp only [planIndexedColumnRef, hleft, hright] at hresult
    cases hresult
  · simp only [planIndexedColumnRef, hleft, hright] at hresult
    rcases Except.bind_eq_ok_iff.mp hresult with ⟨found, -, heq⟩
    cases (OperatorExpression.columnValue.inj (Except.ok.inj heq)).2.2.2.2

/-- A name that one of the two maps has is resolved to its column exactly where the map leads
to a column of that name and, for a column of the right list, the left list has one of the
same maximum size at that position. -/
theorem columnRef_resolved_iff
    (hone : (left.tryGetColumnIndex name).isSome ≠ (right.tryGetColumnIndex name).isSome) :
    (Resolves left true name (planIndexedColumnRef left right name) ∨
        Resolves right false name (planIndexedColumnRef left right name)) ↔
      left.Leads name ∨ right.Leads name ∧ SameSize left right name := by
  rcases hleft : left.tryGetColumnIndex name with _ | i
  · have hright : (right.tryGetColumnIndex name).isSome := by
      rw [hleft] at hone
      exact eq_true_of_ne_false hone.symm
    rw [resolves_right_iff hleft hright, or_iff_right (not_resolves_left hleft),
      or_iff_right (not_leads_of_none hleft)]
  · have hsome : (left.tryGetColumnIndex name).isSome := by
      rw [hleft]
      rfl
    have hright : right.tryGetColumnIndex name = none := by
      rw [hsome] at hone
      simpa using hone.symm
    rw [resolves_left_iff hsome hright, or_iff_left (not_resolves_right hright),
      or_iff_left fun h => not_leads_of_none hright h.1]

/-- `t(a)` and `u(b, c)`: `u.b` gets its own column, since `t.a` is as large. -/
theorem columnRef_resolved_of_u_b :
    Resolves (ofColumns [⟨"u.b", .int, 4⟩, ⟨"u.c", .varchar, 10⟩]) false "u.b"
      (planIndexedColumnRef (ofColumns [⟨"t.a", .int, 4⟩])
        (ofColumns [⟨"u.b", .int, 4⟩, ⟨"u.c", .varchar, 10⟩]) "u.b") :=
  ((columnRef_resolved_iff (by decide)).mpr
    (.inr ⟨⟨0, ⟨"u.b", .int, 4⟩, by decide, by decide, rfl⟩,
      ⟨0, ⟨"u.b", .int, 4⟩, ⟨"t.a", .int, 4⟩, by decide, by decide, by decide, rfl⟩⟩)).resolve_left
    (not_resolves_left (by decide))

/-- The size of `u.c` is looked up behind the end of the columns of `t`. -/
theorem columnRef_beyond_left :
    ∃ (left right : IndexedColumns) (name : String),
      (left.tryGetColumnIndex name).isSome ≠ (right.tryGetColumnIndex name).isSome ∧
        planIndexedColumnRef left right name = .error .undefined ∧
        ¬ (Resolves left true name (planIndexedColumnRef left right name) ∨
          Resolves right false name (planIndexedColumnRef left right name)) := by
  refine ⟨ofColumns [⟨"t.a", .int, 4⟩], ofColumns [⟨"u.b", .int, 4⟩, ⟨"u.c", .varchar, 10⟩],
    "u.c", by decide, rfl, ?_⟩
  rintro (⟨i, column, -, -, hresult⟩ | ⟨i, column, -, -, hresult⟩) <;> cases hresult

end Planner

end HuaDB
