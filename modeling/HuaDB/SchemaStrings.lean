import HuaDB.ColumnLists
import HuaDB.Lib.TextStream

/-!
Column lists as the system table keeps them: `ColumnList::ToString` prints one line for each
column, `FromString` reads words from it, and `BindCreateTableStatement` says which columns a
table can have.

A name survives exactly where it is a word: not empty and without white space. The number of
columns is read into sixteen bits.
-/

namespace HuaDB

/-! ## `Binder::BindCreateTableStatement` -/

/-- An element of a `CREATE TABLE` statement. The modifiers of a type are what
`BindExpressionList`, the cast to `ConstExpression` and `std::stoi` make of the first of them. -/
inductive TableElement where
  | columnDef (colname typeName : String) (typmods : Option (Except EvalError Int))
  | other (tag : String)

namespace Binder

/-- The column type of a type that needs a length. -/
def stringType (typeName : String) : Except EvalError ValueType :=
  if typeName = "bpchar" then .ok .char
  else if typeName = "varchar" then .ok .varchar
  else .error (.db ("Unknown column type " ++ typeName))

/-- `BindColumnDefinition`: the length is kept in sixteen bits. -/
def bindColumnDefinition (colName typeName : String) (typmods : Option (Except EvalError Int)) :
    Except EvalError ColumnDefinition :=
  if typeName = "int4" then .ok ⟨colName, .int, 4⟩
  else if typeName = "double" then .ok ⟨colName, .double, 8⟩
  else do
    let colType ← stringType typeName
    match typmods with
    | none => .error (.db "Column length is not specified")
    | some length => do
      let maxSize := ((← length) % 2 ^ 16).toNat
      if maxSize = 0 then .error (.db "length must be at least 1")
      else .ok ⟨colName, colType, maxSize⟩

/-- The loop over the elements, with the columns so far. -/
def bindElements (columns : ColumnList) : List TableElement → Except EvalError ColumnList
  | [] => .ok columns
  | .columnDef colname typeName typmods :: elements => do
      let column ← bindColumnDefinition colname typeName typmods
      if column.name ∈ columns.map (·.name) then
        .error (.db ("Duplicate column name: " ++ column.name))
      else bindElements (columns ++ [column]) elements
  | .other tag :: _ => .error (.db ("Unsupported node type: " ++ tag))

/-- The columns of `BindCreateTableStatement`. The parser gives a null pointer for no elements,
which the loop follows. -/
def bindCreateTableStatement : List TableElement → Except EvalError ColumnList
  | [] => .error .undefined
  | elements => bindElements [] elements

end Binder

/-! ## `ToString` and `FromString` -/

namespace TypeUtil

def type2String : ValueType → Except EvalError String
  | .bool => .ok "bool"
  | .int => .ok "int"
  | .uint => .ok "uint"
  | .double => .ok "double"
  | .char => .ok "char"
  | .varchar => .ok "varchar"
  | .nullType => .ok "null"
  | .list => .error (.db "Unknown type in Type2String")

def string2Type (str : String) : Except EvalError ValueType :=
  if str = "bool" then .ok .bool
  else if str = "int" then .ok .int
  else if str = "uint" then .ok .uint
  else if str = "double" then .ok .double
  else if str = "char" then .ok .char
  else if str = "varchar" then .ok .varchar
  else if str = "null" then .ok .nullType
  else .error (.db "Unknown type in String2Type")

/-- The types that have a name are read back. -/
theorem string2Type_of_type2String {type : ValueType} {str : String}
    (h : type2String type = .ok str) : string2Type str = .ok type := by
  cases type <;> cases h <;> rfl

theorem isWord_type2String {type : ValueType} {str : String} (h : type2String type = .ok str) :
    TextStream.IsWord str.toList := by
  cases type <;> cases h <;> decide

end TypeUtil

/-- `ColumnDefinition::ToString`. -/
def ColumnDefinition.toString (column : ColumnDefinition) : Except EvalError String := do
  return column.name ++ " " ++ (← TypeUtil.type2String column.type) ++ " " ++
    ToString.toString column.maxSize

namespace IndexedColumns

/-- The lines of the columns. -/
def columnLines : ColumnList → Except EvalError String
  | [] => .ok ""
  | column :: columns => do return (← column.toString) ++ "\n" ++ (← columnLines columns)

/-- `ColumnList::ToString`. -/
def toString (list : IndexedColumns) : Except EvalError String := do
  return ToString.toString list.columns.length ++ "\n" ++ (← columnLines list.columns)

/-- One column of `FromString`. A name or a type that is not read stays the empty string; a
size that is not read is not set at all. -/
def readColumn (iss : TextStream) : Except EvalError (ColumnDefinition × TextStream) := do
  let (name, iss) := iss.readWord
  let (type, iss) := iss.readWord
  let type ← TypeUtil.string2Type (String.ofList (type.getD []))
  match iss.readNat (2 ^ 16) with
  | (some maxSize, iss) => return (⟨String.ofList (name.getD []), type, maxSize⟩, iss)
  | (none, _) => .error .undefined

def readColumns : Nat → TextStream → Except EvalError (List ColumnDefinition)
  | 0, _ => .ok []
  | size + 1, iss => do
      let (column, iss) ← readColumn iss
      return column :: (← readColumns size iss)

/-- `ColumnList::FromString`, into an empty list. -/
def fromString (str : String) : Except EvalError IndexedColumns :=
  match (TextStream.mk str.toList false).readNat (2 ^ 16) with
  | (some size, iss) => do
      let columns ← readColumns size iss
      return ⟨columns, Assoc.ofEntries (columns.map (·.name)).zipIdx⟩
  | (none, _) => .error .undefined

end IndexedColumns

/-! ## The columns of a table -/

/-- The type has a name and the size fits in its sixteen bits. -/
structure ColumnDefinition.Storable (column : ColumnDefinition) : Prop where
  type : ∃ str, TypeUtil.type2String column.type = .ok str
  maxSize : column.maxSize < 2 ^ 16

namespace Binder

theorem type2String_of_stringType {typeName : String} {type : ValueType}
    (h : stringType typeName = .ok type) : ∃ str, TypeUtil.type2String type = .ok str := by
  rw [stringType] at h
  split at h
  · cases h
    exact ⟨"char", rfl⟩
  · split at h
    · cases h
      exact ⟨"varchar", rfl⟩
    · cases h

theorem storable_of_bindColumnDefinition {colName typeName : String}
    {typmods : Option (Except EvalError Int)} {column : ColumnDefinition}
    (h : bindColumnDefinition colName typeName typmods = .ok column) : column.Storable := by
  rw [bindColumnDefinition] at h
  split at h
  · cases h
    exact ⟨⟨"int", rfl⟩, Nat.lt_of_sub_pos (by decide : 0 < 2 ^ 16 - 4)⟩
  · split at h
    · cases h
      exact ⟨⟨"double", rfl⟩, Nat.lt_of_sub_pos (by decide : 0 < 2 ^ 16 - 8)⟩
    · rcases Except.bind_eq_ok_iff.mp h with ⟨type, htype, h⟩
      split at h
      · cases h
      · rcases Except.bind_eq_ok_iff.mp h with ⟨length, -, h⟩
        dsimp only at h
        split at h
        · cases h
        · cases h
          exact ⟨type2String_of_stringType htype, by dsimp only; omega⟩

theorem of_bindElements {elements : List TableElement} {columns result : ColumnList}
    (h : bindElements columns elements = .ok result) (hnodup : (columns.map (·.name)).Nodup)
    (hstorable : ∀ column ∈ columns, column.Storable) :
    (result.map (·.name)).Nodup ∧ ∀ column ∈ result, column.Storable := by
  induction elements generalizing columns with
  | nil =>
      cases h
      exact ⟨hnodup, hstorable⟩
  | cons element elements ih =>
      rcases element with ⟨colname, typeName, typmods⟩ | tag
      · rw [bindElements] at h
        rcases Except.bind_eq_ok_iff.mp h with ⟨column, hcolumn, h⟩
        split at h
        · cases h
        · rename_i hnew
          apply ih h
          · rw [List.map_append, List.map_singleton, List.nodup_append]
            refine ⟨hnodup, List.nodup_singleton _, fun name hname other hother => ?_⟩
            rw [List.mem_singleton.mp hother]
            exact fun heq => hnew (heq ▸ hname)
          · intro other hother
            rcases List.mem_append.mp hother with hother | hother
            · exact hstorable other hother
            · rw [List.mem_singleton.mp hother]
              exact storable_of_bindColumnDefinition hcolumn
      · cases h

/-- The columns that a table gets have distinct names, and types and sizes that can be
stored. -/
theorem of_bindCreateTableStatement {elements : List TableElement} {columns : ColumnList}
    (h : bindCreateTableStatement elements = .ok columns) :
    (columns.map (·.name)).Nodup ∧ ∀ column ∈ columns, column.Storable := by
  rcases elements with _ | ⟨element, elements⟩
  · cases h
  · exact of_bindElements h List.nodup_nil (fun _ hmem => absurd hmem List.not_mem_nil)

end Binder

/-! ## Printing and reading back -/

namespace IndexedColumns

theorem readColumn_line {column : ColumnDefinition} {line : String}
    (hline : column.toString = .ok line) (hname : TextStream.IsWord column.name.toList)
    (hsize : column.maxSize < 2 ^ 16) (rest : List Char) :
    readColumn ⟨'\n' :: (line.toList ++ '\n' :: rest), false⟩ =
      .ok (column, ⟨'\n' :: rest, false⟩) := by
  rcases Except.bind_eq_ok_iff.mp hline with ⟨type, htype, heq⟩
  cases heq
  have hchars : '\n' :: ((column.name ++ " " ++ type ++ " " ++
      ToString.toString column.maxSize).toList ++ '\n' :: rest) =
      ['\n'] ++ (column.name.toList ++ ' ' :: (type.toList ++ ' ' ::
        (Nat.toDigits 10 column.maxSize ++ '\n' :: rest))) := by
    simp [String.toList_append]
  have hspace : ∀ c ∈ [' '], TextStream.isSpace c := List.forall_mem_singleton.mpr rfl
  rw [hchars, readColumn, TextStream.readWord_append hname (List.forall_mem_singleton.mpr rfl) rfl]
  have htypeRead := TextStream.readWord_append (TypeUtil.isWord_type2String htype) hspace
    (by decide : TextStream.isSpace ' ') (Nat.toDigits 10 column.maxSize ++ '\n' :: rest)
  have hsizeRead := TextStream.readNat_append hsize hspace
    (by decide : TextStream.isSpace '\n') rest
  rw [List.singleton_append] at htypeRead hsizeRead
  simp only [htypeRead, Option.getD_some, String.ofList_toList,
    TypeUtil.string2Type_of_type2String htype]
  show (match TextStream.readNat (2 ^ 16) _ with | (some maxSize, iss) => _ | (none, _) => _) = _
  rw [hsizeRead]
  rfl

theorem columnLines_ok {columns : ColumnList} (h : ∀ column ∈ columns, column.Storable) :
    ∃ lines, columnLines columns = .ok lines := by
  induction columns with
  | nil => exact ⟨"", rfl⟩
  | cons column columns ih =>
      rcases (h column List.mem_cons_self).type with ⟨type, htype⟩
      rcases ih fun other hother => h other (List.mem_cons_of_mem _ hother) with ⟨lines, hlines⟩
      rw [columnLines, ColumnDefinition.toString, htype, hlines]
      exact ⟨_, rfl⟩

theorem readColumns_lines {columns : ColumnList} {lines : String}
    (hlines : columnLines columns = .ok lines)
    (hstorable : ∀ column ∈ columns, column.Storable)
    (hwords : ∀ column ∈ columns, TextStream.IsWord column.name.toList) :
    readColumns columns.length ⟨'\n' :: lines.toList, false⟩ = .ok columns := by
  induction columns generalizing lines with
  | nil => rfl
  | cons column columns ih =>
      rcases Except.bind_eq_ok_iff.mp hlines with ⟨line, hline, h⟩
      rcases Except.bind_eq_ok_iff.mp h with ⟨tail, htail, heq⟩
      cases heq
      have hread := readColumn_line hline (hwords column List.mem_cons_self)
        (hstorable column List.mem_cons_self).maxSize tail.toList
      have hchars : (line ++ "\n" ++ tail).toList = line.toList ++ '\n' :: tail.toList := by
        simp [String.toList_append]
      rw [List.length_cons, readColumns, hchars, hread]
      show (do return column :: (← readColumns columns.length ⟨'\n' :: tail.toList, false⟩)) = _
      rw [ih htail (fun other hother => hstorable other (List.mem_cons_of_mem _ hother))
        (fun other hother => hwords other (List.mem_cons_of_mem _ hother))]
      rfl

/-- Names that are words come back. -/
theorem fromString_of_toString {columns : ColumnList} {str : String}
    (hstr : (ofColumns columns).toString = .ok str) (hnodup : (columns.map (·.name)).Nodup)
    (hstorable : ∀ column ∈ columns, column.Storable)
    (hwords : ∀ column ∈ columns, TextStream.IsWord column.name.toList)
    (hlength : columns.length < 2 ^ 16) : fromString str = .ok (ofColumns columns) := by
  rcases Except.bind_eq_ok_iff.mp hstr with ⟨lines, hlines, heq⟩
  cases heq
  rw [columns_ofColumns] at hlines ⊢
  have hchars : (ToString.toString columns.length ++ "\n" ++ lines).toList =
      [] ++ (Nat.toDigits 10 columns.length ++ '\n' :: lines.toList) := by
    simp [String.toList_append]
  rw [fromString, hchars, TextStream.readNat_append hlength (by simp) (by decide)]
  simp only [readColumns_lines hlines hstorable hwords]
  have hnumbered := numbered_ofColumns hnodup
  rw [Numbered, columns_ofColumns] at hnumbered
  have hmap : Assoc.ofEntries (columns.map (·.name)).zipIdx = (columns.map (·.name)).zipIdx := by
    apply Assoc.ofEntries_eq_self
    rw [Assoc.keys, List.zipIdx_map_fst]
    exact hnodup
  show Except.ok (IndexedColumns.mk columns _) = _
  rw [hmap, ← hnumbered]
  congr 1
  exact (IndexedColumns.mk.injEq ..).mpr ⟨(columns_ofColumns columns).symm, rfl⟩

/-- A name that was read is a word: after a name that was not, no type is read. -/
theorem isWord_of_readColumn {iss iss' : TextStream} {column : ColumnDefinition}
    (h : readColumn iss = .ok (column, iss')) : TextStream.IsWord column.name.toList := by
  rw [readColumn] at h
  rcases hname : iss.readWord with ⟨name, issType⟩
  rcases htype : issType.readWord with ⟨type, issSize⟩
  simp only [hname, htype] at h
  rcases Except.bind_eq_ok_iff.mp h with ⟨colType, hcolType, h⟩
  rcases name with _ | name
  · rw [TextStream.readWord_of_failed (TextStream.failed_of_readWord_none hname)] at htype
    cases htype
    cases hcolType
  · split at h
    · cases h
      simpa using TextStream.readWord_some hname
    · cases h

theorem isWord_of_readColumns {size : Nat} {iss : TextStream} {columns : ColumnList}
    (h : readColumns size iss = .ok columns) :
    columns.length = size ∧ ∀ column ∈ columns, TextStream.IsWord column.name.toList := by
  induction size generalizing iss columns with
  | zero =>
      cases h
      exact ⟨rfl, fun _ hmem => absurd hmem List.not_mem_nil⟩
  | succ size ih =>
      rcases Except.bind_eq_ok_iff.mp h with ⟨⟨column, iss'⟩, hcolumn, h⟩
      rcases Except.bind_eq_ok_iff.mp h with ⟨tail, htail, heq⟩
      cases heq
      rcases ih htail with ⟨hlength, hwords⟩
      exact ⟨by rw [List.length_cons, hlength],
        List.forall_mem_cons.mpr ⟨isWord_of_readColumn hcolumn, hwords⟩⟩

/-- The columns of a string have words as their names, and fewer than `2 ^ 16` of them. -/
theorem of_fromString {str : String} {list : IndexedColumns} (h : fromString str = .ok list) :
    list.columns.length < 2 ^ 16 ∧
      ∀ column ∈ list.columns, TextStream.IsWord column.name.toList := by
  rw [fromString] at h
  split at h
  · rename_i size iss hsize
    rcases Except.bind_eq_ok_iff.mp h with ⟨columns, hcolumns, heq⟩
    cases heq
    rcases isWord_of_readColumns hcolumns with ⟨hlength, hwords⟩
    exact ⟨hlength ▸ TextStream.readNat_lt (by decide) hsize, hwords⟩
  · cases h

/-- Printing the columns and reading them into an empty list gives the same columns in the
same order, and the same map from names to positions. -/
def RoundTrips (columns : ColumnList) : Prop :=
  ∃ str list, (ofColumns columns).toString = .ok str ∧ fromString str = .ok list ∧
    list.columns = columns ∧
    ∀ name, list.tryGetColumnIndex name = (ofColumns columns).tryGetColumnIndex name

end IndexedColumns

end HuaDB
