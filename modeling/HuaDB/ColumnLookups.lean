import HuaDB.SchemaStrings
import HuaDB.Lib.Indexed
import Mathlib.Data.Finset.Card

/-!
The map of a column list against its columns, when names repeat.

`AddColumn` enters a name with the size of the map. That is the number of distinct names
before it (`Counted.entry`), which is its position as long as no name has repeated. `FromString`
enters positions.
-/

namespace HuaDB

namespace IndexedColumns

/-- `GetColumnIndex`. -/
def getColumnIndex (list : IndexedColumns) (name : String) : Except EvalError Nat :=
  match list.tryGetColumnIndex name with
  | some index => .ok index
  | none => .error (.db ("Column " ++ name ++ " not found in column list"))

/-- The names of the columns, in order. -/
def names (list : IndexedColumns) : List String := list.columns.map (·.name)

theorem leads_iff {list : IndexedColumns} {name : String} :
    list.Leads name ↔ ∃ i, list.tryGetColumnIndex name = some i ∧ list.names[i]? = some name := by
  simp only [Leads, names, List.getElem?_map, Option.map_eq_some_iff]
  constructor
  · intro h
    obtain ⟨i, column, hindex, hcolumn, hname⟩ := h
    exact ⟨i, hindex, column, hcolumn, hname⟩
  · intro h
    obtain ⟨i, hindex, column, hcolumn, hname⟩ := h
    exact ⟨i, column, hindex, hcolumn, hname⟩

theorem exists_getColumn_iff_leads {list : IndexedColumns} {name : String} :
    (∃ column, (list.getColumnIndex name >>= list.getColumn) = .ok column ∧ column.name = name) ↔
      list.Leads name := by
  constructor
  · intro h
    obtain ⟨column, hcolumn, hname⟩ := h
    obtain ⟨i, hindex, hcolumn⟩ := Except.bind_eq_ok_iff.mp hcolumn
    unfold getColumnIndex at hindex
    split at hindex
    · rename_i j hj
      cases hindex
      exact ⟨i, column, hj, getColumn_eq_ok_iff.mp hcolumn, hname⟩
    · cases hindex
  · intro h
    obtain ⟨i, column, hindex, hcolumn, hname⟩ := h
    refine ⟨column, Except.bind_eq_ok_iff.mpr ⟨i, ?_, getColumn_eq_ok_iff.mpr hcolumn⟩, hname⟩
    rw [getColumnIndex, hindex]

/-! ## Adding columns -/

/-- The map has the names of the columns, each with the number of distinct names before its
last occurrence. -/
structure Counted (list : IndexedColumns) : Prop where
  nodup : list.col2idx.keys.Nodup
  mem_keys : ∀ name, name ∈ list.col2idx.keys ↔ name ∈ list.names
  entry : ∀ before name after, list.names = before ++ name :: after → name ∉ after →
    list.tryGetColumnIndex name = some before.toFinset.card

theorem counted_empty : Counted {} where
  nodup := .nil
  mem_keys _ := .rfl
  entry before name after h := by
    have hlength := congrArg List.length h
    simp [names] at hlength

theorem names_addColumn (list : IndexedColumns) (column : ColumnDefinition) :
    (list.addColumn column).names = list.names ++ [column.name] :=
  List.map_append

theorem Counted.length_eq {list : IndexedColumns} (counted : list.Counted) :
    list.col2idx.length = list.names.toFinset.card := by
  have hsame : list.col2idx.keys.toFinset = list.names.toFinset := by
    ext name
    rw [List.mem_toFinset, List.mem_toFinset, counted.mem_keys]
  rw [← hsame, List.toFinset_card_of_nodup counted.nodup, Assoc.keys, List.length_map]

theorem Counted.addColumn {list : IndexedColumns} (counted : list.Counted)
    (column : ColumnDefinition) : (list.addColumn column).Counted := by
  refine ⟨Assoc.nodup_keys_insert counted.nodup, fun name => ?_, fun before name after h hlast => ?_⟩
  · rw [names_addColumn, IndexedColumns.addColumn, Assoc.keys_insert]
    by_cases hkey : column.name ∈ list.col2idx.keys
    · rw [if_pos hkey, counted.mem_keys, List.mem_append, List.mem_singleton]
      refine ⟨.inl, fun hmem => hmem.elim id fun heq => ?_⟩
      exact heq ▸ (counted.mem_keys _).mp hkey
    · rw [if_neg hkey, List.mem_append, List.mem_append, counted.mem_keys]
  · rw [names_addColumn] at h
    rcases List.eq_nil_or_concat' after with rfl | ⟨after, last, rfl⟩
    · obtain ⟨rfl, hsingle⟩ := List.append_inj' h rfl
      cases hsingle
      simp only [tryGetColumnIndex, IndexedColumns.addColumn]
      rw [Assoc.find?_insert_self, counted.length_eq]
    · have hsplit : list.names ++ [column.name] = (before ++ name :: after) ++ [last] := by
        rw [h, List.append_assoc, List.cons_append]
      obtain ⟨hnames, hsingle⟩ := List.append_inj' hsplit rfl
      cases hsingle
      have hne : column.name ≠ name := fun heq =>
        hlast (List.mem_append_right _ (List.mem_singleton.mpr heq.symm))
      have hafter : name ∉ after := fun hmem => hlast (List.mem_append_left _ hmem)
      rw [← counted.entry before name after hnames hafter]
      exact Assoc.find?_insert_ne hne _ _

theorem counted_foldl_addColumn (columns : ColumnList) {list : IndexedColumns}
    (counted : list.Counted) : (columns.foldl addColumn list).Counted := by
  induction columns generalizing list with
  | nil => exact counted
  | cons column columns ih => exact ih (counted.addColumn column)

/-- The names before the last occurrence of a name are distinct; or they repeat, and the name is
itself the one that comes at the number of distinct names among them. -/
def Aligned (names : List String) (name : String) : Prop :=
  ∀ before after, names = before ++ name :: after → name ∉ after →
    before.Nodup ∨ before[before.toFinset.card]? = some name

/-- Where columns were added, a name leads to its column exactly if it is aligned. -/
theorem Counted.leads_iff {list : IndexedColumns} (counted : list.Counted) {name : String}
    (hname : name ∈ list.names) : list.Leads name ↔ Aligned list.names name := by
  -- one way to split the names says it for all of them
  have one : ∀ before after, list.names = before ++ name :: after → name ∉ after →
      (list.Leads name ↔ before.Nodup ∨ before[before.toFinset.card]? = some name) := by
    intro before after hnames hlast
    have hentry := counted.entry before name after hnames hlast
    have hle : before.toFinset.card ≤ before.length := before.toFinset_card_le
    have hleads : list.Leads name ↔ list.names[before.toFinset.card]? = some name := by
      rw [IndexedColumns.leads_iff, hentry]
      simp
    rw [hleads, hnames]
    rcases Nat.lt_or_eq_of_le hle with hlt | heq
    · have hnodup : ¬ before.Nodup := fun nd =>
        absurd (List.toFinset_card_of_nodup nd) (Nat.ne_of_lt hlt)
      rw [List.getElem?_append_left hlt, or_iff_right hnodup]
    · have hnodup : before.Nodup := Multiset.coe_nodup.mp (Multiset.toFinset_card_eq_card_iff_nodup.mp heq)
      rw [heq, List.getElem?_append_right (Nat.le_refl _), Nat.sub_self]
      exact iff_of_true rfl (.inl hnodup)
  constructor
  · exact fun h before after hnames hlast => (one before after hnames hlast).mp h
  · intro h
    obtain ⟨before, after, hnames, hlast⟩ := List.exists_last_of_mem hname
    exact (one before after hnames hlast).mpr (h before after hnames hlast)

/-! ## Reading a string -/

/-- `FromString` enters the last position of each name. -/
theorem leads_of_fromString {str : String} {list : IndexedColumns} (h : fromString str = .ok list)
    {name : String} (hname : name ∈ list.names) : list.Leads name := by
  rw [fromString] at h
  split at h
  · obtain ⟨columns, -, heq⟩ := Except.bind_eq_ok_iff.mp h
    cases heq
    rw [leads_iff]
    have hkey : name ∈ Assoc.keys (columns.map (·.name)).zipIdx := by
      rw [Assoc.keys, List.zipIdx_map_fst]
      exact hname
    obtain ⟨i, hi, hfind⟩ := Assoc.exists_find?_foldl_insert hkey []
    exact ⟨i, hfind, List.mem_zipIdx_iff_getElem?.mp hi⟩
  · cases h

/-! ## The three ways to build a column list -/

/-- What a column list is built from: `AddColumn` calls on an empty list, the vector given to the
constructor, or the string given to `FromString`. -/
inductive Source where
  | addColumns (columns : ColumnList)
  | vector (columns : ColumnList)
  | fromString (str : String)

namespace Source

def build : Source → Except EvalError IndexedColumns
  | .addColumns columns => .ok (columns.foldl addColumn {})
  | .vector columns => .ok (ofColumns columns)
  | .fromString str => IndexedColumns.fromString str

/-- Added columns have to be aligned. -/
def Aligned (source : Source) (name : String) : Prop :=
  match source with
  | .addColumns columns | .vector columns =>
      IndexedColumns.Aligned (columns.map (·.name)) name
  | .fromString _ => True

/-- A name that occurs is looked up as a column of that name exactly where it is aligned; always,
if the list was read from a string. -/
theorem getColumn_getColumnIndex_iff {source : Source} {list : IndexedColumns}
    (h : source.build = .ok list) {name : String} (hname : name ∈ list.names) :
    (∃ column, (list.getColumnIndex name >>= list.getColumn) = .ok column ∧ column.name = name) ↔
      source.Aligned name := by
  rw [exists_getColumn_iff_leads]
  have added : ∀ columns, (ofColumns columns).names = columns.map (·.name) := fun columns => by
    rw [names, columns_ofColumns]
  cases source with
  | addColumns columns =>
      cases h
      rw [Aligned, ← added columns]
      exact (counted_foldl_addColumn columns counted_empty).leads_iff hname
  | vector columns =>
      cases h
      rw [Aligned, ← added columns]
      exact (counted_foldl_addColumn columns counted_empty).leads_iff hname
  | fromString str => exact iff_of_true (leads_of_fromString h hname) trivial

/-- The columns of two aggregates over one group: the second `no_name` is found. -/
theorem getColumn_getColumnIndex_aggregates :
    (Source.addColumns [⟨"t.a", .int, 4⟩, ⟨"no_name", .int, 4⟩, ⟨"no_name", .double, 8⟩]).Aligned
      "no_name" :=
  (getColumn_getColumnIndex_iff rfl (by decide)).mp ⟨⟨"no_name", .double, 8⟩, by decide, rfl⟩

/-- The columns of `GROUP BY a, a` with an aggregate, which is found at the second `a`. -/
theorem getColumn_getColumnIndex_groupTwice :
    ¬ ∀ (source : Source) list, source.build = .ok list → ∀ name ∈ list.names,
      ∃ column, (list.getColumnIndex name >>= list.getColumn) = .ok column ∧
        column.name = name := by
  intro h
  obtain ⟨column, hcolumn, hname⟩ :=
    h (.addColumns [⟨"t.a", .int, 4⟩, ⟨"t.a", .int, 4⟩, ⟨"no_name", .int, 4⟩]) _ rfl "no_name"
      (by decide)
  have hfound : column = ⟨"t.a", .int, 4⟩ := Except.ok.inj hcolumn.symm
  rw [hfound] at hname
  exact absurd hname (by decide)

end Source

end IndexedColumns

end HuaDB
