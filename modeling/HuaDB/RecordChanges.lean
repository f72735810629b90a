import HuaDB.RecordRoundTrip

/-!
`Record::Append` and `Record::SetValue`, which keep the null bitmap and the size up to date.

`Append` makes room for the bits of the new values. The last byte of a bitmap can have bits past
the values, which a page may have had set, so it writes every new bit. `Mirrors` says what the
bitmap and the size are for the values; every record that is built, read and changed keeps it as
long as its values can be counted with 16 bits (`Reached.mirrors`).
-/

namespace HuaDB

namespace Bitmap

variable {bitmap bitmap' : Bitmap} {i index : Nat}

/-- `Resize`: bytes that stay keep their bits. -/
def resize (bitmap : Bitmap) (size : Nat) : Bitmap where
  size := size % 2 ^ 16
  bits :=
    let bytes := (size % 2 ^ 16 + 7) / 8
    bitmap.bits.take bytes ++ List.replicate (bytes - bitmap.bits.length) 0

/-- `Set`. -/
def set (bitmap : Bitmap) (index : Nat) : Except EvalError Bitmap :=
  match setBit? bitmap.bits (index % 2 ^ 16) with
  | some bits => .ok { bitmap with bits := bits }
  | none => .error (.db "Index out of range in bitmap Set")

/-- `Clear`. -/
def clear (bitmap : Bitmap) (index : Nat) : Except EvalError Bitmap :=
  match clearBit? bitmap.bits (index % 2 ^ 16) with
  | some bits => .ok { bitmap with bits := bits }
  | none => .error (.db "Index out of range in bitmap Clear")

/-- `Set` for NULL and `Clear` for every other value. -/
def put (bitmap : Bitmap) (index : Nat) (value : Value) : Except EvalError Bitmap :=
  if value.isNull then bitmap.set index else bitmap.clear index

theorem length_bits_resize (bitmap : Bitmap) (size : Nat) :
    (bitmap.resize size).bits.length = (size % 2 ^ 16 + 7) / 8 := by
  simp only [resize, List.length_append, List.length_take, List.length_replicate]
  omega

/-- A bitmap that grows keeps its bits. -/
theorem bitAt_resize {size : Nat} (hgrow : bitmap.bits.length ≤ (size % 2 ^ 16 + 7) / 8)
    (hi : i < 8 * bitmap.bits.length) :
    bitAt (bitmap.resize size).bits i = bitAt bitmap.bits i := by
  simp only [resize]
  rw [List.take_of_length_le hgrow]
  exact bitAt_append_left hi

/-- What `put` leaves: one bit says whether the value is NULL, the others are as before. -/
theorem put_eq_ok {value : Value} (hindex : index < 2 ^ 16)
    (h : bitmap.put index value = .ok bitmap') :
    bitmap'.size = bitmap.size ∧ bitmap'.bits.length = bitmap.bits.length ∧
      bitAt bitmap'.bits index = value.isNull ∧
      ∀ i, i ≠ index → bitAt bitmap'.bits i = bitAt bitmap.bits i := by
  rw [put] at h
  cases hnull : value.isNull with
  | true =>
      rw [hnull, if_pos rfl, set, Nat.mod_eq_of_lt hindex] at h
      split at h
      · rename_i bits hbits
        cases h
        refine ⟨rfl, length_of_setBit? hbits, ?_, fun i hne => ?_⟩
        · rw [bitAt_setBit? hbits, decide_eq_true rfl, Bool.or_true]
        · rw [bitAt_setBit? hbits, decide_eq_false (Ne.symm hne), Bool.or_false]
      · cases h
  | false =>
      rw [hnull, if_neg Bool.false_ne_true, clear, Nat.mod_eq_of_lt hindex] at h
      split at h
      · rename_i bits hbits
        cases h
        refine ⟨rfl, length_of_clearBit? hbits, ?_, fun i hne => ?_⟩
        · rw [bitAt_clearBit? hbits, decide_eq_false (fun hne => hne rfl), Bool.and_false]
        · rw [bitAt_clearBit? hbits, decide_eq_true (Ne.symm hne), Bool.and_true]
      · cases h

theorem exists_put_eq_ok (bitmap : Bitmap) (value : Value) (hindex : index < 2 ^ 16)
    (hinside : index < 8 * bitmap.bits.length) :
    ∃ bitmap', bitmap.put index value = .ok bitmap' := by
  rw [put, set, clear, Nat.mod_eq_of_lt hindex, setBit?, clearBit?, if_pos hinside, if_pos hinside]
  split <;> exact ⟨_, rfl⟩

end Bitmap

namespace DataRecord

/-- The loop of `Append`: the bit at the number of values so far, then the value. -/
def appendValues (nullBitmap : Bitmap) (values : List Value) :
    List Value → Except EvalError (Bitmap × List Value)
  | [] => .ok (nullBitmap, values)
  | value :: rest => do
      let nullBitmap ← nullBitmap.put values.length value
      appendValues nullBitmap (values ++ [value]) rest

/-- `Append` of another record. -/
def append (record other : DataRecord) : Except EvalError DataRecord := do
  let (nullBitmap, values) ← appendValues
    (record.nullBitmap.resize (record.nullBitmap.size + other.values.length)) record.values
    other.values
  return { record with nullBitmap, values, size := updateSize nullBitmap values }

/-- `SetValue`, which does not look whether there is a value. -/
def setValue (record : DataRecord) (colIdx : Nat) (value : Value) : Except EvalError DataRecord :=
  if colIdx < record.values.length then do
    let values := record.values.set colIdx value
    let nullBitmap ← record.nullBitmap.put colIdx value
    return { record with nullBitmap, values, size := updateSize nullBitmap values }
  else
    .error .undefined

/-! ## The invariant -/

/-- The first bits say which of the values are NULL. -/
def Marks (bits : List UInt8) (values : List Value) : Prop :=
  ∀ (i : Nat) (hi : i < values.length), bitAt bits i = values[i].isNull

/-- The null bitmap and the size of a record belong to its values. -/
structure Mirrors (record : DataRecord) : Prop where
  size_bitmap : record.nullBitmap.size = record.values.length
  length_bits : record.nullBitmap.bits.length = (record.values.length + 7) / 8
  marks : Marks record.nullBitmap.bits record.values
  size_eq : record.size = updateSize record.nullBitmap record.values

section

variable {record record' other : DataRecord} {values values' rest : List Value} {bitmap bitmap' : Bitmap}

theorem Mirrors.ofValues (h : ofValues values = .ok record) (hlength : values.length < 2 ^ 16) :
    record.Mirrors := by
  have built := ofValues_eq_ok h
  have hsize : record.nullBitmap.size = values.length := by
    rw [DataRecord.ofValues] at h
    split at h
    · cases h
    · cases h
      exact Nat.mod_eq_of_lt hlength
  have hbits := built.length_bits
  rw [Nat.mod_eq_of_lt hlength] at hbits
  refine ⟨built.values_eq ▸ hsize, built.values_eq ▸ hbits, ?_, built.values_eq ▸ built.size_eq⟩
  rw [Marks, built.values_eq]
  exact fun i hi => built.bitAt_eq_isNull (Nat.le_of_lt hlength) hi

/-! ### Reading -/

/-- A record that is read has the bitmap of its values, whatever the bits past them. -/
theorem Mirrors.ofBuffer {columns : ColumnList} {data : List UInt8} {last : Nat}
    (h : deserializeFromBuffer columns data = some (record, last))
    (hlength : record.values.length < 2 ^ 16) : record.Mirrors := by
  obtain ⟨⟨header, s⟩, -, h⟩ := Option.bind_eq_some_iff.mp h
  obtain ⟨⟨bits, s'⟩, hbits, h⟩ := Option.bind_eq_some_iff.mp h
  obtain ⟨⟨values, last'⟩, hvalues, h⟩ := Option.bind_eq_some_iff.mp h
  cases h
  obtain ⟨hle, rfl, -⟩ := takeBytes_eq_some hbits
  obtain ⟨hsized, hmarks⟩ := of_readValues hvalues
  have hcount := hsized.length_eq
  change values.length < 2 ^ 16 at hlength
  refine ⟨?_, ?_, fun i hi => ?_, rfl⟩
  · simp only [assemble, Bitmap.ofSize]
    rw [hcount, Nat.mod_eq_of_lt hlength]
  · simp only [assemble]
    rw [List.length_take, Nat.min_eq_left hle, Bitmap.getBytes, Bitmap.ofSize,
      List.length_replicate, ← hcount]
    omega
  · have hmark := (hmarks i hi).2
    rwa [Nat.zero_add, Nat.mod_eq_of_lt (Nat.lt_trans hi hlength)] at hmark

/-! ### Appending -/

theorem values_of_appendValues (h : appendValues bitmap values rest = .ok (bitmap', values')) :
    values' = values ++ rest := by
  induction rest generalizing bitmap values with
  | nil =>
      cases h
      exact (List.append_nil _).symm
  | cons value rest ih =>
      obtain ⟨mid, -, h⟩ := Except.bind_eq_ok_iff.mp h
      rw [ih h, List.append_assoc]
      rfl

theorem values_of_append (h : record.append other = .ok record') :
    record'.values = record.values ++ other.values := by
  obtain ⟨⟨nullBitmap, values⟩, happend, h⟩ := Except.bind_eq_ok_iff.mp h
  cases h
  exact values_of_appendValues happend

/-- The loop of `Append` marks the values as it adds them. -/
theorem appendValues_eq_ok (h : appendValues bitmap values rest = .ok (bitmap', values'))
    (hlength : values.length + rest.length < 2 ^ 16) (marks : Marks bitmap.bits values) :
    bitmap'.size = bitmap.size ∧ bitmap'.bits.length = bitmap.bits.length ∧
      Marks bitmap'.bits values' := by
  induction rest generalizing bitmap values with
  | nil =>
      cases h
      exact ⟨rfl, rfl, marks⟩
  | cons value rest ih =>
      obtain ⟨mid, hmid, h⟩ := Except.bind_eq_ok_iff.mp h
      rw [List.length_cons] at hlength
      obtain ⟨hsize, hbits, hself, hothers⟩ := Bitmap.put_eq_ok (by omega) hmid
      have marks' : Marks mid.bits (values ++ [value]) := by
        intro i hi
        rw [List.length_append, List.length_singleton] at hi
        rcases Nat.lt_succ_iff_lt_or_eq.mp hi with hlt | rfl
        · rw [hothers i (Nat.ne_of_lt hlt), List.getElem_append_left hlt]
          exact marks i hlt
        · rw [hself, List.getElem_concat_length rfl]
      have hnext : (values ++ [value]).length + rest.length < 2 ^ 16 := by
        rw [List.length_append, List.length_singleton]
        omega
      obtain ⟨hsize', hbits', hmarks⟩ := ih h hnext marks'
      exact ⟨hsize'.trans hsize, hbits'.trans hbits, hmarks⟩

theorem exists_appendValues_eq_ok (hlength : values.length + rest.length < 2 ^ 16)
    (hroom : values.length + rest.length ≤ 8 * bitmap.bits.length) :
    ∃ bitmap' values', appendValues bitmap values rest = .ok (bitmap', values') := by
  induction rest generalizing bitmap values with
  | nil => exact ⟨bitmap, values, rfl⟩
  | cons value rest ih =>
      rw [List.length_cons] at hlength hroom
      have hindex : values.length < 2 ^ 16 := by omega
      obtain ⟨mid, hmid⟩ := bitmap.exists_put_eq_ok value hindex (by omega)
      have hbits := (Bitmap.put_eq_ok hindex hmid).2.1
      have hnext : (values ++ [value]).length = values.length + 1 := List.length_append
      have hrest : ∃ bitmap' values',
          appendValues mid (values ++ [value]) rest = .ok (bitmap', values') :=
        ih (by omega) (by omega)
      obtain ⟨bitmap', values', h⟩ := hrest
      exact ⟨bitmap', values', Except.bind_eq_ok_iff.mpr ⟨mid, hmid, h⟩⟩

/-- The bitmap that `Append` starts from. -/
theorem Mirrors.resize (mirrors : record.Mirrors) {count : Nat}
    (hlength : record.values.length + count < 2 ^ 16) :
    let bitmap := record.nullBitmap.resize (record.nullBitmap.size + count)
    bitmap.size = record.values.length + count ∧
      bitmap.bits.length = (record.values.length + count + 7) / 8 ∧
      Marks bitmap.bits record.values := by
  have hmod : (record.nullBitmap.size + count) % 2 ^ 16 = record.values.length + count := by
    rw [mirrors.size_bitmap, Nat.mod_eq_of_lt hlength]
  have hbits := mirrors.length_bits
  refine ⟨hmod, by rw [Bitmap.length_bits_resize, hmod], fun i hi => ?_⟩
  rw [Bitmap.bitAt_resize (by omega) (by omega)]
  exact mirrors.marks i hi

theorem Mirrors.append (mirrors : record.Mirrors)
    (hlength : record.values.length + other.values.length < 2 ^ 16)
    (h : record.append other = .ok record') : record'.Mirrors := by
  have hcount : record'.values.length = record.values.length + other.values.length := by
    rw [values_of_append h, List.length_append]
  obtain ⟨⟨nullBitmap, values⟩, happend, h⟩ := Except.bind_eq_ok_iff.mp h
  cases h
  obtain ⟨hsize, hbits, hmarks⟩ := mirrors.resize hlength
  obtain ⟨hsize', hbits', hmarks'⟩ := appendValues_eq_ok happend hlength hmarks
  refine ⟨?_, ?_, hmarks', rfl⟩
  · exact (hsize'.trans hsize).trans hcount.symm
  · rw [hcount]
    exact hbits'.trans hbits

theorem Mirrors.exists_append (mirrors : record.Mirrors)
    (hlength : record.values.length + other.values.length < 2 ^ 16) :
    ∃ record', record.append other = .ok record' := by
  obtain ⟨-, hbits, -⟩ := mirrors.resize hlength
  have hroom : record.values.length + other.values.length ≤ 8 *
      (record.nullBitmap.resize (record.nullBitmap.size + other.values.length)).bits.length := by
    omega
  obtain ⟨nullBitmap, values, happend⟩ := exists_appendValues_eq_ok hlength hroom
  exact ⟨_, Except.bind_eq_ok_iff.mpr ⟨_, happend, rfl⟩⟩

/-! ### Setting a value -/

theorem values_of_setValue {colIdx : Nat} {value : Value}
    (h : record.setValue colIdx value = .ok record') :
    record'.values = record.values.set colIdx value := by
  rw [DataRecord.setValue] at h
  split at h
  · obtain ⟨nullBitmap, -, h⟩ := Except.bind_eq_ok_iff.mp h
    cases h
    rfl
  · cases h

theorem Mirrors.setValue (mirrors : record.Mirrors) {colIdx : Nat} {value : Value}
    (hlength : record.values.length < 2 ^ 16) (h : record.setValue colIdx value = .ok record') :
    record'.Mirrors := by
  rw [DataRecord.setValue] at h
  split at h
  · rename_i hcol
    obtain ⟨nullBitmap, hput, h⟩ := Except.bind_eq_ok_iff.mp h
    cases h
    obtain ⟨hsize, hbits, hself, hothers⟩ := Bitmap.put_eq_ok (Nat.lt_trans hcol hlength) hput
    refine ⟨?_, ?_, fun i hi => ?_, rfl⟩
    · change nullBitmap.size = (record.values.set colIdx value).length
      rw [hsize, mirrors.size_bitmap, List.length_set]
    · change nullBitmap.bits.length = ((record.values.set colIdx value).length + 7) / 8
      rw [hbits, mirrors.length_bits, List.length_set]
    · change i < (record.values.set colIdx value).length at hi
      change bitAt nullBitmap.bits i = (record.values.set colIdx value)[i].isNull
      rw [List.getElem_set]
      split
      · rename_i heq
        exact heq ▸ hself
      · rename_i hne
        rw [hothers i (Ne.symm hne)]
        exact mirrors.marks i _
  · cases h

theorem Mirrors.exists_setValue (mirrors : record.Mirrors) {colIdx : Nat} (value : Value)
    (hlength : record.values.length < 2 ^ 16) (hcol : colIdx < record.values.length) :
    ∃ record', record.setValue colIdx value = .ok record' := by
  have hbits := mirrors.length_bits
  obtain ⟨nullBitmap, hput⟩ :=
    record.nullBitmap.exists_put_eq_ok value (Nat.lt_trans hcol hlength) (by omega)
  rw [DataRecord.setValue, if_pos hcol]
  exact ⟨_, Except.bind_eq_ok_iff.mpr ⟨nullBitmap, hput, rfl⟩⟩

/-! ### Writing -/

/-- As long as the exact size stays below `2 ^ 16`, the copies of a record lie one after the
other and are `GetSize` bytes together, which is also what `SerializeTo` returns. -/
theorem Mirrors.written_eq_getSize (mirrors : record.Mirrors)
    (hlength : record.values.length < 2 ^ 16) (hexact : exactSize record.values < 2 ^ 16)
    {copies : List (Nat × List UInt8)} {last : Nat}
    (h : record.serializeTo = .ok (copies, last)) :
    last = record.getSize ∧ written copies = record.getSize ∧
      Tiles Prod.fst (fun copy => copy.2.length) 0 copies record.getSize := by
  have hbits := mirrors.length_bits
  have hle : record.nullBitmap.bits.length ≤ 2 ^ 13 := by omega
  have hwritten := written_le_exactSize (Nat.le_of_eq hbits) h
  have hlt := Nat.lt_of_le_of_lt hwritten hexact
  obtain ⟨hsize, hlast⟩ := getSize_eq_of_serializeTo mirrors.size_eq hle h
  rw [Nat.mod_eq_of_lt hlt] at hsize
  refine ⟨hlast, hsize.symm, ?_⟩
  rw [hsize]
  exact serializeTo_tiles hle h hlt

theorem exists_serializeTo_eq_ok (h : ∀ value ∈ record.values, value.getType ≠ .list) :
    ∃ copies last, record.serializeTo = .ok (copies, last) := by
  obtain ⟨copies, last, hvalues⟩ := exists_serializeValues_of_ne_list h
    ((recordHeaderSize + record.nullBitmap.getBytes) % 2 ^ 16)
  exact ⟨_, _, Except.bind_eq_ok_iff.mpr ⟨_, hvalues, rfl⟩⟩

end

/-! ## Records that are built and changed -/

/-- The records that come about from a value vector or from the bytes of a page by `Append` and
`SetValue`. -/
inductive Reached : DataRecord → Prop
  | values {values : List Value} {record : DataRecord} (h : ofValues values = .ok record) :
      Reached record
  | page {columns : ColumnList} {data : List UInt8} {record : DataRecord} {last : Nat}
      (h : deserializeFromBuffer columns data = some (record, last)) : Reached record
  | append {record record' other : DataRecord} (reached : Reached record)
      (h : record.append other = .ok record') : Reached record'
  | setValue {record record' : DataRecord} {colIdx : Nat} {value : Value}
      (reached : Reached record) (h : record.setValue colIdx value = .ok record') :
      Reached record'

theorem Reached.mirrors {record : DataRecord} (reached : Reached record)
    (hlength : record.values.length < 2 ^ 16) : record.Mirrors := by
  induction reached with
  | values h => exact .ofValues h ((ofValues_eq_ok h).values_eq ▸ hlength)
  | page h => exact .ofBuffer h hlength
  | append _ h ih =>
      rw [values_of_append h, List.length_append] at hlength
      exact (ih (by omega)).append hlength h
  | setValue _ h ih =>
      rw [values_of_setValue h, List.length_set] at hlength
      exact (ih hlength).setValue hlength h

/-- Of every record that is built from values or read from a page and then changed, with fewer
than `2 ^ 16` values: the bits of the bitmap say which values are NULL, it has the bytes that
they need, `GetSize` is the number of bytes written as long as the exact size has 16 bits, and
the next change succeeds. -/
theorem mirrors_of_reached {record : DataRecord} (reached : Reached record)
    (hlength : record.values.length < 2 ^ 16) :
    (∀ (i : Nat) (hi : i < record.values.length),
      bitAt record.nullBitmap.bits i = record.values[i].isNull) ∧
    record.nullBitmap.bits.length = (record.values.length + 7) / 8 ∧
    (exactSize record.values < 2 ^ 16 → ∀ copies last, record.serializeTo = .ok (copies, last) →
      last = record.getSize ∧ written copies = record.getSize ∧
        Tiles Prod.fst (fun copy => copy.2.length) 0 copies record.getSize) ∧
    ((∀ value ∈ record.values, value.getType ≠ .list) →
      ∃ copies last, record.serializeTo = .ok (copies, last)) ∧
    (∀ other : DataRecord, record.values.length + other.values.length < 2 ^ 16 →
      ∃ record', record.append other = .ok record') ∧
    ∀ colIdx value, colIdx < record.values.length →
      ∃ record', record.setValue colIdx value = .ok record' := by
  have mirrors := reached.mirrors hlength
  refine ⟨mirrors.marks, mirrors.length_bits, ?_, exists_serializeTo_eq_ok, ?_, ?_⟩
  · exact fun hexact copies last h => mirrors.written_eq_getSize hlength hexact h
  · exact fun other hother => mirrors.exists_append hother
  · exact fun colIdx value hcol => mirrors.exists_setValue value hlength hcol

/-- Eight numbers and a NULL that is appended: its bit is the first of the second byte. -/
theorem mirrors_of_reached_ninth :
    ∃ record, Reached record ∧ record.nullBitmap.bits.length = 2 ∧
      bitAt record.nullBitmap.bits 8 = true := by
  have made : ofValues (List.replicate 8 (.int 5)) = .ok (assemble {} 8 [0]
      (List.replicate 8 (.int 5))) := rfl
  have appended : (assemble {} 8 [0] (List.replicate 8 (.int 5))).append
      (assemble {} 1 [1] [.null]) = .ok (assemble {} 9 [0, 1] (List.replicate 8 (.int 5) ++ [.null])) :=
    rfl
  have reached := (Reached.values made).append appended
  have h := mirrors_of_reached reached (by decide)
  exact ⟨_, reached, h.2.1, h.1 8 (by decide)⟩

end DataRecord

end HuaDB
