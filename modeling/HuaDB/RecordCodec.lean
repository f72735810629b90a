import Mathlib.Algebra.Order.Ring.Nat
import Mathlib.Algebra.Order.BigOperators.Group.List
import HuaDB.Lib.BitBytes
import HuaDB.Lib.Tiling
import HuaDB.LogCodec
import HuaDB.Operators

/-!
`common/bitmap.cpp`, the serialisation of `common/value.cpp` and `table/record.cpp`.

All sizes and offsets are `db_size_t`, sums modulo `2 ^ 16`.  `SerializeTo` is the list of
its copies, each an offset from where the record starts and the bytes copied there; where
an offset wraps around, a copy goes over what an earlier one wrote.

`DataRecord.decodes` is the round trip: as long as the bytes written are fewer than
`2 ^ 16`, reading them with a column list of the types of the values gives the values, each
string cut to its length modulo `2 ^ 16`.
-/

namespace HuaDB

/-! ## `Bitmap` -/

structure Bitmap where
  size : Nat
  bits : List UInt8
deriving DecidableEq, Repr

namespace Bitmap

/-- `Bitmap(size)`, and `Resize` of an empty one. -/
def ofSize (size : Nat) : Bitmap where
  size := size % 2 ^ 16
  bits := List.replicate ((size % 2 ^ 16 + 7) / 8) 0

/-- `GetBytes`. -/
def getBytes (bitmap : Bitmap) : Nat := bitmap.bits.length % 2 ^ 16

end Bitmap

/-! ## Values -/

namespace Value

/-- `SerializeTo`: the bytes copied, and the result. -/
def serializeTo : Value → Except EvalError (List UInt8 × Nat)
  | .bool val => .ok (encodeNat 1 val.toNat, 1)
  | .int val => .ok (encodeNat 4 val.toUInt32.toNat, 4)
  | .uint val => .ok (encodeNat 4 val.toNat, 4)
  | .double val => .ok (encodeNat 8 val.bits.toNat, 8)
  | .char str | .varchar str =>
      .ok (encodeNat 2 (str.length % 2 ^ 16) ++ str.take (str.length % 2 ^ 16),
        (str.length % 2 ^ 16 + 2) % 2 ^ 16)
  | .null | .list _ => .error (.db "Unknown value type in SerializeTo")

/-- What a value adds to the size of a record that has no bound. -/
def exactSize : Value → Nat
  | .null | .list _ => 0
  | .bool _ => 1
  | .int _ | .uint _ => 4
  | .double _ => 8
  | .char str | .varchar str => str.length + 2

/-- A string cut to its length modulo `2 ^ 16`. -/
def truncate : Value → Value
  | .char str => .char (str.take (str.length % 2 ^ 16))
  | .varchar str => .varchar (str.take (str.length % 2 ^ 16))
  | value => value

/-- A string as a value of the string type of a column. -/
def castTo (type : ValueType) : Value → Value
  | .char str | .varchar str => if type = .char then .char str else .varchar str
  | value => value

/-- The value is NULL or of the type, where the two string types count as one. -/
def hasType (type : ValueType) (value : Value) : Bool :=
  value.isNull || value.getType = type || (TypeUtil.isString value.getType && TypeUtil.isString type)

end Value

/-- `Value(type, max_size).DeserializeFrom`. A value of fixed size is copied on as many
bytes as the column has; where these are not those of its type, part of it stays unset. -/
def ColumnDefinition.deserializeFrom (column : ColumnDefinition) : Decoder Value :=
  match column.type with
  | .bool => if column.maxSize = 1 then do return .bool ((← readNat 1) ≠ 0) else failure
  | .int =>
      if column.maxSize = 4 then do return .int (UInt32.ofNat (← readNat 4)).toInt32 else failure
  | .uint => if column.maxSize = 4 then do return .uint (UInt32.ofNat (← readNat 4)) else failure
  | .double =>
      if column.maxSize = 8 then do return .double ⟨UInt64.ofNat (← readNat 8)⟩ else failure
  | .char => do
      let size ← readNat 2
      return .char (← takeBytes size)
  | .varchar => do
      let size ← readNat 2
      return .varchar (← takeBytes size)
  | .nullType | .list => failure

/-- A column of a fixed size has the size of its type, as `ColumnDefinition(name, type)` has it. -/
def ColumnDefinition.Sized (column : ColumnDefinition) : Prop :=
  match column.type with
  | .bool => column.maxSize = 1
  | .int | .uint => column.maxSize = 4
  | .double => column.maxSize = 8
  | .char | .varchar => True
  | .nullType | .list => False

/-! ## Records -/

/-- `Record`, with its values. -/
structure DataRecord where
  header : RecordHeader := {}
  nullBitmap : Bitmap
  values : List Value
  size : Nat
deriving Repr

namespace DataRecord

/-- `size_ += value.GetSize()`, and 2 for a string. -/
def addSize (size : Nat) (value : Value) : Nat :=
  if value.isNull then size
  else if TypeUtil.isString value.getType then (size + value.getSize + 2) % 2 ^ 16
  else (size + value.getSize) % 2 ^ 16

/-- `UpdateSize`. -/
def updateSize (nullBitmap : Bitmap) (values : List Value) : Nat :=
  values.foldl addSize ((recordHeaderSize + nullBitmap.getBytes) % 2 ^ 16)

/-- The places of the NULLs, as `Bitmap::Set` gets them. -/
def nullPlaces (values : List Value) : List Nat :=
  (values.zipIdx.filter fun entry => entry.1.isNull).map fun entry => entry.2 % 2 ^ 16

/-- `Record(values)`. -/
def ofValues (values : List Value) : Except EvalError DataRecord :=
  match setBits? (Bitmap.ofSize values.length).bits (nullPlaces values) with
  | none => .error (.db "Index out of range in bitmap Set")
  | some bits =>
      let nullBitmap := { Bitmap.ofSize values.length with bits := bits }
      .ok { nullBitmap, values, size := updateSize nullBitmap values }

/-- `GetSize`. -/
def getSize (record : DataRecord) : Nat := record.size

/-- The loop over the values, from an offset: the copies, and the offset after them. -/
def serializeValues : Nat → List Value → Except EvalError (List (Nat × List UInt8) × Nat)
  | offset, [] => .ok ([], offset)
  | offset, value :: values =>
      if value.isNull then
        serializeValues offset values
      else do
        let (bytes, result) ← value.serializeTo
        let (copies, last) ← serializeValues ((offset + result) % 2 ^ 16) values
        return ((offset, bytes) :: copies, last)

/-- `SerializeTo`: its copies and its result. -/
def serializeTo (record : DataRecord) : Except EvalError (List (Nat × List UInt8) × Nat) := do
  let offset := (recordHeaderSize + record.nullBitmap.getBytes) % 2 ^ 16
  let (copies, last) ← serializeValues offset record.values
  return ((0, record.header.serializeTo) :: (recordHeaderSize, record.nullBitmap.bits) :: copies,
    last)

/-- The number of bytes that copies write. -/
def written (copies : List (Nat × List UInt8)) : Nat := (copies.map fun copy => copy.2.length).sum

/-- The size of a record of some values, without a bound. -/
def exactSize (values : List Value) : Nat :=
  recordHeaderSize + (values.length + 7) / 8 + (values.map Value.exactSize).sum

/-- The loop of `DeserializeFrom` over the columns, from an index. -/
def deserializeValues (bits : List UInt8) : Nat → ColumnList → Decoder (List Value)
  | _, [] => pure []
  | i, column :: columns =>
      if 8 * bits.length ≤ i % 2 ^ 16 then
        failure
      else do
        let value ← if bitAt bits (i % 2 ^ 16) then pure .null else column.deserializeFrom
        let values ← deserializeValues bits (i + 1) columns
        return value :: values

/-- `DeserializeFrom`: the header and the values. -/
def deserializeFrom (columns : ColumnList) : Decoder (RecordHeader × List Value) := do
  let header ← RecordHeader.deserializeFrom
  let bits ← takeBytes (Bitmap.ofSize columns.length).bits.length
  let values ← deserializeValues bits 0 columns
  return (header, values)

end DataRecord

/-! ## Values and their bytes -/

namespace Value

variable {value : Value} {bytes : List UInt8} {result : Nat}

theorem length_take_mod (str : List UInt8) (n : Nat) :
    (str.take (str.length % n)).length = str.length % n := by
  rw [List.length_take]
  exact Nat.min_eq_left (Nat.mod_le _ _)

theorem serializeTo_eq_ok (h : value.serializeTo = .ok (bytes, result)) :
    value.isNull = false ∧ bytes.length = value.truncate.exactSize ∧
      result = bytes.length % 2 ^ 16 := by
  cases value with
  | null | list _ => cases h
  | bool _ | int _ | uint _ | double _ =>
      cases h
      simp [isNull, getType, truncate, exactSize]
  | char str | varchar str =>
      cases h
      rw [truncate, exactSize, length_take_mod, List.length_append, length_encodeNat,
        length_take_mod, Nat.add_comm]
      exact ⟨rfl, rfl, rfl⟩

theorem truncate_of_lt (h : value.exactSize < 2 ^ 16) : value.truncate = value := by
  cases value with
  | char str | varchar str =>
      have hlt : str.length < 2 ^ 16 := by
        rw [exactSize] at h
        omega
      rw [truncate, Nat.mod_eq_of_lt hlt, List.take_length]
  | _ => rfl

theorem exactSize_truncate_le (value : Value) : value.truncate.exactSize ≤ value.exactSize := by
  cases value with
  | char str | varchar str =>
      rw [truncate, exactSize, exactSize, length_take_mod]
      exact Nat.add_le_add_right (Nat.mod_le _ _) 2
  | _ => exact le_refl _

/-- A string that is cut becomes a different one. -/
theorem truncate_eq_iff : value.truncate = value ↔ ∀ str, value = .char str ∨ value = .varchar str →
    str.length < 2 ^ 16 := by
  have hcut : ∀ str : List UInt8, str.take (str.length % 2 ^ 16) = str ↔ str.length < 2 ^ 16 := by
    intro str
    rw [List.take_eq_self_iff]
    omega
  cases value with
  | char str =>
      rw [truncate, char.injEq, hcut]
      simp
  | varchar str =>
      rw [truncate, varchar.injEq, hcut]
      simp
  | _ => simp [truncate]

theorem addSize_of_serializeTo (h : value.serializeTo = .ok (bytes, result)) (size : Nat) :
    DataRecord.addSize size value = (size + result) % 2 ^ 16 := by
  cases value <;> cases h <;>
    simp [DataRecord.addSize, isNull, getType, TypeUtil.isString, getSize] <;> omega

/-- The bytes of a string: its length, modulo `2 ^ 16`, and as many of its bytes. -/
theorem decodes_str (str : List UInt8) {α : Type} (g : List UInt8 → α) :
    Decodes (do
        let size ← readNat 2
        return g (← takeBytes size))
      (encodeNat 2 (str.length % 2 ^ 16) ++ str.take (str.length % 2 ^ 16))
      (g (str.take (str.length % 2 ^ 16))) := by
  have hlength : str.length % 2 ^ 16 < 256 ^ 2 := Nat.mod_lt _ (by decide)
  have hbytes := decodes_takeBytes (str.take (str.length % 2 ^ 16))
  rw [length_take_mod] at hbytes
  exact (decodes_readNat hlength).bind (hbytes.map g)

theorem hasType_eq {type : ValueType} (hstring : TypeUtil.isString type = false)
    (hnull : value.isNull = false) (h : value.hasType type = true) : value.getType = type := by
  simpa [hasType, hnull, hstring] using h

/-- The bytes of a value give the value back, a string cut to what was written. -/
theorem decodes {column : ColumnDefinition} (hsized : column.Sized)
    (htype : value.hasType column.type = true) (h : value.serializeTo = .ok (bytes, result)) :
    Decodes column.deserializeFrom bytes (value.truncate.castTo column.type) := by
  obtain ⟨hnull, -, -⟩ := serializeTo_eq_ok h
  rw [ColumnDefinition.Sized] at hsized
  rw [ColumnDefinition.deserializeFrom]
  generalize column.type = type at hsized htype ⊢
  cases type with
  | nullType | list => exact hsized.elim
  | bool =>
      have hvalue := hasType_eq rfl hnull htype
      cases value <;> cases hvalue
      rename_i val
      cases h
      dsimp only at hsized ⊢
      rw [if_pos hsized]
      have hlt : val.toNat < 256 ^ 1 := by
        cases val <;> decide
      have hval : decide (val.toNat ≠ 0) = val := by
        cases val <;> rfl
      have hdecodes := (decodes_readNat hlt).map fun n => Value.bool (n ≠ 0)
      rw [hval] at hdecodes
      exact hdecodes
  | int =>
      have hvalue := hasType_eq rfl hnull htype
      cases value <;> cases hvalue
      rename_i val
      cases h
      dsimp only at hsized ⊢
      rw [if_pos hsized]
      have hlt : val.toUInt32.toNat < 256 ^ 4 := val.toUInt32.toNat_lt
      have hdecodes := (decodes_readNat hlt).map fun n => Value.int (UInt32.ofNat n).toInt32
      rw [UInt32.ofNat_toNat, Int32.toInt32_toUInt32] at hdecodes
      exact hdecodes
  | uint =>
      have hvalue := hasType_eq rfl hnull htype
      cases value <;> cases hvalue
      rename_i val
      cases h
      dsimp only at hsized ⊢
      rw [if_pos hsized]
      have hlt : val.toNat < 256 ^ 4 := val.toNat_lt
      have hdecodes := (decodes_readNat hlt).map fun n => Value.uint (UInt32.ofNat n)
      rw [UInt32.ofNat_toNat] at hdecodes
      exact hdecodes
  | double =>
      have hvalue := hasType_eq rfl hnull htype
      cases value <;> cases hvalue
      rename_i val
      cases h
      dsimp only at hsized ⊢
      rw [if_pos hsized]
      have hlt : val.bits.toNat < 256 ^ 8 := val.bits.toNat_lt
      have hdecodes := (decodes_readNat hlt).map fun n => Value.double ⟨UInt64.ofNat n⟩
      rw [UInt64.ofNat_toNat] at hdecodes
      exact hdecodes
  | char =>
      cases value with
      | char str | varchar str =>
          cases h
          exact decodes_str str Value.char
      | _ => simp [hasType, isNull, getType, TypeUtil.isString] at htype hnull
  | varchar =>
      cases value with
      | char str | varchar str =>
          cases h
          exact decodes_str str Value.varchar
      | _ => simp [hasType, isNull, getType, TypeUtil.isString] at htype hnull

end Value

/-! ## Records and their bytes -/

namespace DataRecord

/-- What reading gives for a value that was written. -/
def readBack (column : ColumnDefinition) (value : Value) : Value :=
  value.truncate.castTo column.type

/-- The column can be read, and the value is of its type. -/
def Matches (column : ColumnDefinition) (value : Value) : Prop :=
  column.Sized ∧ value.hasType column.type = true

section

variable {values : List Value} {offset last : Nat} {copies : List (Nat × List UInt8)}
  {record : DataRecord}

theorem serializeValues_cons {value : Value} (hnull : value.isNull = false)
    (h : serializeValues offset (value :: values) = .ok (copies, last)) :
    ∃ bytes result rest, value.serializeTo = .ok (bytes, result) ∧
      serializeValues ((offset + result) % 2 ^ 16) values = .ok (rest, last) ∧
      copies = (offset, bytes) :: rest := by
  rw [serializeValues, hnull] at h
  obtain ⟨⟨bytes, result⟩, hvalue, h⟩ := Except.bind_eq_ok_iff.mp h
  obtain ⟨⟨rest, last'⟩, hrest, h⟩ := Except.bind_eq_ok_iff.mp h
  cases h
  exact ⟨bytes, result, rest, hvalue, hrest, rfl⟩

theorem serializeValues_cons_of_null {value : Value} (hnull : value.isNull = true) :
    serializeValues offset (value :: values) = serializeValues offset values := by
  rw [serializeValues, hnull]
  rfl

theorem eq_null_of_isNull {value : Value} (h : value.isNull = true) :
    value = .null := by
  cases value <;> simp_all [Value.isNull, Value.getType]

theorem written_cons (offset : Nat) (bytes : List UInt8) (copies : List (Nat × List UInt8)) :
    written ((offset, bytes) :: copies) = bytes.length + written copies := by
  rw [written, written, List.map_cons, List.sum_cons]

/-- The copies write what the values have to write, and the offset after them is the one
that `UpdateSize` computes. -/
theorem serializeValues_eq_ok (h : serializeValues offset values = .ok (copies, last)) :
    last = values.foldl addSize offset ∧
      written copies = (values.map fun value => value.truncate.exactSize).sum ∧
      (offset < 2 ^ 16 → last = (offset + written copies) % 2 ^ 16) := by
  induction values generalizing offset copies with
  | nil =>
      cases h
      exact ⟨rfl, rfl, fun hlt => (Nat.mod_eq_of_lt hlt).symm⟩
  | cons value values ih =>
      cases hnull : value.isNull with
      | true =>
          rw [serializeValues_cons_of_null hnull] at h
          obtain ⟨hlast, hwritten, hmod⟩ := ih h
          refine ⟨?_, ?_, hmod⟩
          · rw [List.foldl_cons, addSize, hnull]
            exact hlast
          · rw [List.map_cons, List.sum_cons, eq_null_of_isNull hnull, hwritten]
            exact (Nat.zero_add _).symm
      | false =>
          obtain ⟨bytes, result, rest, hvalue, hrest, rfl⟩ := serializeValues_cons hnull h
          obtain ⟨hlast, hwritten, hmod⟩ := ih hrest
          obtain ⟨-, hbytes, hresult⟩ := Value.serializeTo_eq_ok hvalue
          refine ⟨?_, ?_, ?_⟩
          · rw [List.foldl_cons, Value.addSize_of_serializeTo hvalue]
            exact hlast
          · rw [written_cons, List.map_cons, List.sum_cons, hwritten, hbytes]
          · intro _
            have hlt := hmod (Nat.mod_lt _ (by decide))
            rw [hlt, written_cons, hresult]
            omega

/-- Values can be written unless one of them is a list. -/
theorem exists_serializeValues_of_ne_list (h : ∀ value ∈ values, value.getType ≠ .list)
    (offset : Nat) : ∃ copies last, serializeValues offset values = .ok (copies, last) := by
  induction values generalizing offset with
  | nil => exact ⟨[], offset, rfl⟩
  | cons value values ih =>
      obtain ⟨hhead, htail⟩ := List.forall_mem_cons.mp h
      cases hnull : value.isNull with
      | true =>
          rw [serializeValues_cons_of_null hnull]
          exact ih htail offset
      | false =>
          have hvalue : ∃ bytes result, value.serializeTo = .ok (bytes, result) := by
            cases value with
            | null => cases hnull
            | list _ => exact absurd rfl hhead
            | _ => exact ⟨_, _, rfl⟩
          obtain ⟨bytes, result, hvalue⟩ := hvalue
          obtain ⟨copies, last, hrest⟩ := ih htail ((offset + result) % 2 ^ 16)
          refine ⟨(offset, bytes) :: copies, last, ?_⟩
          rw [serializeValues, hnull, hvalue]
          change (serializeValues ((offset + result) % 2 ^ 16) values >>= _) = _
          rw [hrest]
          rfl

/-- As long as no offset wraps around, the copies lie one after the other. -/
theorem serializeValues_tiles (h : serializeValues offset values = .ok (copies, last))
    (hlt : offset + written copies < 2 ^ 16) :
    Tiles Prod.fst (fun copy => copy.2.length) offset copies (offset + written copies) := by
  induction values generalizing offset copies with
  | nil =>
      cases h
      rfl
  | cons value values ih =>
      cases hnull : value.isNull with
      | true =>
          rw [serializeValues_cons_of_null hnull] at h
          exact ih h hlt
      | false =>
          obtain ⟨bytes, result, rest, hvalue, hrest, rfl⟩ := serializeValues_cons hnull h
          obtain ⟨-, -, hresult⟩ := Value.serializeTo_eq_ok hvalue
          rw [written_cons] at hlt ⊢
          have hnext : (offset + result) % 2 ^ 16 = offset + bytes.length := by
            rw [hresult]
            omega
          rw [hnext] at hrest
          have htiles := ih hrest (by omega)
          refine ⟨rfl, ?_⟩
          rw [← Nat.add_assoc]
          exact htiles

/-- The values read are those written. -/
theorem decodes_deserializeValues {columns : ColumnList} {bits : List UInt8} {i : Nat}
    (hmatches : List.Forall₂ (fun column value => value.isNull = true ∨ Matches column value)
      columns values)
    (hinside : ∀ j < values.length, (i + j) % 2 ^ 16 < 8 * bits.length)
    (hbits : ∀ (j : Nat) (hj : j < values.length),
      bitAt bits ((i + j) % 2 ^ 16) = values[j].isNull)
    (h : serializeValues offset values = .ok (copies, last)) :
    Decodes (deserializeValues bits i columns) (copies.flatMap Prod.snd)
      (List.zipWith readBack columns values) := by
  induction hmatches generalizing i offset copies with
  | nil =>
      cases h
      exact .pure []
  | @cons column value columns values hmatch _ ih =>
      have hhead : i % 2 ^ 16 < 8 * bits.length := hinside 0 (Nat.succ_pos _)
      have hbit : bitAt bits (i % 2 ^ 16) = value.isNull := hbits 0 (Nat.succ_pos _)
      have hinsideTail : ∀ j < values.length, (i + 1 + j) % 2 ^ 16 < 8 * bits.length := by
        intro j hj
        have hshift := hinside (j + 1) (Nat.succ_lt_succ hj)
        rwa [Nat.add_assoc, Nat.add_comm 1 j]
      have htail : ∀ (j : Nat) (hj : j < values.length),
          bitAt bits ((i + 1 + j) % 2 ^ 16) = values[j].isNull := by
        intro j hj
        have hshift := hbits (j + 1) (Nat.succ_lt_succ hj)
        rwa [Nat.add_assoc, Nat.add_comm 1 j]
      rw [deserializeValues, if_neg (Nat.not_le.mpr hhead), hbit, List.zipWith_cons_cons]
      cases hnull : value.isNull with
      | true =>
          rw [serializeValues_cons_of_null hnull] at h
          have hrest := ih hinsideTail htail h
          have hvalue : readBack column value = .null := by
            rw [eq_null_of_isNull hnull]
            rfl
          rw [hvalue]
          exact (Decodes.pure Value.null).bind (hrest.map (Value.null :: ·))
      | false =>
          obtain ⟨bytes, result, rest, hvalue, hrest, rfl⟩ := serializeValues_cons hnull h
          have hdecodes := ih hinsideTail htail hrest
          have hmatch' : Matches column value := hmatch.resolve_left (by rw [hnull]; decide)
          rw [List.flatMap_cons]
          exact (Value.decodes hmatch'.1 hmatch'.2 hvalue).bind (hdecodes.map (_ :: ·))

/-! ### The null bitmap -/

theorem mem_nullPlaces {values : List Value} {place : Nat} :
    place ∈ nullPlaces values ↔
      ∃ (j : Nat) (hj : j < values.length), values[j].isNull = true ∧ j % 2 ^ 16 = place := by
  simp only [nullPlaces, List.mem_map, List.mem_filter, Prod.exists, List.mem_zipIdx_iff_getElem?]
  constructor
  · rintro ⟨value, j, ⟨hvalue, hnull⟩, rfl⟩
    obtain ⟨hj, rfl⟩ := List.getElem?_eq_some_iff.mp hvalue
    exact ⟨j, hj, hnull, rfl⟩
  · rintro ⟨j, hj, hnull, rfl⟩
    exact ⟨values[j], j, ⟨List.getElem?_eq_getElem hj, hnull⟩, rfl⟩

/-- A record as its constructor makes it. -/
structure OfValues (values : List Value) (record : DataRecord) : Prop where
  values_eq : record.values = values
  size_eq : record.size = updateSize record.nullBitmap values
  length_bits : record.nullBitmap.bits.length = (values.length % 2 ^ 16 + 7) / 8
  bitAt_bits : ∀ i, bitAt record.nullBitmap.bits i = decide (i ∈ nullPlaces values)
  places_lt : ∀ i ∈ nullPlaces values, i < 8 * record.nullBitmap.bits.length

theorem ofValues_eq_ok (h : ofValues values = .ok record) : OfValues values record := by
  rw [ofValues] at h
  split at h
  · cases h
  · rename_i bits hbits
    cases h
    have hlength : bits.length = (values.length % 2 ^ 16 + 7) / 8 := by
      rw [length_of_setBits? hbits]
      exact List.length_replicate
    refine ⟨rfl, rfl, hlength, ?_, ?_⟩
    · intro i
      have hbit := bitAt_setBits? (j := i) hbits
      rw [hbit, Bitmap.ofSize, bitAt_replicate, Bool.false_or]
    · change ∀ i ∈ nullPlaces values, i < 8 * bits.length
      rw [length_of_setBits? hbits]
      exact exists_setBits?_eq_some_iff.mp ⟨bits, hbits⟩

theorem ofValues_header (h : ofValues values = .ok record) : record.header = {} := by
  rw [ofValues] at h
  split at h
  · cases h
  · cases h
    rfl

/-- A record can be made where the bitmap has a bit for each number of a value. -/
theorem exists_ofValues_of_inside
    (h : ∀ i < values.length, i % 2 ^ 16 < 8 * ((values.length % 2 ^ 16 + 7) / 8)) :
    ∃ record, ofValues values = .ok record := by
  have hplaces : ∀ i ∈ nullPlaces values, i < 8 * (Bitmap.ofSize values.length).bits.length := by
    intro i hi
    obtain ⟨j, hj, -, rfl⟩ := mem_nullPlaces.mp hi
    rw [Bitmap.ofSize, List.length_replicate]
    exact h j hj
  obtain ⟨bits, hbits⟩ := exists_setBits?_eq_some_iff.mpr hplaces
  rw [ofValues, hbits]
  exact ⟨_, rfl⟩

/-- A record of fewer than `2 ^ 16` values can be made. -/
theorem exists_ofValues_eq_ok (h : values.length < 2 ^ 16) :
    ∃ record, ofValues values = .ok record :=
  exists_ofValues_of_inside fun i hi => by omega

theorem OfValues.bitAt_eq_isNull (hr : OfValues values record) (h : values.length ≤ 2 ^ 16)
    {j : Nat} (hj : j < values.length) :
    bitAt record.nullBitmap.bits j = values[j].isNull := by
  rw [hr.bitAt_bits, Bool.eq_iff_iff, decide_eq_true_eq, mem_nullPlaces]
  constructor
  · rintro ⟨k, hk, hnull, hmod⟩
    have heq : k = j := by
      rw [Nat.mod_eq_of_lt (by omega)] at hmod
      exact hmod
    subst heq
    exact hnull
  · intro hnull
    exact ⟨j, hj, hnull, Nat.mod_eq_of_lt (by omega)⟩

theorem OfValues.length_bits_le (hr : OfValues values record) :
    record.nullBitmap.bits.length ≤ 2 ^ 13 := by
  rw [hr.length_bits]
  omega

/-! ### The whole record -/

/-- The bytes that a record's copies write when none goes over another. -/
def payload (copies : List (Nat × List UInt8)) : List UInt8 := copies.flatMap Prod.snd

theorem length_payload (copies : List (Nat × List UInt8)) :
    (payload copies).length = written copies := by
  rw [payload, List.length_flatMap, written]

theorem serializeTo_eq_ok (h : record.serializeTo = .ok (copies, last)) :
    ∃ rest, serializeValues ((recordHeaderSize + record.nullBitmap.getBytes) % 2 ^ 16)
        record.values = .ok (rest, last) ∧
      copies = (0, record.header.serializeTo) :: (recordHeaderSize, record.nullBitmap.bits) ::
        rest := by
  rw [serializeTo] at h
  obtain ⟨⟨rest, last'⟩, hrest, h⟩ := Except.bind_eq_ok_iff.mp h
  cases h
  exact ⟨rest, hrest, rfl⟩

/-- What is written: the header, the bitmap and the values, strings cut. -/
theorem written_eq (h : record.serializeTo = .ok (copies, last)) :
    written copies = recordHeaderSize + record.nullBitmap.bits.length +
      (record.values.map fun value => value.truncate.exactSize).sum := by
  obtain ⟨rest, hrest, rfl⟩ := serializeTo_eq_ok h
  have hwritten := (serializeValues_eq_ok hrest).2.1
  rw [written] at hwritten ⊢
  rw [List.map_cons, List.map_cons, List.sum_cons, List.sum_cons, hwritten,
    RecordHeader.length_serializeTo, Nat.add_assoc]

/-- After `UpdateSize`, `GetSize` is the number of bytes written, modulo `2 ^ 16`, and what
`SerializeTo` returns. -/
theorem getSize_eq_of_serializeTo (hsize : record.size = updateSize record.nullBitmap record.values)
    (hle : record.nullBitmap.bits.length ≤ 2 ^ 13) (h : record.serializeTo = .ok (copies, last)) :
    record.getSize = written copies % 2 ^ 16 ∧ last = record.getSize := by
  have hwritten := written_eq h
  obtain ⟨rest, hrest, rfl⟩ := serializeTo_eq_ok h
  obtain ⟨hlast, hvalues, hmod⟩ := serializeValues_eq_ok hrest
  have hgetSize : record.getSize = last := by
    rw [getSize, hsize, updateSize, hlast]
  refine ⟨?_, hgetSize.symm⟩
  rw [hgetSize, hmod (Nat.mod_lt _ (by decide)), hwritten, hvalues, Bitmap.getBytes]
  omega

theorem OfValues.getSize_eq (hr : OfValues values record)
    (h : record.serializeTo = .ok (copies, last)) :
    record.getSize = written copies % 2 ^ 16 ∧ last = record.getSize :=
  getSize_eq_of_serializeTo (hr.values_eq ▸ hr.size_eq) hr.length_bits_le h

/-- The values begin right after the bitmap. -/
theorem valuesOffset_eq (hle : record.nullBitmap.bits.length ≤ 2 ^ 13) :
    (recordHeaderSize + record.nullBitmap.getBytes) % 2 ^ 16 =
      recordHeaderSize + record.nullBitmap.bits.length := by
  rw [Bitmap.getBytes, recordHeaderSize]
  omega

theorem serializeTo_tiles (hle : record.nullBitmap.bits.length ≤ 2 ^ 13)
    (h : record.serializeTo = .ok (copies, last)) (hlt : written copies < 2 ^ 16) :
    Tiles Prod.fst (fun copy => copy.2.length) 0 copies (written copies) := by
  have hwritten := written_eq h
  obtain ⟨rest, hrest, rfl⟩ := serializeTo_eq_ok h
  have hvalues := (serializeValues_eq_ok hrest).2.1
  rw [valuesOffset_eq hle] at hrest
  have htiles := serializeValues_tiles hrest (by omega)
  rw [hwritten, ← hvalues]
  refine ⟨rfl, ?_, ?_⟩
  · dsimp only
    rw [RecordHeader.length_serializeTo, Nat.zero_add]
  · dsimp only
    rw [RecordHeader.length_serializeTo, Nat.zero_add]
    exact htiles

/-- The bytes of a record give back its header and its values, strings cut. -/
theorem OfValues.decodes (hr : OfValues values record) (hlength : values.length < 2 ^ 16)
    {columns : ColumnList} (hmatches : List.Forall₂ Matches columns values)
    (hheader : record.header.Fits) (h : record.serializeTo = .ok (copies, last)) :
    Decodes (deserializeFrom columns) (payload copies)
      (record.header, List.zipWith readBack columns values) := by
  obtain ⟨rest, hrest, rfl⟩ := serializeTo_eq_ok h
  rw [hr.values_eq] at hrest
  have hcolumns : (Bitmap.ofSize columns.length).bits.length = record.nullBitmap.bits.length := by
    rw [hr.length_bits, hmatches.length_eq, Bitmap.ofSize, List.length_replicate]
  have hmod : ∀ j < values.length, (0 + j) % 2 ^ 16 = j := fun j hj => by omega
  have hbits : ∀ (j : Nat) (hj : j < values.length),
      bitAt record.nullBitmap.bits ((0 + j) % 2 ^ 16) = values[j].isNull := by
    intro j hj
    rw [hmod j hj]
    exact hr.bitAt_eq_isNull (by omega) hj
  have hinside : ∀ j < values.length, (0 + j) % 2 ^ 16 < 8 * record.nullBitmap.bits.length := by
    intro j hj
    rw [hmod j hj, hr.length_bits]
    omega
  have hvalues := decodes_deserializeValues (hmatches.imp fun _ _ h => .inr h) hinside hbits hrest
  rw [deserializeFrom, hcolumns, payload, List.flatMap_cons, List.flatMap_cons]
  refine (RecordHeader.decodes hheader).bind ?_
  exact (decodes_takeBytes record.nullBitmap.bits).bind (hvalues.map (record.header, ·))

/-! ### The exact size -/

theorem one_le_of_serializeValues (h : serializeValues offset values = .ok (copies, last)) :
    ∀ value ∈ values, value.isNull = false → 1 ≤ value.truncate.exactSize := by
  induction values generalizing offset copies with
  | nil =>
      intro value hvalue
      cases hvalue
  | cons value values ih =>
      rw [List.forall_mem_cons]
      cases hnull : value.isNull with
      | true =>
          rw [serializeValues_cons_of_null hnull] at h
          exact ⟨fun hfalse => (by cases hfalse), ih h⟩
      | false =>
          obtain ⟨bytes, result, rest, hvalue, hrest, rfl⟩ := serializeValues_cons hnull h
          refine ⟨fun _ => ?_, ih hrest⟩
          cases value <;> cases hvalue <;> simp [Value.truncate, Value.exactSize]

/-- A record of `2 ^ 16` values or more whose size has not wrapped around is too large: all
NULLs among the first `2 ^ 16` values lie inside the bitmap, and the others take a byte. -/
theorem OfValues.length_lt (hr : OfValues values record)
    (h : record.serializeTo = .ok (copies, last)) (hle : written copies ≤ maxRecordSize) :
    values.length < 2 ^ 16 := by
  by_contra hge
  have hwritten := written_eq h
  obtain ⟨rest, hrest, -⟩ := serializeTo_eq_ok h
  have hone := one_le_of_serializeValues hrest
  rw [hr.values_eq] at hwritten hone
  have hbits := hr.length_bits_le
  -- the values past the bitmap
  let tail := (values.take (2 ^ 16)).drop (8 * record.nullBitmap.bits.length)
  have htail : ∀ n ∈ tail.map fun value => value.truncate.exactSize, 1 ≤ n := by
    intro n hn
    obtain ⟨value, hvalue, rfl⟩ := List.mem_map.mp hn
    obtain ⟨k, hk, rfl⟩ := List.mem_iff_getElem.mp hvalue
    have hk' : 8 * record.nullBitmap.bits.length + k < 2 ^ 16 := by
      rw [List.length_drop, List.length_take] at hk
      omega
    rw [List.getElem_drop, List.getElem_take]
    apply hone _ (List.getElem_mem _)
    rw [Bool.eq_false_iff]
    intro hnull
    have hplace := hr.places_lt _ (mem_nullPlaces.mpr ⟨_, by omega, hnull, rfl⟩)
    rw [Nat.mod_eq_of_lt hk'] at hplace
    omega
  have hlength : tail.length = 2 ^ 16 - 8 * record.nullBitmap.bits.length := by
    rw [List.length_drop, List.length_take]
    omega
  have hsum := List.length_le_sum_of_one_le _ htail
  rw [List.length_map, hlength] at hsum
  have hsub : (tail.map fun value => value.truncate.exactSize).sum ≤
      (values.map fun value => value.truncate.exactSize).sum := by
    have hsublist : (tail.map fun value => value.truncate.exactSize).Sublist
        (values.map fun value => value.truncate.exactSize) :=
      ((List.drop_sublist _ _).trans (List.take_sublist _ _)).map _
    exact hsublist.sum_le_sum fun n _ => Nat.zero_le n
  rw [recordHeaderSize] at hwritten
  rw [maxRecordSize] at hle
  omega

/-- As long as the exact size stays below `2 ^ 16`, no string is cut. -/
theorem truncate_of_exactSize_lt (h : exactSize values < 2 ^ 16) :
    ∀ value ∈ values, value.truncate = value := by
  intro value hvalue
  apply Value.truncate_of_lt
  have hle : value.exactSize ≤ (values.map Value.exactSize).sum :=
    List.single_le_sum (fun n _ => Nat.zero_le n) _ (List.mem_map_of_mem hvalue)
  rw [exactSize] at h
  omega

/-- With the bytes that its bits need, a record writes at most its exact size. -/
theorem written_le_exactSize
    (hbits : record.nullBitmap.bits.length ≤ (record.values.length + 7) / 8)
    (h : record.serializeTo = .ok (copies, last)) : written copies ≤ exactSize record.values := by
  have hsum : (record.values.map fun value => value.truncate.exactSize).sum ≤
      (record.values.map Value.exactSize).sum :=
    List.sum_le_sum fun value _ => value.exactSize_truncate_le
  rw [written_eq h, exactSize]
  omega

theorem OfValues.written_le_exactSize (hr : OfValues values record)
    (h : record.serializeTo = .ok (copies, last)) : written copies ≤ exactSize values := by
  have hbits := hr.length_bits
  rw [← hr.values_eq] at hbits ⊢
  exact DataRecord.written_le_exactSize (by omega) h

/-- As long as the exact size stays below `2 ^ 16`, `GetSize` is the number of bytes written. -/
theorem OfValues.getSize_eq_written (hr : OfValues values record)
    (h : record.serializeTo = .ok (copies, last)) (hexact : exactSize values < 2 ^ 16) :
    record.getSize = written copies := by
  rw [(hr.getSize_eq h).1]
  exact Nat.mod_eq_of_lt (Nat.lt_of_le_of_lt (hr.written_le_exactSize h) hexact)

/-- No string is cut, and the size is the number of bytes written, exactly if the size
without a bound stays below `2 ^ 16`. -/
theorem OfValues.exact_iff (hr : OfValues values record)
    (h : record.serializeTo = .ok (copies, last)) (haccept : record.getSize ≤ maxRecordSize) :
    (written copies = record.getSize ∧ ∀ value ∈ values, value.truncate = value) ↔
      exactSize values < 2 ^ 16 := by
  constructor
  · rintro ⟨heq, hfull⟩
    have hwritten := written_eq h
    rw [hr.values_eq] at hwritten
    have hlt := hr.length_lt h (heq ▸ haccept)
    have hbits := hr.length_bits
    rw [Nat.mod_eq_of_lt hlt] at hbits
    have hmap : (values.map fun value => value.truncate.exactSize) = values.map Value.exactSize :=
      List.map_congr_left fun value hvalue => by rw [hfull value hvalue]
    rw [hmap] at hwritten
    have hmod : written copies < 2 ^ 16 := by
      rw [heq, (hr.getSize_eq h).1]
      exact Nat.mod_lt _ (by decide)
    rw [exactSize]
    omega
  · intro hexact
    exact ⟨(hr.getSize_eq_written h hexact).symm, truncate_of_exactSize_lt hexact⟩

/-! ### Copies inside a bound -/

theorem serializeValues_written_le {bound : Nat}
    (h : serializeValues offset values = .ok (copies, last)) (hbound : bound < 2 ^ 16)
    (hoffset : offset ≤ bound) (hinside : ∀ copy ∈ copies, copy.1 + copy.2.length ≤ bound) :
    offset + written copies ≤ bound := by
  induction values generalizing offset copies with
  | nil =>
      cases h
      exact hoffset
  | cons value values ih =>
      cases hnull : value.isNull with
      | true =>
          rw [serializeValues_cons_of_null hnull] at h
          exact ih h hoffset hinside
      | false =>
          obtain ⟨bytes, result, rest, hvalue, hrest, rfl⟩ := serializeValues_cons hnull h
          obtain ⟨-, -, hresult⟩ := Value.serializeTo_eq_ok hvalue
          obtain ⟨hfirst, hinside⟩ := List.forall_mem_cons.mp hinside
          dsimp only at hfirst
          have hnext : (offset + result) % 2 ^ 16 = offset + bytes.length := by
            rw [hresult]
            omega
          rw [hnext] at hrest
          rw [written_cons, ← Nat.add_assoc]
          exact ih hrest hfirst hinside

/-- Where every copy stays inside a bound, so many bytes are written at most: the first copy
that went past it would not have. -/
theorem written_le_of_inside {bound : Nat} (h : record.serializeTo = .ok (copies, last))
    (hbits : record.nullBitmap.bits.length ≤ 2 ^ 13) (hbound : bound < 2 ^ 16)
    (hinside : ∀ copy ∈ copies, copy.1 + copy.2.length ≤ bound) : written copies ≤ bound := by
  have hwritten := written_eq h
  obtain ⟨rest, hrest, rfl⟩ := serializeTo_eq_ok h
  have hvalues := (serializeValues_eq_ok hrest).2.1
  simp only [List.forall_mem_cons] at hinside
  obtain ⟨-, hbitmap, hinside⟩ := hinside
  rw [valuesOffset_eq hbits] at hrest
  rw [hwritten, ← hvalues]
  exact serializeValues_written_le hrest hbound hbitmap hinside

/-! ### The full values -/

/-- The values of a record as its columns have them: strings of the string type of the
column. -/
def inColumns (columns : ColumnList) (values : List Value) : List Value :=
  List.zipWith (fun column value => value.castTo column.type) columns values

theorem readBack_eq_iff {column : ColumnDefinition} {value : Value} :
    readBack column value = value.castTo column.type ↔ value.truncate = value := by
  rw [readBack]
  cases value with
  | char str | varchar str =>
      rw [Value.truncate, Value.castTo, Value.castTo]
      split <;> simp
  | _ => simp [Value.truncate]

/-- What is read is the full values exactly if no string is cut. -/
theorem zipWith_readBack_eq_iff {columns : ColumnList} (h : List.Forall₂ Matches columns values) :
    List.zipWith readBack columns values = inColumns columns values ↔
      ∀ value ∈ values, value.truncate = value := by
  induction h with
  | nil => exact ⟨fun _ value hvalue => (by cases hvalue), fun _ => rfl⟩
  | cons _ _ ih =>
      rw [inColumns, List.zipWith_cons_cons, List.zipWith_cons_cons, List.cons.injEq,
        readBack_eq_iff, List.forall_mem_cons]
      exact and_congr_right fun _ => ih

/-! ### The transaction of a record -/

/-- A record with the transaction that inserts it. -/
def stamp (record : DataRecord) (xid cid : Nat) : DataRecord :=
  { record with header := { record.header with cid := cid, xmin := xid } }

/-- The header of a record has no part in its size. -/
theorem exists_serializeTo_of_eq (h : record.serializeTo = .ok (copies, last))
    (record' : DataRecord) (hbitmap : record'.nullBitmap = record.nullBitmap)
    (hvalues : record'.values = record.values) :
    ∃ copies', record'.serializeTo = .ok (copies', last) ∧ written copies' = written copies := by
  have hwritten := written_eq h
  obtain ⟨rest, hrest, -⟩ := serializeTo_eq_ok h
  rw [← hbitmap, ← hvalues] at hrest
  have hother : record'.serializeTo = .ok ((0, record'.header.serializeTo) ::
      (recordHeaderSize, record'.nullBitmap.bits) :: rest, last) :=
    Except.bind_eq_ok_iff.mpr ⟨(rest, last), hrest, rfl⟩
  refine ⟨_, hother, ?_⟩
  rw [written_eq hother, hwritten, hbitmap, hvalues]

theorem exists_serializeTo_stamp (h : record.serializeTo = .ok (copies, last)) (xid cid : Nat) :
    ∃ copies', (stamp record xid cid).serializeTo = .ok (copies', last) ∧
      written copies' = written copies :=
  exists_serializeTo_of_eq h (stamp record xid cid) rfl rfl

theorem OfValues.stamp (hr : OfValues values record) (xid cid : Nat) :
    OfValues values (record.stamp xid cid) :=
  ⟨hr.values_eq, hr.size_eq, hr.length_bits, hr.bitAt_bits, hr.places_lt⟩

end

end DataRecord

end HuaDB
