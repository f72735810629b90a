import HuaDB.RecordCodec

/-!
`Record::DeserializeFrom` on a buffer, with the offset that it computes, and the round trip.

A bitmap counts its bits with 16 bits, and so do the indices of `Set` and `Test`. Of `2 ^ 16`
columns or more, those whose numbers are equal modulo `2 ^ 16` share a bit, or have none.
`roundTrips_iff` says for which columns and values this, and the sizes of the columns, do no
harm: for every record of fewer than `2 ^ 16` columns that have the sizes of their types.
-/

namespace HuaDB

/-- The result of `Value::DeserializeFrom`. -/
def ColumnDefinition.bytesRead (column : ColumnDefinition) : Value → Nat
  | .char str | .varchar str => (str.length + 2) % 2 ^ 16
  | _ => column.maxSize

namespace DataRecord

/-- The loop of `DeserializeFrom` over the columns, from an index and an offset of the buffer:
the values, and the offset after them. -/
def readValues (data : List UInt8) (bits : List UInt8) :
    Nat → Nat → ColumnList → Option (List Value × Nat)
  | _, offset, [] => some ([], offset)
  | i, offset, column :: columns =>
      if 8 * bits.length ≤ i % 2 ^ 16 then
        none
      else if bitAt bits (i % 2 ^ 16) then do
        let (values, last) ← readValues data bits (i + 1) offset columns
        return (.null :: values, last)
      else do
        let (value, _) ← column.deserializeFrom (data.drop offset)
        let (values, last) ← readValues data bits (i + 1)
          ((offset + column.bytesRead value) % 2 ^ 16) columns
        return (value :: values, last)

/-- The record of a header, the bits of a bitmap and values, after `UpdateSize`. -/
def assemble (header : RecordHeader) (count : Nat) (bits : List UInt8) (values : List Value) :
    DataRecord :=
  let nullBitmap := { Bitmap.ofSize count with bits := bits }
  { header, nullBitmap, values, size := updateSize nullBitmap values }

/-- `DeserializeFrom`: the record and the result. -/
def deserializeFromBuffer (columns : ColumnList) (data : List UInt8) :
    Option (DataRecord × Nat) := do
  let (header, _) ← RecordHeader.deserializeFrom data
  let bytes := (Bitmap.ofSize columns.length).getBytes
  let (bits, _) ← takeBytes bytes (data.drop recordHeaderSize)
  let (values, last) ← readValues data bits 0 ((recordHeaderSize + bytes) % 2 ^ 16) columns
  return (assemble header columns.length bits values, last)

end DataRecord

/-! ## What a value takes from the buffer -/

theorem ColumnDefinition.deserializeFrom_eq_some {column : ColumnDefinition} {s rest : List UInt8}
    {value : Value} (h : column.deserializeFrom s = some (value, rest)) :
    column.Sized ∧ value.isNull = false ∧ ∃ count, count ≤ s.length ∧ rest = s.drop count ∧
      column.bytesRead value = count % 2 ^ 16 := by
  have hfixed : ∀ {α : Type} {w : Nat} {g : Nat → α} {a : α},
      (do return g (← readNat w) : Decoder α) s = some (a, rest) →
        w ≤ s.length ∧ rest = s.drop w ∧ ∃ n, a = g n := by
    intro α w g a h
    obtain ⟨n, s', hread, hpure⟩ := Decoder.bind_eq_some_iff.mp h
    cases hpure
    obtain ⟨hle, hrest⟩ := readNat_eq_some hread
    exact ⟨hle, hrest, n, rfl⟩
  have hstring : ∀ {α : Type} {g : List UInt8 → α} {a : α},
      (do let size ← readNat 2; return g (← takeBytes size) : Decoder α) s = some (a, rest) →
        ∃ str : List UInt8, a = g str ∧ str.length + 2 ≤ s.length ∧
          rest = s.drop (str.length + 2) := by
    intro α g a h
    obtain ⟨size, s', hread, h⟩ := Decoder.bind_eq_some_iff.mp h
    obtain ⟨str, s'', htake, hpure⟩ := Decoder.bind_eq_some_iff.mp h
    cases hpure
    obtain ⟨hle, rfl⟩ := readNat_eq_some hread
    obtain ⟨hsize, rfl, rfl⟩ := takeBytes_eq_some htake
    rw [List.length_drop] at hsize
    refine ⟨_, rfl, ?_, ?_⟩
    · rw [List.length_take, List.length_drop]
      omega
    · rw [List.drop_drop, List.length_take, List.length_drop, Nat.min_eq_left hsize, Nat.add_comm]
  rw [ColumnDefinition.deserializeFrom] at h
  rw [ColumnDefinition.Sized]
  cases htype : column.type with
  | nullType | list =>
      rw [htype] at h
      cases h
  | bool | int | uint | double =>
      rw [htype] at h
      dsimp only at h ⊢
      split at h
      · rename_i hsize
        obtain ⟨hle, hrest, n, rfl⟩ := hfixed h
        exact ⟨hsize, rfl, _, hle, hrest, hsize⟩
      · cases h
  | char | varchar =>
      rw [htype] at h
      obtain ⟨str, rfl, hle, hrest⟩ := hstring h
      exact ⟨trivial, rfl, _, hle, hrest, rfl⟩

namespace DataRecord

section

variable {values : List Value} {columns : ColumnList} {bits data rest : List UInt8}
  {i offset last : Nat}

/-- Reading at an offset is reading on, as long as no offset wraps around. -/
theorem readValues_of_deserializeValues (hle : offset ≤ data.length)
    (hlt : data.length - rest.length < 2 ^ 16)
    (h : deserializeValues bits i columns (data.drop offset) = some (values, rest)) :
    offset + rest.length ≤ data.length ∧
      readValues data bits i offset columns = some (values, data.length - rest.length) := by
  induction columns generalizing i offset values with
  | nil =>
      cases h
      rw [readValues, List.length_drop]
      refine ⟨by omega, ?_⟩
      rw [Nat.sub_sub_self hle]
  | cons column columns ih =>
      rw [deserializeValues] at h
      rw [readValues]
      split at h
      · cases h
      · rename_i hinside
        rw [if_neg hinside]
        dsimp only at h
        cases hbit : bitAt bits (i % 2 ^ 16) with
        | true =>
            rw [hbit, if_pos rfl] at h
            obtain ⟨value, s', hvalue, h⟩ := Decoder.bind_eq_some_iff.mp h
            obtain ⟨values', s'', hvalues, h⟩ := Decoder.bind_eq_some_iff.mp h
            cases h
            cases hvalue
            obtain ⟨hend, hread⟩ := ih hle hvalues
            refine ⟨hend, ?_⟩
            rw [if_pos rfl, hread]
            rfl
        | false =>
            rw [hbit, if_neg (by decide)] at h
            obtain ⟨value, s', hvalue, h⟩ := Decoder.bind_eq_some_iff.mp h
            obtain ⟨values', s'', hvalues, h⟩ := Decoder.bind_eq_some_iff.mp h
            cases h
            obtain ⟨-, -, count, hcount, rfl, hbytes⟩ := column.deserializeFrom_eq_some hvalue
            rw [List.length_drop] at hcount
            rw [List.drop_drop] at hvalues
            obtain ⟨hend, hread⟩ := ih (by omega) hvalues
            refine ⟨by omega, ?_⟩
            have hnext : (offset + column.bytesRead value) % 2 ^ 16 = offset + count := by
              rw [hbytes]
              omega
            rw [if_neg (by decide), hvalue]
            change (readValues data bits (i + 1) ((offset + column.bytesRead value) % 2 ^ 16)
              columns >>= _) = _
            rw [hnext, hread]
            rfl

/-- Of columns that are read, every one has its bit, which says whether the value is NULL, and
those not NULL have the sizes of their types. -/
theorem of_readValues (h : readValues data bits i offset columns = some (values, last)) :
    List.Forall₂ (fun column value => value.isNull = true ∨ column.Sized) columns values ∧
      ∀ (j : Nat) (hj : j < values.length), (i + j) % 2 ^ 16 < 8 * bits.length ∧
        bitAt bits ((i + j) % 2 ^ 16) = values[j].isNull := by
  induction columns generalizing i offset values last with
  | nil =>
      cases h
      exact ⟨.nil, fun j hj => absurd hj (Nat.not_lt_zero j)⟩
  | cons column columns ih =>
      rw [readValues] at h
      split at h
      · cases h
      · rename_i hinside
        -- what holds of the first column and of those after it
        have hall : ∀ {value : Value} {values' : List Value},
            bitAt bits (i % 2 ^ 16) = value.isNull →
            (∀ (j : Nat) (hj : j < values'.length), (i + 1 + j) % 2 ^ 16 < 8 * bits.length ∧
              bitAt bits ((i + 1 + j) % 2 ^ 16) = values'[j].isNull) →
            ∀ (j : Nat) (hj : j < (value :: values').length), (i + j) % 2 ^ 16 < 8 * bits.length ∧
              bitAt bits ((i + j) % 2 ^ 16) = (value :: values')[j].isNull := by
          intro value values' hvalue hvalues j hj
          cases j with
          | zero => exact ⟨Nat.lt_of_not_le hinside, hvalue⟩
          | succ j =>
              have hrest := hvalues j (Nat.lt_of_succ_lt_succ hj)
              rwa [Nat.add_assoc, Nat.add_comm 1 j] at hrest
        split at h
        · rename_i hbit
          obtain ⟨⟨values', last'⟩, hread, h⟩ := Option.bind_eq_some_iff.mp h
          cases h
          obtain ⟨hsized, hvalues⟩ := ih hread
          exact ⟨.cons (.inl rfl) hsized, hall hbit hvalues⟩
        · rename_i hbit
          obtain ⟨⟨value, s'⟩, hvalue, h⟩ := Option.bind_eq_some_iff.mp h
          obtain ⟨⟨values', last'⟩, hread, h⟩ := Option.bind_eq_some_iff.mp h
          cases h
          obtain ⟨hsized, hvalues⟩ := ih hread
          obtain ⟨hcolumn, hnull, -⟩ := column.deserializeFrom_eq_some hvalue
          exact ⟨.cons (.inr hcolumn) hsized,
            hall ((Bool.eq_false_iff.mpr hbit).trans hnull.symm) hvalues⟩

/-! ## The round trip -/

/-- `SerializeTo` ends, and on every buffer that starts with what it wrote `DeserializeFrom`
gives the record again; the result of both is `GetSize`. -/
def RoundTrips (columns : ColumnList) (record : DataRecord) : Prop :=
  ∃ copies, record.serializeTo = .ok (copies, record.getSize) ∧
    ∀ rest, deserializeFromBuffer columns (payload copies ++ rest) = some (record, record.getSize)

/-- Every value is NULL or of the type of its column. -/
def Typed (columns : ColumnList) (values : List Value) : Prop :=
  List.Forall₂ (fun column value => value.isNull = true ∨ value.getType = column.type) columns values

/-- The columns not NULL have the sizes of their types, the bitmap has a bit for each column
number, and of two columns with one bit both are NULL or none is. -/
structure Readable (columns : ColumnList) (values : List Value) : Prop where
  sized : List.Forall₂ (fun column value => value.isNull = true ∨ column.Sized) columns values
  inside : ∀ i < values.length, i % 2 ^ 16 < 8 * ((values.length % 2 ^ 16 + 7) / 8)
  alike : ∀ (i j : Nat) (hi : i < values.length) (hj : j < values.length),
    i % 2 ^ 16 = j % 2 ^ 16 → values[i].isNull = values[j].isNull

/-- Fewer than `2 ^ 16` columns have each a bit of its own. -/
theorem readable_of_length_lt (hlength : values.length < 2 ^ 16)
    (hsized : List.Forall₂ (fun column value => value.isNull = true ∨ column.Sized)
      columns values) : Readable columns values where
  sized := hsized
  inside i hi := by omega
  alike i j hi hj hmod := by
    have heq : i = j := by omega
    subst heq
    rfl

/-- The bit of each column says whether its value is NULL. -/
theorem Readable.bitAt_eq {record : DataRecord} (h : Readable columns values)
    (built : OfValues values record) (j : Nat) (hj : j < values.length) :
    bitAt record.nullBitmap.bits (j % 2 ^ 16) = values[j].isNull := by
  rw [built.bitAt_bits, Bool.eq_iff_iff, decide_eq_true_eq, mem_nullPlaces]
  constructor
  · rintro ⟨k, hk, hnull, hmod⟩
    rw [← h.alike k j hk hj hmod]
    exact hnull
  · intro hnull
    exact ⟨j, hj, hnull, rfl⟩

theorem readBack_eq_self {column : ColumnDefinition} {value : Value}
    (htruncate : value.truncate = value)
    (htype : value.isNull = true ∨ value.getType = column.type) :
    readBack column value = value := by
  rw [readBack, htruncate]
  rcases htype with hnull | htype
  · rw [eq_null_of_isNull hnull]
    rfl
  · rw [← htype]
    cases value <;> rfl

theorem zipWith_readBack_eq_self (htypes : Typed columns values)
    (htruncate : ∀ value ∈ values, value.truncate = value) :
    List.zipWith readBack columns values = values := by
  induction htypes with
  | nil => rfl
  | cons htype _ ih =>
      rw [List.forall_mem_cons] at htruncate
      rw [List.zipWith_cons_cons, ih htruncate.2, readBack_eq_self htruncate.1 htype]

/-- Values of columns that can be read can be written. -/
theorem exists_serializeValues (htypes : Typed columns values)
    (hsized : List.Forall₂ (fun column value => value.isNull = true ∨ column.Sized)
      columns values) (offset : Nat) :
    ∃ copies last, serializeValues offset values = .ok (copies, last) := by
  refine exists_serializeValues_of_ne_list ?_ offset
  induction htypes with
  | nil => exact fun value hvalue => nomatch hvalue
  | @cons column value columns values htype _ ih =>
      obtain ⟨hcolumn, hcolumns⟩ := List.forall₂_cons.mp hsized
      refine List.forall_mem_cons.mpr ⟨fun hlist => ?_, ih hcolumns⟩
      have hnull : ¬ value.isNull = true := by simp [Value.isNull, hlist]
      have hsize := hcolumn.resolve_left hnull
      rw [ColumnDefinition.Sized, ← htype.resolve_left hnull, hlist] at hsize
      exact hsize

theorem ofValues_withHeader {made : DataRecord} (h : ofValues values = .ok made)
    (header : RecordHeader) :
    { made with header := header } = assemble header values.length made.nullBitmap.bits values := by
  rw [ofValues] at h
  split at h
  · cases h
  · cases h
    rfl

theorem forall₂_matches (htypes : Typed columns values)
    (hsized : List.Forall₂ (fun column value => value.isNull = true ∨ column.Sized)
      columns values) :
    List.Forall₂ (fun column value => value.isNull = true ∨ Matches column value)
      columns values := by
  induction htypes with
  | nil => exact .nil
  | cons htype _ ih =>
      obtain ⟨hcolumn, hcolumns⟩ := List.forall₂_cons.mp hsized
      refine .cons ?_ (ih hcolumns)
      rcases hcolumn with hnull | hcolumn
      · exact .inl hnull
      · rcases htype with hnull | htype
        · exact .inl hnull
        · exact .inr ⟨hcolumn, by simp [Value.hasType, htype]⟩

/-- What `DeserializeFrom` reads from the buffer that a record was written to. -/
theorem deserializeFromBuffer_payload {record : DataRecord} {copies : List (Nat × List UInt8)}
    (hfits : record.header.Fits) (hlength : columns.length = values.length)
    (built : OfValues values record) (h : record.serializeTo = .ok (copies, last))
    (rest : List UInt8) :
    deserializeFromBuffer columns (payload copies ++ rest) =
      (readValues (payload copies ++ rest) record.nullBitmap.bits 0
        (recordHeaderSize + record.nullBitmap.bits.length) columns).map fun result =>
          (assemble record.header columns.length record.nullBitmap.bits result.1, result.2) := by
  obtain ⟨valueCopies, -, rfl⟩ := serializeTo_eq_ok h
  have hpayload : payload ((0, record.header.serializeTo) ::
      (recordHeaderSize, record.nullBitmap.bits) :: valueCopies) =
        record.header.serializeTo ++ (record.nullBitmap.bits ++ payload valueCopies) := rfl
  rw [hpayload, List.append_assoc, List.append_assoc]
  generalize payload valueCopies ++ rest = after
  have hbytes : (Bitmap.ofSize columns.length).getBytes = record.nullBitmap.bits.length := by
    rw [Bitmap.getBytes, Bitmap.ofSize, List.length_replicate, hlength, built.length_bits]
    omega
  have hheader := RecordHeader.decodes hfits (record.nullBitmap.bits ++ after)
  have hdrop : (record.header.serializeTo ++ (record.nullBitmap.bits ++ after)).drop
      recordHeaderSize = record.nullBitmap.bits ++ after := by
    rw [← RecordHeader.length_serializeTo record.header, List.drop_left]
  have hoffset : (recordHeaderSize + record.nullBitmap.bits.length) % 2 ^ 16 =
      recordHeaderSize + record.nullBitmap.bits.length := by
    have hbits := built.length_bits_le
    rw [recordHeaderSize]
    omega
  rw [deserializeFromBuffer, hheader]
  change (takeBytes (Bitmap.ofSize columns.length).getBytes (List.drop recordHeaderSize _) >>= _) = _
  rw [hbytes, hdrop, decodes_takeBytes]
  change (readValues _ record.nullBitmap.bits 0 _ columns >>= _) = _
  rw [hoffset, Option.map_eq_bind]
  rfl

/-- A record whose columns can be read round-trips. -/
theorem Readable.roundTrips {record : DataRecord} (h : Readable columns values)
    (htypes : Typed columns values) (hexact : exactSize values < 2 ^ 16)
    (hfits : record.header.Fits) (built : OfValues values record)
    (hrecord : record = assemble record.header values.length record.nullBitmap.bits values) :
    RoundTrips columns record := by
  obtain ⟨valueCopies, last, hvalues⟩ := exists_serializeValues htypes h.sized
    ((recordHeaderSize + record.nullBitmap.getBytes) % 2 ^ 16)
  have hserialize : record.serializeTo = .ok ((0, record.header.serializeTo) ::
      (recordHeaderSize, record.nullBitmap.bits) :: valueCopies, last) := by
    rw [serializeTo, built.values_eq, hvalues]
    rfl
  have hlast := (built.getSize_eq hserialize).2
  have hwritten := built.getSize_eq_written hserialize hexact
  have hlt : record.getSize < 2 ^ 16 := by
    rw [hwritten]
    exact Nat.lt_of_le_of_lt (built.written_le_exactSize hserialize) hexact
  rw [hlast] at hserialize
  refine ⟨_, hserialize, fun rest => ?_⟩
  rw [deserializeFromBuffer_payload hfits htypes.length_eq built hserialize rest]
  -- the values lie one after the other
  have hinside : ∀ j < values.length, (0 + j) % 2 ^ 16 < 8 * record.nullBitmap.bits.length := by
    intro j hj
    rw [Nat.zero_add, built.length_bits]
    exact h.inside j hj
  have hbits : ∀ (j : Nat) (hj : j < values.length),
      bitAt record.nullBitmap.bits ((0 + j) % 2 ^ 16) = values[j].isNull := by
    intro j hj
    rw [Nat.zero_add]
    exact h.bitAt_eq built j hj
  have hdecodes := decodes_deserializeValues (forall₂_matches htypes h.sized) hinside hbits hvalues
    rest
  rw [zipWith_readBack_eq_self htypes (truncate_of_exactSize_lt hexact)] at hdecodes
  generalize hcopies : (0, record.header.serializeTo) ::
    (recordHeaderSize, record.nullBitmap.bits) :: valueCopies = copies at hserialize hwritten ⊢
  have hpayload : payload copies =
      (record.header.serializeTo ++ record.nullBitmap.bits) ++ payload valueCopies := by
    rw [← hcopies, List.append_assoc]
    rfl
  have hlength : (payload copies).length = record.getSize := by
    rw [length_payload, hwritten]
  have hoffset : (record.header.serializeTo ++ record.nullBitmap.bits).length =
      recordHeaderSize + record.nullBitmap.bits.length := by
    rw [List.length_append, RecordHeader.length_serializeTo]
  have hdrop : (payload copies ++ rest).drop (recordHeaderSize + record.nullBitmap.bits.length) =
      payload valueCopies ++ rest := by
    rw [hpayload, List.append_assoc, ← hoffset, List.drop_left]
  have hend : (payload copies ++ rest).length - rest.length = record.getSize := by
    rw [List.length_append, hlength, Nat.add_sub_cancel]
  have hstart : recordHeaderSize + record.nullBitmap.bits.length ≤
      (payload copies ++ rest).length := by
    rw [hpayload, List.append_assoc _ (payload valueCopies), List.length_append, hoffset]
    exact Nat.le_add_right _ _
  obtain ⟨-, hread⟩ := readValues_of_deserializeValues hstart (hend ▸ hlt)
    ((congrArg _ hdrop).trans hdecodes)
  rw [hread, hend, htypes.length_eq, Option.map_some, ← hrecord]

/-- The columns of a record that round-trips can be read. -/
theorem readable_of_roundTrips {record : DataRecord} (htypes : Typed columns values)
    (hfits : record.header.Fits) (built : OfValues values record)
    (h : RoundTrips columns record) : Readable columns values := by
  obtain ⟨copies, hserialize, hread⟩ := h
  have hbuffer := hread []
  rw [deserializeFromBuffer_payload hfits htypes.length_eq built hserialize [],
    Option.map_eq_some_iff] at hbuffer
  obtain ⟨⟨found, last⟩, hvalues, hfound⟩ := hbuffer
  have hsame : found = values := by
    rw [← built.values_eq]
    exact congrArg (fun result => result.1.values) hfound
  rw [hsame] at hvalues
  obtain ⟨hsized, hbits⟩ := of_readValues hvalues
  have hnull : ∀ (i j : Nat) (hi : i < values.length) (hj : j < values.length),
      i % 2 ^ 16 = j % 2 ^ 16 → values[i].isNull = true → values[j].isNull = true := by
    intro i j hi hj hmod hnull
    rw [← (hbits j hj).2, built.bitAt_bits, decide_eq_true_eq, mem_nullPlaces, Nat.zero_add]
    exact ⟨i, hi, hnull, hmod⟩
  refine ⟨hsized, ?_, ?_⟩
  · intro i hi
    have hinside := (hbits i hi).1
    rwa [Nat.zero_add, built.length_bits] at hinside
  · intro i j hi hj hmod
    rw [Bool.eq_iff_iff]
    exact ⟨hnull i j hi hj hmod, hnull j i hj hi hmod.symm⟩

/-- A record round-trips exactly where its columns can be read. -/
theorem roundTrips_iff {made : DataRecord} {header : RecordHeader} (htypes : Typed columns values)
    (hexact : exactSize values < 2 ^ 16) (hmade : ofValues values = .ok made)
    (hfits : header.Fits) :
    RoundTrips columns { made with header := header } ↔ Readable columns values := by
  have hmadeBuilt := ofValues_eq_ok hmade
  have built : OfValues values { made with header := header } :=
    ⟨hmadeBuilt.values_eq, hmadeBuilt.size_eq, hmadeBuilt.length_bits, hmadeBuilt.bitAt_bits,
      hmadeBuilt.places_lt⟩
  constructor
  · exact readable_of_roundTrips htypes hfits built
  · intro hreadable
    exact hreadable.roundTrips htypes hexact hfits built (ofValues_withHeader hmade header)

/-- A row with a number, a NULL and a string. -/
theorem roundTrips_row :
    ∃ made, ofValues [.int 5, .null, .varchar [104, 105]] = .ok made ∧
      RoundTrips [⟨"a", .int, 4⟩, ⟨"b", .double, 8⟩, ⟨"c", .varchar, 20⟩]
        { made with header := { xmin := 7 } } := by
  have htypes : Typed [⟨"a", .int, 4⟩, ⟨"b", .double, 8⟩, ⟨"c", .varchar, 20⟩]
      [.int 5, .null, .varchar [104, 105]] :=
    .cons (.inr rfl) (.cons (.inl rfl) (.cons (.inr rfl) .nil))
  have hreadable : Readable [⟨"a", .int, 4⟩, ⟨"b", .double, 8⟩, ⟨"c", .varchar, 20⟩]
      [.int 5, .null, .varchar [104, 105]] :=
    readable_of_length_lt (by decide)
      (.cons (.inr rfl) (.cons (.inl rfl) (.cons (.inr trivial) .nil)))
  have hfits : RecordHeader.Fits { xmin := 7 } := ⟨by decide, by decide, by decide⟩
  exact ⟨_, rfl, (roundTrips_iff htypes (by decide) rfl hfits).mpr hreadable⟩

theorem typed_replicate {column : ColumnDefinition}
    (h : ∀ value ∈ values, value.isNull = true ∨ value.getType = column.type) :
    Typed (List.replicate values.length column) values := by
  induction values with
  | nil => exact .nil
  | cons value values ih =>
      rw [List.forall_mem_cons] at h
      exact .cons h.1 (ih h.2)

/-- The values of 131071 columns, all NULL but that of column 65536. -/
def wide : List Value :=
  List.replicate 65536 .null ++ .bool true :: List.replicate 65534 .null

/-- Of 131071 columns the last 65535 share their bits with the first: a value that is not NULL is
read as NULL. -/
theorem not_roundTrips_wide :
    ∃ made, ofValues wide = .ok made ∧ exactSize wide < 2 ^ 16 ∧
      Typed (List.replicate 131071 ⟨"a", .bool, 1⟩) wide ∧
      ¬ RoundTrips (List.replicate 131071 ⟨"a", .bool, 1⟩) made := by
  have hlength : wide.length = 131071 := by
    rw [wide, List.length_append, List.length_cons, List.length_replicate, List.length_replicate]
  have hexact : exactSize wide < 2 ^ 16 := by
    have hnull : ∀ n, ((List.replicate n Value.null).map Value.exactSize).sum = 0 := by
      intro n
      rw [List.map_replicate, List.sum_replicate]
      exact nsmul_zero n
    rw [exactSize, hlength, wide, List.map_append, List.map_cons, List.sum_append, List.sum_cons,
      hnull, hnull]
    decide
  have htypes : Typed (List.replicate 131071 ⟨"a", .bool, 1⟩) wide := by
    rw [← hlength]
    apply typed_replicate
    intro value hvalue
    rw [wide, List.mem_append, List.mem_cons, List.mem_replicate, List.mem_replicate] at hvalue
    rcases hvalue with ⟨-, rfl⟩ | rfl | ⟨-, rfl⟩
    · exact .inl rfl
    · exact .inr rfl
    · exact .inl rfl
  obtain ⟨made, hmade⟩ : ∃ made, ofValues wide = .ok made := by
    apply exists_ofValues_of_inside
    rw [hlength]
    intro i _
    omega
  have hfits : made.header.Fits := by
    rw [ofValues_header hmade]
    exact ⟨by decide, by decide, by decide⟩
  refine ⟨made, hmade, hexact, htypes, fun hround => ?_⟩
  have hreadable := readable_of_roundTrips htypes hfits (ofValues_eq_ok hmade) hround
  have halike := hreadable.alike 0 65536 (by rw [hlength]; decide) (by rw [hlength]; decide)
    (by decide)
  have hfirst : wide[0]? = some .null := by
    rw [wide, List.getElem?_append_left (by rw [List.length_replicate]; decide),
      List.getElem?_replicate_of_lt (by decide)]
  have hlast : wide[65536]? = some (.bool true) := by
    rw [wide, List.getElem?_append_right (le_of_eq List.length_replicate), List.length_replicate,
      Nat.sub_self, List.getElem?_cons_zero]
  obtain ⟨_, hfirst⟩ := List.getElem?_eq_some_iff.mp hfirst
  obtain ⟨_, hlast⟩ := List.getElem?_eq_some_iff.mp hlast
  rw [hfirst, hlast] at halike
  cases halike

end

end DataRecord

end HuaDB
