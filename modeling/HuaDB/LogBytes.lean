import HuaDB.LogCodec

/-!
Log records with the types that the source gives to their fields: machine words, the raw bytes
of an inserted record, and the two maps of a checkpoint.

`size_` has 32 bits, and only the maps of an `EndCheckpointLog` can be too large for it. Every
other record is as long as `GetSize` says and is read back, wherever it lies in the log
(`RawLogRecord.log_roundTrips_iff`).
-/

namespace HuaDB

/-- An `std::unordered_map`, with its entries in the order of its iteration. -/
structure UnorderedMap (κ υ : Type) [DecidableEq κ] where
  entries : Assoc κ υ
  nodup : entries.keys.Nodup

namespace UnorderedMap

variable {κ υ : Type} [DecidableEq κ]

def size (m : UnorderedMap κ υ) : Nat := m.entries.length

def find? (m : UnorderedMap κ υ) (k : κ) : Option υ := Assoc.find? k m.entries

/-- `m[k] = v`, entry by entry. -/
def ofEntries (l : List (κ × υ)) : UnorderedMap κ υ where
  entries := Assoc.ofEntries l
  nodup := Assoc.nodup_keys_ofEntries l

theorem ofEntries_entries (m : UnorderedMap κ υ) : ofEntries m.entries = m := by
  rcases m with ⟨entries, nodup⟩
  simp only [ofEntries, Assoc.ofEntries_eq_self nodup]

end UnorderedMap

/-- `record_` with `record_size_`. -/
structure RecordBytes where
  bytes : List UInt8
  length_lt : bytes.length < 2 ^ 16

/-- `TablePageid`. -/
structure TablePageidWords where
  tableOid : UInt32
  pageId : UInt32
deriving DecidableEq, Repr

/-- The fields of each record type beyond those of `LogRecord`. -/
inductive RawLogBody where
  | begin
  | commit
  | rollback
  | insert (oid pageId : UInt32) (slotId pageOffset : UInt16) (record : RecordBytes)
  | delete (oid pageId : UInt32) (slotId : UInt16)
  | newPage (oid prevPageId pageId : UInt32)
  | beginCheckpoint
  | endCheckpoint (att : UnorderedMap UInt32 UInt64) (dpt : UnorderedMap TablePageidWords UInt64)

structure RawLogRecord where
  lsn : UInt64
  xid : UInt32
  prevLsn : UInt64
  body : RawLogBody

namespace RawLogBody

def getType : RawLogBody → LogType
  | .begin => .begin
  | .commit => .commit
  | .rollback => .rollback
  | .insert .. => .insert
  | .delete .. => .delete
  | .newPage .. => .newPage
  | .beginCheckpoint => .beginCheckpoint
  | .endCheckpoint .. => .endCheckpoint

/-- What a record type adds to `size_`. -/
def extraSize : RawLogBody → Nat
  | .begin | .commit | .rollback | .beginCheckpoint => 0
  | .insert _ _ _ _ record => 4 + 4 + 2 + 2 + 2 + record.bytes.length
  | .delete .. => 4 + 4 + 2
  | .newPage .. => 4 + 4 + 4
  | .endCheckpoint att dpt => 8 + att.size * (4 + 8) + 8 + dpt.size * (8 + 8)

def serializeAtt (e : UInt32 × UInt64) : List UInt8 := encodeU32 e.1 ++ encodeU64 e.2

def serializeDpt (e : TablePageidWords × UInt64) : List UInt8 :=
  encodeU32 e.1.tableOid ++ (encodeU32 e.1.pageId ++ encodeU64 e.2)

/-- What each record type writes after the fields of `LogRecord`. -/
def serializeTo : RawLogBody → List UInt8
  | .begin | .commit | .rollback | .beginCheckpoint => []
  | .insert oid pageId slotId pageOffset record =>
      encodeU32 oid ++ (encodeU32 pageId ++ (encodeU16 slotId ++ (encodeU16 pageOffset ++
        (encodeNat 2 record.bytes.length ++ record.bytes))))
  | .delete oid pageId slotId => encodeU32 oid ++ (encodeU32 pageId ++ encodeU16 slotId)
  | .newPage oid prevPageId pageId =>
      encodeU32 oid ++ (encodeU32 prevPageId ++ encodeU32 pageId)
  | .endCheckpoint att dpt =>
      encodeNat 8 att.size ++ (att.entries.flatMap serializeAtt ++
        (encodeNat 8 dpt.size ++ dpt.entries.flatMap serializeDpt))

def readAtt : Decoder (UInt32 × UInt64) := do
  let xid ← readU32
  let lsn ← readU64
  return (xid, lsn)

def readDpt : Decoder (TablePageidWords × UInt64) := do
  let tableOid ← readU32
  let pageId ← readU32
  let lsn ← readU64
  return (⟨tableOid, pageId⟩, lsn)

/-- `record_size` bytes, copied into the record. -/
def readRecord : Decoder RecordBytes := do
  let recordSize ← readNat 2
  let bytes ← takeBytes recordSize
  if h : bytes.length < 2 ^ 16 then return ⟨bytes, h⟩ else failure

/-- What each record type reads after the fields of `LogRecord`. -/
def deserializeFrom : LogType → Decoder RawLogBody
  | .begin => pure .begin
  | .commit => pure .commit
  | .rollback => pure .rollback
  | .beginCheckpoint => pure .beginCheckpoint
  | .insert => do
      let oid ← readU32
      let pageId ← readU32
      let slotId ← readU16
      let pageOffset ← readU16
      return .insert oid pageId slotId pageOffset (← readRecord)
  | .delete => do
      let oid ← readU32
      let pageId ← readU32
      return .delete oid pageId (← readU16)
  | .newPage => do
      let oid ← readU32
      let prevPageId ← readU32
      return .newPage oid prevPageId (← readU32)
  | .endCheckpoint => do
      let attSize ← readNat 8
      let att ← readMany readAtt attSize
      let dptSize ← readNat 8
      let dpt ← readMany readDpt dptSize
      return .endCheckpoint (.ofEntries att) (.ofEntries dpt)

end RawLogBody

namespace RawLogRecord

def getType (r : RawLogRecord) : LogType := r.body.getType

/-- `GetSize`: the member `size_` is a `uint32_t`. -/
def getSize (r : RawLogRecord) : Nat := (LogRecord.headerSize + r.body.extraSize) % 2 ^ 32

/-- `SetLSN`. -/
def setLsn (r : RawLogRecord) (lsn : UInt64) : RawLogRecord := { r with lsn := lsn }

/-- `SerializeTo`. -/
def serializeTo (r : RawLogRecord) : List UInt8 :=
  encodeNat 1 r.getType.code ++ (encodeU32 r.xid ++ (encodeU64 r.prevLsn ++ r.body.serializeTo))

/-- `LogRecord::DeserializeFrom`. -/
def decode (lsn : UInt64) : Decoder RawLogRecord := do
  let code ← readNat 1
  match LogType.ofCode? code with
  | none => failure
  | some type =>
      let xid ← readU32
      let prevLsn ← readU64
      return ⟨lsn, xid, prevLsn, ← RawLogBody.deserializeFrom type⟩

end RawLogRecord

/-! ## Sizes -/

theorem RawLogBody.length_serializeTo (body : RawLogBody) :
    body.serializeTo.length = body.extraSize := by
  rcases body with _ | _ | _ | ⟨oid, pageId, slotId, pageOffset, record⟩ | ⟨oid, pageId, slotId⟩ |
    ⟨oid, prevPageId, pageId⟩ | _ | ⟨att, dpt⟩
  case endCheckpoint =>
    have hatt : (att.entries.flatMap serializeAtt).length = att.size * 12 := by
      simp [serializeAtt, UnorderedMap.size]
    have hdpt : (dpt.entries.flatMap serializeDpt).length = dpt.size * 16 := by
      simp [serializeDpt, UnorderedMap.size]
    simp only [serializeTo, extraSize, List.length_append, length_encodeNat, hatt, hdpt]
    omega
  case insert =>
    simp only [serializeTo, extraSize, List.length_append, length_encodeNat, length_encodeU32,
      length_encodeU16]
    omega
  all_goals simp [serializeTo, extraSize]

namespace RawLogRecord

theorem length_serializeTo (r : RawLogRecord) :
    r.serializeTo.length = LogRecord.headerSize + r.body.extraSize := by
  rw [serializeTo, List.length_append, List.length_append, List.length_append, length_encodeNat,
    length_encodeU32, length_encodeU64, r.body.length_serializeTo, LogRecord.headerSize]
  omega

/-- The two maps of a checkpoint are small enough for a size of 32 bits. -/
def FitsSize (r : RawLogRecord) : Prop :=
  match r.body with
  | .endCheckpoint att dpt => 29 + att.size * 12 + dpt.size * 16 < 2 ^ 32
  | _ => True

/-- Only a checkpoint can be too large. -/
theorem fitsSize_iff (r : RawLogRecord) :
    r.FitsSize ↔ LogRecord.headerSize + r.body.extraSize < 2 ^ 32 := by
  rcases r with ⟨lsn, xid, prevLsn, body⟩
  rcases body with _ | _ | _ | ⟨oid, pageId, slotId, pageOffset, record⟩ | ⟨oid, pageId, slotId⟩ |
    ⟨oid, prevPageId, pageId⟩ | _ | ⟨att, dpt⟩
  case endCheckpoint =>
    simp only [FitsSize, LogRecord.headerSize, RawLogBody.extraSize]
    omega
  case insert =>
    have hlength := record.length_lt
    simp only [FitsSize, LogRecord.headerSize, RawLogBody.extraSize, true_iff]
    omega
  all_goals simp [FitsSize, LogRecord.headerSize, RawLogBody.extraSize]

/-- The bytes written are as many as `GetSize` says exactly where the size fits. -/
theorem length_eq_getSize_iff (r : RawLogRecord) :
    r.serializeTo.length = r.getSize ↔ r.FitsSize := by
  rw [length_serializeTo, getSize, fitsSize_iff]
  constructor
  · intro h
    rw [h]
    exact Nat.mod_lt _ (by decide)
  · intro h
    exact (Nat.mod_eq_of_lt h).symm

end RawLogRecord

/-! ## Reading back -/

namespace RawLogBody

theorem decodes_att (e : UInt32 × UInt64) : Decodes readAtt (serializeAtt e) e :=
  (decodes_readU32 e.1).bind ((decodes_readU64 e.2).map _)

theorem decodes_dpt (e : TablePageidWords × UInt64) : Decodes readDpt (serializeDpt e) e :=
  (decodes_readU32 e.1.tableOid).bind ((decodes_readU32 e.1.pageId).bind
    ((decodes_readU64 e.2).map _))

theorem decodes_record (record : RecordBytes) :
    Decodes readRecord (encodeNat 2 record.bytes.length ++ record.bytes) record := by
  refine (decodes_readNat (w := 2) record.length_lt).bind ?_
  have hrecord : Decodes (if h : record.bytes.length < 2 ^ 16 then
      pure (⟨record.bytes, h⟩ : RecordBytes) else failure) [] record := by
    rw [dif_pos record.length_lt]
    exact .pure record
  have hbytes := (decodes_takeBytes record.bytes).bind (f := fun bytes =>
    if h : bytes.length < 2 ^ 16 then pure (⟨bytes, h⟩ : RecordBytes) else failure) hrecord
  rwa [List.append_nil] at hbytes

theorem decodes_endCheckpoint {att : UnorderedMap UInt32 UInt64}
    {dpt : UnorderedMap TablePageidWords UInt64} (hatt : att.size < 2 ^ 64)
    (hdpt : dpt.size < 2 ^ 64) :
    Decodes (deserializeFrom .endCheckpoint) (endCheckpoint att dpt).serializeTo
      (endCheckpoint att dpt) := by
  have htables := (decodes_readMany (l := dpt.entries) fun e _ => decodes_dpt e).map fun entries =>
    endCheckpoint (.ofEntries att.entries) (.ofEntries entries)
  rw [UnorderedMap.ofEntries_entries, UnorderedMap.ofEntries_entries] at htables
  exact (decodes_readNat (w := 8) hatt).bind
    ((decodes_readMany (l := att.entries) fun e _ => decodes_att e).bind
      ((decodes_readNat (w := 8) hdpt).bind (by
        rw [UnorderedMap.ofEntries_entries]
        exact htables)))

theorem decodes {body : RawLogBody} (fits : LogRecord.headerSize + body.extraSize < 2 ^ 32) :
    Decodes (deserializeFrom body.getType) body.serializeTo body := by
  rcases body with _ | _ | _ | ⟨oid, pageId, slotId, pageOffset, record⟩ | ⟨oid, pageId, slotId⟩ |
    ⟨oid, prevPageId, pageId⟩ | _ | ⟨att, dpt⟩
  case insert =>
    exact (decodes_readU32 oid).bind ((decodes_readU32 pageId).bind ((decodes_readU16 slotId).bind
      ((decodes_readU16 pageOffset).bind ((decodes_record record).map _))))
  case delete =>
    exact (decodes_readU32 oid).bind ((decodes_readU32 pageId).bind
      ((decodes_readU16 slotId).map _))
  case newPage =>
    exact (decodes_readU32 oid).bind ((decodes_readU32 prevPageId).bind
      ((decodes_readU32 pageId).map _))
  case endCheckpoint =>
    simp only [extraSize] at fits
    exact decodes_endCheckpoint (by omega) (by omega)
  all_goals exact .pure _

end RawLogBody

namespace RawLogRecord

/-- A record that fits is read back, with the given LSN and whatever follows it. -/
theorem decodes {r : RawLogRecord} (fits : r.FitsSize) (lsn : UInt64) :
    Decodes (decode lsn) r.serializeTo (r.setLsn lsn) := by
  have hcode : r.getType.code < 256 ^ 1 := by
    cases r.getType <;> decide
  have hbody := RawLogBody.decodes (r.fitsSize_iff.mp fits)
  refine (decodes_readNat hcode).bind ?_
  rw [LogType.ofCode?_code]
  exact (decodes_readU32 r.xid).bind ((decodes_readU64 r.prevLsn).bind
    (hbody.map fun body => (⟨lsn, r.xid, r.prevLsn, body⟩ : RawLogRecord)))

/-- The fields are equal, the maps of a checkpoint as maps. -/
def SameFields : RawLogBody → RawLogBody → Prop
  | .endCheckpoint att dpt, .endCheckpoint att' dpt' =>
      (∀ xid, att.find? xid = att'.find? xid) ∧ ∀ page, dpt.find? page = dpt'.find? page
  | body, body' => body = body'

theorem SameFields.refl (body : RawLogBody) : SameFields body body := by
  cases body with
  | endCheckpoint att dpt => exact ⟨fun _ => rfl, fun _ => rfl⟩
  | _ => rfl

/-- A record read back at an LSN: the type, the fields and the size are those that were
written. -/
structure ReadsBack (r : RawLogRecord) (lsn : UInt64) (found : RawLogRecord) : Prop where
  type : found.getType = r.getType
  lsn : found.lsn = lsn
  xid : found.xid = r.xid
  prevLsn : found.prevLsn = r.prevLsn
  fields : SameFields found.body r.body
  size : found.getSize = r.getSize

/-- The records of a log round-trip: each writes `GetSize` bytes and is read back from them,
whatever follows, and a walk over the log by `GetSize` lands on the start of each. -/
structure LogRoundTrips (records : List RawLogRecord) : Prop where
  sizes : ∀ r ∈ records, r.serializeTo.length = r.getSize
  reads : ∀ r ∈ records, ∀ lsn rest, ∃ found,
    (decode lsn (r.serializeTo ++ rest)).map Prod.fst = some found ∧ r.ReadsBack lsn found
  walks : ∀ before after, ∃ found,
    walk (fun offset => decode (UInt64.ofNat offset)) getSize
        (before ++ (records.flatMap serializeTo ++ after)) records.length before.length =
      some found ∧
    found.map Prod.fst = boundaries serializeTo before.length records

theorem map_fst_zip_boundaries {α β : Type} (encode : α → List UInt8) (f : Nat → α → β)
    (l : List α) (offset : Nat) :
    (((boundaries encode offset l).zip l).map fun e => (e.1, f e.1 e.2)).map Prod.fst =
      boundaries encode offset l := by
  induction l generalizing offset with
  | nil => rfl
  | cons a l ih =>
      rw [boundaries, List.zip_cons_cons, List.map_cons, List.map_cons, ih]

/-- The records of a log round-trip exactly where the maps of its checkpoints are small enough
for a size of 32 bits. -/
theorem log_roundTrips_iff (records : List RawLogRecord) :
    LogRoundTrips records ↔ ∀ r ∈ records, r.FitsSize := by
  constructor
  · intro h r hr
    exact r.length_eq_getSize_iff.mp (h.sizes r hr)
  · intro hfits
    have hsizes : ∀ r ∈ records, r.serializeTo.length = r.getSize := fun r hr =>
      r.length_eq_getSize_iff.mpr (hfits r hr)
    refine ⟨hsizes, fun r hr lsn rest => ?_, fun before after => ?_⟩
    · refine ⟨r.setLsn lsn, ?_, ⟨rfl, rfl, rfl, rfl, .refl _, rfl⟩⟩
      rw [decodes (hfits r hr) lsn rest]
      rfl
    · have hread : ∀ r ∈ records, ∀ offset, Decodes (decode (UInt64.ofNat offset)) r.serializeTo
          (r.setLsn (UInt64.ofNat offset)) := fun r hr offset => decodes (hfits r hr) _
      have hsize : ∀ r ∈ records, ∀ offset,
          getSize (r.setLsn (UInt64.ofNat offset)) = r.serializeTo.length :=
        fun r hr _ => (hsizes r hr).symm
      exact ⟨_, walk_flatMap hread hsize before after,
        map_fst_zip_boundaries _ (fun offset r => setLsn r (UInt64.ofNat offset)) _ _⟩

theorem nodup_transactions (n : Nat) (h : n ≤ 2 ^ 32) :
    (Assoc.keys ((List.range n).map fun xid => (UInt32.ofNat xid, (0 : UInt64)))).Nodup := by
  rw [Assoc.keys, List.map_map]
  refine List.nodup_range.map_on fun i hi j hj heq => ?_
  rw [List.mem_range] at hi hj
  exact UInt32.ofNat_inj_of_lt (by omega) (by omega) heq

/-- An active transaction table with `n` transactions. -/
def transactions (n : Nat) (h : n ≤ 2 ^ 32) : UnorderedMap UInt32 UInt64 where
  entries := (List.range n).map fun xid => (UInt32.ofNat xid, 0)
  nodup := nodup_transactions n h

/-- A checkpoint with `n` active transactions and no dirty page. -/
def checkpoint (n : Nat) (h : n ≤ 2 ^ 32) : RawLogRecord :=
  ⟨0, 0, 0, .endCheckpoint (transactions n h) (.ofEntries [])⟩

theorem extraSize_checkpoint (n : Nat) (h : n ≤ 2 ^ 32) :
    LogRecord.headerSize + (checkpoint n h).body.extraSize = 29 + n * 12 := by
  have hsize : (transactions n h).size = n := by
    rw [UnorderedMap.size, transactions, List.length_map, List.length_range]
  have hempty : (UnorderedMap.ofEntries ([] : List (TablePageidWords × UInt64))).size = 0 := rfl
  rw [checkpoint, RawLogBody.extraSize, hsize, hempty, LogRecord.headerSize]
  omega

/-- A checkpoint with 357913939 active transactions takes 4294967297 bytes, and its size is
`1`. -/
theorem size_wraps :
    ∃ r : RawLogRecord, r.serializeTo.length = 4294967297 ∧ r.getSize = 1 ∧
      ¬ LogRoundTrips [r] := by
  have hextra := extraSize_checkpoint 357913939 (by decide)
  generalize checkpoint 357913939 _ = r at hextra
  have hlength : r.serializeTo.length = 4294967297 := by rw [length_serializeTo, hextra]
  have hget : r.getSize = 1 := by
    rw [getSize, hextra]
    decide
  refine ⟨r, hlength, hget, fun h => ?_⟩
  have heq := h.sizes r List.mem_cons_self
  omega

end RawLogRecord

/-! ## The records of the log manager -/

namespace LogBody

/-- The key of a dirty page. -/
def rawPage (page : TablePageid) : TablePageidWords :=
  ⟨UInt32.ofNat page.tableOid, UInt32.ofNat page.pageId⟩

theorem nodup_rawAtt {att : Att} (hfits : ∀ e ∈ att, AttEntryFits e) (hkeys : att.keys.Nodup) :
    (Assoc.keys (att.map fun e => (UInt32.ofNat e.1, UInt64.ofNat e.2))).Nodup := by
  rw [Assoc.keys, List.map_map]
  refine (List.Nodup.of_map _ hkeys).map_on fun e he e' he' heq => ?_
  exact List.inj_on_of_nodup_map hkeys he he'
    (UInt32.ofNat_inj_of_lt (hfits e he).1 (hfits e' he').1 heq)

theorem nodup_rawDpt {dpt : Dpt} (hfits : ∀ e ∈ dpt, DptEntryFits e) (hkeys : dpt.keys.Nodup) :
    (Assoc.keys (dpt.map fun e => (rawPage e.1, UInt64.ofNat e.2))).Nodup := by
  rw [Assoc.keys, List.map_map]
  refine (List.Nodup.of_map _ hkeys).map_on fun e he e' he' heq => ?_
  rcases TablePageidWords.mk.inj heq with ⟨htable, hpage⟩
  refine List.inj_on_of_nodup_map hkeys he he' ?_
  exact (TablePageid.mk.injEq ..).mpr
    ⟨UInt32.ofNat_inj_of_lt (hfits e he).1 (hfits e' he').1 htable,
      UInt32.ofNat_inj_of_lt (hfits e he).2.1 (hfits e' he').2.1 hpage⟩

/-- A record with its fields as machine words, and an inserted record as its bytes. -/
def raw : (body : LogBody) → body.Fits → RawLogBody
  | .begin, _ => .begin
  | .commit, _ => .commit
  | .rollback, _ => .rollback
  | .beginCheckpoint, _ => .beginCheckpoint
  | .insert oid pageId slotId pageOffset _ record, h =>
      .insert (.ofNat oid) (.ofNat pageId) (.ofNat slotId) (.ofNat pageOffset)
        ⟨record.serializeTo, by
          rcases h with ⟨-, -, -, -, hsize, hlength, -⟩
          rwa [record.length_serializeTo, hlength]⟩
  | .delete oid pageId slotId, _ => .delete (.ofNat oid) (.ofNat pageId) (.ofNat slotId)
  | .newPage oid prevPageId pageId, _ => .newPage (.ofNat oid) (.ofNat prevPageId) (.ofNat pageId)
  | .endCheckpoint att dpt, h =>
      .endCheckpoint ⟨att.map fun e => (.ofNat e.1, .ofNat e.2), nodup_rawAtt h.2.2.1 h.2.2.2.2.1⟩
        ⟨dpt.map fun e => (rawPage e.1, .ofNat e.2), nodup_rawDpt h.2.2.2.1 h.2.2.2.2.2⟩

/-- The bytes are the same. -/
theorem serializeTo_raw {body : LogBody} (fits : body.Fits) :
    (body.raw fits).serializeTo = body.serializeTo := by
  rcases body with _ | _ | _ | ⟨oid, pageId, slotId, pageOffset, recordSize, record⟩ |
    ⟨oid, pageId, slotId⟩ | ⟨oid, prevPageId, pageId⟩ | _ | ⟨att, dpt⟩
  case insert =>
    rcases fits with ⟨hoid, hpage, hslot, hoffset, -, hlength, -⟩
    simp only [raw, RawLogBody.serializeTo, serializeTo, encodeU32_ofNat hoid,
      encodeU32_ofNat hpage, encodeU16_ofNat hslot, encodeU16_ofNat hoffset,
      record.length_serializeTo, hlength, List.append_assoc]
  case delete =>
    simp only [raw, RawLogBody.serializeTo, serializeTo, encodeU32_ofNat fits.1,
      encodeU32_ofNat fits.2.1, encodeU16_ofNat fits.2.2, List.append_assoc]
  case newPage =>
    simp only [raw, RawLogBody.serializeTo, serializeTo, encodeU32_ofNat fits.1,
      encodeU32_ofNat fits.2.1, encodeU32_ofNat fits.2.2, List.append_assoc]
  case endCheckpoint =>
    rcases fits with ⟨-, -, hatt, hdpt, -, -⟩
    have hattBytes : ∀ e ∈ att, RawLogBody.serializeAtt (.ofNat e.1, .ofNat e.2) = serializeAtt e :=
      fun e he => by
        rw [RawLogBody.serializeAtt, serializeAtt, encodeU32_ofNat (hatt e he).1,
          encodeU64_ofNat (hatt e he).2]
    have hdptBytes : ∀ e ∈ dpt, RawLogBody.serializeDpt (rawPage e.1, .ofNat e.2) =
        serializeDpt e := fun e he => by
      rw [RawLogBody.serializeDpt, serializeDpt, rawPage, encodeU32_ofNat (hdpt e he).1,
        encodeU32_ofNat (hdpt e he).2.1, encodeU64_ofNat (hdpt e he).2.2, List.append_assoc]
    simp only [raw, RawLogBody.serializeTo, serializeTo, UnorderedMap.size, List.length_map,
      List.flatMap_map, List.flatMap_congr hattBytes, List.flatMap_congr hdptBytes,
      List.append_assoc]
  all_goals rfl

end LogBody

/-- The record with its fields as machine words. -/
def LogRecord.raw (r : LogRecord) (fits : r.Fits) : RawLogRecord :=
  ⟨.ofNat r.lsn, .ofNat r.xid, .ofNat r.prevLsn, r.body.raw fits.body⟩

theorem LogRecord.serializeTo_raw {r : LogRecord} (fits : r.Fits) :
    (r.raw fits).serializeTo = r.serializeTo := by
  have htype : (r.body.raw fits.body).getType = r.body.getType := by
    cases r with
    | mk lsn xid prevLsn body => cases body <;> rfl
  simp only [RawLogRecord.serializeTo, LogRecord.serializeTo, RawLogRecord.getType,
    LogRecord.getType, LogRecord.raw, htype, encodeU32_ofNat fits.xid, encodeU64_ofNat fits.prevLsn,
    LogBody.serializeTo_raw fits.body, List.append_assoc]

end HuaDB
