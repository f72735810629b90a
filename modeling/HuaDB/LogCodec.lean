import HuaDB.Lib.Codec
import HuaDB.Storage

/-!
The bytes of a log record: `SerializeTo` and `DeserializeFrom` of
`log/log_record.cpp` and `log/log_records/`.

The loops of `LogManager` decode a record from a window on the log. On records
whose fields fit their types (`LogRecord.Fits`), decoding from a window gives what
`LogRecord.deserializeFrom` gives on the record itself
(`LogRecord.decode_window`): the record, if the window holds all of its bytes.
-/

namespace HuaDB

/-! ## `SerializeTo` -/

/-- The byte that stands for a type: its place in `enum class LogType`. -/
def LogType.code : LogType → Nat
  | .begin => 0
  | .commit => 1
  | .rollback => 2
  | .insert => 3
  | .delete => 4
  | .newPage => 5
  | .beginCheckpoint => 6
  | .endCheckpoint => 7

def LogType.ofCode? (code : Nat) : Option LogType :=
  [.begin, .commit, .rollback, .insert, .delete, .newPage, .beginCheckpoint, .endCheckpoint][code]?

theorem LogType.ofCode?_code (type : LogType) : ofCode? type.code = some type := by
  cases type <;> rfl

/-- `RecordHeader::SerializeTo`. -/
def RecordHeader.serializeTo (header : RecordHeader) : List UInt8 :=
  encodeNat 1 header.deleted.toNat ++ encodeNat 4 header.xmin ++ encodeNat 4 header.xmax ++
    encodeNat 4 header.cid

/-- `Record::SerializeTo`. -/
def Record.serializeTo (record : Record) : List UInt8 := record.header.serializeTo ++ record.data

namespace LogBody

/-- An entry of the active transaction table. -/
def serializeAtt (e : Nat × Nat) : List UInt8 := encodeNat 4 e.1 ++ encodeNat 8 e.2

/-- An entry of the dirty page table. -/
def serializeDpt (e : TablePageid × Nat) : List UInt8 :=
  encodeNat 4 e.1.tableOid ++ encodeNat 4 e.1.pageId ++ encodeNat 8 e.2

/-- What each record type writes after the fields of `LogRecord`. -/
def serializeTo : LogBody → List UInt8
  | .begin | .commit | .rollback | .beginCheckpoint => []
  | .insert oid pageId slotId pageOffset recordSize record =>
      encodeNat 4 oid ++ encodeNat 4 pageId ++ encodeNat 2 slotId ++ encodeNat 2 pageOffset ++
        encodeNat 2 recordSize ++ record.serializeTo
  | .delete oid pageId slotId => encodeNat 4 oid ++ encodeNat 4 pageId ++ encodeNat 2 slotId
  | .newPage oid prevPageId pageId =>
      encodeNat 4 oid ++ encodeNat 4 prevPageId ++ encodeNat 4 pageId
  | .endCheckpoint att dpt =>
      encodeNat 8 att.length ++ att.flatMap serializeAtt ++ encodeNat 8 dpt.length ++
        dpt.flatMap serializeDpt

end LogBody

/-- `LogRecord::SerializeTo`; the LSN is where the record lies and takes no space. -/
def LogRecord.serializeTo (r : LogRecord) : List UInt8 :=
  encodeNat 1 r.getType.code ++ encodeNat 4 r.xid ++ encodeNat 8 r.prevLsn ++ r.body.serializeTo

/-! ## `DeserializeFrom` -/

/-- `RecordHeader::DeserializeFrom`. -/
def RecordHeader.deserializeFrom : Decoder RecordHeader := do
  let deleted ← readNat 1
  let xmin ← readNat 4
  let xmax ← readNat 4
  let cid ← readNat 4
  return ⟨deleted ≠ 0, xmin, xmax, cid⟩

/-- The record that raw bytes hold. An `InsertLog` keeps them raw. -/
def Record.ofRaw (raw : List UInt8) : Record :=
  match RecordHeader.deserializeFrom raw with
  | some (header, data) => ⟨header, data⟩
  | none => { data := raw }

namespace LogBody

def deserializeAtt : Decoder (Nat × Nat) := do
  let xid ← readNat 4
  let lsn ← readNat 8
  return (xid, lsn)

def deserializeDpt : Decoder (TablePageid × Nat) := do
  let tableOid ← readNat 4
  let pageId ← readNat 4
  let lsn ← readNat 8
  return (⟨tableOid, pageId⟩, lsn)

/-- What each record type reads after the fields of `LogRecord`. The two maps of an
`EndCheckpointLog` are rebuilt entry by entry. -/
def deserializeFrom : LogType → Decoder LogBody
  | .begin => pure .begin
  | .commit => pure .commit
  | .rollback => pure .rollback
  | .beginCheckpoint => pure .beginCheckpoint
  | .insert => do
      let oid ← readNat 4
      let pageId ← readNat 4
      let slotId ← readNat 2
      let pageOffset ← readNat 2
      let recordSize ← readNat 2
      let raw ← takeBytes recordSize
      return .insert oid pageId slotId pageOffset recordSize (.ofRaw raw)
  | .delete => do
      let oid ← readNat 4
      let pageId ← readNat 4
      let slotId ← readNat 2
      return .delete oid pageId slotId
  | .newPage => do
      let oid ← readNat 4
      let prevPageId ← readNat 4
      let pageId ← readNat 4
      return .newPage oid prevPageId pageId
  | .endCheckpoint => do
      let attSize ← readNat 8
      let att ← readMany deserializeAtt attSize
      let dptSize ← readNat 8
      let dpt ← readMany deserializeDpt dptSize
      return .endCheckpoint (.ofEntries att) (.ofEntries dpt)

end LogBody

/-- `LogRecord::DeserializeFrom` on the bytes at an LSN. -/
def LogRecord.decode (lsn : Nat) : Decoder LogRecord := do
  let code ← readNat 1
  match LogType.ofCode? code with
  | none => failure
  | some type =>
      let xid ← readNat 4
      let prevLsn ← readNat 8
      let body ← LogBody.deserializeFrom type
      return ⟨lsn, xid, prevLsn, body⟩

/-! ## Records whose fields fit their types -/

structure RecordHeader.Fits (header : RecordHeader) : Prop where
  xmin : header.xmin < 2 ^ 32
  xmax : header.xmax < 2 ^ 32
  cid : header.cid < 2 ^ 32

/-- An entry of the active transaction table. -/
def LogBody.AttEntryFits (e : Nat × Nat) : Prop := e.1 < 2 ^ 32 ∧ e.2 < 2 ^ 64

/-- An entry of the dirty page table. -/
def LogBody.DptEntryFits (e : TablePageid × Nat) : Prop :=
  e.1.tableOid < 2 ^ 32 ∧ e.1.pageId < 2 ^ 32 ∧ e.2 < 2 ^ 64

/-- The fields fit, the size of an inserted record is its own, and no key of a saved
table comes twice. -/
def LogBody.Fits : LogBody → Prop
  | .begin | .commit | .rollback | .beginCheckpoint => True
  | .insert oid pageId slotId pageOffset recordSize record =>
      oid < 2 ^ 32 ∧ pageId < 2 ^ 32 ∧ slotId < 2 ^ 16 ∧ pageOffset < 2 ^ 16 ∧
        recordSize < 2 ^ 16 ∧ recordHeaderSize + record.data.length = recordSize ∧
        record.header.Fits
  | .delete oid pageId slotId => oid < 2 ^ 32 ∧ pageId < 2 ^ 32 ∧ slotId < 2 ^ 16
  | .newPage oid prevPageId pageId => oid < 2 ^ 32 ∧ prevPageId < 2 ^ 32 ∧ pageId < 2 ^ 32
  | .endCheckpoint att dpt =>
      att.length < 2 ^ 64 ∧ dpt.length < 2 ^ 64 ∧ (∀ e ∈ att, AttEntryFits e) ∧
        (∀ e ∈ dpt, DptEntryFits e) ∧ att.keys.Nodup ∧ dpt.keys.Nodup

structure LogRecord.Fits (r : LogRecord) : Prop where
  xid : r.xid < 2 ^ 32
  prevLsn : r.prevLsn < 2 ^ 64
  body : r.body.Fits

/-! ## Round trips -/

theorem RecordHeader.length_serializeTo (header : RecordHeader) :
    header.serializeTo.length = recordHeaderSize := by
  simp [RecordHeader.serializeTo, recordHeaderSize]

theorem RecordHeader.decodes {header : RecordHeader} (fits : header.Fits) :
    Decodes RecordHeader.deserializeFrom header.serializeTo header := by
  have hflag : header.deleted.toNat < 256 ^ 1 := by
    cases header.deleted <;> decide
  have hdeleted : decide (header.deleted.toNat ≠ 0) = header.deleted := by
    cases header.deleted <;> rfl
  have parts := (decodes_readNat hflag).bind (f := fun deleted => do
      let xmin ← readNat 4
      let xmax ← readNat 4
      let cid ← readNat 4
      return (⟨deleted ≠ 0, xmin, xmax, cid⟩ : RecordHeader))
    ((decodes_readNat (w := 4) fits.xmin).bind ((decodes_readNat (w := 4) fits.xmax).bind
      ((decodes_readNat (w := 4) fits.cid).map _)))
  rw [hdeleted] at parts
  rw [RecordHeader.serializeTo, List.append_assoc, List.append_assoc]
  exact parts

/-- Raw bytes keep the record. -/
theorem Record.ofRaw_serializeTo {record : Record} (fits : record.header.Fits) :
    Record.ofRaw record.serializeTo = record := by
  rw [Record.ofRaw, Record.serializeTo, RecordHeader.decodes fits record.data]

theorem Record.length_serializeTo (record : Record) :
    record.serializeTo.length = recordHeaderSize + record.data.length := by
  rw [Record.serializeTo, List.length_append, record.header.length_serializeTo]

namespace LogBody

theorem decodes_att {e : Nat × Nat} (fits : AttEntryFits e) :
    Decodes deserializeAtt (serializeAtt e) e :=
  (decodes_readNat (w := 4) fits.1).bind ((decodes_readNat (w := 8) fits.2).map _)

theorem decodes_dpt {e : TablePageid × Nat} (fits : DptEntryFits e) :
    Decodes deserializeDpt (serializeDpt e) e := by
  rw [serializeDpt, List.append_assoc]
  exact (decodes_readNat (w := 4) fits.1).bind
    ((decodes_readNat (w := 4) fits.2.1).bind ((decodes_readNat (w := 8) fits.2.2).map _))

theorem decodes_insert {oid pageId slotId pageOffset recordSize : Nat} {record : Record}
    (fits : (insert oid pageId slotId pageOffset recordSize record).Fits) :
    Decodes (deserializeFrom .insert)
      (insert oid pageId slotId pageOffset recordSize record).serializeTo
      (insert oid pageId slotId pageOffset recordSize record) := by
  obtain ⟨hoid, hpage, hslot, hoffset, hsize, hlength, hheader⟩ := fits
  have hraw : Decodes (takeBytes recordSize) record.serializeTo record.serializeTo := by
    have h := decodes_takeBytes record.serializeTo
    rwa [record.length_serializeTo, hlength] at h
  have hrecord := hraw.map fun raw =>
    insert oid pageId slotId pageOffset recordSize (.ofRaw raw)
  rw [Record.ofRaw_serializeTo hheader] at hrecord
  simp only [serializeTo, List.append_assoc]
  exact (decodes_readNat (w := 4) hoid).bind ((decodes_readNat (w := 4) hpage).bind
    ((decodes_readNat (w := 2) hslot).bind ((decodes_readNat (w := 2) hoffset).bind
      ((decodes_readNat (w := 2) hsize).bind hrecord))))

theorem decodes_endCheckpoint {att : Att} {dpt : Dpt} (fits : (endCheckpoint att dpt).Fits) :
    Decodes (deserializeFrom .endCheckpoint) (endCheckpoint att dpt).serializeTo
      (endCheckpoint att dpt) := by
  obtain ⟨hatt, hdpt, hattFits, hdptFits, hattKeys, hdptKeys⟩ := fits
  have htables := (decodes_readMany fun e he => decodes_dpt (hdptFits e he)).map fun entries =>
    endCheckpoint (.ofEntries att) (.ofEntries entries)
  rw [Assoc.ofEntries_eq_self hattKeys, Assoc.ofEntries_eq_self hdptKeys] at htables
  simp only [serializeTo, List.append_assoc]
  exact (decodes_readNat (w := 8) hatt).bind
    ((decodes_readMany fun e he => decodes_att (hattFits e he)).bind
      ((decodes_readNat (w := 8) hdpt).bind (by
        rw [Assoc.ofEntries_eq_self hattKeys]
        exact htables)))

theorem decodes {body : LogBody} (fits : body.Fits) :
    Decodes (deserializeFrom body.getType) body.serializeTo body := by
  cases body with
  | begin => exact .pure _
  | commit => exact .pure _
  | rollback => exact .pure _
  | beginCheckpoint => exact .pure _
  | insert oid pageId slotId pageOffset recordSize record => exact decodes_insert fits
  | delete oid pageId slotId =>
      simp only [serializeTo, List.append_assoc]
      exact (decodes_readNat (w := 4) fits.1).bind
        ((decodes_readNat (w := 4) fits.2.1).bind ((decodes_readNat (w := 2) fits.2.2).map _))
  | newPage oid prevPageId pageId =>
      simp only [serializeTo, List.append_assoc]
      exact (decodes_readNat (w := 4) fits.1).bind
        ((decodes_readNat (w := 4) fits.2.1).bind ((decodes_readNat (w := 4) fits.2.2).map _))
  | endCheckpoint att dpt => exact decodes_endCheckpoint fits

theorem extends_att : Extends deserializeAtt :=
  (extends_readNat 4).bind fun _ => (extends_readNat 8).bind fun _ => .pure _

theorem extends_dpt : Extends deserializeDpt :=
  (extends_readNat 4).bind fun _ => (extends_readNat 4).bind fun _ =>
    (extends_readNat 8).bind fun _ => .pure _

theorem extends_deserializeFrom (type : LogType) : Extends (deserializeFrom type) := by
  cases type with
  | begin => exact .pure _
  | commit => exact .pure _
  | rollback => exact .pure _
  | beginCheckpoint => exact .pure _
  | insert =>
      exact (extends_readNat 4).bind fun _ => (extends_readNat 4).bind fun _ =>
        (extends_readNat 2).bind fun _ => (extends_readNat 2).bind fun _ =>
          (extends_readNat 2).bind fun _ => (extends_takeBytes _).bind fun _ => .pure _
  | delete =>
      exact (extends_readNat 4).bind fun _ => (extends_readNat 4).bind fun _ =>
        (extends_readNat 2).bind fun _ => .pure _
  | newPage =>
      exact (extends_readNat 4).bind fun _ => (extends_readNat 4).bind fun _ =>
        (extends_readNat 4).bind fun _ => .pure _
  | endCheckpoint =>
      exact (extends_readNat 8).bind fun n => (extends_readMany extends_att n).bind fun _ =>
        (extends_readNat 8).bind fun m => (extends_readMany extends_dpt m).bind fun _ => .pure _

theorem length_serializeTo {body : LogBody} (fits : body.Fits) :
    body.serializeTo.length = body.extraSize := by
  cases body with
  | insert oid pageId slotId pageOffset recordSize record =>
      obtain ⟨-, -, -, -, -, hlength, -⟩ := fits
      simp only [serializeTo, extraSize, List.length_append, length_encodeNat,
        record.length_serializeTo, hlength]
  | endCheckpoint att dpt =>
      have hatt : (att.flatMap serializeAtt).length = att.length * 12 := by
        simp [serializeAtt]
      have hdpt : (dpt.flatMap serializeDpt).length = dpt.length * 16 := by
        simp [serializeDpt]
      simp only [serializeTo, extraSize, List.length_append, length_encodeNat, hatt, hdpt]
  | _ => simp [serializeTo, extraSize]

end LogBody

namespace LogRecord

variable {r : LogRecord}

/-- A record takes `GetSize` bytes. -/
theorem length_serializeTo (fits : r.Fits) : r.serializeTo.length = r.getSize := by
  simp only [serializeTo, getSize, headerSize, List.length_append, length_encodeNat,
    LogBody.length_serializeTo fits.body]

/-- Decoding at an LSN gives the record, with that LSN. -/
theorem decodes (fits : r.Fits) (lsn : Nat) :
    Decodes (decode lsn) r.serializeTo { r with lsn := lsn } := by
  have hcode : r.getType.code < 256 ^ 1 := by
    cases r.getType <;> decide
  have hbody : Decodes (LogBody.deserializeFrom r.getType) r.body.serializeTo r.body :=
    LogBody.decodes fits.body
  have hfields : Decodes
      (do
        let xid ← readNat 4
        let prevLsn ← readNat 8
        let body ← LogBody.deserializeFrom r.getType
        return (⟨lsn, xid, prevLsn, body⟩ : LogRecord))
      (encodeNat 4 r.xid ++ (encodeNat 8 r.prevLsn ++ r.body.serializeTo))
      { r with lsn := lsn } :=
    (decodes_readNat (w := 4) fits.xid).bind ((decodes_readNat (w := 8) fits.prevLsn).bind
      (hbody.map fun body => (⟨lsn, r.xid, r.prevLsn, body⟩ : LogRecord)))
  rw [serializeTo, List.append_assoc, List.append_assoc]
  refine (decodes_readNat hcode).bind ?_
  rw [LogType.ofCode?_code]
  exact hfields

theorem extends_decode (lsn : Nat) : Extends (decode lsn) := by
  refine (extends_readNat 1).bind fun code => ?_
  cases LogType.ofCode? code with
  | none => exact .failure
  | some type =>
      exact (extends_readNat 4).bind fun _ => (extends_readNat 8).bind fun _ =>
        (LogBody.extends_deserializeFrom type).bind fun _ => .pure _

/-- What decoding gives on the first `count` bytes from a record on. -/
theorem decode_window (fits : r.Fits) (lsn count : Nat) (rest : List UInt8) :
    (decode lsn ((r.serializeTo ++ rest).take count)).map Prod.fst =
      (deserializeFrom lsn count (some r)).toOption := by
  rw [(decodes fits lsn).take_append (extends_decode lsn), length_serializeTo fits,
    deserializeFrom]
  split <;> rfl

/-- A record decodes from the first `count` bytes if and only if they hold all of
its own. -/
theorem decode_window_eq_some_iff (fits : r.Fits) (count : Nat) (rest : List UInt8) :
    (decode r.lsn ((r.serializeTo ++ rest).take count)).map Prod.fst = some r ↔
      r.getSize ≤ count := by
  rw [(decodes fits r.lsn).take_append (extends_decode r.lsn), length_serializeTo fits]
  simp

end LogRecord

end HuaDB
