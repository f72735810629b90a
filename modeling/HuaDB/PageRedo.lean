import HuaDB.LogBytes
import HuaDB.TableLayout

/-!
`Redo` of the insertions and deletions of a page, over the memory of the page.

An insertion writes a record with its header stamped; `RedoInsertRecord` copies the bytes that
were logged, and takes their position from `upper`. On one page the two do the same
(`redoInsertRecord_eq`), and what either does depends on no byte before `lower`.

`LoggedRun` is what `table/table.cpp` does to a page from some moment on, with the records that
it logs. Read back from the log and applied in the order of their LSNs to the image of the page
at that moment, they give the page again (`redo_reproduces`).
-/

namespace HuaDB

namespace PageData

/-- `RedoInsertRecord`, which makes no use of the logged offset. -/
def redoInsertRecord (page : PageData) (slotId _pageOffset : Nat) (rawRecord : List UInt8) :
    Except DbError PageData := do
  let grown := page.grow rawRecord.length
  let slotted ← grown.setSlot slotId ⟨grown.upper, rawRecord.length⟩
  slotted.copy grown.upper rawRecord

section

variable {page page' next slotted : PageData} {slotId xid cid offset count base start stop : Nat}
  {record : DataRecord} {values : List Value} {copies : List (Nat × List UInt8)}

theorem redoInsertRecord_eq_ok_iff {pageOffset : Nat} {rawRecord : List UInt8} :
    page.redoInsertRecord slotId pageOffset rawRecord = .ok next ↔
      ∃ slotted, (page.grow rawRecord.length).setSlot slotId
          ⟨(page.grow rawRecord.length).upper, rawRecord.length⟩ = .ok slotted ∧
        slotted.copy (page.grow rawRecord.length).upper rawRecord = .ok next :=
  Except.bind_eq_ok_iff

theorem field_lt (page : PageData) (offset width : Nat) : page.field offset width < 256 ^ width := by
  have h := decodeNat_lt (page.bytes offset width)
  rwa [bytes, ByteFile.length_window] at h

theorem encodeNat_field (page : PageData) (offset width : Nat) :
    encodeNat width (page.field offset width) = page.bytes offset width := by
  have h := encodeNat_decodeNat (page.bytes offset width)
  rwa [bytes, ByteFile.length_window] at h

/-! ## A deletion is two copies -/

/-- The first bytes of a copy are already there. -/
theorem copy_bytes_append (page : PageData) (h : offset + count ≤ dbPageSize) (data : List UInt8) :
    page.copy offset (page.bytes offset count ++ data) = page.copy (offset + count) data := by
  have hlength : (page.bytes offset count).length = count := ByteFile.length_window _
  rw [copy_append, copy_bytes page h, hlength]
  rfl

/-- A deletion sets the byte of the mark and the four of `xmax`. -/
theorem deleteRecord_eq (hslot : slotOffset (slotId + 1) ≤ dbPageSize)
    (h : (page.slot slotId).offset + recordHeaderSize ≤ dbPageSize) (xid : Nat) :
    page.deleteRecord slotId xid = page.copy (page.slot slotId).offset (encodeNat 1 1) >>=
      fun page' => page'.copy ((page.slot slotId).offset + 5) (encodeNat 4 xid) := by
  have hread := readAt_header page h
  rw [deleteRecord, getSlot, if_pos hslot]
  change (page.readAt _ _ >>= _) = _
  rw [hread]
  generalize (page.slot slotId).offset = offset at h
  rw [recordHeaderSize] at h
  change page.copy offset (encodeNat 1 1 ++ encodeNat 4 (page.field (offset + 1) 4) ++
    encodeNat 4 xid ++ encodeNat 4 (page.field (offset + 9) 4)) = _
  have hmark : offset + (encodeNat 1 1).length ≤ dbPageSize := by
    rw [length_encodeNat]
    omega
  rw [encodeNat_field, encodeNat_field, List.append_assoc, List.append_assoc, copy_append,
    copy_of_le hmark, length_encodeNat]
  change PageData.copy _ _ _ = PageData.copy _ _ _
  have hmarked : ∀ {lo hi : Nat}, offset + 1 ≤ lo →
      Agree page (page.poke offset (encodeNat 1 1) hmark) lo hi := fun hlo =>
    agree_poke hmark (.inr (by rwa [length_encodeNat]))
  generalize page.poke offset (encodeNat 1 1) hmark = marked at hmarked
  -- the bytes of `xmin` stay
  rw [← (hmarked (Nat.le_refl _)).bytes_eq (Nat.le_refl _) (Nat.le_refl _),
    copy_bytes_append marked (by omega), copy_append, length_encodeNat]
  -- and those of `cid`
  have hxmax : offset + 5 + (encodeNat 4 xid).length ≤ dbPageSize := by
    rw [length_encodeNat]
    omega
  rw [copy_of_le hxmax]
  change PageData.copy _ _ _ = _
  have hcid : (marked.poke (offset + 5) (encodeNat 4 xid) hxmax).bytes (offset + 9) 4 =
      page.bytes (offset + 9) 4 := by
    have hafter : Agree marked (marked.poke (offset + 5) (encodeNat 4 xid) hxmax) (offset + 9)
        (offset + 9 + 4) := agree_poke hxmax (.inr (by rw [length_encodeNat]))
    rw [hafter.bytes_eq (Nat.le_refl _) (Nat.le_refl _)]
    exact (hmarked (by omega)).bytes_eq (Nat.le_refl _) (Nat.le_refl _)
  rw [← hcid]
  exact copy_bytes _ (by omega)

theorem le_of_deleteRecord (h : page.deleteRecord slotId xid = .ok next) :
    slotOffset (slotId + 1) ≤ dbPageSize ∧
      (page.slot slotId).offset + recordHeaderSize ≤ dbPageSize := by
  obtain ⟨slot, hslot, h⟩ := Except.bind_eq_ok_iff.mp h
  obtain ⟨header, -, h⟩ := Except.bind_eq_ok_iff.mp h
  rw [getSlot] at hslot
  split at hslot
  · rename_i hle
    cases hslot
    have hinside := le_of_copy h
    rw [RecordHeader.length_serializeTo] at hinside
    exact ⟨hle, hinside⟩
  · cases hslot

/-- A deletion on a page that agrees from `lower` on. -/
theorem Agree.deleteRecord (h : Agree page page' 12 dbPageSize)
    (hrun : page.deleteRecord slotId xid = .ok next) :
    ∃ next', page'.deleteRecord slotId xid = .ok next' ∧ Agree next next' 12 dbPageSize := by
  obtain ⟨hslot, hinside⟩ := le_of_deleteRecord hrun
  have hbase : 16 ≤ slotOffset slotId := Nat.le_add_right _ _
  have hsame : page'.slot slotId = page.slot slotId := h.slot_eq (by omega) hslot
  rw [deleteRecord_eq hslot hinside] at hrun
  obtain ⟨marked, hmark, hxmax⟩ := Except.bind_eq_ok_iff.mp hrun
  obtain ⟨marked', hmark', hagree⟩ := h.copy hmark
  obtain ⟨next', hxmax', hnext⟩ := hagree.copy hxmax
  refine ⟨next', ?_, hnext⟩
  rw [deleteRecord_eq hslot (by rwa [hsame]), hsame, hmark']
  exact hxmax'

/-! ## An insertion is the copies of its redo -/

/-- Copies that lie one after the other are one copy. -/
theorem writeCopies_eq_copy (page : PageData)
    (htiles : Tiles Prod.fst (fun copy => copy.2.length) start copies stop)
    (hle : base + start ≤ dbPageSize) :
    page.writeCopies base copies = page.copy (base + start) (DataRecord.payload copies) := by
  induction copies generalizing page start with
  | nil =>
      have hempty : page.copy (base + start) (page.bytes (base + start) 0) = .ok page :=
        copy_bytes page hle
      exact hempty.symm
  | cons copy copies ih =>
      obtain ⟨offset, data⟩ := copy
      obtain ⟨hoffset, htiles⟩ := htiles
      dsimp only at hoffset htiles
      subst hoffset
      rw [writeCopies, DataRecord.payload, List.flatMap_cons, copy_append]
      cases hcopy : page.copy (base + offset) data with
      | error e => rfl
      | ok copied =>
          have hinside := le_of_copy hcopy
          rw [Nat.add_assoc] at hinside ⊢
          exact ih copied htiles hinside

/-- Where the slot and the record of an insertion go. -/
structure Placed (page : PageData) (size : Nat) : Prop where
  header_le : pageHeaderSize ≤ page.lower
  slot_le : slotOffset (page.getRecordCount + 1) ≤ (page.grow size).upper
  lower_eq : (page.grow size).lower = page.lower + sizeofSlot

/-- On a page with room the slot that is written comes after the header, and the record after
the slot. -/
theorem placed_of_setSlot {size : Nat} {slot : Slot} (hpos : 0 < size)
    (hroom : size ≤ page.getFreeSpaceSize)
    (h : (page.grow size).setSlot page.getRecordCount slot = .ok slotted) : Placed page size := by
  have hfree := getFreeSpaceSize_le hpos hroom
  have hupper : page.upper < 256 ^ 2 := page.field_lt 14 2
  have hslot := le_of_copy h
  rw [List.length_append, length_encodeNat, length_encodeNat, slotOffset, getRecordCount,
    pageHeaderSize, sizeofSlot, dbPageSize] at hslot
  rw [sizeofSlot] at hfree
  have hheader : 16 ≤ page.lower := by
    by_contra hlt
    omega
  refine ⟨hheader, ?_, ?_⟩
  · rw [grow, upper_setUpper, upper_setLower, slotOffset, getRecordCount, pageHeaderSize,
      sizeofSlot]
    omega
  · rw [grow, lower_setUpper, lower_setLower, sizeofSlot]
    omega

/-- What an insertion does, its redo does on the same page. -/
theorem redoInsertRecord_eq (built : DataRecord.OfValues values record)
    (hroom : record.getSize ≤ page.getFreeSpaceSize) {last : Nat}
    (hrun : page.insertRecord record xid cid = .ok (slotId, next))
    (hserialize : (record.stamp xid cid).serializeTo = .ok (copies, last)) (pageOffset : Nat) :
    (DataRecord.payload copies).length = record.getSize ∧ slotId < 2 ^ 16 ∧
      page.redoInsertRecord slotId pageOffset (DataRecord.payload copies) = .ok next := by
  obtain ⟨copies', last', slotted, hserialize', hslotted, hwrite, hslotId⟩ :=
    exists_of_insertRecord hrun
  cases hserialize.symm.trans hserialize'
  dsimp only at hwrite hslotId
  have hinside := le_of_writeCopies hwrite
  -- the size is the number of bytes written
  have hle := DataRecord.written_le_of_inside hserialize built.length_bits_le (by decide)
    fun copy hmem => Nat.le_trans (by omega) (hinside copy hmem)
  have hsize : record.getSize = DataRecord.written copies := by
    have hmod := ((built.stamp xid cid).getSize_eq hserialize).1
    rw [Nat.mod_eq_of_lt (Nat.lt_of_le_of_lt hle (by decide))] at hmod
    exact hmod
  have hlength : (DataRecord.payload copies).length = record.getSize := by
    rw [DataRecord.length_payload, hsize]
  have hpos : 0 < record.getSize := by
    rw [hsize, DataRecord.written_eq hserialize, recordHeaderSize]
    omega
  have hplaced := placed_of_setSlot hpos hroom hslotted
  -- the copies are one
  have htiles := DataRecord.serializeTo_tiles (built.stamp xid cid).length_bits_le hserialize
    (Nat.lt_of_le_of_lt hle (by decide))
  have hbase : (page.grow record.getSize).upper + 0 ≤ dbPageSize := by
    obtain ⟨rest, -, hcopies⟩ := DataRecord.serializeTo_eq_ok hserialize
    have hfirst := hinside _ (hcopies ▸ List.mem_cons_self)
    omega
  rw [writeCopies_eq_copy slotted htiles hbase, Nat.add_zero] at hwrite
  -- the record goes after the header of the page, so that the slot is the next one
  have hcount : 16 ≤ slotOffset page.getRecordCount := Nat.le_add_right _ _
  have hslotLe := hplaced.slot_le
  have hbelow : Agree (page.grow record.getSize) next 12 14 := by
    have hslot := le_of_copy hslotted
    have hrecord := le_of_copy hwrite
    rw [setSlot, copy_of_le hslot] at hslotted
    rw [copy_of_le hrecord] at hwrite
    cases hslotted
    cases hwrite
    rw [slotOffset_succ] at hslotLe
    exact (agree_poke hslot (.inl (by omega))).trans (agree_poke hrecord (.inl (by omega)))
  have hlower : next.lower = page.lower + sizeofSlot :=
    (hbelow.field_eq (Nat.le_refl _) (Nat.le_refl _)).trans hplaced.lower_eq
  have hresult : slotId = page.getRecordCount := by
    have hheader := hplaced.header_le
    have hlt : next.lower < 256 ^ 2 := next.field_lt 12 2
    rw [hslotId, getRecordCount, getRecordCount, hlower]
    rw [hlower] at hlt
    simp only [pageHeaderSize, sizeofSlot] at hheader hlt ⊢
    omega
  refine ⟨hlength, ?_, ?_⟩
  · rw [hslotId]
    exact Nat.mod_lt _ (by decide)
  · rw [redoInsertRecord_eq_ok_iff, hlength, hresult]
    exact ⟨_, hslotted, hwrite⟩

/-- The pointers are moved in the same way on a page that agrees from `lower` on. -/
theorem Agree.grow (h : Agree page page' 12 dbPageSize) (size : Nat) :
    Agree (page.grow size) (page'.grow size) 12 dbPageSize := by
  have hlower : page'.lower = page.lower := h.field_eq (Nat.le_refl _) (by decide)
  have hupper : page'.upper = page.upper := h.field_eq (by decide) (by decide)
  rw [PageData.grow, PageData.grow, upper_setLower, upper_setLower, hlower, hupper]
  exact (h.setField _ (by decide)).setField _ (by decide)

/-- The redo of an insertion on a page that agrees from `lower` on. -/
theorem Agree.redoInsertRecord {rawRecord : List UInt8} {pageOffset : Nat}
    (h : Agree page page' 12 dbPageSize)
    (hrun : page.redoInsertRecord slotId pageOffset rawRecord = .ok next) :
    ∃ next', page'.redoInsertRecord slotId pageOffset rawRecord = .ok next' ∧
      Agree next next' 12 dbPageSize := by
  obtain ⟨slotted, hslotted, hcopy⟩ := redoInsertRecord_eq_ok_iff.mp hrun
  have hgrown := h.grow rawRecord.length
  have hupper : (page'.grow rawRecord.length).upper = (page.grow rawRecord.length).upper :=
    hgrown.field_eq (by decide) (by decide)
  obtain ⟨slotted', hslotted', hagree⟩ := hgrown.copy hslotted
  obtain ⟨next', hcopy', hnext⟩ := hagree.copy hcopy
  refine ⟨next', ?_, hnext⟩
  rw [redoInsertRecord_eq_ok_iff, hupper]
  exact ⟨slotted', hslotted', hcopy'⟩

end

/-- Two pages with the same `lower`, `upper`, slots, and bytes after the header. -/
structure SameRecords (page page' : PageData) : Prop where
  lower_eq : page'.lower = page.lower
  upper_eq : page'.upper = page.upper
  getSlot_eq : ∀ slotId, page'.getSlot slotId = page.getSlot slotId
  bytes_eq : page'.bytes pageHeaderSize (dbPageSize - pageHeaderSize) =
    page.bytes pageHeaderSize (dbPageSize - pageHeaderSize)

theorem Agree.sameRecords {page page' : PageData} (h : Agree page page' 12 dbPageSize) :
    SameRecords page page' where
  lower_eq := h.field_eq (Nat.le_refl _) (by decide)
  upper_eq := h.field_eq (by decide) (by decide)
  getSlot_eq slotId := by
    have hbase : 16 ≤ slotOffset slotId := Nat.le_add_right _ _
    rw [getSlot, getSlot]
    split
    · rename_i hle
      rw [h.slot_eq (by omega) hle]
    · rfl
  bytes_eq := h.bytes_eq (by decide) (by decide)

/-- The page LSNs that are set one after the other. -/
def setPageLsns (page : PageData) (lsns : List UInt64) : PageData :=
  lsns.foldl (fun page lsn => page.setPageLsn lsn.toNat) page

theorem agree_setPageLsns (page : PageData) (lsns : List UInt64) :
    Agree page (page.setPageLsns lsns) 12 dbPageSize := by
  induction lsns generalizing page with
  | nil => exact .refl _ _ _
  | cons lsn lsns ih => exact Agree.trans (agree_setField _ (.inr (by decide))) (ih _)

end PageData

/-! ## What is logged, and its redo -/

/-- `AppendInsertLog`, after the insertion. -/
def insertLog (lsn : UInt64) (xid : UInt32) (prevLsn : UInt64) (oid pageId : UInt32) (slotId : Nat)
    (page : PageData) (record : RecordBytes) : RawLogRecord :=
  ⟨lsn, xid, prevLsn, .insert oid pageId (.ofNat slotId) (.ofNat page.upper) record⟩

/-- `AppendDeleteLog`. -/
def deleteLog (lsn : UInt64) (xid : UInt32) (prevLsn : UInt64) (oid pageId : UInt32)
    (slotId : UInt16) : RawLogRecord :=
  ⟨lsn, xid, prevLsn, .delete oid pageId slotId⟩

/-- What `table/table.cpp` does to one page, with the records that it logs. -/
inductive LoggedStep (oid pageId : UInt32) : PageData → List RawLogRecord → PageData → Prop
  /-- An insertion into a page with room. A new page gets the LSN of its own record first. -/
  | insert {page next : PageData} {record : DataRecord} {values : List Value}
      {copies : List (Nat × List UInt8)} {last slotId : Nat} {xid cid : UInt32}
      {raw : RecordBytes} (lsn prevLsn : UInt64) (lsns : List UInt64)
      (built : DataRecord.OfValues values record)
      (room : record.getSize ≤ page.getFreeSpaceSize)
      (run : page.insertRecord record xid.toNat cid.toNat = .ok (slotId, next))
      (serialize : (record.stamp xid.toNat cid.toNat).serializeTo = .ok (copies, last))
      (bytes : raw.bytes = (DataRecord.payload copies).take record.getSize) :
      LoggedStep oid pageId page [insertLog lsn xid prevLsn oid pageId slotId next raw]
        (next.setPageLsns (lsns ++ [lsn]))
  /-- A deletion. -/
  | delete {page next : PageData} {slotId : UInt16} {xid : UInt32} (lsn prevLsn : UInt64)
      (run : page.deleteRecord slotId.toNat xid.toNat = .ok next) :
      LoggedStep oid pageId page [deleteLog lsn xid prevLsn oid pageId slotId]
        (next.setPageLsns [lsn])
  /-- The link to a page that is new. -/
  | link {page : PageData} (nextPageId : Nat) :
      LoggedStep oid pageId page [] (page.setNextPageId nextPageId)

/-- What happens to one page from some moment on. The records are in the order of the log, which
is that of their LSNs. -/
inductive LoggedRun (oid pageId : UInt32) : PageData → List RawLogRecord → PageData → Prop
  | refl (page : PageData) : LoggedRun oid pageId page [] page
  | step {page page' page'' : PageData} {logs logs' : List RawLogRecord}
      (step : LoggedStep oid pageId page logs page') (run : LoggedRun oid pageId page' logs' page'') :
      LoggedRun oid pageId page (logs ++ logs') page''

namespace RawLogRecord

/-- `InsertLog::Redo` and `DeleteLog::Redo` of a table that exists, on the page of the record.
No other record is one of these two. -/
def redo (r : RawLogRecord) (page : PageData) : Except DbError PageData :=
  match r.body with
  | .insert _ _ slotId pageOffset record =>
      page.redoInsertRecord slotId.toNat pageOffset.toNat record.bytes
  | .delete _ _ slotId => page.deleteRecord slotId.toNat r.xid.toNat
  | _ => .ok page

/-- The records are applied one after the other. -/
def redoAll (records : List RawLogRecord) (page : PageData) : Except DbError PageData :=
  records.foldlM (fun page r => r.redo page) page

/-- The records, each read back from its bytes in the log and those that follow it there. -/
def readBack (following : RawLogRecord → List UInt8) (records : List RawLogRecord) :
    Option (List RawLogRecord) :=
  records.mapM fun r => (decode r.lsn (r.serializeTo ++ following r)).map Prod.fst

theorem readBack_of_fits (following : RawLogRecord → List UInt8) {records : List RawLogRecord}
    (h : ∀ r ∈ records, r.FitsSize) : readBack following records = some records := by
  induction records with
  | nil => rfl
  | cons r records ih =>
      rw [List.forall_mem_cons] at h
      have hrest := ih h.2
      rw [readBack] at hrest ⊢
      rw [List.mapM_cons, decodes h.1 r.lsn (following r), hrest]
      rfl

theorem redoAll_append (records records' : List RawLogRecord) (page : PageData) :
    redoAll (records ++ records') page = redoAll records page >>= redoAll records' := by
  rw [redoAll, List.foldlM_append]
  rfl

end RawLogRecord

open RawLogRecord PageData

section

variable {oid pageId : UInt32} {page page' next image final : PageData} {logs : List RawLogRecord}

/-- One step and its redo, on pages that agree from `lower` on. -/
theorem LoggedStep.redo (h : LoggedStep oid pageId page logs next)
    (hagree : Agree page page' 12 dbPageSize) :
    ∃ next', redoAll logs page' = .ok next' ∧ Agree next next' 12 dbPageSize := by
  have hone : ∀ (r : RawLogRecord) (q q' : PageData), r.redo q = .ok q' →
      redoAll [r] q = .ok q' := by
    intro r q q' hredo
    rw [redoAll, List.foldlM_cons, hredo]
    rfl
  cases h with
  | insert lsn prevLsn lsns built room run serialize bytes =>
      rename_i inserted record values copies last slotId xid cid raw
      have hredo := redoInsertRecord_eq built room run serialize
        (UInt16.ofNat inserted.upper).toNat
      obtain ⟨hlength, hslot, hredo⟩ := hredo
      obtain ⟨next', hnext', hsame⟩ := hagree.redoInsertRecord hredo
      refine ⟨next', hone _ _ _ ?_, (agree_setPageLsns _ _).symm.trans hsame⟩
      have hslotId : (UInt16.ofNat slotId).toNat = slotId := by
        rw [UInt16.toNat_ofNat']
        exact Nat.mod_eq_of_lt hslot
      change page'.redoInsertRecord (UInt16.ofNat slotId).toNat (UInt16.ofNat inserted.upper).toNat
        raw.bytes = _
      rw [hslotId, bytes, ← hlength, List.take_length]
      exact hnext'
  | delete lsn prevLsn run =>
      obtain ⟨next', hnext', hsame⟩ := hagree.deleteRecord run
      exact ⟨next', hone _ _ _ hnext', (agree_setPageLsns _ _).symm.trans hsame⟩
  | link nextPageId =>
      have hlink : Agree (page.setNextPageId nextPageId) page 12 dbPageSize :=
        (agree_setField _ (.inr (by decide))).symm
      exact ⟨page', rfl, hlink.trans hagree⟩

theorem LoggedRun.single (h : LoggedStep oid pageId page logs next) :
    LoggedRun oid pageId page logs next := by
  have hrun := LoggedRun.step h (.refl next)
  rwa [List.append_nil] at hrun

/-- A run and its redo. -/
theorem LoggedRun.redo (h : LoggedRun oid pageId page logs final)
    (hagree : Agree page page' 12 dbPageSize) :
    ∃ redone, redoAll logs page' = .ok redone ∧ Agree final redone 12 dbPageSize := by
  induction h generalizing page' with
  | refl page => exact ⟨page', rfl, hagree⟩
  | step step run ih =>
      obtain ⟨next', hnext', hsame⟩ := step.redo hagree
      obtain ⟨redone, hredone, hfinal⟩ := ih hsame
      refine ⟨redone, ?_, hfinal⟩
      rw [redoAll_append, hnext']
      exact hredone

/-- The records of insertions and deletions always fit. -/
theorem LoggedRun.fits (h : LoggedRun oid pageId page logs final) : ∀ r ∈ logs, r.FitsSize := by
  induction h with
  | refl page =>
      intro r hr
      cases hr
  | step step run ih =>
      intro r hr
      rcases List.mem_append.mp hr with hr | hr
      · cases step with
        | insert | delete =>
            rw [List.mem_singleton.mp hr]
            trivial
        | link => cases hr
      · exact ih r hr

/-- The records of a run, read back from the log and applied to the image of the page at its
start, give the page at its end. -/
theorem redo_reproduces (run : LoggedRun oid pageId image logs final)
    (following : RawLogRecord → List UInt8) :
    ∃ records redone, readBack following logs = some records ∧
      redoAll records image = .ok redone ∧ SameRecords final redone := by
  obtain ⟨redone, hredone, hsame⟩ := run.redo (.refl _ _ _)
  exact ⟨logs, redone, readBack_of_fits following run.fits, hredone, hsame.sameRecords⟩

/-- A page of zeros, initialised. -/
def zeroPage : PageData := PageData.init .zeros

/-- A record is inserted into a page with room by one transaction, and deleted by another. -/
theorem exists_loggedRun {record : DataRecord} {values : List Value}
    {copies : List (Nat × List UInt8)} {last : Nat} (oid pageId xid xid' cid : UInt32)
    (lsn lsn' prevLsn : UInt64) (hlaid : page.Laid) (built : DataRecord.OfValues values record)
    (hserialize : (record.stamp xid.toNat cid.toNat).serializeTo = .ok (copies, last))
    (hsize : record.getSize = DataRecord.written copies)
    (hroom : record.getSize ≤ page.getFreeSpaceSize) (hslot : page.getRecordCount < 2 ^ 16) :
    ∃ final logs, LoggedRun oid pageId page logs final ∧ logs.map getType = [.insert, .delete] ∧
      final.getRecordCount = page.getRecordCount + 1 := by
  have hlength : (DataRecord.payload copies).length = record.getSize := by
    rw [DataRecord.length_payload, hsize]
  have hfree : record.getSize < 2 ^ 16 := by
    have hupper := hlaid.upper_le
    rw [dbPageSize] at hupper
    rw [getFreeSpaceSize] at hroom
    split at hroom <;> omega
  obtain ⟨inserted, hinsert, hins⟩ :=
    insertRecord_spec hlaid hserialize built.length_bits_le hsize hroom
  have hstamped := hins.setPageLsn lsn.toNat
  have hcount := hstamped.slot_eq.1
  have hslotId : (UInt16.ofNat page.getRecordCount).toNat = page.getRecordCount := by
    rw [UInt16.toNat_ofNat']
    exact Nat.mod_eq_of_lt hslot
  have hlt : page.getRecordCount < (inserted.setPageLsn lsn.toNat).getRecordCount := by omega
  obtain ⟨deleted, hdelete, -, hsame, -⟩ := deleteRecord_spec hstamped.laid hlt xid'.toNat
  rw [← hslotId] at hdelete
  have hinsertStep : LoggedStep oid pageId page
      [insertLog lsn xid prevLsn oid pageId page.getRecordCount inserted
        ⟨DataRecord.payload copies, hlength ▸ hfree⟩] (inserted.setPageLsns ([] ++ [lsn])) :=
    .insert lsn prevLsn [] built hroom hinsert hserialize
      (by rw [List.take_of_length_le (Nat.le_of_eq hlength)])
  have hdeleteStep : LoggedStep oid pageId (inserted.setPageLsns ([] ++ [lsn])) _ _ :=
    .delete lsn' lsn hdelete
  refine ⟨_, _, .step hinsertStep (.single hdeleteStep), rfl, ?_⟩
  have hlower : (deleted.setPageLsns [lsn']).getRecordCount = deleted.getRecordCount :=
    getRecordCount_congr ((agree_setPageLsns _ _).field_eq (by decide) (by decide))
  rw [hlower, ← length_slotList, hsame, length_slotList, hcount]

/-- A row is inserted into an empty page by one transaction and deleted by another. -/
theorem redo_reproduces_insert_delete :
    ∃ (final : PageData) (logs records : List RawLogRecord) (redone : PageData),
      logs.map getType = [.insert, .delete] ∧ final.getRecordCount = 1 ∧
      readBack (fun _ => [7, 7]) logs = some records ∧
      redoAll records zeroPage = .ok redone ∧ SameRecords final redone := by
  obtain ⟨record, hvalues, hsize⟩ :
      ∃ record, DataRecord.ofValues [.int 5] = .ok record ∧ record.getSize = 18 := ⟨_, rfl, rfl⟩
  have hserialize : ∃ copies last, record.serializeTo = .ok (copies, last) ∧
      DataRecord.written copies = 18 := by
    cases hvalues
    exact ⟨_, _, rfl, rfl⟩
  obtain ⟨copies, last, hserialize, hwritten⟩ := hserialize
  obtain ⟨stamped, hstamped, hwritten'⟩ := DataRecord.exists_serializeTo_stamp hserialize
    (3 : UInt32).toNat (0 : UInt32).toNat
  obtain ⟨hlaid, hslots⟩ := laid_init .zeros
  have hcount : zeroPage.getRecordCount = 0 := by
    rw [← length_slotList, zeroPage, hslots]
    rfl
  have hroom : record.getSize ≤ zeroPage.getFreeSpaceSize := by
    rw [hsize, zeroPage, getFreeSpaceSize, upper_init, lower_init]
    decide
  obtain ⟨final, logs, hrun, htypes, hfinal⟩ := exists_loggedRun 9 0 3 4 0 50 90 20 hlaid
    (DataRecord.ofValues_eq_ok hvalues) hstamped (by rw [hsize, hwritten', hwritten]) hroom
    (by rw [zeroPage] at hcount; rw [hcount]; decide)
  obtain ⟨records, redone, hrecords, hredone, hsame⟩ := redo_reproduces hrun fun _ => [7, 7]
  refine ⟨final, logs, records, redone, htypes, ?_, hrecords, hredone, hsame⟩
  rw [hfinal]
  exact congrArg (· + 1) hcount

/-! ### The steps of a table -/

namespace TableData

variable {table table' : TableData} {n i : Nat} {rid : Rid} {xid cid : UInt32}

/-- A logged deletion takes each page of the table through a run. -/
theorem loggedRun_of_deleteRecord {slotId : UInt16} {lsn : UInt64} (prevLsn : UInt64)
    (oid : UInt32) (hrun : table.deleteRecord ⟨i, slotId.toNat⟩ xid.toNat (some lsn.toNat) = .ok table')
    {j : Nat} (hpage : table.pages j = some page) :
    ∃ page', table'.pages j = some page' ∧ LoggedRun oid (.ofNat j) page
      (if j = i then [deleteLog lsn xid prevLsn oid (.ofNat j) slotId] else []) page' := by
  obtain ⟨found, hfound, hrun⟩ := Except.bind_eq_ok_iff.mp hrun
  obtain ⟨deleted, hdelete, hrun⟩ := Except.bind_eq_ok_iff.mp hrun
  cases hrun
  by_cases hj : j = i
  · subst hj
    rw [getPage_of_some hpage] at hfound
    cases hfound
    rw [if_pos rfl]
    exact ⟨_, pages_setPage_self, .single (.delete lsn prevLsn hdelete)⟩
  · rw [if_neg hj]
    exact ⟨page, (pages_setPage_of_ne hj).trans hpage, .refl page⟩

/-- A logged insertion takes each page of the table through a run, and a new page from the
memory that was initialised. -/
theorem loggedRun_of_insertRecord {record : DataRecord} {values : List Value} {memory : PageData}
    {lsnNew lsn : UInt64} (prevLsn : UInt64) (oid : UInt32) (h : Chained table n)
    (built : DataRecord.OfValues values record)
    (hrun : table.insertRecord record xid.toNat cid.toNat
      ⟨memory, some (lsnNew.toNat, lsn.toNat)⟩ = .ok (rid, table')) :
    ∃ log : UInt32 → RawLogRecord,
      (∀ i < n, ∀ page, table.pages i = some page → ∃ page', table'.pages i = some page' ∧
        LoggedRun oid (.ofNat i) page (if i = rid.pageId then [log (.ofNat i)] else []) page') ∧
      (rid.pageId < n ∨ rid.pageId = n ∧ ∃ page', table'.pages n = some page' ∧
        LoggedRun oid (.ofNat n) memory.init [log (.ofNat n)] page') := by
  obtain ⟨hmax, copies₀, last₀, hserialize₀, hwritten₀⟩ := insertRecord_eq_ok h built hrun
  obtain ⟨copies, hserialize, -⟩ := DataRecord.exists_serializeTo_stamp hserialize₀ xid.toNat cid.toNat
  have hraw : ((DataRecord.payload copies).take record.getSize).length < 2 ^ 16 := by
    rw [maxRecordSize] at hmax
    rw [List.length_take]
    omega
  rcases insertRecord_cases h hmax xid.toNat cid.toNat ⟨memory, some (lsnNew.toNat, lsn.toNat)⟩ with
    ⟨i, hi, page, hpage, hroom, hcase⟩ | ⟨-, hcase⟩
  · -- a page of the table has room
    rw [hcase] at hrun
    obtain ⟨⟨slotId, inserted⟩, hinsert, hrun⟩ := Except.bind_eq_ok_iff.mp hrun
    cases hrun
    refine ⟨fun pageId => insertLog lsn xid prevLsn oid pageId slotId inserted ⟨_, hraw⟩, ?_, .inl hi⟩
    intro j hj page' hpage'
    by_cases hij : j = i
    · subst hij
      cases hpage.symm.trans hpage'
      rw [if_pos rfl]
      exact ⟨_, pages_setPage_self,
        .single (.insert lsn prevLsn [] built hroom hinsert hserialize rfl)⟩
    · rw [if_neg hij]
      exact ⟨page', (pages_setPage_of_ne hij).trans hpage', .refl page'⟩
  · -- the page is new
    rw [hcase] at hrun
    obtain ⟨⟨slotId, inserted⟩, hinsert, hrun⟩ := Except.bind_eq_ok_iff.mp hrun
    cases hrun
    have hroom : record.getSize ≤ memory.init.getFreeSpaceSize := by
      rw [maxRecordSize] at hmax
      rw [getFreeSpaceSize, upper_init, lower_init]
      exact Nat.le_trans hmax (by decide)
    refine ⟨fun pageId => insertLog lsn xid prevLsn oid pageId slotId inserted ⟨_, hraw⟩, ?_,
      .inr ⟨rfl, _, pages_setPage_self,
        .single (.insert lsn prevLsn [lsnNew] built hroom hinsert hserialize rfl)⟩⟩
    intro j hj page hpage
    rw [if_neg (Nat.ne_of_lt hj), pages_setPage_of_ne (Nat.ne_of_lt hj)]
    cases n with
    | zero => exact absurd hj (Nat.not_lt_zero j)
    | succ m =>
        by_cases hlast : j = m
        · subst hlast
          refine ⟨page.setNextPageId (j + 1), ?_, .single (.link (j + 1))⟩
          change (if j = j then _ else _) = _
          rw [if_pos rfl, hpage]
          rfl
        · refine ⟨page, ?_, .refl page⟩
          change (if j = m then _ else _) = _
          rw [if_neg hlast, hpage]

end TableData

end

end HuaDB
