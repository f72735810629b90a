import HuaDB.Constants

/-!
`table/record_header.h`, the part of `table/record.h` that pages use, and
`table/table_page.cpp`.

A page is its header fields and its slot array. A slot carries, next to its
offset and size, the record stored at that offset: the byte ranges of two
records never meet as long as `lower ≤ upper`, which the free space check keeps,
and the one operation without that check (`redoInsertRecord`) is refused here
where it would write over the slot array or outside the page.
-/

namespace HuaDB

/-- `deleted(1) + xmin(4) + xmax(4) + cid(4)`. -/
def recordHeaderSize : Nat := 13

structure RecordHeader where
  deleted : Bool := false
  xmin : Nat := nullXid
  xmax : Nat := nullXid
  cid : Nat := nullCid
deriving DecidableEq, Repr

/-- A record: its header, and the bytes of its null bitmap and values. -/
structure Record where
  header : RecordHeader := {}
  data : List UInt8
deriving DecidableEq, Repr

/-- `Record::GetSize`, a `db_size_t`. -/
def Record.getSize (record : Record) : Nat :=
  (recordHeaderSize + record.data.length) % 2 ^ 16

/-- A slot together with the record stored where it points. -/
structure StoredRecord where
  slot : Slot
  record : Record
deriving DecidableEq, Repr

/-- `page_lsn(8) + next_page(4) + page_lower(2) + page_upper(2)`. -/
def pageHeaderSize : Nat := 16
def sizeofSlot : Nat := 4

structure TablePage where
  pageLsn : Nat
  nextPageId : Nat
  lower : Nat
  upper : Nat
  slots : Nat → Option StoredRecord

namespace TablePage

/-- A page of zero bytes: what a read returns inside a hole of a table file. -/
def zero : TablePage where
  pageLsn := 0
  nextPageId := 0
  lower := 0
  upper := 0
  slots := fun _ => none

/-- `TablePage::Init`. The slot array keeps whatever the memory held. -/
def init (page : TablePage) : TablePage :=
  { page with
    pageLsn := 0
    nextPageId := nullPageId
    lower := pageHeaderSize
    upper := dbPageSize }

/-- `(*lower_ - PAGE_HEADER_SIZE) / sizeof(Slot)`, computed in `size_t`. -/
def getRecordCount (page : TablePage) : Nat :=
  (2 ^ 64 + page.lower - pageHeaderSize) % 2 ^ 64 / sizeofSlot % 2 ^ 16

def getFreeSpaceSize (page : TablePage) : Nat :=
  if page.upper < page.lower + sizeofSlot then 0 else page.upper - page.lower - sizeofSlot

def setSlot (page : TablePage) (slotId : Nat) (stored : StoredRecord) : TablePage :=
  { page with slots := fun i => if i = slotId then some stored else page.slots i }

/-- `TablePage::InsertRecord`: the slot number, the record as it was stamped,
and the page. -/
def insertRecord (page : TablePage) (record : Record) (xid : Nat) (cid : Nat) :
    Nat × Record × TablePage :=
  let count := page.getRecordCount
  let stamped := { record with header := { record.header with cid := cid, xmin := xid } }
  let grown :=
    { page with
      lower := (page.lower + sizeofSlot) % 2 ^ 16
      upper := (page.upper + 2 ^ 16 - record.getSize) % 2 ^ 16 }
  let filled := grown.setSlot count ⟨⟨grown.upper, record.getSize⟩, stamped⟩
  ((filled.getRecordCount + 2 ^ 16 - 1) % 2 ^ 16, stamped, filled)

/-- Rewrite the header of the record in a slot; `none` where the slot was never
written, so that the source would follow an uninitialised offset. -/
def modifyHeader (page : TablePage) (slotId : Nat) (f : RecordHeader → RecordHeader) :
    Option TablePage :=
  (page.slots slotId).map fun stored =>
    page.setSlot slotId
      { stored with record := { stored.record with header := f stored.record.header } }

def deleteRecord (page : TablePage) (slotId : Nat) (xid : Nat) : Option TablePage :=
  page.modifyHeader slotId fun header => { header with deleted := true, xmax := xid }

def undoDeleteRecord (page : TablePage) (slotId : Nat) : Option TablePage :=
  page.modifyHeader slotId fun header => { header with deleted := false, xmax := nullXid }

/-- `TablePage::RedoInsertRecord`; `page_offset` is not used by the source
either. `none` where the copy would leave the record area. -/
def redoInsertRecord (page : TablePage) (slotId : Nat) (rawRecord : Record)
    (recordSize : Nat) : Option TablePage :=
  if page.lower + sizeofSlot + recordSize ≤ page.upper then
    some ({ page with
      lower := page.lower + sizeofSlot
      upper := page.upper - recordSize }.setSlot slotId
        ⟨⟨page.upper - recordSize, recordSize⟩, rawRecord⟩)
  else
    none

def getRecord (page : TablePage) (slotId : Nat) : Option Record :=
  (page.slots slotId).map StoredRecord.record

def setNextPageId (page : TablePage) (pageId : Nat) : TablePage :=
  { page with nextPageId := pageId }

def setPageLsn (page : TablePage) (pageLsn : Nat) : TablePage :=
  { page with pageLsn := pageLsn }

@[simp] theorem setPageLsn_slots (page : TablePage) (pageLsn : Nat) :
    (page.setPageLsn pageLsn).slots = page.slots := rfl

@[simp] theorem setPageLsn_nextPageId (page : TablePage) (pageLsn : Nat) :
    (page.setPageLsn pageLsn).nextPageId = page.nextPageId := rfl

end TablePage

end HuaDB
