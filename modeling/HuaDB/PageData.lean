import HuaDB.Lib.ByteFile
import HuaDB.RecordCodec

/-!
The memory of a page under `table/table_page.cpp`: `DB_PAGE_SIZE` bytes, which the fields of
the header, the slot array and the records share.

`TablePage::InsertRecord` checks none of its writes. Here a write or a read past the end of
the page is a memory fault; one inside the page that goes over other data is not.

`Laid` is the layout of a page: the slots are those up to `lower`, and their records fill
what lies above `upper`. `insertRecord_spec` and `deleteRecord_spec` say what the two
operations do to a page laid out so, byte by byte.
-/

namespace HuaDB

structure PageData where
  file : ByteFile
  size_eq : file.size = dbPageSize

namespace PageData

/-- A page of zeros. -/
def zeros : PageData := ⟨.zeros dbPageSize, rfl⟩

/-! ## Bytes and numbers -/

/-- The bytes from an offset on. -/
def bytes (page : PageData) (offset count : Nat) : List UInt8 := page.file.window offset count

/-- Bytes copied to an offset. -/
def poke (page : PageData) (offset : Nat) (data : List UInt8)
    (h : offset + data.length ≤ dbPageSize) : PageData where
  file := page.file.write offset data
  size_eq := by
    by_cases hnil : data = []
    · rw [hnil]
      exact page.size_eq
    · rw [page.file.size_write hnil, page.size_eq]
      exact Nat.max_eq_left h

/-- Bytes copied to an offset that the code does not check. -/
def copy (page : PageData) (offset : Nat) (data : List UInt8) : Except DbError PageData :=
  if h : offset + data.length ≤ dbPageSize then .ok (page.poke offset data h)
  else .error .memoryFault

/-- The number of some width at an offset. -/
def field (page : PageData) (offset width : Nat) : Nat := decodeNat (page.bytes offset width)

def setField (page : PageData) (offset width value : Nat) (h : offset + width ≤ dbPageSize) :
    PageData :=
  page.poke offset (encodeNat width value) (by rwa [length_encodeNat])

/-- What a decoder reads from an offset on. -/
def readAt {α : Type} (page : PageData) (offset : Nat) (decoder : Decoder α) :
    Except DbError α :=
  match decoder (page.bytes offset (dbPageSize - offset)) with
  | some (a, _) => .ok a
  | none => .error .memoryFault

/-! ## `TablePage` -/

def pageLsn (page : PageData) : Nat := page.field 0 8
def nextPageId (page : PageData) : Nat := page.field 8 4
def lower (page : PageData) : Nat := page.field 12 2
def upper (page : PageData) : Nat := page.field 14 2

def setPageLsn (page : PageData) (pageLsn : Nat) : PageData :=
  page.setField 0 8 pageLsn (by decide)
def setNextPageId (page : PageData) (pageId : Nat) : PageData :=
  page.setField 8 4 pageId (by decide)
def setLower (page : PageData) (lower : Nat) : PageData := page.setField 12 2 lower (by decide)
def setUpper (page : PageData) (upper : Nat) : PageData := page.setField 14 2 upper (by decide)

/-- Where `slots_[slot_id]` lies. -/
def slotOffset (slotId : Nat) : Nat := pageHeaderSize + sizeofSlot * slotId

/-- `slots_[slot_id]`, inside the page. -/
def slot (page : PageData) (slotId : Nat) : Slot where
  offset := page.field (slotOffset slotId) 2
  size := page.field (slotOffset slotId + 2) 2

def getSlot (page : PageData) (slotId : Nat) : Except DbError Slot :=
  if slotOffset (slotId + 1) ≤ dbPageSize then .ok (page.slot slotId) else .error .memoryFault

def setSlot (page : PageData) (slotId : Nat) (slot : Slot) : Except DbError PageData :=
  page.copy (slotOffset slotId) (encodeNat 2 slot.offset ++ encodeNat 2 slot.size)

/-- `Init`. -/
def init (page : PageData) : PageData :=
  (((page.setPageLsn 0).setNextPageId nullPageId).setLower pageHeaderSize).setUpper dbPageSize

/-- `(*lower_ - PAGE_HEADER_SIZE) / sizeof(Slot)`, computed in `size_t`. -/
def getRecordCount (page : PageData) : Nat :=
  (2 ^ 64 + page.lower - pageHeaderSize) % 2 ^ 64 / sizeofSlot % 2 ^ 16

def getFreeSpaceSize (page : PageData) : Nat :=
  if page.upper < page.lower + sizeofSlot then 0 else page.upper - page.lower - sizeofSlot

/-- The copies of `Record::SerializeTo`, from where the record starts. -/
def writeCopies (page : PageData) (base : Nat) :
    List (Nat × List UInt8) → Except DbError PageData
  | [] => .ok page
  | (offset, data) :: copies => do
      let page ← page.copy (base + offset) data
      page.writeCopies base copies

/-- `InsertRecord`: the slot number and the page. -/
def insertRecord (page : PageData) (record : DataRecord) (xid cid : Nat) :
    Except DbError (Nat × PageData) :=
  let count := page.getRecordCount
  let grown := page.setLower (page.lower + sizeofSlot)
  let grown := grown.setUpper (grown.upper + 2 ^ 16 - record.getSize)
  let upper := grown.upper
  match (record.stamp xid cid).serializeTo with
  | .error _ => .error (.dbException "Unknown value type in SerializeTo")
  | .ok (copies, _) => do
      let page ← grown.setSlot count ⟨upper, record.getSize⟩
      let page ← page.writeCopies upper copies
      return ((page.getRecordCount + 2 ^ 16 - 1) % 2 ^ 16, page)

/-- `DeleteRecord`. -/
def deleteRecord (page : PageData) (slotId xid : Nat) : Except DbError PageData := do
  let slot ← page.getSlot slotId
  let header ← page.readAt slot.offset RecordHeader.deserializeFrom
  page.copy slot.offset { header with deleted := true, xmax := xid }.serializeTo

/-- `GetRecord`. -/
def getRecord (page : PageData) (slotId : Nat) (columns : ColumnList) :
    Except DbError (RecordHeader × List Value) := do
  let slot ← page.getSlot slotId
  page.readAt slot.offset (DataRecord.deserializeFrom columns)

/-! ## What the writes leave alone -/

section

variable {page page' : PageData} {offset count : Nat} {data : List UInt8}

/-- Two pages agree from a position up to another. -/
def Agree (page page' : PageData) (lo hi : Nat) : Prop :=
  ∀ p, lo ≤ p → p < hi → page'.file.content p = page.file.content p

theorem Agree.refl (page : PageData) (lo hi : Nat) : Agree page page lo hi := fun _ _ _ => rfl

theorem Agree.trans {page'' : PageData} {lo hi : Nat} (h : Agree page page' lo hi)
    (h' : Agree page' page'' lo hi) : Agree page page'' lo hi :=
  fun p hlo hhi => (h' p hlo hhi).trans (h p hlo hhi)

theorem Agree.symm {lo hi : Nat} (h : Agree page page' lo hi) : Agree page' page lo hi :=
  fun p hlo hhi => (h p hlo hhi).symm

theorem Agree.append {lo mid hi : Nat} (h : Agree page page' lo mid) (h' : Agree page page' mid hi) :
    Agree page page' lo hi := by
  intro p hlo hhi
  rcases Nat.lt_or_ge p mid with hlt | hge
  · exact h p hlo hlt
  · exact h' p hge hhi

theorem Agree.mono {lo hi lo' hi' : Nat} (h : Agree page page' lo hi) (hlo : lo ≤ lo')
    (hhi : hi' ≤ hi) : Agree page page' lo' hi' :=
  fun p hp hlt => h p (Nat.le_trans hlo hp) (Nat.lt_of_lt_of_le hlt hhi)

theorem Agree.bytes_eq {lo hi : Nat} (h : Agree page page' lo hi) (hlo : lo ≤ offset)
    (hhi : offset + count ≤ hi) : page'.bytes offset count = page.bytes offset count :=
  ByteFile.window_congr page.file fun p hp hlt => h p (by omega) (by omega)

theorem Agree.field_eq {lo hi : Nat} (h : Agree page page' lo hi) (hlo : lo ≤ offset)
    (hhi : offset + count ≤ hi) : page'.field offset count = page.field offset count := by
  rw [field, field, h.bytes_eq hlo hhi]

theorem agree_poke (h : offset + data.length ≤ dbPageSize) {lo hi : Nat}
    (hout : hi ≤ offset ∨ offset + data.length ≤ lo) : Agree page (page.poke offset data h) lo hi := by
  intro p hlo hhi
  apply ByteFile.content_write_of_outside
  omega

theorem bytes_poke (page : PageData) (h : offset + data.length ≤ dbPageSize) :
    (page.poke offset data h).bytes offset data.length = data :=
  ByteFile.window_write_self page.file offset data

theorem copy_of_le (h : offset + data.length ≤ dbPageSize) :
    page.copy offset data = .ok (page.poke offset data h) := by
  rw [copy, dif_pos h]

theorem le_of_copy (h : page.copy offset data = .ok page') : offset + data.length ≤ dbPageSize := by
  by_contra hlt
  rw [copy, dif_neg hlt] at h
  cases h

theorem agree_of_bytes_eq (h : page'.bytes offset count = page.bytes offset count) :
    Agree page page' offset (offset + count) :=
  fun _ hlo hhi => ByteFile.content_eq_of_window_eq page.file h hlo hhi

theorem Agree.poke {lo hi : Nat} (h : Agree page page' lo hi)
    (hle : offset + data.length ≤ dbPageSize) :
    Agree (page.poke offset data hle) (page'.poke offset data hle) lo hi := by
  intro p hlo hhi
  rw [PageData.poke, PageData.poke, ByteFile.content_write, ByteFile.content_write, h p hlo hhi]

/-- One copy to pages that agree leaves them so. -/
theorem Agree.copy {lo hi : Nat} {next : PageData} (h : Agree page page' lo hi)
    (hcopy : page.copy offset data = .ok next) :
    ∃ next', page'.copy offset data = .ok next' ∧ Agree next next' lo hi := by
  have hle := le_of_copy hcopy
  rw [copy_of_le hle] at hcopy
  cases hcopy
  exact ⟨_, copy_of_le hle, h.poke hle⟩

theorem eq_of_content_eq (h : page'.file.content = page.file.content) : page' = page := by
  rcases page with ⟨⟨size, content, hzero⟩, hsize⟩
  rcases page' with ⟨⟨size', content', hzero'⟩, hsize'⟩
  cases hsize
  cases hsize'
  cases h
  rfl

/-- Bytes copied to where they are change nothing. -/
theorem copy_bytes (page : PageData) (h : offset + count ≤ dbPageSize) :
    page.copy offset (page.bytes offset count) = .ok page := by
  have hlength : (page.bytes offset count).length = count := ByteFile.length_window _
  have hle : offset + (page.bytes offset count).length ≤ dbPageSize := by rwa [hlength]
  have hbytes := bytes_poke page hle
  rw [copy_of_le hle]
  congr 1
  apply eq_of_content_eq
  funext p
  by_cases hout : p < offset ∨ offset + (page.bytes offset count).length ≤ p
  · exact ByteFile.content_write_of_outside _ hout
  · rw [hlength] at hbytes hout
    exact agree_of_bytes_eq hbytes p (by omega) (by omega)

/-- Bytes are copied in two parts. -/
theorem copy_append (page : PageData) (data data' : List UInt8) :
    page.copy offset (data ++ data') =
      page.copy offset data >>= fun page => page.copy (offset + data.length) data' := by
  by_cases hle : offset + (data ++ data').length ≤ dbPageSize
  · have hsplit := hle
    rw [List.length_append, ← Nat.add_assoc] at hsplit
    rw [copy_of_le hle, copy_of_le (Nat.le_trans (Nat.le_add_right _ _) hsplit)]
    change _ = PageData.copy _ _ _
    rw [copy_of_le hsplit]
    congr 1
    apply eq_of_content_eq
    funext p
    rw [poke, poke, poke, ByteFile.content_write, ByteFile.content_write, ByteFile.content_write,
      placed_append]
    cases placed (offset + data.length) data' p <;> rfl
  · rw [copy, dif_neg hle]
    rw [List.length_append, ← Nat.add_assoc] at hle
    by_cases hfirst : offset + data.length ≤ dbPageSize
    · rw [copy_of_le hfirst]
      change _ = PageData.copy _ _ _
      rw [copy, dif_neg hle]
    · rw [copy, dif_neg hfirst]
      rfl

theorem agree_setField {width value : Nat} (h : offset + width ≤ dbPageSize) {lo hi : Nat}
    (hout : hi ≤ offset ∨ offset + width ≤ lo) :
    Agree page (page.setField offset width value h) lo hi := by
  apply agree_poke
  rwa [length_encodeNat]

theorem Agree.setField {lo hi width : Nat} (h : Agree page page' lo hi) (value : Nat)
    (hle : offset + width ≤ dbPageSize) :
    Agree (page.setField offset width value hle) (page'.setField offset width value hle) lo hi :=
  h.poke _

theorem field_setField {width value : Nat} (h : offset + width ≤ dbPageSize) :
    (page.setField offset width value h).field offset width = value % 256 ^ width := by
  have hbytes := ByteFile.window_write_self page.file offset (encodeNat width value)
  rw [length_encodeNat] at hbytes
  exact (congrArg decodeNat hbytes).trans (decodeNat_encodeNat_mod width value)

theorem field_setField_of_disjoint {width value offset' width' : Nat}
    (h : offset + width ≤ dbPageSize) (hout : offset' + width' ≤ offset ∨ offset + width ≤ offset') :
    (page.setField offset width value h).field offset' width' = page.field offset' width' :=
  (agree_setField h hout).field_eq (Nat.le_refl _) (Nat.le_refl _)

/-! ### The header -/

variable (page) (n : Nat)

@[simp] theorem lower_setLower : (page.setLower n).lower = n % 2 ^ 16 := field_setField _

@[simp] theorem upper_setLower : (page.setLower n).upper = page.upper :=
  field_setField_of_disjoint _ (by decide)

@[simp] theorem nextPageId_setLower : (page.setLower n).nextPageId = page.nextPageId :=
  field_setField_of_disjoint _ (by decide)

@[simp] theorem lower_setUpper : (page.setUpper n).lower = page.lower :=
  field_setField_of_disjoint _ (by decide)

@[simp] theorem upper_setUpper : (page.setUpper n).upper = n % 2 ^ 16 := field_setField _

@[simp] theorem nextPageId_setUpper : (page.setUpper n).nextPageId = page.nextPageId :=
  field_setField_of_disjoint _ (by decide)

@[simp] theorem nextPageId_setNextPageId : (page.setNextPageId n).nextPageId = n % 2 ^ 32 :=
  field_setField _

@[simp] theorem nextPageId_setPageLsn : (page.setPageLsn n).nextPageId = page.nextPageId :=
  field_setField_of_disjoint _ (by decide)

@[simp] theorem lower_init : page.init.lower = pageHeaderSize := by
  rw [init, lower_setUpper, lower_setLower]
  rfl

@[simp] theorem upper_init : page.init.upper = dbPageSize := by
  rw [init, upper_setUpper]
  rfl

@[simp] theorem nextPageId_init : page.init.nextPageId = nullPageId := by
  rw [init, nextPageId_setUpper, nextPageId_setLower, nextPageId_setNextPageId]
  rfl

end

/-! ## The layout -/

/-- The slots up to `lower`. -/
def slotList (page : PageData) : List Slot := (List.range page.getRecordCount).map page.slot

/-- The slots are those up to `lower`, and their records fill what lies above `upper`, the
one of the first slot at the end of the page. -/
structure Laid (page : PageData) : Prop where
  lower_eq : page.lower = slotOffset page.getRecordCount
  lower_le : page.lower ≤ page.upper
  tiles : Tiles Slot.offset Slot.size page.upper page.slotList.reverse dbPageSize
  header_le : ∀ slot ∈ page.slotList, recordHeaderSize ≤ slot.size

section

variable {page page' : PageData} {slotId : Nat}

theorem getRecordCount_of_lower {n : Nat} (h : page.lower = slotOffset n)
    (hle : page.lower ≤ dbPageSize) : page.getRecordCount = n := by
  rw [slotOffset, pageHeaderSize, sizeofSlot] at h
  rw [dbPageSize] at hle
  rw [getRecordCount, h, pageHeaderSize, sizeofSlot]
  omega

theorem getRecordCount_congr (h : page'.lower = page.lower) :
    page'.getRecordCount = page.getRecordCount := by
  rw [getRecordCount, getRecordCount, h]

theorem Agree.slot_eq {lo hi : Nat} (h : Agree page page' lo hi) (hlo : lo ≤ slotOffset slotId)
    (hhi : slotOffset (slotId + 1) ≤ hi) : page'.slot slotId = page.slot slotId := by
  have hnext : slotOffset (slotId + 1) = slotOffset slotId + 4 := by
    rw [slotOffset, slotOffset, sizeofSlot]
    omega
  rw [slot, slot, h.field_eq hlo (by omega), h.field_eq (by omega) (by omega)]

theorem length_slotList : page.slotList.length = page.getRecordCount := by
  rw [slotList, List.length_map, List.length_range]

theorem slot_mem_slotList (h : slotId < page.getRecordCount) : page.slot slotId ∈ page.slotList :=
  List.mem_map_of_mem (List.mem_range.mpr h)

theorem getElem?_slotList (h : slotId < page.getRecordCount) :
    page.slotList[slotId]? = some (page.slot slotId) := by
  rw [slotList, List.getElem?_map, List.getElem?_range h]
  rfl

/-- Slots that were appended leave those there as they were. -/
theorem slot_eq_of_slotList_eq_append {rest : List Slot} (h : page'.slotList = page.slotList ++ rest)
    (hslot : slotId < page.getRecordCount) :
    slotId < page'.getRecordCount ∧ page'.slot slotId = page.slot slotId := by
  have hlt : slotId < page'.getRecordCount := by
    rw [← length_slotList, h, List.length_append, length_slotList]
    omega
  refine ⟨hlt, ?_⟩
  have hslots := getElem?_slotList hlt
  rw [h, List.getElem?_append_left (by rwa [length_slotList]), getElem?_slotList hslot] at hslots
  exact (Option.some.inj hslots).symm

namespace Laid

theorem upper_le (h : page.Laid) : page.upper ≤ dbPageSize := h.tiles.le

theorem slotOffset_le (h : page.Laid) (hslot : slotId < page.getRecordCount) :
    slotOffset (slotId + 1) ≤ page.upper := by
  have hlower := h.lower_eq
  have hle := h.lower_le
  rw [slotOffset] at hlower ⊢
  have hmul : sizeofSlot * (slotId + 1) ≤ sizeofSlot * page.getRecordCount :=
    Nat.mul_le_mul_left _ hslot
  omega

theorem bounds (h : page.Laid) {slot : Slot} (hslot : slot ∈ page.slotList) :
    page.upper ≤ slot.offset ∧ slot.offset + slot.size ≤ dbPageSize :=
  h.tiles.bounds_of_mem (List.mem_reverse.mpr hslot)

/-- The slots and the fields from `lower` on are all that the layout is about. -/
theorem congr (h : page.Laid) (hagree : Agree page page' 12 page.upper) : page'.Laid ∧
    page'.slotList = page.slotList := by
  have hle : slotOffset page.getRecordCount ≤ page.upper := h.lower_eq ▸ h.lower_le
  have hroom : 16 ≤ page.upper := Nat.le_trans (Nat.le_add_right _ _) hle
  have hlower : page'.lower = page.lower := hagree.field_eq (by decide) (by omega)
  have hupper' : page'.upper = page.upper := hagree.field_eq (by decide) (by omega)
  have hcount := getRecordCount_congr hlower
  have hslots : page'.slotList = page.slotList := by
    rw [slotList, slotList, hcount]
    apply List.map_congr_left
    intro i hi
    apply hagree.slot_eq
    · rw [slotOffset, pageHeaderSize]
      omega
    · exact h.slotOffset_le (List.mem_range.mp hi)
  refine ⟨⟨?_, ?_, ?_, ?_⟩, hslots⟩
  · rw [hlower, hcount, h.lower_eq]
  · rw [hlower, hupper']
    exact h.lower_le
  · rw [hupper', hslots]
    exact h.tiles
  · rw [hslots]
    exact h.header_le

end Laid

/-- Two ranges of bytes that do not meet. -/
def Disjoint (a b : Slot) : Prop := a.offset + a.size ≤ b.offset ∨ b.offset + b.size ≤ a.offset

/-- What a reader of a page relies on. -/
structure WellFormed (page : PageData) : Prop where
  header_le : pageHeaderSize ≤ page.lower
  lower_le : page.lower ≤ page.upper
  upper_le : page.upper ≤ dbPageSize
  inside : ∀ slot ∈ page.slotList, page.upper ≤ slot.offset ∧ slot.offset + slot.size ≤ dbPageSize
  disjoint : page.slotList.Pairwise Disjoint

theorem Laid.wellFormed (h : page.Laid) : page.WellFormed where
  header_le := by
    rw [h.lower_eq]
    exact Nat.le_add_right _ _
  lower_le := h.lower_le
  upper_le := h.upper_le
  inside _ hslot := h.bounds hslot
  disjoint := (List.pairwise_reverse.mp h.tiles.pairwise_end_le).imp Or.inr

theorem WellFormed.disjoint_slots (h : page.WellFormed) {i j : Nat}
    (hi : i < page.getRecordCount) (hj : j < page.getRecordCount) (hne : i ≠ j) :
    Disjoint (page.slot i) (page.slot j) := by
  have hpairwise := List.pairwise_iff_getElem.mp h.disjoint
  have hlt : ∀ {k l : Nat}, k < page.getRecordCount → l < page.getRecordCount → k < l →
      Disjoint (page.slot k) (page.slot l) := by
    intro k l hk hl hkl
    have hslots := hpairwise k l (by rwa [length_slotList]) (by rwa [length_slotList]) hkl
    simpa only [slotList, List.getElem_map, List.getElem_range] using hslots
  rcases Nat.lt_or_gt_of_ne hne with hij | hji
  · exact hlt hi hj hij
  · exact (hlt hj hi hji).symm

/-- A page that was initialised has no slots, whatever the memory held. -/
theorem laid_init (page : PageData) : page.init.Laid ∧ page.init.slotList = [] := by
  have hcount : page.init.getRecordCount = 0 :=
    getRecordCount_of_lower (page.lower_init) (by rw [lower_init]; decide)
  have hslots : page.init.slotList = [] := by
    rw [slotList, hcount]
    rfl
  refine ⟨⟨?_, ?_, ?_, ?_⟩, hslots⟩
  · rw [lower_init, hcount]
    rfl
  · rw [lower_init, upper_init]
    decide
  · rw [hslots, upper_init]
    rfl
  · rw [hslots]
    intro slot hslot
    cases hslot

end

/-! ## `InsertRecord` -/

section

variable {page page' : PageData} {record : DataRecord} {copies : List (Nat × List UInt8)}
  {base start stop : Nat}

/-- Copies that lie one after the other leave their bytes, and nothing else. -/
theorem writeCopies_spec (page : PageData)
    (htiles : Tiles Prod.fst (fun copy => copy.2.length) start copies stop)
    (hle : base + stop ≤ dbPageSize) :
    ∃ page', page.writeCopies base copies = .ok page' ∧ Agree page page' 0 (base + start) ∧
      Agree page page' (base + stop) dbPageSize ∧
      page'.bytes (base + start) (DataRecord.payload copies).length = DataRecord.payload copies := by
  induction copies generalizing page start with
  | nil => exact ⟨page, rfl, .refl _ _ _, .refl _ _ _, rfl⟩
  | cons copy copies ih =>
      obtain ⟨offset, data⟩ := copy
      obtain ⟨hoffset, htiles⟩ := htiles
      dsimp only at hoffset htiles
      subst hoffset
      have hstop := htiles.le
      have hinside : base + offset + data.length ≤ dbPageSize := by omega
      obtain ⟨page', hwrite, hbelow, habove, hbytes⟩ :=
        ih (page.poke (base + offset) data hinside) htiles
      rw [← Nat.add_assoc] at hbelow hbytes
      have hdata : page'.bytes (base + offset) data.length = data := by
        rw [hbelow.bytes_eq (Nat.zero_le _) (Nat.le_refl _), bytes_poke page hinside]
      refine ⟨page', ?_, ?_, ?_, ?_⟩
      · rw [writeCopies, copy_of_le hinside]
        exact hwrite
      · exact (agree_poke hinside (.inl (Nat.le_refl _))).trans
          (hbelow.mono (Nat.le_refl _) (Nat.le_add_right _ _))
      · exact (agree_poke hinside (.inr (by omega))).trans habove
      · rw [DataRecord.payload, List.flatMap_cons, List.length_append, bytes,
          ByteFile.window_append]
        exact congrArg₂ (· ++ ·) hdata hbytes

theorem copy_of_lt {offset : Nat} {data : List UInt8} (h : dbPageSize < offset + data.length) :
    page.copy offset data = .error .memoryFault := by
  rw [copy, dif_neg (Nat.not_le.mpr h)]

/-- A copy that goes past the end of the page. -/
theorem writeCopies_of_lt (h : ∃ copy ∈ copies, dbPageSize < base + copy.1 + copy.2.length) :
    page.writeCopies base copies = .error .memoryFault := by
  induction copies generalizing page with
  | nil =>
      obtain ⟨copy, hmem, -⟩ := h
      cases hmem
  | cons copy copies ih =>
      by_cases hlt : dbPageSize < base + copy.1 + copy.2.length
      · rw [writeCopies, copy_of_lt hlt]
        rfl
      · rw [writeCopies, copy_of_le (Nat.not_lt.mp hlt)]
        apply ih
        obtain ⟨copy', hmem, hlt'⟩ := h
        rcases List.mem_cons.mp hmem with rfl | hmem
        · exact absurd hlt' hlt
        · exact ⟨copy', hmem, hlt'⟩

/-- What an insertion of some bytes does to a page. -/
structure Inserted (page page' : PageData) (bytes : List UInt8) : Prop where
  laid : page'.Laid
  slotList_eq : page'.slotList = page.slotList ++ [⟨page.upper - bytes.length, bytes.length⟩]
  nextPageId_eq : page'.nextPageId = page.nextPageId
  bytes_eq : page'.bytes (page.upper - bytes.length) bytes.length = bytes
  agree : Agree page page' page.upper dbPageSize

/-- The page LSN is none of this. -/
theorem Inserted.setPageLsn {bytes : List UInt8} (h : Inserted page page' bytes) (lsn : Nat) :
    Inserted page (page'.setPageLsn lsn) bytes := by
  have hagree : Agree page' (page'.setPageLsn lsn) 8 dbPageSize := agree_setField _ (.inr (by decide))
  have hlaid := h.laid
  obtain ⟨hlaid', hslots⟩ := hlaid.congr (hagree.mono (by decide) hlaid.upper_le)
  have hmem : (⟨page.upper - bytes.length, bytes.length⟩ : Slot) ∈ page'.slotList := by
    rw [h.slotList_eq]
    exact List.mem_append_right _ (List.mem_singleton_self _)
  obtain ⟨hlow, hhigh⟩ := hlaid.bounds hmem
  have hupper : 8 ≤ page'.upper := Nat.le_trans (by decide) (hlaid.wellFormed.header_le.trans hlaid.lower_le)
  refine ⟨hlaid', hslots.trans h.slotList_eq, ?_, ?_, ?_⟩
  · rw [nextPageId_setPageLsn, h.nextPageId_eq]
  · rw [hagree.bytes_eq (Nat.le_trans hupper hlow) hhigh, h.bytes_eq]
  · have hle : page.upper - bytes.length ≤ page.upper := Nat.sub_le _ _
    dsimp only at hlow
    exact h.agree.trans (hagree.mono (by omega) (Nat.le_refl _))

theorem getFreeSpaceSize_le {size : Nat} (hpos : 0 < size) (h : size ≤ page.getFreeSpaceSize) :
    page.lower + sizeofSlot + size ≤ page.upper := by
  rw [getFreeSpaceSize] at h
  split at h <;> omega

theorem slotOffset_succ (slotId : Nat) : slotOffset (slotId + 1) = slotOffset slotId + sizeofSlot := by
  rw [slotOffset, slotOffset, Nat.mul_succ, Nat.add_assoc]

/-- A slot that was written is read. -/
theorem setSlot_spec (page : PageData) {slotId : Nat} (slot : Slot) (hle : slotOffset (slotId + 1) ≤ dbPageSize)
    (hoffset : slot.offset < 2 ^ 16) (hsize : slot.size < 2 ^ 16) :
    ∃ page', page.setSlot slotId slot = .ok page' ∧ Agree page page' 0 (slotOffset slotId) ∧
      Agree page page' (slotOffset (slotId + 1)) dbPageSize ∧ page'.slot slotId = slot := by
  have hlength : (encodeNat 2 slot.offset ++ encodeNat 2 slot.size).length = sizeofSlot := by
    rw [List.length_append, length_encodeNat, length_encodeNat]
    rfl
  rw [slotOffset_succ, ← hlength] at hle ⊢
  refine ⟨page.poke _ _ hle, copy_of_le hle, agree_poke hle (.inl (Nat.le_refl _)),
    agree_poke hle (.inr (Nat.le_refl _)), ?_⟩
  have hbytes := bytes_poke page hle
  rw [hlength, bytes, show sizeofSlot = 2 + 2 from rfl, ByteFile.window_append] at hbytes
  have hparts := List.append_inj hbytes
    (by rw [ByteFile.length_window, length_encodeNat])
  rw [PageData.slot, field, field, bytes, bytes, hparts.1, hparts.2, decodeNat_encodeNat hoffset,
    decodeNat_encodeNat hsize]

/-- The page with its two pointers moved for a record of some size. -/
def grow (page : PageData) (size : Nat) : PageData :=
  let lowered := page.setLower (page.lower + sizeofSlot)
  lowered.setUpper (lowered.upper + 2 ^ 16 - size)

/-- What the pointers are on a page with room for the record. -/
structure Grown (page grown : PageData) (size : Nat) : Prop where
  lower_eq : grown.lower = slotOffset (page.getRecordCount + 1)
  upper_eq : grown.upper = page.upper - size
  lower_le : slotOffset (page.getRecordCount + 1) ≤ grown.upper
  size_le : size ≤ page.upper
  nextPageId_eq : grown.nextPageId = page.nextPageId
  agree : Agree page grown 16 dbPageSize

theorem grow_spec {size : Nat} (hlaid : page.Laid) (hpos : 0 < size)
    (hroom : size ≤ page.getFreeSpaceSize) : Grown page (page.grow size) size := by
  have hfree := getFreeSpaceSize_le hpos hroom
  have hupper : page.upper ≤ 256 := hlaid.upper_le
  have hlower := hlaid.lower_eq
  have hgrownUpper : (page.grow size).upper = page.upper - size := by
    rw [grow, upper_setUpper, upper_setLower]
    omega
  constructor
  · rw [grow, lower_setUpper, lower_setLower, slotOffset_succ, ← hlower]
    apply Nat.mod_eq_of_lt
    omega
  · exact hgrownUpper
  · rw [slotOffset_succ, ← hlower, hgrownUpper]
    omega
  · omega
  · rw [grow, nextPageId_setUpper, nextPageId_setLower]
  · have hlowered : Agree page (page.setLower (page.lower + sizeofSlot)) 16 dbPageSize :=
      agree_setField _ (.inr (by decide))
    apply hlowered.trans
    rw [grow, setUpper]
    exact agree_setField _ (.inr (by decide))

/-- Below the slot of the record a page that has grown has one slot more. -/
theorem Grown.slotList_eq {grown : PageData} {size : Nat} (hg : Grown page grown size)
    (hlaid : page.Laid) (hfields : Agree grown page' 0 (slotOffset page.getRecordCount))
    (hslot : page'.slot page.getRecordCount = ⟨grown.upper, size⟩) :
    page'.getRecordCount = page.getRecordCount + 1 ∧
      page'.slotList = page.slotList ++ [⟨page.upper - size, size⟩] := by
  have hupper : page.upper ≤ 256 := hlaid.upper_le
  have hroom := hg.lower_le
  rw [hg.upper_eq] at hroom
  have hsucc := slotOffset_succ page.getRecordCount
  have hbase : 16 ≤ slotOffset page.getRecordCount := Nat.le_add_right _ _
  have hlower : page'.lower = slotOffset (page.getRecordCount + 1) :=
    (hfields.field_eq (Nat.zero_le _) (by omega)).trans hg.lower_eq
  have hcount : page'.getRecordCount = page.getRecordCount + 1 :=
    getRecordCount_of_lower hlower (by rw [hlower, dbPageSize]; omega)
  refine ⟨hcount, ?_⟩
  rw [slotList, hcount, List.range_succ, List.map_append, List.map_singleton, hslot, hg.upper_eq]
  congr 1
  apply List.map_congr_left
  intro i hi
  rw [List.mem_range] at hi
  have hi' : slotOffset (i + 1) ≤ slotOffset page.getRecordCount :=
    Nat.add_le_add_left (Nat.mul_le_mul_left _ hi) _
  rw [hfields.slot_eq (Nat.zero_le _) hi']
  exact hg.agree.slot_eq (Nat.le_add_right _ _) (by rw [dbPageSize]; omega)

/-- A record below the others leaves the page laid out as it should be. -/
theorem Laid.push {size : Nat} (hlaid : page.Laid) (hsize : size ≤ page.upper)
    (hheader : recordHeaderSize ≤ size) (hlower : page'.lower = slotOffset page'.getRecordCount)
    (hupper : page'.upper = page.upper - size) (hle : page'.lower ≤ page'.upper)
    (hslots : page'.slotList = page.slotList ++ [⟨page.upper - size, size⟩]) : page'.Laid := by
  refine ⟨hlower, hle, ?_, ?_⟩
  · rw [hslots, hupper, List.reverse_append]
    refine ⟨rfl, ?_⟩
    dsimp only
    rw [Nat.sub_add_cancel hsize]
    exact hlaid.tiles
  · rw [hslots]
    intro slot hmem
    rcases List.mem_append.mp hmem with hmem | hmem
    · exact hlaid.header_le slot hmem
    · cases List.mem_singleton.mp hmem
      exact hheader

/-- The slot and the record are written to the page that has grown. -/
theorem insertRecord_eq_ok {xid cid last : Nat} {slotted : PageData}
    (hserialize : (record.stamp xid cid).serializeTo = .ok (copies, last))
    (hslotted : (page.grow record.getSize).setSlot page.getRecordCount
      ⟨(page.grow record.getSize).upper, record.getSize⟩ = .ok slotted)
    (hwrite : slotted.writeCopies (page.grow record.getSize).upper copies = .ok page') :
    page.insertRecord record xid cid =
      .ok ((page'.getRecordCount + 2 ^ 16 - 1) % 2 ^ 16, page') := by
  have hrun : page.insertRecord record xid cid = (do
      let slotted ← (page.grow record.getSize).setSlot page.getRecordCount
        ⟨(page.grow record.getSize).upper, record.getSize⟩
      let page ← slotted.writeCopies (page.grow record.getSize).upper copies
      return ((page.getRecordCount + 2 ^ 16 - 1) % 2 ^ 16, page)) := by
    rw [insertRecord, hserialize]
    rfl
  rw [hrun, hslotted]
  change (slotted.writeCopies (page.grow record.getSize).upper copies >>= _) = _
  rw [hwrite]
  rfl

/-- On a page with room a record whose size is the number of its bytes goes below the
others. -/
theorem insertRecord_spec {xid cid last : Nat} (hlaid : page.Laid)
    (hserialize : (record.stamp xid cid).serializeTo = .ok (copies, last))
    (hbits : record.nullBitmap.bits.length ≤ 2 ^ 13)
    (hsize : record.getSize = DataRecord.written copies)
    (hroom : record.getSize ≤ page.getFreeSpaceSize) :
    ∃ page', page.insertRecord record xid cid = .ok (page.getRecordCount, page') ∧
      Inserted page page' (DataRecord.payload copies) := by
  have hheader : recordHeaderSize ≤ record.getSize := by
    rw [hsize, DataRecord.written_eq hserialize]
    omega
  have hupper : page.upper ≤ 256 := hlaid.upper_le
  have hg := grow_spec hlaid (Nat.lt_of_lt_of_le (by decide) hheader) hroom
  have hgrownUpper := hg.upper_eq
  have hgrownLower := hg.lower_le
  have hsucc := slotOffset_succ page.getRecordCount
  have hbase : 16 ≤ slotOffset page.getRecordCount := Nat.le_add_right _ _
  -- the slot
  have hslotInside : slotOffset (page.getRecordCount + 1) ≤ dbPageSize := by
    rw [dbPageSize]
    omega
  obtain ⟨slotted, hslotted, hbelow, habove, hslot⟩ := setSlot_spec (page.grow record.getSize)
    ⟨(page.grow record.getSize).upper, record.getSize⟩ hslotInside (by dsimp only; omega)
    (by dsimp only; omega)
  -- the record
  have hstampedBits : (record.stamp xid cid).nullBitmap.bits.length ≤ 2 ^ 13 := hbits
  have htiles := DataRecord.serializeTo_tiles hstampedBits hserialize (by omega)
  have htop : (page.grow record.getSize).upper + DataRecord.written copies = page.upper := by
    rw [hgrownUpper, ← hsize, Nat.sub_add_cancel hg.size_le]
  obtain ⟨page', hwrite, hunder, hover, hbytes⟩ := writeCopies_spec slotted htiles
    (htop.trans_le hlaid.upper_le)
  rw [Nat.add_zero] at hunder hbytes
  rw [htop] at hover
  -- what the page holds in the end
  have hfields : Agree (page.grow record.getSize) page' 0 (slotOffset page.getRecordCount) :=
    hbelow.trans (hunder.mono (Nat.le_refl _) (by omega))
  obtain ⟨hcount, hslots⟩ := hg.slotList_eq hlaid hfields
    ((hunder.slot_eq (Nat.zero_le _) hgrownLower).trans hslot)
  have hlower' : page'.lower = slotOffset (page.getRecordCount + 1) :=
    (hfields.field_eq (Nat.zero_le _) (by omega)).trans hg.lower_eq
  have hupper' : page'.upper = page.upper - record.getSize :=
    (hfields.field_eq (Nat.zero_le _) (by omega)).trans hgrownUpper
  have hlength : (DataRecord.payload copies).length = record.getSize := by
    rw [DataRecord.length_payload, hsize]
  have hresult : (page'.getRecordCount + 2 ^ 16 - 1) % 2 ^ 16 = page.getRecordCount := by
    rw [slotOffset, pageHeaderSize, sizeofSlot] at hgrownLower
    omega
  refine ⟨page', ?_, ?_, ?_, ?_, ?_, ?_⟩
  · rw [insertRecord_eq_ok hserialize hslotted hwrite, hresult]
  · apply hlaid.push hg.size_le hheader _ hupper' _ hslots
    · rw [hlower', hcount]
    · rw [hlower', hupper', ← hgrownUpper]
      exact hgrownLower
  · rw [hslots, hlength]
  · exact (hfields.field_eq (Nat.zero_le _) (by omega)).trans hg.nextPageId_eq
  · rw [hlength] at hbytes ⊢
    rw [← hgrownUpper]
    exact hbytes
  · refine (hg.agree.mono ?_ (Nat.le_refl _)).trans ((habove.mono ?_ (Nat.le_refl _)).trans hover)
    · omega
    · omega

/-- A record with a value longer than the page goes past its end. -/
theorem insertRecord_of_lt {xid cid last : Nat}
    (hserialize : (record.stamp xid cid).serializeTo = .ok (copies, last))
    (h : ∃ copy ∈ copies, dbPageSize < copy.2.length) :
    page.insertRecord record xid cid = .error .memoryFault := by
  rw [insertRecord, hserialize]
  dsimp only
  obtain ⟨copy, hmem, hlt⟩ := h
  have hwrite : ∀ (slotted : PageData) (base : Nat),
      slotted.writeCopies base copies = .error .memoryFault :=
    fun slotted base => writeCopies_of_lt ⟨copy, hmem, by omega⟩
  rw [setSlot, PageData.copy]
  split
  · dsimp only [bind, Except.bind]
    rw [hwrite]
  · rfl

/-- The writes of an insertion that ends. -/
theorem exists_of_insertRecord {xid cid : Nat} {result : Nat × PageData}
    (h : page.insertRecord record xid cid = .ok result) :
    ∃ copies last slotted, (record.stamp xid cid).serializeTo = .ok (copies, last) ∧
      (page.grow record.getSize).setSlot page.getRecordCount
        ⟨(page.grow record.getSize).upper, record.getSize⟩ = .ok slotted ∧
      slotted.writeCopies (page.grow record.getSize).upper copies = .ok result.2 ∧
      result.1 = (result.2.getRecordCount + 2 ^ 16 - 1) % 2 ^ 16 := by
  rw [insertRecord] at h
  split at h
  · cases h
  · rename_i copies last hserialize
    obtain ⟨slotted, hslotted, h⟩ := Except.bind_eq_ok_iff.mp h
    obtain ⟨page', hwrite, h⟩ := Except.bind_eq_ok_iff.mp h
    have hresult : ((page'.getRecordCount + 2 ^ 16 - 1) % 2 ^ 16, page') = result := Except.ok.inj h
    rw [← hresult]
    exact ⟨copies, last, slotted, hserialize, hslotted, hwrite, rfl⟩

/-- A copy that was made lies inside the page. -/
theorem le_of_writeCopies (h : page.writeCopies base copies = .ok page') :
    ∀ copy ∈ copies, base + copy.1 + copy.2.length ≤ dbPageSize := by
  intro copy hmem
  by_contra hlt
  rw [writeCopies_of_lt ⟨copy, hmem, Nat.lt_of_not_le hlt⟩] at h
  cases h

/-- A record that is inserted was written inside the page. -/
theorem insertRecord_inside {xid cid : Nat} {result : Nat × PageData}
    (h : page.insertRecord record xid cid = .ok result) :
    ∃ copies last, (record.stamp xid cid).serializeTo = .ok (copies, last) ∧
      ∀ copy ∈ copies, copy.1 + copy.2.length ≤ dbPageSize := by
  obtain ⟨copies, last, slotted, hserialize, -, hwrite, -⟩ := exists_of_insertRecord h
  refine ⟨copies, last, hserialize, fun copy hmem => ?_⟩
  have hle := le_of_writeCopies hwrite copy hmem
  omega

end

/-! ## `GetRecord` and `DeleteRecord` -/

section

variable {page page' : PageData} {slotId xid : Nat} {data : List UInt8} {α : Type}

theorem readAt_of_decodes {decoder : Decoder α} {a : α} {offset : Nat}
    (hle : offset + data.length ≤ dbPageSize) (hbytes : page.bytes offset data.length = data)
    (h : Decodes decoder data a) : page.readAt offset decoder = .ok a := by
  obtain ⟨count, hcount⟩ := Nat.exists_eq_add_of_le (Nat.le_sub_of_add_le' hle)
  rw [bytes] at hbytes
  rw [readAt, hcount, bytes, ByteFile.window_append, hbytes, h]

theorem Laid.getSlot_eq (h : page.Laid) (hslot : slotId < page.getRecordCount) :
    page.getSlot slotId = .ok (page.slot slotId) := by
  rw [getSlot, if_pos (Nat.le_trans (h.slotOffset_le hslot) h.upper_le)]

/-- The record that the bytes of a slot hold. -/
theorem Laid.getRecord_eq (h : page.Laid) (hslot : slotId < page.getRecordCount)
    (hsize : (page.slot slotId).size = data.length)
    (hbytes : page.bytes (page.slot slotId).offset (page.slot slotId).size = data)
    {columns : ColumnList} {record : RecordHeader × List Value}
    (hdecodes : Decodes (DataRecord.deserializeFrom columns) data record) :
    page.getRecord slotId columns = .ok record := by
  rw [getRecord, h.getSlot_eq hslot]
  apply readAt_of_decodes _ _ hdecodes
  · rw [← hsize]
    exact (h.bounds (slot_mem_slotList hslot)).2
  · rw [← hsize]
    exact hbytes

/-- The slot of an insertion comes after the others. -/
theorem Inserted.slot_eq (h : Inserted page page' data) :
    page'.getRecordCount = page.getRecordCount + 1 ∧
      page'.slot page.getRecordCount = ⟨page.upper - data.length, data.length⟩ := by
  have hcount : page'.getRecordCount = page.getRecordCount + 1 := by
    rw [← length_slotList, h.slotList_eq, List.length_append, length_slotList]
    rfl
  have hlt : page.getRecordCount < page'.getRecordCount := by omega
  have hlast := getElem?_slotList hlt
  rw [h.slotList_eq, List.getElem?_append_right (by rw [length_slotList]), length_slotList,
    Nat.sub_self] at hlast
  exact ⟨hcount, (Option.some.inj hlast).symm⟩

theorem Inserted.getRecord_eq (h : Inserted page page' data) {columns : ColumnList}
    {record : RecordHeader × List Value}
    (hdecodes : Decodes (DataRecord.deserializeFrom columns) data record) :
    page'.getRecord page.getRecordCount columns = .ok record := by
  obtain ⟨hcount, hslot⟩ := h.slot_eq
  apply h.laid.getRecord_eq _ _ _ hdecodes
  · omega
  · rw [hslot]
  · rw [hslot]
    exact h.bytes_eq

/-- Any thirteen bytes are a header. -/
theorem readAt_header (page : PageData) {offset : Nat} (h : offset + recordHeaderSize ≤ dbPageSize) :
    page.readAt offset RecordHeader.deserializeFrom =
      .ok ⟨page.field offset 1 ≠ 0, page.field (offset + 1) 4, page.field (offset + 5) 4,
        page.field (offset + 9) 4⟩ := by
  have hread : ∀ position width, Decodes (readNat width) (page.bytes position width)
      (page.field position width) := by
    intro position width
    have hdecodes := decodes_readNat_bytes (page.bytes position width)
    rwa [bytes, ByteFile.length_window] at hdecodes
  have hdecodes : Decodes RecordHeader.deserializeFrom (page.bytes offset 1 ++
      (page.bytes (offset + 1) 4 ++ (page.bytes (offset + 5) 4 ++ page.bytes (offset + 9) 4)))
      ⟨page.field offset 1 ≠ 0, page.field (offset + 1) 4, page.field (offset + 5) 4,
        page.field (offset + 9) 4⟩ :=
    (hread offset 1).bind ((hread (offset + 1) 4).bind ((hread (offset + 5) 4).bind
      ((hread (offset + 9) 4).map _)))
  have hbytes : page.bytes offset (1 + (4 + (4 + 4))) = page.bytes offset 1 ++
      (page.bytes (offset + 1) 4 ++ (page.bytes (offset + 5) 4 ++ page.bytes (offset + 9) 4)) := by
    rw [bytes, ByteFile.window_append, ByteFile.window_append, ByteFile.window_append,
      Nat.add_assoc, Nat.add_assoc]
    rfl
  rw [← hbytes] at hdecodes
  have hlength : (page.bytes offset (1 + (4 + (4 + 4)))).length = 1 + (4 + (4 + 4)) :=
    ByteFile.length_window _
  apply readAt_of_decodes _ _ hdecodes
  · rw [hlength]
    exact h
  · rw [hlength]

/-- A deletion writes the header of its record, and nothing else. -/
theorem deleteRecord_spec (h : page.Laid) (hslot : slotId < page.getRecordCount) (xid : Nat) :
    ∃ page', page.deleteRecord slotId xid = .ok page' ∧ page'.Laid ∧
      page'.slotList = page.slotList ∧ page'.nextPageId = page.nextPageId ∧
      Agree page page' 0 (page.slot slotId).offset ∧
      Agree page page' ((page.slot slotId).offset + recordHeaderSize) dbPageSize := by
  have hmem := slot_mem_slotList hslot
  obtain ⟨hlow, hhigh⟩ := h.bounds hmem
  have hsize := h.header_le _ hmem
  have hheader := readAt_header page (Nat.le_trans (Nat.add_le_add_left hsize _) hhigh)
  generalize (⟨_, _, _, _⟩ : RecordHeader) = header at hheader
  have hlength := RecordHeader.length_serializeTo { header with deleted := true, xmax := xid }
  have hinside : (page.slot slotId).offset +
      { header with deleted := true, xmax := xid : RecordHeader }.serializeTo.length ≤
        dbPageSize := by
    rw [hlength]
    omega
  have hbelow : Agree page (page.poke _ _ hinside) 0 (page.slot slotId).offset :=
    agree_poke hinside (.inl (Nat.le_refl _))
  obtain ⟨hlaid, hslots⟩ := h.congr (hbelow.mono (Nat.zero_le _) hlow)
  refine ⟨page.poke _ _ hinside, ?_, hlaid, hslots, ?_, hbelow, ?_⟩
  · rw [deleteRecord, h.getSlot_eq hslot]
    change (page.readAt _ _ >>= _) = _
    rw [hheader]
    exact copy_of_le hinside
  · have hupper := h.slotOffset_le hslot
    have hbase : 16 ≤ slotOffset (slotId + 1) := Nat.le_add_right _ _
    exact hbelow.field_eq (Nat.zero_le _) (by omega)
  · exact agree_poke hinside (.inr (by rw [hlength]))

end

end PageData

end HuaDB
