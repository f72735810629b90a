import HuaDB.TableData

/-!
What `Table::InsertRecord` and `Table::DeleteRecord` keep, over whole runs.

An insertion appends one slot, to a page with room or to a new page after the last one
(`insertRecord_spec`), and writes below the bytes of every record (`Placed`). A deletion
writes the header of its record (`deleteRecord_spec`).

The id of a page after the last of `2 ^ 32 - 1` pages is `NULL_PAGE_ID`: such a page is not
linked, and the next insertion that needs a page puts its own in its place.
-/

namespace HuaDB

namespace TableData

open LinkedList (Segment)
open PageData (Inserted Agree)

/-- A record of a table of some pages. -/
def HasSlot (table : TableData) (n : Nat) (rid : Rid) : Prop :=
  rid.pageId < n ∧
    ∃ page, table.pages rid.pageId = some page ∧ rid.slotId < page.getRecordCount

/-- Where a record lies, and its bytes. -/
def recordBytes (table : TableData) (rid : Rid) : Option (Slot × List UInt8) :=
  (table.pages rid.pageId).map fun page =>
    (page.slot rid.slotId,
      page.bytes (page.slot rid.slotId).offset (page.slot rid.slotId).size)

/-- What an insertion that returns a rid does to a table of some pages. -/
structure Placed (table table' : TableData) (n n' : Nat) (rid : Rid) : Prop where
  chained : Chained table' n'
  pages : n' = n ∨ n' = n + 1
  fresh : ¬ table.HasSlot n rid
  hasSlot_iff : ∀ r, table'.HasSlot n' r ↔ table.HasSlot n r ∨ r = rid
  frame : ∀ r, table.HasSlot n r → table'.recordBytes r = table.recordBytes r

section

variable {table table' : TableData} {n : Nat} {rid : Rid} {page page' : PageData}
  {bytes : List UInt8}

/-- A page with further slots, and the bytes of the records as they were, has its records. -/
theorem recordBytes_congr {rest : List Slot} (h : table.pages rid.pageId = some page)
    (h' : table'.pages rid.pageId = some page') (hlaid : page.Laid)
    (hslot : rid.slotId < page.getRecordCount) (hslots : page'.slotList = page.slotList ++ rest)
    (hagree : Agree page page' page.upper dbPageSize) :
    table'.recordBytes rid = table.recordBytes rid := by
  obtain ⟨hlow, hhigh⟩ := hlaid.bounds (PageData.slot_mem_slotList hslot)
  rw [recordBytes, recordBytes, h, h', Option.map_some, Option.map_some,
    (PageData.slot_eq_of_slotList_eq_append hslots hslot).2, hagree.bytes_eq hlow hhigh]

theorem placed_setPage {pageId : Nat} (h : Chained table n) (hlt : pageId < n)
    (hpage : table.pages pageId = some page) (hlaid : page.Laid)
    (hins : Inserted page page' bytes) :
    Placed table (table.setPage pageId page') n n ⟨pageId, page.getRecordCount⟩ where
  chained := h.setPage hpage hins.laid hins.nextPageId_eq
  pages := .inl rfl
  fresh := by
    rintro ⟨-, page₁, hpage₁, hslot⟩
    cases hpage.symm.trans hpage₁
    exact Nat.lt_irrefl _ hslot
  hasSlot_iff r := by
    obtain ⟨hcount, -⟩ := hins.slot_eq
    obtain ⟨i, slotId⟩ := r
    rw [HasSlot, HasSlot]
    by_cases hi : i = pageId
    · subst hi
      simp only [pages_setPage_self, hpage, Option.some.injEq, exists_eq_left', hcount,
        Rid.mk.injEq, true_and]
      omega
    · simp only [pages_setPage_of_ne hi, Rid.mk.injEq, hi, false_and, or_false]
  frame r hr := by
    obtain ⟨-, page₁, hpage₁, hslot⟩ := hr
    by_cases hi : r.pageId = pageId
    · rw [hi] at hpage₁
      cases hpage.symm.trans hpage₁
      rw [← hi] at hpage
      have hpage' : (table.setPage pageId page').pages r.pageId = some page' := by
        rw [hi, pages_setPage_self]
      exact recordBytes_congr hpage hpage' hlaid hslot hins.slotList_eq hins.agree
    · rw [recordBytes, recordBytes, pages_setPage_of_ne hi]

/-- A new page leaves the records of the pages before it alone. -/
theorem Chained.exists_page_before {i : Nat} (h : Chained table n) (new : PageData) (hi : i < n) :
    ∃ page page', table.pages i = some page ∧ ((table.grown n).setPage n new).pages i = some page' ∧
      page.Laid ∧ page'.slotList = page.slotList ∧
      page'.getRecordCount = page.getRecordCount ∧ Agree page page' page.upper dbPageSize := by
  obtain ⟨page, hpage, hlaid⟩ := h.laid i hi
  obtain ⟨page', hpage', hagree, -⟩ := pages_grown_setPage new hi hpage
  obtain ⟨-, hslots⟩ := hlaid.congr (hagree.mono (Nat.le_refl _) hlaid.upper_le)
  have hupper : 12 ≤ page.upper :=
    Nat.le_trans (by decide) (hlaid.wellFormed.header_le.trans hlaid.lower_le)
  refine ⟨page, page', hpage, hpage', hlaid, hslots, ?_, hagree.mono hupper (Nat.le_refl _)⟩
  rw [← PageData.length_slotList, hslots, PageData.length_slotList]

theorem placed_newPage (h : Chained table n) (hn : n < nullPageId)
    (hslots : page.slotList = []) (hnext : page.nextPageId = nullPageId)
    (hins : Inserted page page' bytes) :
    Placed table ((table.grown n).setPage n page') n (n + 1) ⟨n, 0⟩ where
  chained := h.grow hn hins.laid (hins.nextPageId_eq.trans hnext)
  pages := .inr rfl
  fresh hrid := Nat.lt_irrefl n hrid.1
  hasSlot_iff r := by
    have hcount : page'.getRecordCount = 1 := by
      rw [hins.slot_eq.1, ← PageData.length_slotList, hslots]
      rfl
    obtain ⟨i, slotId⟩ := r
    rw [HasSlot, HasSlot]
    by_cases hi : i = n
    · subst hi
      simp only [pages_setPage_self, Option.some.injEq, exists_eq_left', hcount, Rid.mk.injEq,
        true_and]
      omega
    · have hne : (⟨i, slotId⟩ : Rid) ≠ ⟨n, 0⟩ := fun heq => hi (Rid.mk.inj heq).1
      rw [or_iff_left hne]
      have hlt : i < n + 1 ↔ i < n := by omega
      rw [hlt]
      apply and_congr_right
      intro hlt
      obtain ⟨page₁, page₂, hpage₁, hpage₂, -, -, hcount', -⟩ := h.exists_page_before page' hlt
      simp only [hpage₁, hpage₂, Option.some.injEq, exists_eq_left', hcount']
  frame r hr := by
    obtain ⟨hlt, page₀, hpage₀, hslot⟩ := hr
    obtain ⟨page₁, page₂, hpage₁, hpage₂, hlaid, hslots', -, hagree⟩ :=
      h.exists_page_before page' hlt
    cases hpage₀.symm.trans hpage₁
    exact recordBytes_congr hpage₁ hpage₂ hlaid hslot (hslots'.trans (List.append_nil _).symm)
      hagree

end

/-! ## One insertion -/

open DataRecord (OfValues written payload readBack exactSize)

/-- Values that a record of the table can hold, and their record. -/
structure Storable (values : List Value) (record : DataRecord) : Prop where
  ofValues : OfValues values record
  serializes : ∃ copies last, record.serializeTo = .ok (copies, last)
  exactSize_le : exactSize values ≤ maxRecordSize
  xmax_lt : record.header.xmax < 2 ^ 32

section

variable {table : TableData} {n pageId xid cid last : Nat} {page : PageData} {values : List Value}
  {record : DataRecord} {copies : List (Nat × List UInt8)} {columns : ColumnList}

theorem insertInto_spec (table : TableData) (pageId : Nat) (lsns : Option (Nat × Nat)) (hlaid : page.Laid)
    (hserialize : (record.stamp xid cid).serializeTo = .ok (copies, last))
    (hbits : record.nullBitmap.bits.length ≤ 2 ^ 13) (hsize : record.getSize = written copies)
    (hroom : record.getSize ≤ page.getFreeSpaceSize) :
    ∃ page', table.insertInto pageId page record xid cid lsns =
        .ok (⟨pageId, page.getRecordCount⟩, table.setPage pageId page') ∧
      Inserted page page' (payload copies) := by
  obtain ⟨page', hrun, hins⟩ := PageData.insertRecord_spec hlaid hserialize hbits hsize hroom
  rw [insertInto, hrun]
  cases lsns with
  | none => exact ⟨page', rfl, hins⟩
  | some lsns => exact ⟨page'.setPageLsn lsns.2, rfl, hins.setPageLsn lsns.2⟩

theorem insertIntoNewPage_spec (table : TableData) (pageId : Nat) (env : InsertEnv)
    (hserialize : (record.stamp xid cid).serializeTo = .ok (copies, last))
    (hbits : record.nullBitmap.bits.length ≤ 2 ^ 13) (hsize : record.getSize = written copies)
    (hmax : record.getSize ≤ maxRecordSize) :
    ∃ page', table.insertIntoNewPage pageId record xid cid env =
        .ok (⟨pageId, env.memory.init.getRecordCount⟩, table.setPage pageId page') ∧
      Inserted env.memory.init page' (payload copies) := by
  have hroom : record.getSize ≤ env.memory.init.getFreeSpaceSize := by
    rw [PageData.getFreeSpaceSize, PageData.lower_init, PageData.upper_init]
    exact Nat.le_trans hmax (by decide)
  obtain ⟨page', hrun, hins⟩ := PageData.insertRecord_spec (PageData.laid_init env.memory).1
    hserialize hbits hsize hroom
  rw [insertIntoNewPage, hrun]
  cases env.lsns with
  | none => exact ⟨page', rfl, hins⟩
  | some lsns =>
      exact ⟨(page'.setPageLsn lsns.1).setPageLsn lsns.2, rfl,
        (hins.setPageLsn lsns.1).setPageLsn lsns.2⟩

/-- Where the record of an insertion goes. -/
theorem insertRecord_ok (h : Chained table n) (hr : OfValues values record)
    (hserialize : record.serializeTo = .ok (copies, last)) (hsize : record.getSize = written copies)
    (hmax : record.getSize ≤ maxRecordSize) (xid cid : Nat) (env : InsertEnv) :
    ∃ copies' pageId page page' base,
      (record.stamp xid cid).serializeTo = .ok (copies', last) ∧
      table.insertRecord record xid cid env =
        .ok (⟨pageId, page.getRecordCount⟩, base.setPage pageId page') ∧
      Inserted page page' (payload copies') ∧
      ((pageId < n ∧ table.pages pageId = some page ∧ record.getSize ≤ page.getFreeSpaceSize ∧
          page.Laid ∧ base = table) ∨
        ((∀ i < n, ∀ page, table.pages i = some page → page.getFreeSpaceSize < record.getSize) ∧
          pageId = n ∧ page = env.memory.init ∧ base = table.grown n)) := by
  obtain ⟨copies', hstamped, hwritten⟩ := DataRecord.exists_serializeTo_stamp hserialize xid cid
  rw [← hwritten] at hsize
  rcases insertRecord_cases h hmax xid cid env with hold | hnew
  · obtain ⟨i, hi, page, hpage, hroom, hrun⟩ := hold
    obtain ⟨page₁, hpage₁, hlaid⟩ := h.laid i hi
    cases hpage.symm.trans hpage₁
    obtain ⟨page', hinsert, hins⟩ :=
      insertInto_spec table i env.lsns hlaid hstamped hr.length_bits_le hsize hroom
    exact ⟨copies', i, page, page', table, hstamped, hrun.trans hinsert, hins,
      .inl ⟨hi, hpage, hroom, hlaid, rfl⟩⟩
  · obtain ⟨hfull, hrun⟩ := hnew
    obtain ⟨page', hinsert, hins⟩ := insertIntoNewPage_spec (table.grown n) n env
      hstamped hr.length_bits_le hsize hmax
    exact ⟨copies', n, env.memory.init, page', table.grown n, hstamped, hrun.trans hinsert, hins,
      .inr ⟨hfull, rfl, rfl, rfl⟩⟩

/-- An insertion that ends has accepted its record and written it inside a page. -/
theorem insertRecord_eq_ok {env : InsertEnv} {result : Rid × TableData} (h : Chained table n)
    (hr : OfValues values record) (hrun : table.insertRecord record xid cid env = .ok result) :
    record.getSize ≤ maxRecordSize ∧ ∃ copies last, record.serializeTo = .ok (copies, last) ∧
      record.getSize = written copies := by
  have hmax : record.getSize ≤ maxRecordSize := by
    by_contra hlt
    rw [insertRecord, if_pos (Nat.lt_of_not_le hlt)] at hrun
    cases hrun
  obtain ⟨page, placed, hinsert⟩ : ∃ page placed,
      PageData.insertRecord page record xid cid = .ok placed := by
    rcases insertRecord_cases h hmax xid cid env with hold | ⟨-, hnew⟩
    · obtain ⟨i, -, page, -, -, hold⟩ := hold
      rw [hold] at hrun
      obtain ⟨placed, hinsert, -⟩ := Except.bind_eq_ok_iff.mp hrun
      exact ⟨page, placed, hinsert⟩
    · rw [hnew] at hrun
      obtain ⟨placed, hinsert, -⟩ := Except.bind_eq_ok_iff.mp hrun
      exact ⟨env.memory.init, placed, hinsert⟩
  obtain ⟨stamped, last, hstamped, hinside⟩ := PageData.insertRecord_inside hinsert
  have hle := DataRecord.written_le_of_inside hstamped hr.length_bits_le (by decide) hinside
  obtain ⟨copies, hserialize, hwritten⟩ :=
    DataRecord.exists_serializeTo_of_eq hstamped record rfl rfl
  refine ⟨hmax, copies, last, hserialize, ?_⟩
  rw [(hr.getSize_eq hserialize).1, hwritten]
  exact Nat.mod_eq_of_lt (Nat.lt_of_le_of_lt hle (by decide))

/-- The record of an insertion is read back, its strings cut. -/
theorem getRecord_of_inserted (base : TableData) (pageId : Nat) {page' : PageData} (hr : OfValues values record)
    (hlength : values.length < 2 ^ 16) (hfits : (record.stamp xid cid).header.Fits)
    (hmatches : List.Forall₂ DataRecord.Matches columns values)
    (hserialize : (record.stamp xid cid).serializeTo = .ok (copies, last))
    (hins : Inserted page page' (payload copies)) :
    (base.setPage pageId page').getRecord ⟨pageId, page.getRecordCount⟩ columns =
      .ok ((record.stamp xid cid).header, List.zipWith readBack columns values) := by
  rw [getRecord, getPage_of_some pages_setPage_self]
  exact hins.getRecord_eq ((hr.stamp xid cid).decodes hlength hmatches hfits hserialize)

/-! ## Runs -/

/-- A table that insertions and deletions made from an empty one, with the rids that the
insertions returned; every insertion met a condition. -/
inductive Built (cond : TableData → DataRecord → Prop) : List Rid → TableData → Prop
  | empty : Built cond [] empty
  | insert {rids : List Rid} {table table' : TableData} {rid : Rid} {values : List Value}
      {record : DataRecord} {xid cid : Nat} {env : InsertEnv} (h : Built cond rids table)
      (hr : Storable values record) (hcond : cond table record)
      (hrun : table.insertRecord record xid cid env = .ok (rid, table')) :
      Built cond (rid :: rids) table'
  | delete {rids : List Rid} {table table' : TableData} {rid : Rid} {xid : Nat}
      {lsn : Option Nat} (h : Built cond rids table) (hrid : rid ∈ rids)
      (hrun : table.deleteRecord rid xid lsn = .ok table') : Built cond rids table'

/-- A page of the table has room, or there can be one more. -/
def RoomFor (table : TableData) (record : DataRecord) : Prop :=
  ∃ n, Segment table.link nullPageId table.firstPageId (List.range n) nullPageId ∧
    (n < nullPageId ∨
      ∃ i < n, ∃ page, table.pages i = some page ∧ record.getSize ≤ page.getFreeSpaceSize)

/-- The pages and records of a table are as they should be, and every insertion that meets a
condition does what it should. -/
structure Sound (cond : TableData → DataRecord → Prop) (rids : List Rid) (table : TableData) :
    Prop where
  pages : ∃ n, Chained table n ∧
    (∀ i < n, ∃ page, table.pages i = some page ∧ page.WellFormed) ∧
    ∀ rid, table.HasSlot n rid ↔ rid ∈ rids
  insert : ∀ values record xid cid env, Storable values record → xid < 2 ^ 32 → cid < 2 ^ 32 →
    cond table record → ∃ n n' rid table', Chained table n ∧
      table.insertRecord record xid cid env = .ok (rid, table') ∧ Placed table table' n n' rid ∧
      ∀ columns, List.Forall₂ DataRecord.Matches columns values →
        table'.getRecord rid columns =
          .ok ((record.stamp xid cid).header, DataRecord.inColumns columns values)

theorem Chained.unique {n' : Nat} (h : Chained table n)
    (h' : Segment table.link nullPageId table.firstPageId (List.range n') nullPageId) : n' = n := by
  have hlength := congrArg List.length (h.chain.unique h')
  rw [List.length_range, List.length_range] at hlength
  exact hlength.symm

theorem Storable.getSize_eq (hr : Storable values record)
    (h : record.serializeTo = .ok (copies, last)) :
    record.getSize = written copies ∧ record.getSize ≤ maxRecordSize := by
  have hexact := hr.exactSize_le
  have hsize := hr.ofValues.getSize_eq_written h (Nat.lt_of_le_of_lt hexact (by decide))
  exact ⟨hsize, hsize.trans_le ((hr.ofValues.written_le_exactSize h).trans hexact)⟩

/-- A deletion leaves the slots, and the bytes of every other record. -/
theorem Chained.delete {rid : Rid} (h : Chained table n) (hrid : table.HasSlot n rid) (xid : Nat)
    (lsn : Option Nat) :
    ∃ table', table.deleteRecord rid xid lsn = .ok table' ∧ Chained table' n ∧
      (∀ r, table'.HasSlot n r ↔ table.HasSlot n r) ∧
      ∀ r, table.HasSlot n r → r ≠ rid → table'.recordBytes r = table.recordBytes r := by
  obtain ⟨hlt, page, hpage, hslot⟩ := hrid
  obtain ⟨page₀, hpage₀, hlaid⟩ := h.laid rid.pageId hlt
  cases hpage.symm.trans hpage₀
  obtain ⟨deleted, hdelete, hlaid', hslots, hnext, hbelow, habove⟩ :=
    PageData.deleteRecord_spec hlaid hslot xid
  -- the page LSN is none of this
  obtain ⟨page', hrun, hlaid', hslots, hnext, hagree⟩ : ∃ page', table.deleteRecord rid xid lsn =
      .ok (table.setPage rid.pageId page') ∧ page'.Laid ∧ page'.slotList = page.slotList ∧
        page'.nextPageId = page.nextPageId ∧ Agree deleted page' 8 dbPageSize := by
    rw [deleteRecord, getPage_of_some hpage]
    dsimp only [bind, Except.bind]
    rw [hdelete]
    cases lsn with
    | none => exact ⟨deleted, rfl, hlaid', hslots, hnext, .refl _ _ _⟩
    | some lsn =>
        have hagree : Agree deleted (deleted.setPageLsn lsn) 8 dbPageSize :=
          PageData.agree_setField _ (.inr (by decide))
        obtain ⟨hlaid'', hslots'⟩ := hlaid'.congr (hagree.mono (by decide) hlaid'.upper_le)
        exact ⟨deleted.setPageLsn lsn, rfl, hlaid'', hslots'.trans hslots,
          (PageData.nextPageId_setPageLsn _ _).trans hnext, hagree⟩
  have hcount : page'.getRecordCount = page.getRecordCount := by
    rw [← PageData.length_slotList, hslots, PageData.length_slotList]
  refine ⟨_, hrun, h.setPage hpage hlaid' hnext, ?_, ?_⟩
  · intro r
    rw [HasSlot, HasSlot]
    by_cases hr : r.pageId = rid.pageId
    · rw [hr, hpage, pages_setPage_self]
      simp only [Option.some.injEq, exists_eq_left', hcount]
    · rw [pages_setPage_of_ne hr]
  · rintro r ⟨-, page₁, hpage₁, hslot₁⟩ hne
    rw [recordBytes, recordBytes]
    by_cases hr : r.pageId = rid.pageId
    · rw [hr] at hpage₁ ⊢
      cases hpage.symm.trans hpage₁
      have hne' : r.slotId ≠ rid.slotId := by
        intro heq
        apply hne
        cases r
        cases rid
        exact Rid.mk.injEq _ _ _ _ ▸ ⟨hr, heq⟩
      have hdisjoint := hlaid.wellFormed.disjoint_slots hslot₁ hslot hne'
      have hmem := PageData.slot_mem_slotList hslot
      have hheader := hlaid.header_le _ hmem
      obtain ⟨hlow, hhigh⟩ := hlaid.bounds (PageData.slot_mem_slotList hslot₁)
      have hupper : 16 ≤ page.upper := hlaid.wellFormed.header_le.trans hlaid.lower_le
      have happend : page'.slotList = page.slotList ++ [] := by
        rw [List.append_nil, hslots]
      have hsame := PageData.slot_eq_of_slotList_eq_append happend hslot₁
      have hbytes : page'.bytes (page.slot r.slotId).offset (page.slot r.slotId).size =
          page.bytes (page.slot r.slotId).offset (page.slot r.slotId).size := by
        rw [hagree.bytes_eq (by omega) hhigh]
        rcases hdisjoint with hbefore | hafter
        · exact hbelow.bytes_eq (Nat.zero_le _) hbefore
        · exact habove.bytes_eq (by omega) hhigh
      rw [hpage, pages_setPage_self, Option.map_some, Option.map_some, hsame.2, hbytes]
    · rw [pages_setPage_of_ne hr]

/-- With a page after the last, or with one that is not linked, the table keeps its pages. -/
theorem Chained.exists_grow {new : PageData} (h : Chained table n) (hlaid : new.Laid)
    (hnext : new.nextPageId = nullPageId) : ∃ n', Chained ((table.grown n).setPage n new) n' := by
  rcases Nat.lt_or_eq_of_le h.le_nullPageId with hn | hn
  · exact ⟨n + 1, h.grow hn hlaid hnext⟩
  · refine ⟨n, ⟨?_, ?_⟩⟩
    · have hfirst : ((table.grown n).setPage n new).firstPageId = table.firstPageId := by
        rw [hn]
        rfl
      rw [hfirst]
      apply h.chain.congr
      intro i hi
      rw [List.mem_range] at hi
      obtain ⟨page, hpage, -⟩ := h.laid i hi
      obtain ⟨page', hpage', -, hnext'⟩ := pages_grown_setPage new hi hpage
      rw [link, link, hpage, hpage', Option.map_some, Option.map_some, hnext']
      split
      · rename_i hlast
        obtain ⟨l, hl⟩ : ∃ l, List.range n = l ++ [i] := ⟨List.range i, by rw [← hlast, List.range_succ]⟩
        have hchain := h.chain
        rw [hl, LinkedList.Segment.append_iff] at hchain
        obtain ⟨_, -, -, rfl, _, hlink, rfl⟩ := hchain
        rw [link, hpage, Option.map_some] at hlink
        rw [hlink, hn]
        rfl
      · rfl
    · intro i hi
      obtain ⟨page, page', hpage, hpage', hlaid', hslots, -, -⟩ := h.exists_page_before new hi
      obtain ⟨page₁, hpage₁, hagree, -⟩ := pages_grown_setPage new hi hpage
      exact ⟨page₁, hpage₁, (hlaid'.congr (hagree.mono (Nat.le_refl _) hlaid'.upper_le)).1⟩

/-- After an insertion that ends the table has its pages, and gives the record back as long as
no string was cut. -/
theorem Chained.stored {env : InsertEnv} {rid : Rid} {table' : TableData} (h : Chained table n)
    (hr : OfValues values record) (hxid : xid < 2 ^ 32) (hcid : cid < 2 ^ 32)
    (hxmax : record.header.xmax < 2 ^ 32)
    (hrun : table.insertRecord record xid cid env = .ok (rid, table')) :
    (∃ n', Chained table' n') ∧ ∀ columns, List.Forall₂ DataRecord.Matches columns values →
      (∀ value ∈ values, value.truncate = value) →
        table'.getRecord rid columns =
          .ok ((record.stamp xid cid).header, DataRecord.inColumns columns values) := by
  obtain ⟨hmax, copies, last, hserialize, hsize⟩ := insertRecord_eq_ok h hr hrun
  obtain ⟨copies', pageId, page, page', base, hstamped, hrun', hins, hplace⟩ :=
    insertRecord_ok h hr hserialize hsize hmax xid cid env
  cases hrun.symm.trans hrun'
  refine ⟨?_, ?_⟩
  · rcases hplace with ⟨-, hpage, -, hlaid, rfl⟩ | ⟨-, rfl, rfl, rfl⟩
    · exact ⟨n, h.setPage hpage hins.laid hins.nextPageId_eq⟩
    · exact h.exists_grow hins.laid (hins.nextPageId_eq.trans (PageData.nextPageId_init _))
  · intro columns hmatches hfull
    rw [← (DataRecord.zipWith_readBack_eq_iff hmatches).mpr hfull]
    exact getRecord_of_inserted base pageId hr (hr.length_lt hserialize (hsize ▸ hmax)) ⟨hxid, hxmax, hcid⟩
      hmatches hstamped hins

/-- An insertion with room for it. -/
theorem Chained.insert (h : Chained table n) (hr : Storable values record)
    (hroom : RoomFor table record) (xid cid : Nat) (env : InsertEnv) :
    ∃ n' rid table', table.insertRecord record xid cid env = .ok (rid, table') ∧
      Placed table table' n n' rid ∧
      (xid < 2 ^ 32 → cid < 2 ^ 32 → ∀ columns, List.Forall₂ DataRecord.Matches columns values →
        table'.getRecord rid columns =
          .ok ((record.stamp xid cid).header, DataRecord.inColumns columns values)) := by
  obtain ⟨copies, last, hserialize⟩ := hr.serializes
  obtain ⟨hsize, hmax⟩ := hr.getSize_eq hserialize
  obtain ⟨copies', pageId, page, page', base, hstamped, hrun, hins, hplace⟩ :=
    insertRecord_ok h hr.ofValues hserialize hsize hmax xid cid env
  have hread : xid < 2 ^ 32 → cid < 2 ^ 32 → ∀ columns,
      List.Forall₂ DataRecord.Matches columns values →
        (base.setPage pageId page').getRecord ⟨pageId, page.getRecordCount⟩ columns =
          .ok ((record.stamp xid cid).header, DataRecord.inColumns columns values) := by
    intro hxid hcid columns hmatches
    have hlt : exactSize values < 2 ^ 16 := Nat.lt_of_le_of_lt hr.exactSize_le (by decide)
    have hlength : values.length < 2 ^ 16 := by
      have hle := hr.exactSize_le
      rw [exactSize, maxRecordSize] at hle
      omega
    rw [← (DataRecord.zipWith_readBack_eq_iff hmatches).mpr
      (DataRecord.truncate_of_exactSize_lt hlt)]
    exact getRecord_of_inserted base pageId hr.ofValues hlength ⟨hxid, hr.xmax_lt, hcid⟩ hmatches hstamped hins
  rcases hplace with ⟨hi, hpage, -, hlaid, rfl⟩ | ⟨hfull, rfl, rfl, rfl⟩
  · exact ⟨n, _, _, hrun, placed_setPage h hi hpage hlaid hins, hread⟩
  · have hn : pageId < nullPageId := by
      obtain ⟨n', hchain, hn' | hfound⟩ := hroom
      · exact h.unique hchain ▸ hn'
      · obtain ⟨i, hi, page₁, hpage₁, hle⟩ := hfound
        rw [h.unique hchain] at hi
        exact absurd hle (Nat.not_le.mpr (hfull i hi page₁ hpage₁))
    have hslots := (PageData.laid_init env.memory).2
    have hcount : env.memory.init.getRecordCount = 0 := by
      rw [← PageData.length_slotList, hslots]
      rfl
    rw [hcount] at hrun hread
    exact ⟨pageId + 1, _, _, hrun,
      placed_newPage h hn hslots (PageData.nextPageId_init _) hins, hread⟩

/-! ## Every run -/

theorem exists_wellFormed (h : Chained table n) :
    ∀ i < n, ∃ page, table.pages i = some page ∧ page.WellFormed := by
  intro i hi
  obtain ⟨page, hpage, hlaid⟩ := h.laid i hi
  exact ⟨page, hpage, hlaid.wellFormed⟩

theorem Built.chained {rids : List Rid} (h : Built RoomFor rids table) :
    ∃ n, Chained table n ∧ ∀ rid, table.HasSlot n rid ↔ rid ∈ rids := by
  induction h with
  | empty =>
      refine ⟨0, chained_empty, ?_⟩
      intro rid
      exact ⟨fun hrid => absurd hrid.1 (Nat.not_lt_zero _), fun hmem => by cases hmem⟩
  | @insert rids table table' rid values record xid cid env _ hr hroom hrun ih =>
      obtain ⟨n, hchained, hslots⟩ := ih
      obtain ⟨n', rid', table'', hrun', hplaced, -⟩ := hchained.insert hr hroom xid cid env
      cases hrun.symm.trans hrun'
      refine ⟨n', hplaced.chained, ?_⟩
      intro r
      rw [hplaced.hasSlot_iff, hslots, List.mem_cons, or_comm]
  | @delete rids table table' rid xid lsn _ hrid hrun ih =>
      obtain ⟨n, hchained, hslots⟩ := ih
      obtain ⟨table'', hrun', hchained', hslots', -⟩ :=
        hchained.delete ((hslots rid).mpr hrid) xid lsn
      cases hrun.symm.trans hrun'
      refine ⟨n, hchained', ?_⟩
      intro r
      rw [hslots', hslots]

end

/-! ## The last page -/

/-- The record of one value. -/
def oneValue (value : Value) : DataRecord where
  nullBitmap := ⟨1, [0]⟩
  values := [value]
  size := DataRecord.updateSize ⟨1, [0]⟩ [value]

theorem ofValues_oneValue {value : Value} (h : value.isNull = false) :
    DataRecord.ofValues [value] = .ok (oneValue value) := by
  have hplaces : DataRecord.nullPlaces [value] = [] := by
    rw [DataRecord.nullPlaces, List.zipIdx_singleton, List.filter_cons_of_neg]
    · rfl
    · rw [h]
      exact Bool.false_ne_true
  have hbitmap : Bitmap.ofSize 1 = ⟨1, [0]⟩ := by decide
  rw [DataRecord.ofValues, hplaces, List.length_singleton, hbitmap]
  rfl

theorem storable_oneValue {value : Value} {bytes : List UInt8} {result : Nat}
    (hserialize : value.serializeTo = .ok (bytes, result))
    (h : recordHeaderSize + 1 + value.exactSize ≤ maxRecordSize) :
    Storable [value] (oneValue value) where
  ofValues := DataRecord.ofValues_eq_ok
    (ofValues_oneValue (Value.serializeTo_eq_ok hserialize).1)
  serializes := by
    have hvalues : DataRecord.serializeValues 14 [value] =
        .ok ([(14, bytes)], (14 + result) % 2 ^ 16) := by
      rw [DataRecord.serializeValues, (Value.serializeTo_eq_ok hserialize).1, hserialize]
      rfl
    exact ⟨_, _, Except.bind_eq_ok_iff.mpr ⟨_, hvalues, rfl⟩⟩
  exactSize_le := by
    rw [exactSize, List.map_singleton, List.sum_singleton, List.length_singleton]
    exact h
  xmax_lt := by
    change nullXid < 2 ^ 32
    decide

theorem getSize_oneString {str : List UInt8} (h : str.length + 16 < 2 ^ 16) :
    (oneValue (.varchar str)).getSize = str.length + 16 := by
  change ((14 % 2 ^ 16) + str.length % 2 ^ 16 + 2) % 2 ^ 16 = _
  omega

/-- A string that takes a whole page. -/
def fullString : List UInt8 := List.replicate 214 0

theorem length_fullString : fullString.length = 214 := List.length_replicate

/-- The record of a string that takes a whole page. -/
def fullRecord : DataRecord := oneValue (.varchar fullString)

theorem storable_fullRecord : Storable [.varchar fullString] fullRecord := by
  apply storable_oneValue rfl
  rw [Value.exactSize, length_fullString]
  decide

theorem getSize_fullRecord : fullRecord.getSize = maxRecordSize := by
  rw [fullRecord, getSize_oneString (by rw [length_fullString]; decide), length_fullString]
  rfl

/-- What an insertion depends on, with the memory of the new page all zero. -/
def zeroEnv : InsertEnv where
  memory := .zeros
  lsns := none

/-- As long as every insertion finds room in a page, or fewer than `2 ^ 32 - 1` pages, the
pages and records are as they should be. -/
theorem insertRecord_keepsLayout {rids : List Rid} {table : TableData}
    (h : Built RoomFor rids table) : Sound RoomFor rids table := by
  obtain ⟨n, hchained, hslots⟩ := h.chained
  refine ⟨⟨n, hchained, exists_wellFormed hchained, hslots⟩, ?_⟩
  intro values record xid cid env hr hxid hcid hroom
  obtain ⟨n', rid, table', hrun, hplaced, hread⟩ := hchained.insert hr hroom xid cid env
  exact ⟨n, n', rid, table', hchained, hrun, hplaced, hread hxid hcid⟩

theorem insertRecord_keepsLayout_oneRow :
    ∃ rid table, Built RoomFor [rid] table ∧ Sound RoomFor [rid] table := by
  have hroom : RoomFor empty fullRecord := ⟨0, rfl, .inl (by decide)⟩
  obtain ⟨n', rid, table, hrun, -⟩ := chained_empty.insert storable_fullRecord hroom 1 1 zeroEnv
  have hbuilt : Built RoomFor [rid] table := Built.empty.insert storable_fullRecord hroom hrun
  exact ⟨rid, table, hbuilt, insertRecord_keepsLayout hbuilt⟩

/-- A page whose record takes all of it has no room. -/
theorem getFreeSpaceSize_of_full {page page' : PageData} {bytes : List UInt8}
    (hins : Inserted page.init page' bytes) (h : bytes.length = maxRecordSize) :
    page'.getFreeSpaceSize < maxRecordSize := by
  have hslots := hins.slotList_eq
  rw [(PageData.laid_init page).2, List.nil_append, PageData.upper_init, h] at hslots
  have htiles := hins.laid.tiles
  rw [hslots] at htiles
  have hupper : page'.upper = dbPageSize - maxRecordSize := htiles.1.symm
  rw [PageData.getFreeSpaceSize, hupper]
  split
  · decide
  · rw [dbPageSize, maxRecordSize]
    omega

/-- Every insertion of a record that takes a page makes a new one. -/
theorem exists_built_full (n : Nat) (hn : n ≤ nullPageId) :
    ∃ rids table, Built (fun _ _ => True) rids table ∧ Chained table n ∧
      ∀ i < n, ∀ page, table.pages i = some page → page.getFreeSpaceSize < maxRecordSize := by
  induction n with
  | zero => exact ⟨[], empty, .empty, chained_empty, fun i hi => absurd hi (Nat.not_lt_zero i)⟩
  | succ n ih =>
      obtain ⟨rids, table, hbuilt, hchained, hfull⟩ := ih (Nat.le_of_succ_le hn)
      have hr := storable_fullRecord
      obtain ⟨copies, last, hserialize⟩ := hr.serializes
      obtain ⟨hsize, hmax⟩ := hr.getSize_eq hserialize
      obtain ⟨copies', pageId, page, page', base, hstamped, hrun, hins, hplace⟩ :=
        insertRecord_ok hchained hr.ofValues hserialize hsize hmax 1 1 zeroEnv
      have hlength : (payload copies').length = maxRecordSize := by
        rw [DataRecord.length_payload, ← getSize_fullRecord]
        exact ((hr.ofValues.stamp 1 1).getSize_eq_written hstamped
          (Nat.lt_of_le_of_lt hr.exactSize_le (by decide))).symm
      rcases hplace with ⟨hi, hpage, hroom, -⟩ | ⟨-, rfl, rfl, rfl⟩
      · rw [getSize_fullRecord] at hroom
        exact absurd hroom (Nat.not_le.mpr (hfull pageId hi page hpage))
      · have hnext := hins.nextPageId_eq.trans (PageData.nextPageId_init _)
        refine ⟨_, _, hbuilt.insert hr trivial hrun, hchained.grow hn hins.laid hnext, ?_⟩
        intro i hi page hpage
        by_cases hlt : i < pageId
        · obtain ⟨page₁, hpage₁, hlaid⟩ := hchained.laid i hlt
          obtain ⟨page₂, hpage₂, hagree, -⟩ := pages_grown_setPage page' hlt hpage₁
          cases hpage.symm.trans hpage₂
          have hfree := hfull i hlt page₁ hpage₁
          have hlower : page.lower = page₁.lower := hagree.field_eq (by decide) (by decide)
          have hupper : page.upper = page₁.upper := hagree.field_eq (by decide) (by decide)
          rwa [PageData.getFreeSpaceSize, hlower, hupper]
        · have heq : i = pageId := by omega
          rw [heq, pages_setPage_self] at hpage
          cases hpage
          exact getFreeSpaceSize_of_full hins hlength

/-- With `2 ^ 32 - 1` pages and no room in any, the record goes to a page that is not linked. -/
theorem insertRecord_losesPage_last :
    ¬ ∀ rids table, Built (fun _ _ => True) rids table → Sound (fun _ _ => True) rids table := by
  intro h
  obtain ⟨rids, table, hbuilt, hchained, hfull⟩ := exists_built_full nullPageId (Nat.le_refl _)
  have hr := storable_fullRecord
  obtain ⟨copies, last, hserialize⟩ := hr.serializes
  obtain ⟨hsize, hmax⟩ := hr.getSize_eq hserialize
  obtain ⟨copies', pageId, page, page', base, -, hrun, -, hplace⟩ :=
    insertRecord_ok hchained hr.ofValues hserialize hsize hmax 1 1 zeroEnv
  obtain ⟨n, n', rid, table', -, hrun', hplaced, -⟩ :=
    (h rids table hbuilt).insert _ _ 1 1 zeroEnv hr (by decide) (by decide) trivial
  cases hrun.symm.trans hrun'
  have hslot := (hplaced.hasSlot_iff ⟨pageId, page.getRecordCount⟩).mpr (.inr rfl)
  have hlt := Nat.lt_of_lt_of_le hslot.1 hplaced.chained.le_nullPageId
  rcases hplace with ⟨hi, hpage, hroom, -⟩ | ⟨-, rfl, -⟩
  · rw [getSize_fullRecord] at hroom
    exact absurd hroom (Nat.not_le.mpr (hfull pageId hi page hpage))
  · exact Nat.lt_irrefl _ hlt

/-! ## The size check -/

/-- `InsertRecord` accepts a record.  The bytes written are `GetSize` many, go into the page
and give back the full values exactly as long as the size of the record, summed without a
bound, is below `2 ^ 16`. -/
theorem insertRecord_sizeCheck_iff {table : TableData} {n xid cid last : Nat}
    {values : List Value} {record : DataRecord} {copies : List (Nat × List UInt8)}
    {columns : ColumnList} (h : Chained table n) (hr : DataRecord.ofValues values = .ok record)
    (hserialize : record.serializeTo = .ok (copies, last))
    (hmatches : List.Forall₂ DataRecord.Matches columns values) (hxid : xid < 2 ^ 32)
    (hcid : cid < 2 ^ 32) (env : InsertEnv) (haccept : record.getSize ≤ maxRecordSize) :
    (written copies = record.getSize ∧ ∃ rid table',
        table.insertRecord record xid cid env = .ok (rid, table') ∧
        table'.getRecord rid columns =
          .ok ((record.stamp xid cid).header, DataRecord.inColumns columns values)) ↔
      exactSize values < 2 ^ 16 := by
  have hof := DataRecord.ofValues_eq_ok hr
  have hxmax : record.header.xmax < 2 ^ 32 := by
    rw [DataRecord.ofValues_header hr]
    decide
  rw [← hof.exact_iff hserialize haccept]
  apply and_congr_right
  intro hwritten
  have hlength := hof.length_lt hserialize (hwritten ▸ haccept)
  obtain ⟨copies', pageId, page, page', base, hstamped, hrun, hins, -⟩ :=
    insertRecord_ok h hof hserialize hwritten.symm haccept xid cid env
  have hread := getRecord_of_inserted base pageId hof hlength
    ⟨hxid, hxmax, hcid⟩ hmatches hstamped hins
  rw [← DataRecord.zipWith_readBack_eq_iff hmatches]
  constructor
  · rintro ⟨rid, table', hrun', hfull⟩
    cases hrun.symm.trans hrun'
    have heq := Except.ok.inj (hread.symm.trans hfull)
    exact (Prod.mk.inj heq).2
  · intro hfull
    refine ⟨_, _, hrun, ?_⟩
    rw [hread, hfull]

theorem insertRecord_sizeCheck_shortString :
    ∃ rid table, empty.insertRecord (oneValue (.varchar [104, 105])) 1 1 zeroEnv = .ok (rid, table) ∧
      table.getRecord rid [⟨"s", .varchar, 10⟩] =
        .ok (⟨false, 1, nullXid, 1⟩, [.varchar [104, 105]]) := by
  have hmatches : List.Forall₂ DataRecord.Matches [⟨"s", .varchar, 10⟩]
      [Value.varchar [104, 105]] := .cons ⟨trivial, rfl⟩ .nil
  exact ((insertRecord_sizeCheck_iff chained_empty (ofValues_oneValue rfl) rfl hmatches
    (by decide) (by decide) zeroEnv (by decide)).mpr (by decide)).2

/-- `InsertRecord` takes the record of a string of 65535 bytes and writes past its page. -/
theorem insertRecord_of_length_eq {str : List UInt8} (hlength : str.length = 65535) :
    ∃ copies last, (oneValue (.varchar str)).serializeTo = .ok (copies, last) ∧
      (oneValue (.varchar str)).getSize ≤ maxRecordSize ∧ written copies = 65551 ∧
      empty.insertRecord (oneValue (.varchar str)) 1 1 zeroEnv = .error .memoryFault := by
  obtain ⟨copies, last, hserialize⟩ : ∃ copies last,
      (oneValue (.varchar str)).serializeTo = .ok (copies, last) := ⟨_, _, rfl⟩
  have hmod : str.length % 2 ^ 16 = 65535 := by
    omega
  have hsize : (oneValue (.varchar str)).getSize = 15 := by
    change ((14 % 2 ^ 16) + str.length % 2 ^ 16 + 2) % 2 ^ 16 = _
    omega
  have hwritten : written copies = 65551 := by
    rw [DataRecord.written_eq hserialize]
    change recordHeaderSize + 1 + [(Value.varchar str).truncate.exactSize].sum = _
    rw [Value.truncate, Value.exactSize, Value.length_take_mod, hmod]
    rfl
  refine ⟨copies, last, hserialize, ?_, hwritten, ?_⟩
  · rw [hsize]
    decide
  · have hmax : ¬ (oneValue (.varchar str)).getSize > maxRecordSize := by
      rw [hsize]
      decide
    have hfault : ∀ page : PageData,
        page.insertRecord (oneValue (.varchar str)) 1 1 = .error .memoryFault := by
      intro page
      have hstring : (14, encodeNat 2 (str.length % 2 ^ 16) ++ str.take (str.length % 2 ^ 16)) ∈
          [(0, ((oneValue (.varchar str)).stamp 1 1).header.serializeTo), (recordHeaderSize, [0]),
            (14, encodeNat 2 (str.length % 2 ^ 16) ++ str.take (str.length % 2 ^ 16))] := by
        simp only [List.mem_cons, true_or, or_true]
      apply PageData.insertRecord_of_lt rfl ⟨_, hstring, _⟩
      rw [List.length_append, length_encodeNat, Value.length_take_mod, hmod]
      decide
    rw [insertRecord, if_neg hmax]
    change insertIntoNewPage _ 0 (oneValue (.varchar str)) 1 1 zeroEnv = _
    rw [insertIntoNewPage, hfault]
    rfl

/-- A string of 65535 bytes makes a record of 65551 bytes whose `GetSize` is 15. -/
theorem insertRecord_acceptsLongString :
    ∃ copies last,
      DataRecord.ofValues [.varchar (List.replicate 65535 0)] =
        .ok (oneValue (.varchar (List.replicate 65535 0))) ∧
      (oneValue (.varchar (List.replicate 65535 0))).serializeTo = .ok (copies, last) ∧
      (oneValue (.varchar (List.replicate 65535 0))).getSize ≤ maxRecordSize ∧ written copies = 65551 ∧
      empty.insertRecord (oneValue (.varchar (List.replicate 65535 0))) 1 1 zeroEnv =
        .error .memoryFault := by
  obtain ⟨copies, last, hserialize⟩ := insertRecord_of_length_eq List.length_replicate
  exact ⟨copies, last, ofValues_oneValue rfl, hserialize⟩

end TableData

end HuaDB
