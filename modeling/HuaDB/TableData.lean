import HuaDB.Lib.LinkedList
import HuaDB.PageData

/-!
`table/table.cpp` over the memory of the pages.

The pages are those that the buffer pool gives for their ids. A new page comes with
whatever its memory held, and the log only leaves its LSNs in the pages; both are arguments.
`findRoom` is the loop over the pages after the first; a chain of more than `2 ^ 32` pages
revisits one.
-/

namespace HuaDB

/-- `Table`. -/
structure TableData where
  firstPageId : Nat
  pages : Nat → Option PageData

/-- What an insertion depends on besides the table: the memory of a new page, and the LSNs
of the `NewPageLog` and of the `InsertLog` where these are written. -/
structure InsertEnv where
  memory : PageData
  lsns : Option (Nat × Nat)

namespace TableData

/-- `Table` of a new table. -/
def empty : TableData where
  firstPageId := nullPageId
  pages := fun _ => none

/-- `buffer_pool_.GetPage`. -/
def getPage (table : TableData) (pageId : Nat) : Except DbError PageData :=
  match table.pages pageId with
  | some page => .ok page
  | none => .error .memoryFault

def setPage (table : TableData) (pageId : Nat) (page : PageData) : TableData :=
  { table with pages := fun i => if i = pageId then some page else table.pages i }

def modifyPage (table : TableData) (pageId : Nat) (f : PageData → PageData) : TableData :=
  { table with pages := fun i => if i = pageId then (table.pages i).map f else table.pages i }

/-- Place a record in a page and raise the page LSN. -/
def insertInto (table : TableData) (pageId : Nat) (page : PageData) (record : DataRecord)
    (xid cid : Nat) (lsns : Option (Nat × Nat)) : Except DbError (Rid × TableData) := do
  let (slotId, page) ← page.insertRecord record xid cid
  let page := match lsns with
    | some (_, lsn) => page.setPageLsn lsn
    | none => page
  return (⟨pageId, slotId⟩, table.setPage pageId page)

/-- Initialise a new page, and place the record there. -/
def insertIntoNewPage (table : TableData) (pageId : Nat) (record : DataRecord) (xid cid : Nat)
    (env : InsertEnv) : Except DbError (Rid × TableData) := do
  let (slotId, page) ← env.memory.init.insertRecord record xid cid
  let page := match env.lsns with
    | some (lsnNew, lsn) => (page.setPageLsn lsnNew).setPageLsn lsn
    | none => page
  return (⟨pageId, slotId⟩, table.setPage pageId page)

/-- The loop over the pages after the first: a page with room, or else the last page, which
is linked to its successor as soon as it is found full. -/
def findRoom (size : Nat) :
    Nat → TableData → Nat → Nat → Except DbError (Option PageData × Nat × TableData)
  | 0, _, _, _ => .error .divergence
  | fuel + 1, table, lastPageId, nextPageId =>
      if nextPageId = nullPageId then
        .ok (none, lastPageId, table)
      else do
        let page ← table.getPage nextPageId
        if size ≤ page.getFreeSpaceSize then
          return (some page, nextPageId, table)
        else
          let table :=
            if page.nextPageId = nullPageId then
              table.modifyPage nextPageId fun page => page.setNextPageId (nextPageId + 1)
            else
              table
          findRoom size fuel table nextPageId page.nextPageId

/-- `InsertRecord`. -/
def insertRecord (table : TableData) (record : DataRecord) (xid cid : Nat) (env : InsertEnv) :
    Except DbError (Rid × TableData) :=
  if record.getSize > maxRecordSize then
    .error (.dbException s!"Record size too large: {record.getSize}")
  else if table.firstPageId = nullPageId then
    { table with firstPageId := 0 }.insertIntoNewPage 0 record xid cid env
  else do
    let first ← table.getPage table.firstPageId
    if record.getSize ≤ first.getFreeSpaceSize then
      table.insertInto table.firstPageId first record xid cid env.lsns
    else do
      let (page?, pageId, walked) ← findRoom record.getSize (2 ^ 32) table table.firstPageId
        first.nextPageId
      match page? with
      | some page => walked.insertInto pageId page record xid cid env.lsns
      | none =>
          let linked :=
            if pageId = table.firstPageId then
              walked.modifyPage table.firstPageId fun page =>
                page.setNextPageId (table.firstPageId + 1)
            else
              walked
          linked.insertIntoNewPage (pageId + 1) record xid cid env

/-- `DeleteRecord`, with the LSN of its log record where one is written. -/
def deleteRecord (table : TableData) (rid : Rid) (xid : Nat) (lsn : Option Nat) :
    Except DbError TableData := do
  let page ← table.getPage rid.pageId
  let page ← page.deleteRecord rid.slotId xid
  let page := match lsn with
    | some lsn => page.setPageLsn lsn
    | none => page
  return table.setPage rid.pageId page

/-- `GetRecord` of the page of a record. -/
def getRecord (table : TableData) (rid : Rid) (columns : ColumnList) :
    Except DbError (RecordHeader × List Value) := do
  let page ← table.getPage rid.pageId
  page.getRecord rid.slotId columns

/-! ## The chain of pages -/

open LinkedList (Segment)

/-- Where a page leads. -/
def link (table : TableData) (pageId : Nat) : Option Nat :=
  (table.pages pageId).map PageData.nextPageId

/-- The pages of the table are `0`, ..., `n - 1` in this order, each laid out. -/
structure Chained (table : TableData) (n : Nat) : Prop where
  chain : Segment table.link nullPageId table.firstPageId (List.range n) nullPageId
  laid : ∀ i < n, ∃ page, table.pages i = some page ∧ page.Laid

/-- The table with a link to its page `n`, before that page is placed. -/
def grown (table : TableData) : Nat → TableData
  | 0 => { table with firstPageId := 0 }
  | n + 1 => table.modifyPage n fun page => page.setNextPageId (n + 1)

section

variable {table : TableData} {n size : Nat}

theorem getPage_of_some {pageId : Nat} {page : PageData} (h : table.pages pageId = some page) :
    table.getPage pageId = .ok page := by
  rw [getPage, h]

theorem link_eq_some_iff {pageId next : Nat} :
    table.link pageId = some next ↔
      ∃ page, table.pages pageId = some page ∧ page.nextPageId = next := Option.map_eq_some_iff

theorem chained_empty : Chained empty 0 := by
  refine ⟨rfl, ?_⟩
  intro i hi
  omega

/-- The loop ends at a page with room, or at the last page, which it links. -/
theorem findRoom_spec (size lastPageId : Nat) {l : List Nat} {nextPageId fuel : Nat}
    (h : Segment table.link nullPageId nextPageId l nullPageId) (hfuel : l.length < fuel) :
    (∃ pageId ∈ l, ∃ page, table.pages pageId = some page ∧ size ≤ page.getFreeSpaceSize ∧
      findRoom size fuel table lastPageId nextPageId = .ok (some page, pageId, table)) ∨
    ((∀ pageId ∈ l, ∀ page, table.pages pageId = some page → page.getFreeSpaceSize < size) ∧
      findRoom size fuel table lastPageId nextPageId =
        .ok (none, l.getLastD lastPageId,
          if l = [] then table
          else table.modifyPage (l.getLastD lastPageId) fun page =>
            page.setNextPageId (l.getLastD lastPageId + 1))) := by
  induction l generalizing lastPageId nextPageId fuel with
  | nil =>
      obtain ⟨fuel, rfl⟩ := Nat.exists_eq_succ_of_ne_zero (Nat.ne_of_gt hfuel)
      have hend : nextPageId = nullPageId := h
      refine .inr ⟨fun pageId hmem => (by cases hmem), ?_⟩
      rw [findRoom, if_pos hend]
      rfl
  | cons pageId l ih =>
      obtain ⟨fuel, rfl⟩ := Nat.exists_eq_succ_of_ne_zero (Nat.ne_of_gt (Nat.zero_lt_of_lt hfuel))
      obtain ⟨hne, rfl, following, hlink, hrest⟩ := h
      obtain ⟨page, hpage, hnext⟩ := link_eq_some_iff.mp hlink
      have hstep : findRoom size (fuel + 1) table lastPageId pageId =
          if size ≤ page.getFreeSpaceSize then .ok (some page, pageId, table)
          else findRoom size fuel
            (if page.nextPageId = nullPageId then
              table.modifyPage pageId fun page => page.setNextPageId (pageId + 1)
            else table) pageId page.nextPageId := by
        rw [findRoom, if_neg hne, getPage_of_some hpage]
        rfl
      rw [hstep]
      by_cases hroom : size ≤ page.getFreeSpaceSize
      · rw [if_pos hroom]
        exact .inl ⟨pageId, List.mem_cons_self, page, hpage, hroom, rfl⟩
      · rw [if_neg hroom, hnext]
        rw [List.length_cons] at hfuel
        have hfull : ∀ page', table.pages pageId = some page' → page'.getFreeSpaceSize < size := by
          intro page' hpage'
          cases hpage.symm.trans hpage'
          omega
        cases l with
        | nil =>
            -- the last page
            have hend : following = nullPageId := hrest
            obtain ⟨fuel, rfl⟩ := Nat.exists_eq_succ_of_ne_zero
              (Nat.ne_of_gt (Nat.zero_lt_of_lt (Nat.lt_of_succ_lt_succ hfuel)))
            refine .inr ⟨?_, ?_⟩
            · rw [List.forall_mem_singleton]
              exact hfull
            · rw [if_pos hend, findRoom, if_pos hend]
              rfl
        | cons pageId' l =>
            rw [if_neg hrest.1]
            rcases ih pageId hrest (Nat.lt_of_succ_lt_succ hfuel) with
              hfound | ⟨hall, hrun⟩
            · obtain ⟨found, hmem, hfound⟩ := hfound
              exact .inl ⟨found, List.mem_cons_of_mem _ hmem, hfound⟩
            · refine .inr ⟨List.forall_mem_cons.mpr ⟨hfull, hall⟩, ?_⟩
              rw [hrun, if_neg (List.cons_ne_nil _ _), if_neg (List.cons_ne_nil _ _)]
              rfl

/-! ## `InsertRecord` -/

variable {record : DataRecord}

theorem Chained.le_nullPageId (h : Chained table n) : n ≤ nullPageId := by
  by_contra hlt
  exact h.chain.ne_stop (List.mem_range.mpr (Nat.lt_of_not_le hlt)) rfl

/-- The two ways of an insertion: into a page with room, or into a new page after the last
one where no page has room. -/
theorem insertRecord_cases (h : Chained table n) (hmax : record.getSize ≤ maxRecordSize)
    (xid cid : Nat) (env : InsertEnv) :
    (∃ i < n, ∃ page, table.pages i = some page ∧ record.getSize ≤ page.getFreeSpaceSize ∧
      table.insertRecord record xid cid env = table.insertInto i page record xid cid env.lsns) ∨
    ((∀ i < n, ∀ page, table.pages i = some page → page.getFreeSpaceSize < record.getSize) ∧
      table.insertRecord record xid cid env =
        (table.grown n).insertIntoNewPage n record xid cid env) := by
  have hle := h.le_nullPageId
  have hchain := h.chain
  rw [insertRecord, if_neg (Nat.not_lt.mpr hmax)]
  cases n with
  | zero =>
      have hfirst : table.firstPageId = nullPageId := hchain
      refine .inr ⟨fun i hi => absurd hi (Nat.not_lt_zero i), ?_⟩
      rw [if_pos hfirst]
      rfl
  | succ m =>
      rw [List.range_succ_eq_map] at hchain
      obtain ⟨hne, hzero, following, hlink, hrest⟩ := hchain
      obtain ⟨first, hfirst, hnext⟩ := link_eq_some_iff.mp hlink
      rw [if_neg hne, getPage_of_some hfirst]
      rw [← hzero] at hfirst ⊢
      dsimp only [bind, Except.bind]
      by_cases hroom : record.getSize ≤ first.getFreeSpaceSize
      · rw [if_pos hroom]
        exact .inl ⟨0, Nat.succ_pos m, first, hfirst, hroom, rfl⟩
      · rw [if_neg hroom, hnext]
        have hfuel : ((List.range m).map Nat.succ).length < 2 ^ 32 := by
          rw [List.length_map, List.length_range]
          rw [nullPageId] at hle
          omega
        rcases findRoom_spec record.getSize 0 hrest hfuel with hfound | hfull
        · obtain ⟨pageId, hmem, page, hpage, hfree, hrun⟩ := hfound
          have hlt : pageId < m + 1 := by
            obtain ⟨i, hi, rfl⟩ := List.mem_map.mp hmem
            exact Nat.succ_lt_succ (List.mem_range.mp hi)
          rw [hrun]
          exact .inl ⟨pageId, hlt, page, hpage, hfree, rfl⟩
        · obtain ⟨hall, hrun⟩ := hfull
          refine .inr ⟨?_, ?_⟩
          · intro i hi page hpage
            cases i with
            | zero =>
                cases hfirst.symm.trans hpage
                omega
            | succ i =>
                have hmem := List.mem_map_of_mem (f := Nat.succ)
                  (List.mem_range.mpr (Nat.lt_of_succ_lt_succ hi))
                exact hall (i + 1) hmem page hpage
          · rw [hrun]
            dsimp only
            cases m with
            | zero => rfl
            | succ k =>
                have hlast : ((List.range (k + 1)).map Nat.succ).getLastD 0 = k + 1 := by
                  rw [List.range_succ, List.map_append, List.map_singleton]
                  exact List.getLastD_concat
                have hcons : (List.range (k + 1)).map Nat.succ ≠ [] := by
                  rw [List.range_succ_eq_map]
                  exact List.cons_ne_nil _ _
                rw [hlast, if_neg hcons, if_neg (Nat.succ_ne_zero k)]
                rfl

/-! ## The pages after a write -/

section

variable {pageId : Nat} {page page' : PageData}

@[simp] theorem pages_setPage_self : (table.setPage pageId page).pages pageId = some page :=
  if_pos rfl

theorem pages_setPage_of_ne {i : Nat} (h : i ≠ pageId) :
    (table.setPage pageId page).pages i = table.pages i := if_neg h

/-- A page in the place of one with the same link. -/
theorem Chained.setPage (h : Chained table n) (hpage : table.pages pageId = some page)
    (hlaid : page'.Laid) (hnext : page'.nextPageId = page.nextPageId) :
    Chained (table.setPage pageId page') n where
  chain := by
    apply h.chain.congr
    intro i _
    rw [link, link]
    by_cases hi : i = pageId
    · rw [hi, pages_setPage_self, hpage, Option.map_some, Option.map_some, hnext]
    · rw [pages_setPage_of_ne hi]
  laid i hi := by
    by_cases hpageId : i = pageId
    · rw [hpageId, pages_setPage_self]
      exact ⟨page', rfl, hlaid⟩
    · rw [pages_setPage_of_ne hpageId]
      exact h.laid i hi

/-- The pages before a new one differ from what they were in the link of the last. -/
theorem pages_grown_setPage (new : PageData) {i : Nat} (hi : i < n) (h : table.pages i = some page) :
    ∃ page', ((table.grown n).setPage n new).pages i = some page' ∧
      PageData.Agree page page' 12 dbPageSize ∧
      page'.nextPageId = if i + 1 = n then n % 2 ^ 32 else page.nextPageId := by
  rw [pages_setPage_of_ne (Nat.ne_of_lt hi)]
  cases n with
  | zero => exact absurd hi (Nat.not_lt_zero i)
  | succ m =>
      by_cases hlast : i = m
      · subst hlast
        refine ⟨page.setNextPageId (i + 1), ?_, ?_, ?_⟩
        · change (if i = i then _ else _) = _
          rw [if_pos rfl, h]
          rfl
        · exact PageData.agree_setField _ (.inr (by decide))
        · rw [if_pos rfl, PageData.nextPageId_setNextPageId]
      · refine ⟨page, ?_, .refl _ _ _, ?_⟩
        · change (if i = m then _ else _) = _
          rw [if_neg hlast, h]
        · rw [if_neg (by omega)]

/-- A new page after the last. -/
theorem Chained.grow {new : PageData} (h : Chained table n) (hn : n < nullPageId)
    (hlaid : new.Laid) (hnext : new.nextPageId = nullPageId) :
    Chained ((table.grown n).setPage n new) (n + 1) where
  chain := by
    have hlinkNew : ((table.grown n).setPage n new).link n = some nullPageId := by
      rw [link, pages_setPage_self, Option.map_some, hnext]
    cases n with
    | zero => exact ⟨Nat.ne_of_lt hn, rfl, nullPageId, hlinkNew, rfl⟩
    | succ m =>
        obtain ⟨last, hlast, -⟩ := h.laid m (Nat.lt_succ_self m)
        rw [List.range_succ, List.range_succ, List.append_assoc]
        have hchain := h.chain
        rw [List.range_succ] at hchain
        apply hchain.concat _ _ (Nat.ne_of_lt hn) hlinkNew
        · intro i hi
          rw [List.mem_range] at hi
          obtain ⟨page, hpage, -⟩ := h.laid i (Nat.lt_succ_of_lt hi)
          obtain ⟨page', hpage', -, hnext'⟩ :=
            pages_grown_setPage new (Nat.lt_succ_of_lt hi) hpage
          rw [if_neg (by omega)] at hnext'
          rw [link, link, hpage, hpage', Option.map_some, Option.map_some, hnext']
        · obtain ⟨page', hpage', -, hnext'⟩ :=
            pages_grown_setPage new (Nat.lt_succ_self m) hlast
          rw [if_pos rfl, Nat.mod_eq_of_lt (by rw [nullPageId] at hn; omega)] at hnext'
          rw [link, hpage', Option.map_some, hnext']
  laid i hi := by
    by_cases hlt : i < n
    · obtain ⟨page, hpage, hpageLaid⟩ := h.laid i hlt
      obtain ⟨page', hpage', hagree, -⟩ := pages_grown_setPage new hlt hpage
      exact ⟨page', hpage', (hpageLaid.congr (hagree.mono (Nat.le_refl _) hpageLaid.upper_le)).1⟩
    · have hnew : i = n := by omega
      rw [hnew, pages_setPage_self]
      exact ⟨new, rfl, hlaid⟩

end

end

end TableData

end HuaDB
