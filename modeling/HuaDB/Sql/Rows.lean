import HuaDB.Lib.Exec
import HuaDB.Sql.Heap

/-!
What the operations of a table do to its rows.

An insertion that returns adds one row (`Inserted`), unless the page numbers of the
table are used up; a deletion and its undo rewrite one header; a scan returns the
first row of its rest that it does not skip (`getNextRecord_scans`).
-/

namespace HuaDB

open Sql (Tuple)

/-- What the pages store of a table. -/
def Database.heap (σ : Database) (oid : Nat) : Heap where
  first := match σ.tables.find? oid with
    | none => nullPageId
    | some table => table.firstPageId
  page := fun p => σ.pages ⟨oid, p⟩

/-- The rows of a table, in the order of a scan. -/
def Database.rows (σ : Database) (oid : Nat) : List Tuple := (σ.heap oid).rows

/-- The pages of every table are sound, and none stands alone. -/
structure Database.PagesOk (σ : Database) : Prop where
  heap : ∀ oid, (σ.heap oid).Ok
  table : ∀ oid p page, (σ.heap oid).page p = some page → (σ.tables.find? oid).isSome

def Database.setPage (σ : Database) (oid pageId : Nat) (page : TablePage) : Database :=
  { σ with pages := fun key => if key = ⟨oid, pageId⟩ then some page else σ.pages key }

namespace Database

variable {σ : Database} {oid oid' pageId : Nat} {page : TablePage}

theorem heap_setPage_self (σ : Database) (oid pageId : Nat) (page : TablePage) :
    (σ.setPage oid pageId page).heap oid = (σ.heap oid).setPage pageId page := by
  simp only [heap, setPage, Heap.setPage, Heap.mk.injEq, true_and]
  funext q
  simp only [TablePageid.mk.injEq, true_and]

theorem heap_setPage_ne (h : oid' ≠ oid) : (σ.setPage oid pageId page).heap oid' = σ.heap oid' := by
  simp only [heap, setPage, Heap.mk.injEq, true_and]
  funext q
  exact if_neg fun heq => h (congrArg TablePageid.tableOid heq)

theorem pages_setPage {key : TablePageid} (h : (σ.pages key).isSome) :
    ((σ.setPage oid pageId page).pages key).isSome := by
  rw [setPage]
  dsimp only
  split
  · rfl
  · exact h

/-- The heaps are read off the pages and the tables. -/
theorem heap_congr {σ' : Database} (hpages : σ'.pages = σ.pages) (htables : σ'.tables = σ.tables)
    (oid : Nat) : σ'.heap oid = σ.heap oid := by
  rw [heap, heap, hpages, htables]

theorem PagesOk.congr {σ' : Database} (ok : σ.PagesOk) (hpages : σ'.pages = σ.pages)
    (htables : σ'.tables = σ.tables) : σ'.PagesOk where
  heap oid := heap_congr hpages htables oid ▸ ok.heap oid
  table oid p page h := htables ▸ ok.table oid p page (heap_congr hpages htables oid ▸ h)

/-- A write to the pages of one table. -/
theorem PagesOk.of_write {σ' : Database} (ok : σ.PagesOk)
    (htables : ∀ o, (σ.tables.find? o).isSome → (σ'.tables.find? o).isSome)
    (htable : (σ.tables.find? oid).isSome) (hok : (σ'.heap oid).Ok)
    (hothers : ∀ oid', oid' ≠ oid → σ'.heap oid' = σ.heap oid') : σ'.PagesOk where
  heap oid' := by
    by_cases h : oid' = oid
    · exact h ▸ hok
    · exact hothers oid' h ▸ ok.heap oid'
  table oid' p page hpage := by
    by_cases h : oid' = oid
    · exact h ▸ htables oid htable
    · exact htables oid' (ok.table oid' p page (hothers oid' h ▸ hpage))

end Database

namespace Sql

open EStateM

variable {σ σ' : Database} {oid : Nat}

theorem getTable_eq {table : HuaDB.Table} (h : σ.tables.find? oid = some table) :
    getTable oid σ = .ok table σ := by
  simp only [getTable, bind_apply, get_apply, h, pure_apply]

theorem getTable_error (h : σ.tables.find? oid = none) :
    ∃ message, getTable oid σ = .error (.thrown (.dbException message)) σ :=
  ⟨_, by simp only [getTable, bind_apply, get_apply, h, throwDb, throw_apply]; rfl⟩

/-- A page of a table that is there. -/
theorem getPage_of_table {table : Table} (htable : σ.tables.find? oid = some table) {p : Nat}
    {page : TablePage} (h : (σ.heap oid).page p = some page) : getPage oid p σ = .ok page σ := by
  have hpage : σ.pages ⟨oid, p⟩ = some page := h
  simp only [getPage, bind_apply, getTable_eq htable, get_apply, hpage, pure_apply]

theorem getPage_eq (ok : σ.PagesOk) {p : Nat} {page : TablePage}
    (h : (σ.heap oid).page p = some page) : getPage oid p σ = .ok page σ := by
  rcases Option.isSome_iff_exists.mp (ok.table oid p page h) with ⟨table, htable⟩
  exact getPage_of_table htable h

theorem setPage_eq (p : Nat) (page : TablePage) :
    setPage oid p page σ = .ok PUnit.unit (σ.setPage oid p page) := rfl

theorem append_eq {xid : Nat} {chain : List LogBody} (h : σ.att.find? xid = some chain)
    (body : LogBody) (caller : String) :
    LogManager.append xid body caller σ =
      .ok PUnit.unit { σ with att := σ.att.insert xid (body :: chain) } := by
  simp only [LogManager.append, bind_apply, get_apply, h, modify_apply]

/-! ## Headers -/

/-- One header was rewritten. -/
structure Rewritten (oid : Nat) (rid : Rid) (f : RecordHeader → RecordHeader) (σ σ' : Database) :
    Prop where
  frame : σ' = { σ with pages := σ'.pages }
  pagesOk : σ'.PagesOk
  place : ∀ r, (σ.heap oid).Place r → (σ'.heap oid).Place r
  rest : ∀ r, (σ.heap oid).Place r →
    (σ'.heap oid).rest r = ((σ.heap oid).rest r).map (TablePage.rewrite rid f)
  others : ∀ oid', oid' ≠ oid → σ'.heap oid' = σ.heap oid'
  grows : ∀ key, (σ.pages key).isSome → (σ'.pages key).isSome
  stays : ∀ oid' r, (σ.heap oid').At r → (σ'.heap oid').At r

theorem Rewritten.rows {rid : Rid} {f : RecordHeader → RecordHeader} (ok : σ.PagesOk)
    (h : Rewritten oid rid f σ σ') :
    σ'.rows oid = (σ.rows oid).map (TablePage.rewrite rid f) := by
  have hfirst : (σ'.heap oid).first = (σ.heap oid).first := by
    rw [h.frame]
    rfl
  rw [Database.rows, Heap.rows, hfirst, h.rest _ (ok.heap oid).place_first]
  rfl

/-- Rewriting the header of a record that is there. -/
theorem modifyPage_rewritten (ok : σ.PagesOk) {rid : Rid} (hat : (σ.heap oid).At rid)
    (f : RecordHeader → RecordHeader) :
    ∃ σ', modifyPage oid rid.pageId (fun p => p.modifyHeader rid.slotId f) σ = .ok PUnit.unit σ' ∧
      Rewritten oid rid f σ σ' := by
  rcases hat with ⟨page, hpage, hslot⟩
  have hok := ok.heap oid
  rcases Option.isSome_iff_exists.mp (((hok.wellFormed _ page hpage).slots rid.slotId).mpr hslot) with
    ⟨stored, hstored⟩
  have hmodify : ∃ page', page.modifyHeader rid.slotId f = some page' := by
    simp only [TablePage.modifyHeader, hstored, Option.map_some]
    exact ⟨_, rfl⟩
  rcases hmodify with ⟨page', hpage'⟩
  have hself := Database.heap_setPage_self σ oid rid.pageId page'
  have hothers : ∀ oid', oid' ≠ oid → (σ.setPage oid rid.pageId page').heap oid' = σ.heap oid' :=
    fun _ => Database.heap_setPage_ne
  use σ.setPage oid rid.pageId page'
  constructor
  · simp only [modifyPage, bind_apply, getPage_eq ok hpage, hpage', setPage_eq]
  constructor
  · rfl
  · exact ok.of_write (fun _ => id) (ok.table oid _ page hpage)
      (hself ▸ hok.modifyHeader hpage hpage') hothers
  · intro r place
    rw [hself]
    exact Heap.place_modifyHeader hpage hpage' place
  · intro r place
    rw [hself]
    exact hok.rest_modifyHeader hpage hpage' (hok.holds_of_place place) r.slotId
  · exact hothers
  · exact fun key => Database.pages_setPage
  · intro oid' r hat
    by_cases h : oid' = oid
    · rw [h] at hat ⊢
      rw [hself]
      exact Heap.at_modifyHeader hpage hpage' hat
    · rwa [hothers oid' h]

/-! ## Insertions -/

/-- The record that is stored. -/
def stamp (newRecord : Record) (xid cid : Nat) : Record :=
  { newRecord with header := { newRecord.header with cid := cid, xmin := xid } }

/-- The log records of an insertion into the heap `h`, newest first. -/
inductive InsertionLog (h : Heap) (oid : Nat) (rid : Rid) (stored : Record) : List LogBody → Prop
  | placed (offset size : Nat) (hpage : rid.pageId ≠ nullPageId) :
      InsertionLog h oid rid stored [.insert oid rid.pageId rid.slotId offset size stored]
  | created (offset size prevPageId : Nat) (holds : h.Holds prevPageId) (hslot : rid.slotId = 0) :
      InsertionLog h oid rid stored [.insert oid rid.pageId rid.slotId offset size stored,
        .newPage oid prevPageId rid.pageId]

theorem InsertionLog.slotId_eq {h : Heap} {rid : Rid} {stored : Record} {bodies : List LogBody}
    (log : InsertionLog h oid rid stored bodies) (hnull : rid.pageId = nullPageId) :
    rid.slotId = 0 := by
  cases log with
  | placed _ _ hpage => exact absurd hnull hpage
  | created _ _ _ _ hslot => exact hslot

/-- What an insertion does that returns. -/
structure Inserted (oid : Nat) (newRecord : Record) (xid cid : Nat) (rid : Rid) (σ σ' : Database) :
    Prop where
  frame : σ' = { σ with pages := σ'.pages, tables := σ'.tables, att := σ'.att }
  att : ∃ chain bodies, σ.att.find? xid = some chain ∧
    InsertionLog (σ.heap oid) oid rid (stamp newRecord xid cid) bodies ∧
    σ'.att = σ.att.insert xid (bodies ++ chain)
  tables : ∀ o, (σ'.tables.find? o).isSome = (σ.tables.find? o).isSome
  pagesOk : σ'.PagesOk
  stored : (σ'.heap oid).At rid
  place : ∀ r, (σ.heap oid).Place r → (σ'.heap oid).Place r
  rest : ∀ r, (σ.heap oid).Place r →
    (σ'.heap oid).rest r = (σ.heap oid).rest r ∨
      Heap.InsertedIn ⟨stamp newRecord xid cid, rid⟩ ((σ.heap oid).rest r) ((σ'.heap oid).rest r)
  rows : rid.pageId ≠ nullPageId →
    Heap.InsertedIn ⟨stamp newRecord xid cid, rid⟩ (σ.rows oid) (σ'.rows oid)
  /-- Where the page numbers are used up, the row is in no scan. -/
  lost : rid.pageId = nullPageId → σ'.rows oid = σ.rows oid
  others : ∀ oid', oid' ≠ oid → σ'.heap oid' = σ.heap oid'
  grows : ∀ key, (σ.pages key).isSome → (σ'.pages key).isSome

section Insertion

variable {newRecord : Record} {xid : Nat} {chain : List LogBody}

theorem Inserted.of_adds {cid : Nat} {rid : Rid} (ok : σ.PagesOk)
    (frame : σ' = { σ with pages := σ'.pages, tables := σ'.tables, att := σ'.att })
    (att : ∃ chain bodies, σ.att.find? xid = some chain ∧
      InsertionLog (σ.heap oid) oid rid (stamp newRecord xid cid) bodies ∧
      σ'.att = σ.att.insert xid (bodies ++ chain))
    (tables : ∀ o, (σ'.tables.find? o).isSome = (σ.tables.find? o).isSome)
    (htable : (σ.tables.find? oid).isSome) (hrid : rid.pageId ≠ nullPageId)
    (adds : (σ.heap oid).Adds (σ'.heap oid) ⟨stamp newRecord xid cid, rid⟩)
    (others : ∀ oid', oid' ≠ oid → σ'.heap oid' = σ.heap oid')
    (grows : ∀ key, (σ.pages key).isSome → (σ'.pages key).isSome) :
    Inserted oid newRecord xid cid rid σ σ' where
  frame := frame
  att := att
  tables := tables
  pagesOk := ok.of_write (fun o h => tables o ▸ h) htable adds.ok others
  stored := by
    rcases adds.rows with ⟨pre, post, -, hrows⟩
    have hmem : ⟨stamp newRecord xid cid, rid⟩ ∈ (σ'.heap oid).rows := by
      rw [hrows]
      exact List.mem_append_right pre List.mem_cons_self
    exact adds.ok.at_of_mem adds.ok.place_first hmem
  place := adds.place
  rest := adds.rest
  rows _ := adds.rows
  lost hnull := absurd hnull hrid
  others := others
  grows := grows

/-- A record in a page of the table with room. -/
theorem insertInto_inserted (cid : Nat) (ok : σ.PagesOk) (hatt : σ.att.find? xid = some chain) {p : Nat}
    {page : TablePage} (hp : p ≠ nullPageId) (reaches : (σ.heap oid).Reaches (σ.heap oid).first p)
    (hpage : (σ.heap oid).page p = some page) (hpos : 0 < newRecord.getSize)
    (hfree : newRecord.getSize ≤ page.getFreeSpaceSize) :
    ∃ rid σ', Table.insertInto oid p page newRecord xid cid σ = .ok rid σ' ∧
      Inserted oid newRecord xid cid rid σ σ' := by
  have hok := ok.heap oid
  have wf := hok.wellFormed p page hpage
  have adds := hok.adds_takes hp reaches hpage (wf.takes hpos hfree xid cid p)
  have hslot : (page.insertRecord newRecord xid cid).1 = page.getRecordCount :=
    (wf.insertRecord hpos hfree xid cid).2.1
  rw [← Database.heap_setPage_self] at adds
  generalize hpage' : (page.insertRecord newRecord xid cid).2.2 = page' at adds
  have hrun : Table.insertInto oid p page newRecord xid cid σ = .ok ⟨p, page.getRecordCount⟩
      { σ.setPage oid p page' with
        att := σ.att.insert xid (.insert oid p page.getRecordCount page'.upper
          (stamp newRecord xid cid).getSize (stamp newRecord xid cid) :: chain) } := by
    have hatt' : (σ.setPage oid p page').att.find? xid = some chain := hatt
    simp only [Table.insertInto, bind_apply, setPage_eq, hpage', hslot, append_eq hatt', pure_apply]
    rfl
  have others : ∀ oid', oid' ≠ oid → (σ.setPage oid p page').heap oid' = σ.heap oid' :=
    fun _ => Database.heap_setPage_ne
  exact ⟨_, _, hrun, .of_adds ok rfl ⟨chain, _, hatt, .placed _ _ hp, rfl⟩ (fun _ => rfl)
    (ok.table oid p page hpage) hp adds others fun _ => Database.pages_setPage⟩

theorem getRecordCount_init_zero : TablePage.zero.init.getRecordCount = 0 := by decide

/-- A record in a new page. -/
theorem insertIntoNewPage_eq (oid prevPageId p cid : Nat) (hxid : xid ≠ ddlXid)
    (hatt : σ.att.find? xid = some chain) (hpos : 0 < newRecord.getSize)
    (hsize : newRecord.getSize ≤ maxRecordSize) :
    ∃ page' offset size, TablePage.zero.init.Takes page' p ⟨stamp newRecord xid cid, ⟨p, 0⟩⟩ ∧
      Table.insertIntoNewPage oid prevPageId p newRecord xid cid σ = .ok ⟨p, 0⟩
        { σ.setPage oid p page' with
          att := σ.att.insert xid ([.insert oid p 0 offset size (stamp newRecord xid cid),
            .newPage oid prevPageId p] ++ chain) } := by
  have hfree := Nat.le_trans hsize TablePage.maxRecordSize_le_init_zero
  have takes := TablePage.wellFormed_init_zero.takes hpos hfree xid cid p
  have hslot : (TablePage.zero.init.insertRecord newRecord xid cid).1 = 0 :=
    (TablePage.wellFormed_init_zero.insertRecord hpos hfree xid cid).2.1.trans
      getRecordCount_init_zero
  rw [getRecordCount_init_zero] at takes
  refine ⟨_, (TablePage.zero.init.insertRecord newRecord xid cid).2.2.upper,
    (stamp newRecord xid cid).getSize, takes, ?_⟩
  generalize hpage' : (TablePage.zero.init.insertRecord newRecord xid cid).2.2 = page'
  have hatt' : (σ.setPage oid p page').att.find? xid = some chain := hatt
  have hatt'' : (Assoc.insert xid (.newPage oid prevPageId p :: chain) σ.att).find? xid =
      some (.newPage oid prevPageId p :: chain) := Assoc.find?_insert_self _ _ _
  simp only [Table.insertIntoNewPage, bind_apply, setPage_eq, hpage', hslot,
    LogManager.appendNewPageLog, if_neg hxid, append_eq hatt', pure_apply]
  rw [append_eq hatt'']
  simp only [Assoc.insert_insert]
  rfl

/-- What the loop of `Table::InsertRecord` finds after a page of the table. -/
inductive RoomFound (oid size lastPageId : Nat) (σ : Database) :
    Option TablePage × Nat → Database → Prop
  | room {p : Nat} {page : TablePage} (hp : p ≠ nullPageId)
      (reaches : (σ.heap oid).Reaches (σ.heap oid).first p)
      (hpage : (σ.heap oid).page p = some page) (hfree : size ≤ page.getFreeSpaceSize) :
      RoomFound oid size lastPageId σ (some page, p) σ
  /-- The page the loop started after is the last one. -/
  | last {page : TablePage} (hpage : (σ.heap oid).page lastPageId = some page)
      (hnext : page.nextPageId = nullPageId) : RoomFound oid size lastPageId σ (none, lastPageId) σ
  /-- Another page is, and was linked to its successor. -/
  | linked {p : Nat} {page : TablePage} (hlt : lastPageId < p) (hp : p ≠ nullPageId)
      (reaches : (σ.heap oid).Reaches (σ.heap oid).first p)
      (hpage : (σ.heap oid).page p = some page) (hnext : page.nextPageId = nullPageId) :
      RoomFound oid size lastPageId σ (none, p) (σ.setPage oid p (page.setNextPageId (p + 1)))

/-- The loop ends when it has a round for each page number left. -/
theorem findRoom_ends (size : Nat) (ok : σ.PagesOk) {lastPageId : Nat} {lastPage : TablePage}
    (hne : lastPageId ≠ nullPageId)
    (reaches : (σ.heap oid).Reaches (σ.heap oid).first lastPageId)
    (hpage : (σ.heap oid).page lastPageId = some lastPage) (fuel : Nat) :
    Ends σ (Table.findRoom oid size fuel lastPageId lastPage.nextPageId)
      (RoomFound oid size lastPageId σ)
      fun e _ => e = .divergence ∧ fuel ≤ nullPageId - lastPage.nextPageId := by
  induction fuel generalizing lastPageId lastPage with
  | zero => exact .throw ⟨rfl, Nat.zero_le _⟩
  | succ fuel ih =>
      have hok := ok.heap oid
      rw [Table.findRoom]
      by_cases hnext : lastPage.nextPageId = nullPageId
      · rw [if_pos hnext]
        exact .pure (.last hpage hnext)
      · rw [if_neg hnext]
        have hlt := hok.lt_next hne hpage
        have hle := hok.le_of_holds (hok.holds_next hpage)
        have reaches' := reaches.tail ⟨hne, lastPage, hpage, rfl⟩
        rcases (hok.holds_next hpage) with hnull | hsome
        · exact absurd hnull hnext
        rcases Option.isSome_iff_exists.mp hsome with ⟨page, hpage'⟩
        apply Ends.bind_of_ok (getPage_eq ok hpage')
        by_cases hfree : size ≤ page.getFreeSpaceSize
        · rw [if_pos hfree]
          exact .pure (.room hnext reaches' hpage' hfree)
        · rw [if_neg hfree]
          by_cases hend : page.nextPageId = nullPageId
          · rw [if_pos hend, hend]
            apply Ends.bind_of_ok (setPage_eq _ _)
            cases fuel with
            | zero => exact .throw ⟨rfl, by omega⟩
            | succ fuel =>
                rw [Table.findRoom, if_pos rfl]
                exact .pure (.linked hlt hnext reaches' hpage' hend)
          · rw [if_neg hend]
            have hlt' := hok.lt_next hnext hpage'
            have hle' := hok.le_of_holds (hok.holds_next hpage')
            apply (ih hnext reaches' hpage').mono
            · rintro _ _ (⟨hp, hreach, hpg, hfits⟩ | ⟨hpg, hlast⟩ | ⟨hlt₂, hp, hreach, hpg, hlast⟩)
              · exact .room hp hreach hpg hfits
              · cases hpage'.symm.trans hpg
                exact absurd hlast hend
              · exact .linked (Nat.lt_trans hlt hlt₂) hp hreach hpg hlast
            · rintro e _ ⟨rfl, hfuel⟩
              exact ⟨rfl, by omega⟩

/-- A record in a new page after the last one. -/
theorem insertAfterLast_inserted (cid : Nat) (ok : σ.PagesOk) (hxid : xid ≠ ddlXid)
    (hatt : σ.att.find? xid = some chain) (hpos : 0 < newRecord.getSize)
    (hsize : newRecord.getSize ≤ maxRecordSize) {p : Nat} {page : TablePage} (hp : p ≠ nullPageId)
    (reaches : (σ.heap oid).Reaches (σ.heap oid).first p) (hpage : (σ.heap oid).page p = some page)
    (hnext : page.nextPageId = nullPageId) :
    ∃ rid σ', Table.insertIntoNewPage oid p (p + 1) newRecord xid cid
        (σ.setPage oid p (page.setNextPageId (p + 1))) = .ok rid σ' ∧
      Inserted oid newRecord xid cid rid σ σ' := by
  have hok := ok.heap oid
  have hle := hok.bound p page hpage
  have htable := ok.table oid p page hpage
  generalize hσ₁ : σ.setPage oid p (page.setNextPageId (p + 1)) = σ₁
  have hatt₁ : σ₁.att.find? xid = some chain := hσ₁ ▸ hatt
  rcases insertIntoNewPage_eq oid p (p + 1) cid hxid hatt₁ hpos hsize with
    ⟨page', offset, size, takes, hrun⟩
  have hheap : (σ₁.setPage oid (p + 1) page').heap oid =
      ((σ.heap oid).setPage p (page.setNextPageId (p + 1))).setPage (p + 1) page' := by
    rw [Database.heap_setPage_self, ← hσ₁, Database.heap_setPage_self]
  have others : ∀ oid', oid' ≠ oid → (σ₁.setPage oid (p + 1) page').heap oid' = σ.heap oid' := by
    intro oid' h
    rw [Database.heap_setPage_ne h, ← hσ₁, Database.heap_setPage_ne h]
  have hframe : σ₁ = { σ with pages := σ₁.pages } := by
    rw [← hσ₁]
    rfl
  have htables : σ₁.tables = σ.tables := by rw [hframe]
  generalize hbodies : [LogBody.insert oid (p + 1) 0 offset size (stamp newRecord xid cid),
    .newPage oid p (p + 1)] = bodies at hrun
  have hlog : InsertionLog (σ.heap oid) oid ⟨p + 1, 0⟩ (stamp newRecord xid cid) bodies :=
    hbodies ▸ .created offset size p (.inr (by rw [hpage]; rfl)) rfl
  generalize hσ₂ : σ₁.setPage oid (p + 1) page' = σ₂ at hrun hheap others
  have hframe₂ : { σ₂ with att := σ₁.att.insert xid (bodies ++ chain) } =
      { σ with pages := σ₂.pages, att := σ.att.insert xid (bodies ++ chain) } := by
    rw [← hσ₂, hframe]
    rfl
  rw [hframe₂] at hrun
  have htables₂ : σ.tables = σ₂.tables := by
    rw [← hσ₂, hframe]
    rfl
  generalize hσ' : { σ with pages := σ₂.pages, att := σ.att.insert xid (bodies ++ chain) } = σ'
    at hrun
  have hσ'heap : ∀ o, σ'.heap o = σ₂.heap o := by
    intro o
    rw [← hσ', Database.heap, Database.heap, htables₂]
  rw [← hσ'heap] at hheap
  have others' : ∀ oid', oid' ≠ oid → σ'.heap oid' = σ.heap oid' :=
    fun oid' h => (hσ'heap oid').trans (others oid' h)
  have frame : σ' = { σ with pages := σ'.pages, tables := σ'.tables, att := σ'.att } := by
    rw [← hσ']
  have att : ∃ chain bodies, σ.att.find? xid = some chain ∧
      InsertionLog (σ.heap oid) oid ⟨p + 1, 0⟩ (stamp newRecord xid cid) bodies ∧
      σ'.att = σ.att.insert xid (bodies ++ chain) := ⟨chain, bodies, hatt, hlog, by rw [← hσ']⟩
  have tables : ∀ o, (σ'.tables.find? o).isSome = (σ.tables.find? o).isSome := by
    rw [← hσ']
    exact fun _ => rfl
  have grows : ∀ key, (σ.pages key).isSome → (σ'.pages key).isSome := by
    rw [← hσ', ← hσ₂, ← hσ₁]
    exact fun key h => Database.pages_setPage (Database.pages_setPage h)
  refine ⟨_, _, hrun, ?_⟩
  by_cases hlast : p + 1 = nullPageId
  · -- the link is the null page number, which the last page has already
    have hsame : page.setNextPageId (p + 1) = page := by
      rw [hlast, ← hnext]
      rfl
    rw [hsame, Heap.setPage_self hpage, hlast] at hheap
    have hcount : 0 < page'.getRecordCount := takes.count ▸ Nat.succ_pos _
    rcases hok.setPage_null takes.wellFormed hcount takes.nextPageId with ⟨ok', hplace, hrest⟩
    rw [← hheap] at ok' hplace hrest
    constructor
    · exact frame
    · exact att
    · exact tables
    · exact ok.of_write (fun o h => tables o ▸ h) htable ok' others'
    · rw [hheap, hlast]
      exact ⟨page', Heap.setPage_page_self page', hcount⟩
    · exact hplace
    · exact fun r place => .inl (hrest r place)
    · exact fun hne => absurd hlast hne
    · intro _
      have hrows := hrest _ hok.place_first
      rw [Database.rows, Heap.rows, hheap]
      rwa [hheap] at hrows
    · exact others'
    · exact grows
  · have hlt : p + 1 < nullPageId := by omega
    have adds := hok.adds_last hlt reaches hpage hnext takes
    rw [← hheap] at adds
    exact .of_adds ok frame att tables htable hlast adds others' grows

/-- The first record of a table. -/
theorem insertFirst_inserted (cid : Nat) (ok : σ.PagesOk) (hxid : xid ≠ ddlXid)
    (hatt : σ.att.find? xid = some chain) (hpos : 0 < newRecord.getSize)
    (hsize : newRecord.getSize ≤ maxRecordSize) {table : HuaDB.Table}
    (htable : σ.tables.find? oid = some table) (hfirst : table.firstPageId = nullPageId) :
    ∃ rid σ', Table.insertIntoNewPage oid nullPageId 0 newRecord xid cid
        { σ with tables := σ.tables.insert oid { table with firstPageId := 0 } } = .ok rid σ' ∧
      Inserted oid newRecord xid cid rid σ σ' := by
  have hok := ok.heap oid
  generalize hσ₁ : { σ with tables := σ.tables.insert oid { table with firstPageId := 0 } } = σ₁
  have hatt₁ : σ₁.att.find? xid = some chain := hσ₁ ▸ hatt
  rcases insertIntoNewPage_eq oid nullPageId 0 cid hxid hatt₁ hpos hsize with
    ⟨page', offset, size, takes, hrun⟩
  have hheapfirst : (σ.heap oid).first = nullPageId := by
    simp only [Database.heap, htable, hfirst]
  have adds := hok.adds_first hheapfirst takes
  have hself : (σ₁.setPage oid 0 page').heap oid =
      { σ.heap oid with first := 0 }.setPage 0 page' := by
    rw [Database.heap_setPage_self, ← hσ₁]
    simp only [Database.heap, Assoc.find?_insert_self]
  have hothers : ∀ oid', oid' ≠ oid → (σ₁.setPage oid 0 page').heap oid' = σ.heap oid' := by
    intro oid' h
    rw [Database.heap_setPage_ne h, ← hσ₁]
    simp only [Database.heap, Assoc.find?_insert_ne (Ne.symm h)]
  have htables : ∀ o, ((σ.tables.insert oid { table with firstPageId := 0 }).find? o).isSome =
      (σ.tables.find? o).isSome := by
    intro o
    by_cases h : o = oid
    · rw [h, Assoc.find?_insert_self, htable]
      rfl
    · rw [Assoc.find?_insert_ne (Ne.symm h)]
  rw [← hself] at adds
  subst hσ₁
  exact ⟨_, _, hrun, .of_adds ok rfl
    ⟨chain, _, hatt, .created offset size nullPageId (.inl rfl) rfl, rfl⟩ htables (by rw [htable]; rfl) (by decide) adds hothers fun _ => Database.pages_setPage⟩

/-- How an operation stops short: it throws, it has had its rounds, or it overruns a page. -/
def Stops (fuel bound : Nat) (overrun : Prop) : SqlError → Prop
  | .thrown _ => True
  | .divergence => fuel ≤ bound
  | .memoryFault => overrun

theorem Stops.mono {fuel fuel' bound bound' : Nat} {overrun overrun' : Prop} {e : SqlError}
    (h : Stops fuel bound overrun e) (hfuel : fuel ≤ bound → fuel' ≤ bound')
    (hoverrun : overrun → overrun') : Stops fuel' bound' overrun' e := by
  cases e with
  | thrown => trivial
  | divergence => exact hfuel h
  | memoryFault => exact hoverrun h

/-- The size of the record does not fit in 16 bits, and what these hold of it passes the check. -/
def Overruns (record : Record) : Prop :=
  record.getSize ≤ maxRecordSize ∧ record.getSize ≠ recordHeaderSize + record.data.length

/-- `Table::InsertRecord`. -/
theorem insertRecord_ends (cid : Nat) (ok : σ.PagesOk) (hxid : xid ≠ ddlXid)
    (hatt : σ.att.find? xid = some chain) (fuel : Nat) :
    Ends σ (Table.insertRecord fuel oid newRecord xid cid)
      (fun rid σ' => newRecord.getSize ≤ maxRecordSize ∧ Inserted oid newRecord xid cid rid σ σ')
      fun e σ' =>
        (∀ ex, e = .thrown ex → σ' = σ ∧ (∃ message, ex = .dbException message) ∧
          (σ.tables.find? oid = none ∨ maxRecordSize < newRecord.getSize)) ∧
        Stops fuel nullPageId (Overruns newRecord) e := by
  have hthrown : ∀ message, (σ.tables.find? oid = none ∨ maxRecordSize < newRecord.getSize) →
      ∀ ex, SqlError.thrown (.dbException message) = .thrown ex → σ = σ ∧
        (∃ message, ex = .dbException message) ∧
        (σ.tables.find? oid = none ∨ maxRecordSize < newRecord.getSize) := by
    intro message hcause ex hex
    cases hex
    exact ⟨rfl, ⟨message, rfl⟩, hcause⟩
  rw [Table.insertRecord]
  cases htable : σ.tables.find? oid with
  | none =>
      rcases getTable_error htable with ⟨message, herror⟩
      exact .bind_of_error herror ⟨htable ▸ hthrown message (.inl htable), trivial⟩
  | some table =>
      apply Ends.bind_of_ok (getTable_eq htable)
      by_cases hsize : maxRecordSize < newRecord.getSize
      · rw [if_pos hsize]
        exact .bind_of_error rfl ⟨htable ▸ hthrown _ (.inr hsize), trivial⟩
      rw [if_neg hsize]
      by_cases hlen : newRecord.getSize = recordHeaderSize + newRecord.data.length
      · rw [if_neg (not_not.mpr hlen)]
        have hpos : 0 < newRecord.getSize := by
          rw [hlen]
          exact Nat.lt_of_lt_of_le (by decide) (Nat.le_add_right _ _)
        have hle : newRecord.getSize ≤ maxRecordSize := Nat.le_of_not_lt hsize
        by_cases hfirst : table.firstPageId = nullPageId
        · rw [if_pos hfirst]
          rcases insertFirst_inserted cid ok hxid hatt hpos hle htable hfirst with
            ⟨rid, σ', hrun, inserted⟩
          exact .of_eq_ok hrun ⟨hle, inserted⟩
        · rw [if_neg hfirst]
          have hok := ok.heap oid
          have hheap : (σ.heap oid).first = table.firstPageId := by
            simp only [Database.heap, htable]
          rcases hok.first with hnull | hsome
          · exact absurd (hheap.symm.trans hnull) hfirst
          rw [hheap] at hsome
          rcases Option.isSome_iff_exists.mp hsome with ⟨page, hpage⟩
          have hreach : (σ.heap oid).Reaches (σ.heap oid).first table.firstPageId :=
            hheap ▸ .refl
          apply Ends.bind_of_ok (getPage_eq ok hpage)
          by_cases hfree : newRecord.getSize ≤ page.getFreeSpaceSize
          · rw [if_pos hfree]
            rcases insertInto_inserted cid ok hatt hfirst hreach hpage hpos hfree with
              ⟨rid, σ', hrun, inserted⟩
            exact .of_eq_ok hrun ⟨hle, inserted⟩
          · rw [if_neg hfree]
            have found := findRoom_ends newRecord.getSize ok hfirst hreach hpage fuel
            apply Ends.bind (found.mono (fun _ _ => id) _)
            · rintro ⟨page?, p⟩ σ₁ found
              cases found with
              | room hp reaches hpage' hfits =>
                  rcases insertInto_inserted cid ok hatt hp reaches hpage' hpos hfits with
                    ⟨rid, σ', hrun, inserted⟩
                  exact .of_eq_ok hrun ⟨hle, inserted⟩
              | last hpage' hnext =>
                  rcases insertAfterLast_inserted cid ok hxid hatt hpos hle hfirst hreach hpage'
                    hnext with ⟨rid, σ', hrun, inserted⟩
                  cases hpage.symm.trans hpage'
                  dsimp only
                  rw [if_pos rfl]
                  exact .bind_of_ok (setPage_eq _ _) (.of_eq_ok hrun ⟨hle, inserted⟩)
              | linked hlt hp reaches hpage' hnext =>
                  rcases insertAfterLast_inserted cid ok hxid hatt hpos hle hp reaches hpage'
                    hnext with ⟨rid, σ', hrun, inserted⟩
                  dsimp only
                  rw [if_neg (Nat.ne_of_gt hlt)]
                  exact .of_eq_ok hrun ⟨hle, inserted⟩
            · rintro e σ' ⟨rfl, hfuel⟩
              exact ⟨fun _ h => (by cases h), Nat.le_trans hfuel (Nat.sub_le _ _)⟩
      · rw [if_pos hlen]
        exact .bind_of_error rfl
          ⟨fun _ h => (by cases h), Nat.le_of_not_lt hsize, hlen⟩

end Insertion

/-! ## Deletions and undo -/

/-- The header of a record that `xid` deleted. -/
def deletedBy (xid : Nat) (header : RecordHeader) : RecordHeader :=
  { header with deleted := true, xmax := xid }

/-- The header after the deletion is undone. -/
def undeleted (header : RecordHeader) : RecordHeader :=
  { header with deleted := false, xmax := nullXid }

/-- `Table::DeleteRecord`. -/
theorem deleteRecord_eq {rid : Rid} {xid : Nat} {chain : List LogBody} (ok : σ.PagesOk)
    (hat : (σ.heap oid).At rid) (hatt : σ.att.find? xid = some chain) :
    ∃ σ₁, Rewritten oid rid (deletedBy xid) σ σ₁ ∧
      Table.deleteRecord oid rid xid σ = .ok PUnit.unit { σ₁ with
        att := σ.att.insert xid (.delete oid rid.pageId rid.slotId :: chain)
        events := .deleted xid oid rid :: σ.events } := by
  rcases modifyPage_rewritten ok hat (deletedBy xid) with ⟨σ₁, hrun, rewritten⟩
  have hatt₁ : σ₁.att.find? xid = some chain := by
    rw [rewritten.frame]
    exact hatt
  use σ₁, rewritten
  have hdelete : modifyPage oid rid.pageId (fun page => page.deleteRecord rid.slotId xid) σ =
      .ok PUnit.unit σ₁ := hrun
  simp only [Table.deleteRecord, bind_apply, hdelete, append_eq hatt₁, record, modify_apply]
  rw [rewritten.frame]

/-- `InsertLog::Undo`. -/
theorem undo_insert {pageId slotId offset size x : Nat} {stored : Record} (ok : σ.PagesOk)
    (hat : (σ.heap oid).At ⟨pageId, slotId⟩) :
    ∃ σ', Rewritten oid ⟨pageId, slotId⟩ (deletedBy x) σ σ' ∧
      LogManager.undo x (.insert oid pageId slotId offset size stored) σ = .ok PUnit.unit σ' := by
  rcases modifyPage_rewritten ok hat (deletedBy x) with ⟨σ', hrun, rewritten⟩
  exact ⟨σ', rewritten, hrun⟩

/-- `DeleteLog::Undo`. -/
theorem undo_delete {pageId slotId x : Nat} (ok : σ.PagesOk)
    (hat : (σ.heap oid).At ⟨pageId, slotId⟩) :
    ∃ σ', Rewritten oid ⟨pageId, slotId⟩ undeleted σ σ' ∧
      LogManager.undo x (.delete oid pageId slotId) σ = .ok PUnit.unit σ' := by
  rcases modifyPage_rewritten ok hat undeleted with ⟨σ', hrun, rewritten⟩
  exact ⟨σ', rewritten, hrun⟩

/-! ## Scans -/

/-- What a scan returns that looks for the rows that are `wanted`, with what is left
of it. -/
inductive Scans (wanted : Tuple → Prop) (rest rest' : List Tuple) : Option Tuple → Prop
  | found {tuple : Tuple} (skipped : List Tuple) (hrest : rest = skipped ++ tuple :: rest')
      (hskipped : ∀ t ∈ skipped, ¬ wanted t) (hfound : wanted tuple) :
      Scans wanted rest rest' (some tuple)
  | past (hskipped : ∀ t ∈ rest, ¬ wanted t) (hrest : rest' = []) :
      Scans wanted rest rest' none

/-- A row that is skipped before. -/
theorem Scans.cons {wanted : Tuple → Prop} {rest rest' : List Tuple} {tuple? : Option Tuple}
    {tuple : Tuple} (hskipped : ¬ wanted tuple) (scans : Scans wanted rest rest' tuple?) :
    Scans wanted (tuple :: rest) rest' tuple? := by
  cases scans with
  | found skipped hrest hall hfound =>
      exact .found (tuple :: skipped) (by rw [hrest]; rfl)
        (List.forall_mem_cons.mpr ⟨hskipped, hall⟩) hfound
  | past hall hrest => exact .past (List.forall_mem_cons.mpr ⟨hskipped, hall⟩) hrest

theorem Scans.append {wanted : Tuple → Prop} {rest rest' : List Tuple} {tuple? : Option Tuple}
    {skipped : List Tuple} (hskipped : ∀ t ∈ skipped, ¬ wanted t)
    (scans : Scans wanted rest rest' tuple?) : Scans wanted (skipped ++ rest) rest' tuple? := by
  induction skipped with
  | nil => exact scans
  | cons t skipped ih =>
      rcases List.forall_mem_cons.mp hskipped with ⟨ht, hall⟩
      exact (ih hall).cons ht

theorem getNextRecord_ends (ok : σ.PagesOk) (skips : RecordHeader → Bool) (fuel : Nat) {rid : Rid}
    (place : (σ.heap oid).Place rid) :
    Ends σ (TableScan.getNextRecord oid skips fuel rid)
      (fun next σ' => σ' = σ ∧ (σ.heap oid).Place next.2 ∧
        Scans (fun t => skips t.record.header = false) ((σ.heap oid).rest rid)
          ((σ.heap oid).rest next.2) next.1)
      fun e σ' => σ' = σ ∧ e = .divergence ∧ fuel ≤ ((σ.heap oid).rest rid).length := by
  induction fuel generalizing rid with
  | zero => exact .throw ⟨rfl, rfl, Nat.zero_le _⟩
  | succ fuel ih =>
      have hok := ok.heap oid
      rw [TableScan.getNextRecord]
      by_cases hnull : rid.pageId = nullPageId
      · rw [if_pos hnull]
        have hrest : (σ.heap oid).rest rid = [] := Heap.rest_of_null hnull
        have hskipped : ∀ t ∈ (σ.heap oid).rest rid, ¬ skips t.record.header = false := by
          rw [hrest]
          exact nofun
        exact .pure ⟨rfl, place, .past hskipped hrest⟩
      · rw [if_neg hnull]
        rcases place with hnull' | ⟨reaches, page, hpage, hslot⟩
        · exact absurd hnull' hnull
        apply Ends.bind_of_ok (getPage_eq ok hpage)
        rcases (hok.wellFormed _ page hpage).exists_getRecord hslot with ⟨found, hfound⟩
        have hcons := hok.rest_cons hnull hpage hslot hfound
        have place' := hok.place_advance hnull reaches hpage
        simp only [hfound]
        by_cases hskips : skips found.header
        · rw [if_pos hskips]
          apply (ih place').mono
          · rintro ⟨tuple?, rid'⟩ σ' ⟨rfl, place'', scans⟩
            refine ⟨rfl, place'', ?_⟩
            rw [hcons]
            exact scans.cons fun hfalse => by simp [hfalse] at hskips
          · rintro e _ ⟨rfl, rfl, hfuel⟩
            rw [hcons, List.length_cons]
            exact ⟨rfl, rfl, Nat.succ_le_succ hfuel⟩
        · rw [if_neg hskips]
          exact .pure ⟨rfl, place', .found [] hcons nofun (Bool.eq_false_iff.mpr hskips)⟩

end Sql

end HuaDB
