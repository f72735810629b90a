import HuaDB.RollbackRows

/-!
Runs of a process on one table.

A run starts in a process that has just loaded the table (`TableOpened`), and its steps
are the operations that transactions make, in any order (`TableRun`). Each step meets
`Op.Regular`: what the callers of a table see to, and that the step does not run into
one of the defects of a page creation or a rollback.
-/

namespace HuaDB

/-- A process that has just started and loaded a table; its rows are older than the
transactions to come. -/
structure TableOpened (dbOid oid : Nat) (σ : Engine) : Prop where
  log : LogOpened σ
  small : σ.log.nextLsn < 2 ^ 32
  pool : σ.pool = {}
  txn : σ.txn = { nextXid := σ.txn.nextXid }
  nextXid : firstXid ≤ σ.txn.nextXid
  database : σ.catalog.currentDatabaseOid = dbOid
  file : (σ.disk.files ⟨dbOid, oid⟩).isSome
  rows : ∃ pages, σ.Pages dbOid oid pages ∧ ∀ rid stored, σ.rows dbOid oid pages rid = some stored →
    stored.record.header.xmin < σ.txn.nextXid ∧
      (stored.record.header.xmax = nullXid ∨ stored.record.header.xmax < σ.txn.nextXid)

/-- Where no linked page has room for a record, there is a page number for a new one,
and no frame holds a page of that number: one that an earlier rollback took out. -/
def Engine.CanGrow (dbOid oid size : Nat) (σ : Engine) : Prop :=
  ∀ pages, σ.Pages dbOid oid pages → Table.Full dbOid oid size pages σ →
    Table.newPageId pages < nullPageId ∧ σ.pool.hashmap ⟨oid, Table.newPageId pages⟩ = none

/-- A row that a scan has come to and its transaction has locked: no other active
transaction inserted or deleted it. -/
def Engine.Locked (dbOid oid xid : Nat) (rid : Rid) (σ : Engine) : Prop :=
  σ.Linked dbOid oid rid.pageId ∧
    ∀ xid', xid' ≠ xid → (σ.log.att.find? xid').isSome →
      ∀ r ∈ transactionLog σ.appended xid', ¬ r.body.Names oid rid

/-- The pages that a transaction created behind a page that is still linked hold rows
of that transaction only. -/
def Engine.Unshared (dbOid oid xid : Nat) (σ : Engine) : Prop :=
  ∀ r ∈ transactionLog σ.appended xid, ∀ prev p, r.body = .newPage oid prev p →
    σ.Linked dbOid oid prev → ∀ rid stored, rid.pageId = p → σ.HasRow dbOid oid rid stored →
      stored.record.header.xmin = xid

/-- The steps of transactions on a table that do not run into a defect. -/
def Op.Regular (dbOid oid : Nat) (σ : Engine) : Op → Prop
  | .begin => σ.txn.nextXid < nullXid
  | .insert _ oid' _ data => oid' = oid →
      0 < (Record.mk {} data).getSize ∧ σ.CanGrow dbOid oid (Record.mk {} data).getSize
  | .delete xid oid' rid => oid' = oid → σ.Locked dbOid oid xid rid
  | .rollback xid => σ.Unshared dbOid oid xid
  | .commit _ | .checkpoint | .fetch .. | .flush => True
  | .createTable .. | .dropTable .. | .createDatabase .. | .dropDatabase .. | .changeDatabase ..
  | .restart | .crash .. => False

/-- The change that an operation makes to the rows of a table, if any. -/
def Op.Makes (oid writer : Nat) (op : Op) : RowChange → Prop
  | .none => True
  | .insert _ _ => ∃ cid data, op = .insert writer oid cid data
  | .delete rid => op = .delete writer oid rid

/-- The states that regular steps lead to from `σ₀`, while the log is below 4 GiB. -/
inductive TableRun (dbOid oid : Nat) (σ₀ : Engine) : Engine → Prop
  | refl : TableRun dbOid oid σ₀ σ₀
  | step {σ σ' : Engine} {op : Op} :
      TableRun dbOid oid σ₀ σ → op.Regular dbOid oid σ → op.exec σ = .ok () σ' →
        σ'.log.nextLsn < 2 ^ 32 → TableRun dbOid oid σ₀ σ'

/-! ## The invariants -/

/-- The invariants of a table, for its linked pages. -/
structure Runs (dbOid oid : Nat) (pages : List Nat) (σ : Engine) : Prop where
  table : TableOk dbOid oid pages σ
  rows : RowsOk dbOid oid pages σ

namespace Runs

variable {dbOid oid : Nat} {pages pages' : List Nat} {σ σ₀ σ' : Engine}

theorem grow {writer : Nat} {change : RowChange} (ok : Runs dbOid oid pages σ)
    (grows : Grows dbOid oid pages pages' writer change σ σ') : Runs dbOid oid pages' σ' :=
  ⟨ok.table.grow grows, ok.rows.grow ok.table grows⟩

theorem of_opened (opened : TableOpened dbOid oid σ) : ∃ pages, Runs dbOid oid pages σ := by
  obtain ⟨pages, chain, born⟩ := opened.rows
  have hatt : σ.log.att = [] := by
    rw [opened.log.log]
    rfl
  have hnone (xid : Nat) : ¬ (σ.log.att.find? xid).isSome := by
    rw [hatt]
    exact Bool.false_ne_true
  have hxids (xid : Nat) : ¬ (σ.txn.xid2cid.find? xid).isSome := by
    rw [opened.txn]
    exact Bool.false_ne_true
  have cached : Cached dbOid oid σ := by
    refine ⟨⟨opened.file, fun key i hmap => ?_, fun i entry _ hentry => ?_⟩, ?_⟩
    · rw [opened.pool] at hmap
      cases hmap
    · rw [opened.pool] at hentry
      cases hentry
    · rw [opened.pool]
      exact ⟨List.nodup_nil, fun _ h => absurd h List.not_mem_nil,
        fun i h => absurd h (Nat.not_lt_zero i), Nat.zero_le _⟩
  refine ⟨pages, ⟨.of_opened opened.log, opened.small, fun xid h => absurd h (hxids xid), cached,
    opened.database, chain, fun xid h => absurd h (hnone xid), fun xid h => absurd h (hnone xid),
    fun xid _ _ h => absurd h (hnone xid)⟩, ⟨opened.nextXid, fun xid h => absurd h (hnone xid), born,
    fun _ _ _ h => absurd h (hnone _), fun xid h => absurd h (hnone xid),
    fun _ _ _ h => absurd h (hnone _), fun xid _ _ h => absurd h (hnone xid)⟩⟩

/-- The pages that a rollback takes out, by the log records of their creation. -/
theorem ownPages_iff (ok : Runs dbOid oid pages σ) {xid : Nat}
    (hactive : (σ.log.att.find? xid).isSome) :
    OwnPages dbOid oid xid pages σ ↔ σ.Unshared dbOid oid xid := by
  have after := (ok.table.undoable hactive).after
  constructor
  · intro own r hr prev p hbody hprev rid stored hrid hrow
    rw [ok.table.chain.linked_iff] at hprev
    rw [ok.table.chain.hasRow_iff] at hrow
    refine own rid stored (fun hkept => (mem_keptPages_iff.mp hkept).2 ⟨?_, ?_⟩) hrow
    · exact List.mem_filterMap.mpr ⟨r, hr, by simp [LogBody.creates?, hbody, hrid]⟩
    · rcases after r hr prev p hbody with ⟨rfl, -⟩ | rfl
      · obtain ⟨_, -, -, chain⟩ := ok.table.chain
        exact absurd rfl (chain.linked.ne_stop hprev)
      · rw [hrid]
        exact ⟨Nat.succ_pos prev, hprev⟩
  · intro unshared rid stored hkept hrow
    rw [mem_keptPages_iff] at hkept
    have hmem := Engine.mem_of_rows hrow
    obtain ⟨hcreated, hpos, hprev⟩ := not_not.mp fun h => hkept ⟨hmem, h⟩
    obtain ⟨r, hr, hcreates⟩ := List.mem_filterMap.mp hcreated
    unfold LogBody.creates? at hcreates
    split at hcreates
    · rename_i oid' prev p hbody
      split at hcreates
      · rename_i hoid
        subst hoid
        cases hcreates
        refine unshared r hr prev _ hbody ((ok.table.chain.linked_iff prev).mpr ?_) rid stored rfl
          (ok.table.chain.hasRow_iff.mpr hrow)
        rcases after r hr prev _ hbody with ⟨-, h⟩ | h
        · omega
        · have heq : prev = rid.pageId - 1 := by omega
          rw [heq]
          exact hprev
      · cases hcreates
    · cases hcreates

/-- What undoing the records of a transaction and ending it leaves. -/
theorem rolledBack (ok : Runs dbOid oid pages σ) {xid : Nat} (unshared : σ.Unshared dbOid oid xid)
    (run : DatabaseEngine.rollback xid σ = .ok () σ') (small : σ'.log.nextLsn < 2 ^ 32) :
    Runs dbOid oid (σ.pagesLeft oid xid pages) σ' := by
  obtain ⟨σ₁, hactive, -, undoes, ends⟩ := ok.table.exists_undoes run
  have own := (ok.ownPages_iff hactive).mpr unshared
  exact ⟨ok.table.rolledBack ok.rows own hactive undoes ends small,
    ok.rows.rolledBack ok.table.log hactive undoes ends⟩

/-- A step other than a rollback makes one change at most, for the transaction it is of. -/
theorem exec_grows (ok : Runs dbOid oid pages σ) {op : Op} (regular : op.Regular dbOid oid σ)
    (hop : ∀ xid, op ≠ .rollback xid) (run : op.exec σ = .ok () σ') (small : σ'.log.nextLsn < 2 ^ 32) :
    ∃ pages' writer change, Grows dbOid oid pages pages' writer change σ σ' ∧
      op.Makes oid writer change := by
  obtain ⟨table, htable, hdb, chain⟩ := ok.table.chain
  cases op with
  | begin =>
      obtain ⟨xid, σ₁, hbegin, hreturn⟩ := EStateM.bind_eq_ok_iff.mp run
      cases hreturn
      exact ⟨_, _, _, ok.table.grows_begin ok.rows.first regular hbegin small, trivial⟩
  | insert xid oid' cid data =>
      obtain ⟨rid, σ₁, hinsert, hreturn⟩ := EStateM.bind_eq_ok_iff.mp run
      cases hreturn
      by_cases hoid : oid' = oid
      · subst hoid
        obtain ⟨hpos, hgrow⟩ := regular rfl
        obtain ⟨cached, hle, inserted⟩ := Table.insertRecord_inserted ok.table.log ok.table.small
          ok.table.cached htable hdb chain.linked chain.sorted
          (fun full => (hgrow pages ok.table.chain full).2) hinsert
        obtain ⟨pages', stored, grows⟩ := ok.table.grows_inserted hpos hle rfl
          (fun full => (hgrow pages ok.table.chain full).1) cached inserted small
        exact ⟨_, _, _, grows, cid, data, rfl⟩
      · obtain ⟨beside, ⟨hfind, hcurrent⟩, bodies, logs, hoff⟩ :=
          Table.insertRecord_beside hoid ok.table.log ok.table.small ok.table.cached hinsert
        exact ⟨_, _, _, ok.table.grows_of_beside beside logs hoff hfind hcurrent small, trivial⟩
  | delete xid oid' rid =>
      by_cases hoid : oid' = oid
      · subst hoid
        obtain ⟨hlinked, hlocked⟩ := regular rfl
        have hmem := (ok.table.chain.linked_iff rid.pageId).mp hlinked
        exact ⟨_, _, _, ok.table.grows_deleted hmem hlocked run small, rfl⟩
      · obtain ⟨beside, hcatalog, bodies, logs, hoff⟩ :=
          Table.deleteRecord_beside hoid ok.table.log ok.table.small ok.table.cached run
        exact ⟨_, _, _, ok.table.grows_of_beside beside logs hoff (by rw [hcatalog])
          (by rw [hcatalog]) small, trivial⟩
  | commit xid => exact ⟨_, _, _, ok.table.grows_commit run small, trivial⟩
  | rollback xid => exact absurd rfl (hop xid)
  | checkpoint =>
      obtain ⟨lsn, σ₁, hcheckpoint, hreturn⟩ := EStateM.bind_eq_ok_iff.mp run
      cases hreturn
      exact ⟨_, _, _, ok.table.grows_checkpoint hcheckpoint small, trivial⟩
  | fetch oid' pageId =>
      simp only [Op.exec] at run
      rw [EStateM.bind_of_ok (EStateM.get_eq_ok_iff.mpr ⟨rfl, rfl⟩)] at run
      cases htable' : σ.catalog.getTable oid' with
      | error e =>
          rw [htable'] at run
          cases run
      | ok table' =>
          rw [htable', Db.ofExcept_ok, pure_bind] at run
          obtain ⟨frame, σ₁, hget, hreturn⟩ := EStateM.bind_eq_ok_iff.mp run
          cases hreturn
          have quiet : Quiet σ σ' := Quiet.poolRel.getPage _ _ _ _ _ _ hget
          by_cases hoid : oid' = oid
          · subst hoid
            rw [SystemCatalog.getTable, htable] at htable'
            cases htable'
            subst hdb
            obtain ⟨entry, -, -, hands, shows'⟩ := ok.table.cached.getPage hget
            exact ⟨_, _, _, ok.table.grows_of_quiet quiet hands.cached shows', trivial⟩
          · obtain ⟨beside, -⟩ := Beside.getPage ok.table.cached hoid hget
            exact ⟨_, _, _, ok.table.grows_of_quiet quiet beside.cached beside.shows', trivial⟩
  | flush =>
      cases EStateM.modify_eq_ok_iff.mp run
      obtain ⟨cached, shows'⟩ := ok.table.cached.flushBuffers false
      have quiet : Quiet σ (σ.flushBuffers false) := Quiet.poolRel.flushBuffers
        (fun _ _ => .of_eq rfl rfl rfl rfl rfl rfl rfl rfl) σ false
      exact ⟨_, _, _, ok.table.grows_of_quiet quiet cached shows', trivial⟩
  | createTable | dropTable | createDatabase | dropDatabase | changeDatabase | restart | crash =>
      exact regular.elim

/-- One step of a run. -/
theorem exec (ok : Runs dbOid oid pages σ) {op : Op} (regular : op.Regular dbOid oid σ)
    (run : op.exec σ = .ok () σ') (small : σ'.log.nextLsn < 2 ^ 32) :
    ∃ pages', Runs dbOid oid pages' σ' := by
  by_cases hop : ∃ xid, op = .rollback xid
  · obtain ⟨xid, rfl⟩ := hop
    exact ⟨_, ok.rolledBack regular run small⟩
  · obtain ⟨pages', writer, change, grows, -⟩ :=
      ok.exec_grows regular (fun xid h => hop ⟨xid, h⟩) run small
    exact ⟨pages', ok.grow grows⟩

theorem of_run (opened : TableOpened dbOid oid σ₀) (run : TableRun dbOid oid σ₀ σ) :
    ∃ pages, Runs dbOid oid pages σ := by
  induction run with
  | refl => exact of_opened opened
  | step _ regular hexec small ih =>
      obtain ⟨pages, ok⟩ := ih
      exact ok.exec regular hexec small

end Runs

/-! ## Serving a list of operations -/

/-- The linked pages of a table, where they are at most `n`. -/
def Engine.walkPages (dbOid oid n : Nat) (σ : Engine) : Option (List Nat) :=
  (σ.catalog.oid2table.find? oid).bind fun table =>
    LinkedList.walk (σ.nextPage dbOid oid) nullPageId (n + 1) table.firstPageId

theorem Engine.Pages.eq_of_walkPages {dbOid oid n : Nat} {σ : Engine} {pages pages' : List Nat}
    (h : σ.Pages dbOid oid pages) (hwalk : σ.walkPages dbOid oid n = some pages') :
    pages = pages' := by
  obtain ⟨table, hfind, -, chain⟩ := h
  rw [walkPages, hfind] at hwalk
  exact chain.linked.unique (LinkedList.segment_of_walk hwalk)

theorem Engine.linked_iff_of_walkPages {dbOid oid n : Nat} {σ : Engine} {pages : List Nat}
    (hwalk : σ.walkPages dbOid oid n = some pages) (p : Nat) : σ.Linked dbOid oid p ↔ p ∈ pages := by
  obtain ⟨table, hfind, hwalk⟩ := Option.bind_eq_some_iff.mp hwalk
  rw [← (LinkedList.segment_of_walk hwalk).reached_iff]
  constructor
  · rintro ⟨table', hfind', reached⟩
    cases hfind.symm.trans hfind'
    exact reached
  · exact fun reached => ⟨table, hfind, reached⟩

namespace Op

/-- The place of a row of the table that a log record names. -/
def namedRow? (oid : Nat) (r : LogRecord) : Option Rid :=
  match r.body with
  | .insert oid' p s _ _ _ | .delete oid' p s => if oid' = oid then some ⟨p, s⟩ else none
  | _ => none

/-- Whether the rows of a page are those of a transaction. -/
def ownPage (xid : Nat) (page : TablePage) : Bool :=
  (List.range page.getRecordCount).all fun s =>
    (page.slots s).all fun stored => stored.record.header.xmin = xid

/-- Whether a step is regular, on a table of at most `n` pages. -/
def checkRegular (dbOid oid n : Nat) (σ : Engine) : Op → Bool
  | .begin => σ.txn.nextXid < nullXid
  | .insert _ oid' _ data => oid' ≠ oid ∨ 0 < (Record.mk {} data).getSize ∧
      (σ.walkPages dbOid oid n).any fun pages => Table.newPageId pages < nullPageId ∧
        (σ.pool.hashmap ⟨oid, Table.newPageId pages⟩).isNone
  | .delete xid oid' rid => oid' ≠ oid ∨
      ((σ.walkPages dbOid oid n).any fun pages => rid.pageId ∈ pages) ∧
        σ.log.att.all fun e => e.1 = xid ∨
          (transactionLog σ.appended e.1).all fun r => namedRow? oid r ≠ some rid
  | .rollback xid => (transactionLog σ.appended xid).all fun r =>
      (r.body.creates? oid).all fun p => (σ.view dbOid ⟨oid, p⟩).all (ownPage xid)
  | .commit _ | .checkpoint | .fetch .. | .flush => true
  | _ => false

theorem namedRow?_of_names {oid : Nat} {rid : Rid} {r : LogRecord} (h : r.body.Names oid rid) :
    namedRow? oid r = some rid := by
  unfold namedRow?
  rcases h with ⟨_, _, _, hbody⟩ | hbody
  · rw [hbody]
    exact if_pos rfl
  · rw [LogBody.Deletes] at hbody
    rw [hbody]
    exact if_pos rfl

theorem regular_of_check {dbOid oid n : Nat} {pages : List Nat} {σ : Engine} {op : Op}
    (chain : ∀ xid, op = .rollback xid → σ.Pages dbOid oid pages)
    (h : op.checkRegular dbOid oid n σ = true) : op.Regular dbOid oid σ := by
  cases op with
  | begin =>
      have hlt : σ.txn.nextXid < nullXid := of_decide_eq_true h
      exact hlt
  | insert xid oid' cid data =>
      intro hoid
      obtain ⟨hpos, hwalk⟩ := (of_decide_eq_true h).resolve_left (not_not.mpr hoid)
      obtain ⟨pages', hpages', hgrow⟩ := (Option.any_eq_true _ _).mp hwalk
      refine ⟨hpos, fun pages₁ hpages₁ _ => ?_⟩
      rw [hpages₁.eq_of_walkPages hpages']
      obtain ⟨hlt, hnone⟩ := of_decide_eq_true hgrow
      exact ⟨hlt, Option.isNone_iff_eq_none.mp hnone⟩
  | delete xid oid' rid =>
      intro hoid
      obtain ⟨hwalk, hlocked⟩ := (of_decide_eq_true h).resolve_left (not_not.mpr hoid)
      obtain ⟨pages', hpages', hmem⟩ := (Option.any_eq_true _ _).mp hwalk
      refine ⟨(Engine.linked_iff_of_walkPages hpages' _).mpr (of_decide_eq_true hmem),
        fun xid' hne hactive r hr hnames => ?_⟩
      obtain ⟨lsn, hfind⟩ := Option.isSome_iff_exists.mp hactive
      have hentry := of_decide_eq_true (List.all_eq_true.mp hlocked _ (Assoc.mem_of_find? hfind))
      have hall := List.all_eq_true.mp (hentry.resolve_left hne) r hr
      exact of_decide_eq_true hall (namedRow?_of_names hnames)
  | rollback xid =>
      intro r hr prev p hbody _ rid stored hrid hstored
      have chain := chain xid rfl
      subst hrid
      obtain ⟨hlinked, page, hview, hslot⟩ := hstored
      obtain ⟨page', hview', wf⟩ := chain.exists_view ((chain.linked_iff _).mp hlinked)
      cases hview.symm.trans hview'
      have hcreates : r.body.creates? oid = some rid.pageId := by simp [LogBody.creates?, hbody]
      have hown := List.all_eq_true.mp h r hr
      rw [hcreates, Option.all_some, hview, Option.all_some] at hown
      have hs : rid.slotId < page.getRecordCount := (wf.slots rid.slotId).mp (by rw [hslot]; rfl)
      have hrow := List.all_eq_true.mp hown rid.slotId (List.mem_range.mpr hs)
      rw [hslot, Option.all_some] at hrow
      exact of_decide_eq_true hrow
  | commit | checkpoint | fetch | flush => trivial
  | createTable | dropTable | createDatabase | dropDatabase | changeDatabase | restart
  | crash => cases h

end Op

/-! ### Serving -/

/-- Serve a list of operations, as long as they pass a test and return and the log is
below 4 GiB. -/
def Op.serveChecked (check : Engine → Op → Bool) : List Op → Engine → Option Engine
  | [], σ => some σ
  | op :: ops, σ =>
      if check σ op then
        match op.exec σ with
        | .ok _ σ' => if σ'.log.nextLsn < 2 ^ 32 then serveChecked check ops σ' else none
        | .error _ _ => none
      else
        none

/-- What every operation that passes the test preserves. -/
theorem Op.serveChecked_induction {check : Engine → Op → Bool} {ops : List Op} {P : Engine → Prop}
    (hstep : ∀ (σ σ' : Engine) (op : Op), P σ → check σ op = true → op.exec σ = .ok () σ' →
      σ'.log.nextLsn < 2 ^ 32 → P σ')
    {σ σ' : Engine} (start : P σ) (h : serveChecked check ops σ = some σ') : P σ' := by
  induction ops generalizing σ with
  | nil =>
      cases h
      exact start
  | cons op ops ih =>
      unfold serveChecked at h
      split at h
      · rename_i hcheck
        split at h
        · rename_i hexec
          split at h
          · rename_i hsmall
            exact ih (hstep _ _ op start hcheck hexec hsmall) h
          · cases h
        · cases h
      · cases h

theorem TableRun.of_serve {dbOid oid n : Nat} {σ₀ σ σ' : Engine} {ops : List Op}
    (opened : TableOpened dbOid oid σ₀) (run : TableRun dbOid oid σ₀ σ)
    (h : Op.serveChecked (Op.checkRegular dbOid oid n) ops σ = some σ') : TableRun dbOid oid σ₀ σ' := by
  refine Op.serveChecked_induction (fun σ σ' op run hcheck hexec hsmall => ?_) run h
  obtain ⟨pages, ok⟩ := Runs.of_run opened run
  exact run.step (Op.regular_of_check (fun _ _ => ok.table.chain) hcheck) hexec hsmall

/-- A state that a list of operations leads to, with what it computes to. -/
theorem TableRun.exists_of_serve {dbOid oid n : Nat} {σ₀ : Engine} {ops : List Op}
    {p : Engine → Bool} (opened : TableOpened dbOid oid σ₀)
    (h : (Op.serveChecked (Op.checkRegular dbOid oid n) ops σ₀).any p = true) :
    ∃ σ, TableRun dbOid oid σ₀ σ ∧ p σ = true := by
  obtain ⟨σ, hserve, hp⟩ := (Option.any_eq_true _ _).mp h
  exact ⟨σ, .of_serve opened .refl hserve, hp⟩

/-- A process with one empty table. -/
def Engine.oneTable (dbOid oid nextXid nextLsn : Nat) : Engine where
  disk := { files := fun path => if path = ⟨dbOid, oid⟩ then some .empty else none }
  log := .new nextLsn
  pool := {}
  txn := { nextXid := nextXid }
  catalog := { oidManager := { nextOid := oid + 1 }, oid2table := [(oid, ⟨oid, dbOid, nullPageId⟩)],
               currentDatabaseOid := dbOid }

theorem opened_oneTable (dbOid oid : Nat) {nextXid nextLsn : Nat} (hxid : firstXid ≤ nextXid)
    (hlsn : nextLsn < 2 ^ 32) : TableOpened dbOid oid (.oneTable dbOid oid nextXid nextLsn) where
  log := ⟨rfl, Nat.zero_le _, rfl, Nat.le_trans (Nat.le_of_lt hlsn) (by decide)⟩
  small := hlsn
  pool := rfl
  txn := rfl
  nextXid := hxid
  database := rfl
  file := by
    change ((if (⟨dbOid, oid⟩ : FilePath) = ⟨dbOid, oid⟩ then some DataFile.empty else none)).isSome
    rw [if_pos rfl]
    rfl
  rows := by
    refine ⟨[], ⟨⟨oid, dbOid, nullPageId⟩, if_pos rfl, rfl, rfl, .nil,
      fun _ h => absurd h List.not_mem_nil⟩, fun rid stored hrow => ?_⟩
    rw [Engine.rows_of_not_mem List.not_mem_nil] at hrow
    cases hrow

end HuaDB
