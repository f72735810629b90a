import HuaDB.VisibleRows

/-!
What a rollback leaves to be seen.

The undo of a transaction is not the inverse of what it did: a row that it inserted stays
where it is, deleted by the transaction itself. A transaction that ran alone is rolled
back without a trace for any other transaction (`rollback_seesAlike`), at every isolation
level, unless its id is `NULL_XID`, which marks the rows that nobody deleted.
-/

namespace HuaDB

variable {dbOid oid xid : Nat} {pages₀ pages pages' : List Nat} {σ₀ σ σ' : Engine}

/-- The transactions that `SeqScanExecutor::Next` takes for active. -/
def Engine.activeXids (σ : Engine) (xid : Nat) : IsolationLevel → Except DbError (List Nat)
  | .repeatableRead => σ.txn.getSnapshot xid
  | .readCommitted | .serializable => .ok σ.txn.getActiveTransactions

/-- A row that a scan of a transaction hands out, at some isolation level. -/
def Engine.Sees (dbOid oid xid : Nat) (rid : Rid) (σ : Engine) : Prop :=
  ∃ stored level cid active, σ.HasRow dbOid oid rid stored ∧
    σ.activeXids xid level = .ok active ∧
      canGet stored.record.header xid cid level active = false

/-- The operations of one transaction, which deletes rows that its scans hand out, and
what the engine does by itself. -/
def Op.Alone (dbOid oid xid : Nat) (σ : Engine) : Op → Prop
  | .insert xid' .. => xid' = xid
  | .delete xid' oid' rid => xid' = xid ∧ (oid' = oid → σ.Sees dbOid oid xid rid)
  | .checkpoint | .fetch .. | .flush => True
  | _ => False

/-- The states that a transaction which runs alone comes to. -/
inductive AloneRun (dbOid oid xid : Nat) (σ₀ : Engine) : Engine → Prop
  | begin {σ : Engine} : DatabaseEngine.begin σ₀ = .ok xid σ → σ.log.nextLsn < 2 ^ 32 →
      AloneRun dbOid oid xid σ₀ σ
  | step {σ σ' : Engine} {op : Op} : AloneRun dbOid oid xid σ₀ σ → op.Alone dbOid oid xid σ →
      op.Regular dbOid oid σ → op.exec σ = .ok () σ' → σ'.log.nextLsn < 2 ^ 32 →
        AloneRun dbOid oid xid σ₀ σ'

/-- No transaction is active. -/
def Engine.Idle (σ : Engine) : Prop := σ.txn.xid2cid = []

/-- Every transaction but one that has ended is given the same rows of a table in both
states, at every isolation level. -/
def Engine.SeesAlike (dbOid oid xid : Nat) (σ σ' : Engine) : Prop :=
  ∃ pages pages', σ.Pages dbOid oid pages ∧ σ'.Pages dbOid oid pages' ∧
    ∀ reader cid level active, reader ≠ xid → xid ∉ active →
      σ.visibleRows dbOid oid (canGet · reader cid level active) pages =
        σ'.visibleRows dbOid oid (canGet · reader cid level active) pages'

/-! ## What the transaction sees -/

/-- A row that a transaction deleted itself, as `CanGet` has it for any other. -/
theorem canGet_of_xmax {header : RecordHeader} {reader cid : Nat} {level : IsolationLevel}
    {active : List Nat} (hxmin : header.xmin = xid) (hxmax : header.xmax = xid)
    (hnull : xid ≠ nullXid) (hreader : reader ≠ xid) (hactive : xid ∉ active) :
    canGet header reader cid level active = true := by
  cases level <;> simp only [canGet, hxmin, hxmax] <;> grind

/-- An old row that a transaction sees while no other one is active is not deleted. -/
theorem canGet_of_alone {header : RecordHeader} {cid : Nat} {level : IsolationLevel}
    {active : List Nat} (hactive : ∀ x ∈ active, x = xid) (hxmin : header.xmin < xid)
    (hxmax : header.xmax = nullXid ∨ header.xmax < xid)
    (h : canGet header xid cid level active = false) : header.xmax = nullXid := by
  cases level <;> simp only [canGet] at h <;> grind

/-- `CanGet` reads the ids and the command of a header. -/
theorem canGet_congr {header header' : RecordHeader} (hxmin : header'.xmin = header.xmin)
    (hxmax : header'.xmax = header.xmax) (hcid : header'.cid = header.cid) (reader cid : Nat)
    (level : IsolationLevel) (active : List Nat) :
    canGet header' reader cid level active = canGet header reader cid level active := by
  cases level <;> simp only [canGet, hxmin, hxmax, hcid]

/-- The operations of a transaction do not touch the table of the transactions. -/
theorem Op.Alone.txn_eq {op : Op} (alone : op.Alone dbOid oid xid σ) (run : op.exec σ = .ok () σ') :
    σ'.txn = σ.txn := by
  cases op with
  | insert xid' oid' cid data =>
      obtain ⟨rid, σ₁, hinsert, hreturn⟩ := EStateM.bind_eq_ok_iff.mp run
      cases hreturn
      exact sameTxn.insertRecord (fun _ _ _ _ => rfl) _ _ _ _ _ _ _ hinsert
  | delete xid' oid' rid => exact sameTxn.deleteRecord _ _ _ _ _ _ run
  | checkpoint =>
      obtain ⟨lsn, σ₁, hcheckpoint, hreturn⟩ := EStateM.bind_eq_ok_iff.mp run
      cases hreturn
      rw [LogManager.checkpoint_eq] at hcheckpoint
      cases hcheckpoint
      exact Engine.flushLog_txn _ _
  | fetch oid' pageId =>
      simp only [Op.exec] at run
      rw [EStateM.bind_of_ok (EStateM.get_eq_ok_iff.mpr ⟨rfl, rfl⟩)] at run
      obtain ⟨table, σ₁, htable, hget⟩ := EStateM.bind_eq_ok_iff.mp run
      obtain ⟨frame, σ₂, hget, hreturn⟩ := EStateM.bind_eq_ok_iff.mp hget
      cases hreturn
      rw [sameTxn.toPoolRel.getPage _ _ _ _ _ _ hget, sameTxn.toPoolRel.ofExcept _ _ _ _ htable]
  | flush =>
      cases EStateM.modify_eq_ok_iff.mp run
      exact sameTxn.toPoolRel.flushBuffers (fun _ _ => rfl) σ false
  | begin | commit | rollback | createTable | dropTable | createDatabase | dropDatabase
  | changeDatabase | restart | crash => exact alone.elim

namespace AloneRun

theorem txn_eq (alone : AloneRun dbOid oid xid σ₀ σ) :
    xid = σ₀.txn.nextXid ∧ σ.txn = σ₀.txn.begin.2 := by
  induction alone with
  | begin hbegin =>
      obtain ⟨rfl, -, rfl⟩ := DatabaseEngine.begin_eq_ok hbegin
      exact ⟨rfl, rfl⟩
  | step _ hop _ run _ ih => exact ⟨ih.1, (hop.txn_eq run).trans ih.2⟩

/-- What the scans of the transaction take for active. -/
theorem activeXids_eq (alone : AloneRun dbOid oid xid σ₀ σ) (idle : σ₀.Idle) (level : IsolationLevel) :
    σ.activeXids xid level = .ok (if level = .repeatableRead then [] else [xid]) := by
  obtain ⟨hxid, htxn⟩ := alone.txn_eq
  have hcurrent : σ.txn.getActiveTransactions = [xid] := by
    rw [TransactionManager.getActiveTransactions, htxn, hxid]
    change Assoc.keys (Assoc.insert σ₀.txn.nextXid firstCid σ₀.txn.xid2cid) = _
    rw [idle]
    rfl
  have hsnapshot : σ.txn.getSnapshot xid = .ok [] := by
    have hfind : σ.txn.xid2activeSet.find? xid = some [] := by
      rw [htxn, hxid]
      change Assoc.find? σ₀.txn.nextXid
        (Assoc.insert σ₀.txn.nextXid σ₀.txn.xid2cid.keys σ₀.txn.xid2activeSet) = _
      rw [Assoc.find?_insert_self, idle]
      rfl
    rw [TransactionManager.getSnapshot, hfind]
  cases level with
  | repeatableRead => exact hsnapshot
  | readCommitted | serializable => exact congrArg Except.ok hcurrent

/-- The transaction is the only one that its scans can take for active. -/
theorem eq_of_mem_activeXids (alone : AloneRun dbOid oid xid σ₀ σ) (idle : σ₀.Idle)
    {level : IsolationLevel} {active : List Nat} (h : σ.activeXids xid level = .ok active) :
    ∀ x ∈ active, x = xid := by
  cases (alone.activeXids_eq idle level).symm.trans h
  intro x hx
  split at hx
  · exact absurd hx List.not_mem_nil
  · exact List.mem_singleton.mp hx

end AloneRun

/-! ## What the transaction leaves of the rows before it -/

/-- What a transaction made of the rows that were there when it began: it marked some as
deleted that nobody had deleted; rows that are new are its own, and so are new pages. -/
structure Since (dbOid oid xid : Nat) (pages₀ pages : List Nat) (σ₀ σ : Engine) : Prop where
  sub : pages₀ ⊆ pages
  created : ∀ p ∈ createdPages oid (transactionLog σ.appended xid), p ∉ pages₀
  born : ∀ rid stored, σ.rows dbOid oid pages rid = some stored →
    σ₀.rows dbOid oid pages₀ rid = none → stored.record.header.xmin = xid
  kept : ∀ rid stored₀, σ₀.rows dbOid oid pages₀ rid = some stored₀ →
    ∃ stored, σ.rows dbOid oid pages rid = some stored ∧
      stored.record.data = stored₀.record.data ∧
      stored.record.header.xmin = stored₀.record.header.xmin ∧
      stored.record.header.cid = stored₀.record.header.cid ∧
      (stored.record.header.xmax = stored₀.record.header.xmax ∨
        stored₀.record.header.xmax = nullXid ∧ stored.record.header.xmax = xid)

namespace Since

theorem of_begin (ok : Runs dbOid oid pages σ₀) (hxid : xid = σ₀.txn.nextXid)
    (grows : Grows dbOid oid pages pages 0 .none σ₀ σ) (hactive : (σ.log.att.find? xid).isSome) :
    Since dbOid oid xid pages pages σ₀ σ := by
  obtain ⟨old, new, h⟩ := grows.appends xid hactive
  have hold : old = [] := by
    rcases h.old with ⟨hnil, -⟩ | ⟨hactive₀, -⟩
    · exact hnil
    · exact absurd (ok.rows.xids xid hactive₀) (by omega)
  subst hold
  have hrows (rid : Rid) : σ.rows dbOid oid pages rid = σ₀.rows dbOid oid pages rid := grows.rows rid
  refine ⟨List.Subset.refl _, fun p hp => ?_, fun rid stored hrow hnone => ?_,
    fun rid stored hrow => ⟨stored, (hrows rid).trans hrow, rfl, rfl, rfl, .inl rfl⟩⟩
  · rw [h.eq, List.nil_append] at hp
    rcases h.created with hnil | ⟨-, hnew⟩
    · rw [hnil] at hp
      cases hp
    · rw [hnew] at hp
      rw [List.mem_singleton.mp hp]
      exact Table.newPageId_not_mem ok.table.chain.sorted
  · rw [hrows, hnone] at hrow
    cases hrow

/-- One operation of the transaction. -/
theorem grow {writer : Nat} {change : RowChange} (since : Since dbOid oid xid pages₀ pages σ₀ σ)
    (ok : Runs dbOid oid pages σ) (grows : Grows dbOid oid pages pages' writer change σ σ')
    (hlt : xid < σ.txn.nextXid) (hactive : (σ'.log.att.find? xid).isSome)
    (hwriter : change ≠ .none → writer = xid)
    (hdeletes : ∀ rid stored₀, change = .delete rid → σ₀.rows dbOid oid pages₀ rid = some stored₀ →
      stored₀.record.header.xmax = nullXid) :
    Since dbOid oid xid pages₀ pages' σ₀ σ' := by
  obtain ⟨old, new, h⟩ := grows.appends xid hactive
  obtain ⟨hactive₀, rfl⟩ := h.old.resolve_left fun hold => Nat.not_le_of_lt hlt hold.2.1
  refine ⟨fun p hp => grows.sub (since.sub hp), fun p hp => ?_, fun rid stored' hrow' hnone => ?_,
    fun rid stored₀ hrow₀ => ?_⟩
  · rw [h.eq, createdPages_append] at hp
    rcases List.mem_append.mp hp with hp | hp
    · exact since.created p hp
    · rcases h.created with hnil | ⟨-, hnew⟩
      · rw [hnil] at hp
        cases hp
      · rw [hnew] at hp
        rw [List.mem_singleton.mp hp]
        exact fun hp₀ => Table.newPageId_not_mem ok.table.chain.sorted (since.sub hp₀)
  · rcases RowsOk.exists_old grows hrow' with ⟨hchange, hxmin, -⟩ | ⟨stored, hrow, hstored⟩
    · rw [hxmin]
      exact hwriter (by rw [hchange]; exact RowChange.noConfusion)
    · have hborn := since.born rid stored hrow hnone
      rcases hstored with ⟨-, rfl⟩ | ⟨-, rfl⟩ <;> exact hborn
  · obtain ⟨stored, hrow, hdata, hxmin, hcid, hxmax⟩ := since.kept rid stored₀ hrow₀
    obtain ⟨stored', hrow', hstored⟩ := RowChange.apply_old grows.fits hrow
    refine ⟨stored', (grows.rows rid).trans hrow', ?_⟩
    rcases hstored with ⟨hchange, rfl⟩ | ⟨-, rfl⟩
    · have hself := hwriter (by rw [hchange]; exact RowChange.noConfusion)
      exact ⟨hdata, hxmin, hcid, .inr ⟨hdeletes rid stored₀ hchange hrow₀, hself⟩⟩
    · exact ⟨hdata, hxmin, hcid, hxmax⟩

end Since

/-- A row that was there before the transaction and that it deletes is one that nobody
had deleted. -/
theorem Since.xmax_of_sees (since : Since dbOid oid xid pages₀ pages σ₀ σ)
    (ok₀ : Runs dbOid oid pages₀ σ₀) (chain : σ.Pages dbOid oid pages) (idle : σ₀.Idle)
    (alone : AloneRun dbOid oid xid σ₀ σ) {rid : Rid} (sees : σ.Sees dbOid oid xid rid)
    {stored₀ : StoredRecord} (hrow₀ : σ₀.rows dbOid oid pages₀ rid = some stored₀) :
    stored₀.record.header.xmax = nullXid := by
  obtain ⟨stored, level, cid, active, hrow, hlevel, hget⟩ := sees
  rw [chain.hasRow_iff] at hrow
  obtain ⟨stored', hrow', -, hxmin, -, hxmax⟩ := since.kept rid stored₀ hrow₀
  cases hrow.symm.trans hrow'
  rcases hxmax with hxmax | ⟨hnull, -⟩
  · obtain ⟨hborn, hended⟩ := ok₀.rows.born rid stored₀ hrow₀
    rw [← alone.txn_eq.1] at hborn hended
    rw [← hxmax] at hended ⊢
    exact canGet_of_alone (alone.eq_of_mem_activeXids idle hlevel) (hxmin ▸ hborn) hended hget
  · exact hnull

/-- What holds in every state that a transaction which runs alone comes to. -/
theorem AloneRun.since (alone : AloneRun dbOid oid xid σ₀ σ) (ok₀ : Runs dbOid oid pages₀ σ₀)
    (idle : σ₀.Idle) (hlt : σ₀.txn.nextXid < nullXid) :
    ∃ pages, Runs dbOid oid pages σ ∧ (σ.log.att.find? xid).isSome ∧
      Since dbOid oid xid pages₀ pages σ₀ σ := by
  have hknown {σ : Engine} (alone : AloneRun dbOid oid xid σ₀ σ) :
      (σ.txn.xid2cid.find? xid).isSome ∧ xid < σ.txn.nextXid := by
    obtain ⟨hxid, htxn⟩ := alone.txn_eq
    have hnext : σ₀.txn.begin.2.nextXid = σ₀.txn.nextXid + 1 :=
      Nat.mod_eq_of_lt (Nat.succ_lt_succ hlt)
    have hcid : σ₀.txn.begin.2.xid2cid.find? σ₀.txn.nextXid = some firstCid :=
      Assoc.find?_insert_self _ _ _
    rw [htxn, hxid, hnext, hcid]
    exact ⟨rfl, Nat.lt_succ_self _⟩
  induction alone with
  | begin hbegin small =>
      have grows := ok₀.table.grows_begin ok₀.rows.first hlt hbegin small
      have ok := ok₀.grow grows
      have begun : AloneRun dbOid oid xid σ₀ _ := .begin hbegin small
      have hactive := ok.table.active xid (hknown begun).1
      obtain ⟨hxid, -⟩ := begun.txn_eq
      exact ⟨_, ok, hactive, .of_begin ok₀ hxid grows hactive⟩
  | step alone hop regular run small ih =>
      obtain ⟨pages, ok, hactive, since⟩ := ih
      obtain ⟨pages', writer, change, grows, makes⟩ := ok.exec_grows regular
        (fun xid' h => by rw [h] at hop; exact hop) run small
      have ok' := ok.grow grows
      have hactive' := ok'.table.active xid (hknown (alone.step hop regular run small)).1
      refine ⟨_, ok', hactive', since.grow ok grows (hknown alone).2 hactive' (fun hne => ?_)
        fun rid stored₀ hchange hrow₀ => ?_⟩
      · cases change with
        | none => exact absurd rfl hne
        | insert rid stored =>
            obtain ⟨cid, data, rfl⟩ := makes
            exact hop
        | delete rid =>
            obtain rfl := makes
            exact hop.1
      · subst hchange
        obtain rfl := makes
        exact since.xmax_of_sees ok₀ ok.table.chain idle alone (hop.2 rfl) hrow₀

/-- The rows that were there look as they did before once the records are undone. -/
theorem Since.undo_kept (since : Since dbOid oid xid pages₀ pages σ₀ σ)
    (ok : Runs dbOid oid pages σ) (hactive : (σ.log.att.find? xid).isSome) {rid : Rid}
    {stored₀ stored : StoredRecord} (hrow₀ : σ₀.rows dbOid oid pages₀ rid = some stored₀)
    (hborn : stored₀.record.header.xmin < xid)
    (hended : stored₀.record.header.xmax = nullXid ∨ stored₀.record.header.xmax < xid)
    (hrow : σ.rows dbOid oid pages rid = some stored) :
    (undoStored oid rid.pageId rid.slotId (transactionLog σ.appended xid).reverse
        stored).record.header.xmax = stored₀.record.header.xmax := by
  obtain ⟨stored', hrow', -, hxmin, -, hxmax⟩ := since.kept rid stored₀ hrow₀
  cases hrow.symm.trans hrow'
  refine (ok.rows.undo_xmax ok.table hactive hrow _).trans ?_
  rw [if_neg (by omega)]
  rcases hxmax with hsame | ⟨hnull, hself⟩
  · split
    · omega
    · exact hsame
  · rw [if_pos hself, hnull]

/-- Whether a step is one of a transaction that runs alone, on a table of at most `n`
pages; its scans read at the level `READ_COMMITTED`. -/
def Op.checkAlone (dbOid oid n xid : Nat) (σ : Engine) (op : Op) : Bool :=
  op.checkRegular dbOid oid n σ && match op with
  | .insert xid' .. => xid' = xid
  | .delete xid' _ rid => xid' = xid ∧
      ((σ.view dbOid ⟨oid, rid.pageId⟩).bind fun page => page.slots rid.slotId).any fun stored =>
        canGet stored.record.header xid nullCid .readCommitted σ.txn.getActiveTransactions = false
  | .checkpoint | .fetch .. | .flush => true
  | _ => false

theorem Op.alone_of_check {n : Nat} {op : Op} (h : op.checkAlone dbOid oid n xid σ = true) :
    op.Alone dbOid oid xid σ ∧ op.Regular dbOid oid σ := by
  obtain ⟨hregular, h⟩ := Bool.and_eq_true_iff.mp h
  have hop : ∀ xid', op = .rollback xid' → σ.Pages dbOid oid [] := by
    intro xid' hop
    rw [hop] at h
    cases h
  have regular := Op.regular_of_check hop hregular
  refine ⟨?_, regular⟩
  cases op with
  | insert xid' oid' cid data =>
      have hxid : xid' = xid := of_decide_eq_true h
      exact hxid
  | delete xid' oid' rid =>
      obtain ⟨hxid, hany⟩ := of_decide_eq_true h
      refine ⟨hxid, fun hoid => ?_⟩
      obtain ⟨stored, hstored, hget⟩ := (Option.any_eq_true _ _).mp hany
      obtain ⟨page, hview, hslot⟩ := Option.bind_eq_some_iff.mp hstored
      exact ⟨stored, .readCommitted, nullCid, _, ⟨(regular hoid).1, page, hview, hslot⟩, rfl,
        of_decide_eq_true hget⟩
  | checkpoint | fetch | flush => trivial
  | begin | commit | rollback | createTable | dropTable | createDatabase | dropDatabase
  | changeDatabase | restart | crash => cases h

/-- Let a transaction begin, serve its operations, and undo its records. -/
def Op.serveUndone (dbOid oid n : Nat) (ops : List Op) (σ₀ : Engine) : Option (Nat × Engine × Engine) :=
  match DatabaseEngine.begin σ₀ with
  | .ok xid σ₁ =>
      if σ₁.log.nextLsn < 2 ^ 32 then
        (Op.serveChecked (Op.checkAlone dbOid oid n xid) ops σ₁).bind fun σ =>
          match LogManager.rollback xid σ with
          | .ok _ σ' => some (xid, σ, σ')
          | .error _ _ => none
      else
        none
  | .error _ _ => none

theorem AloneRun.of_serveUndone {n : Nat} {ops : List Op}
    (h : Op.serveUndone dbOid oid n ops σ₀ = some (xid, σ, σ')) :
    AloneRun dbOid oid xid σ₀ σ ∧ LogManager.rollback xid σ = .ok () σ' := by
  unfold Op.serveUndone at h
  split at h
  · rename_i hbegin
    split at h
    · rename_i hsmall
      obtain ⟨σ₂, hserve, h⟩ := Option.bind_eq_some_iff.mp h
      split at h
      · rename_i hrollback
        cases h
        refine ⟨Op.serveChecked_induction (fun σ σ' op alone hcheck hexec hsmall => ?_)
          (.begin hbegin hsmall) hserve, hrollback⟩
        obtain ⟨hop, regular⟩ := Op.alone_of_check hcheck
        exact alone.step hop regular hexec hsmall
      · cases h
    · cases h
  · cases h

/-- A transaction that inserts one row and commits. -/
def insertsRow (xid : Nat) : List Op :=
  [.begin, .insert xid 10001 1 (List.replicate 20 7), .commit xid]

/-- The next one deletes that row, puts two rows in its place and deletes one of them
again. -/
def replacesRow (xid : Nat) : List Op :=
  [.insert xid 10001 1 (List.replicate 20 8), .delete xid 10001 ⟨0, 0⟩,
    .insert xid 10001 2 (List.replicate 30 9), .delete xid 10001 ⟨0, 1⟩]

/-- No transaction is active, and the next one can replace the row and be undone. -/
def canReplace (σ : Engine) : Bool :=
  σ.txn.xid2cid = [] ∧ σ.txn.nextXid < nullXid ∧
    (Op.serveUndone 10000 10001 2 (replacesRow 2) σ).any fun r => r.1 = 2

/-- What a reader is given of the first page of the table. -/
def readsFirstPage (reader : Nat) (σ : Engine) : List (List UInt8) :=
  σ.visibleRows 10000 10001 (canGet · reader 1 .readCommitted [reader]) [0]

/-- The next transaction is `NULL_XID`, and its rollback leaves a row that the one after
it is given. -/
def leavesRow (σ : Engine) : Bool :=
  σ.txn.xid2cid = [] ∧ σ.walkPages 10000 10001 2 = some [0] ∧
    (Op.serveUndone 10000 10001 2 [.insert nullXid 10001 1 (List.replicate 20 8)] σ).any fun r =>
      r.1 = nullXid ∧ r.2.2.walkPages 10000 10001 2 = some [0] ∧
        readsFirstPage 0 σ ≠ readsFirstPage 0 r.2.2

end HuaDB
