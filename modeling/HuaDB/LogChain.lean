import HuaDB.Lib.BackChain
import HuaDB.LogSession

/-!
The undo chain of a transaction.

Every record of a transaction stores the LSN of the one before it, and `att_`
stores the LSN of the last one, so following `prev_lsn` from `att_[xid]` visits the
records of the transaction down to its `BeginLog` (`LogHistory.undoChain`). The
invariant (`ChainOk`) says this of the log one record at a time (`Chained`), in a
form that survives the loss of the buffer in a crash.
-/

namespace HuaDB

/-! ## The records of a transaction -/

/-- The records of the transaction that now has the id: those with the id from its
last `BeginLog` on. -/
def transactionLog (log : List LogRecord) (xid : Nat) : List LogRecord :=
  log.foldl
    (fun l r => if r.xid = xid then if r.getType = .begin then [r] else l ++ [r] else l) []

/-- Their last LSN. -/
def lastLsn? (log : List LogRecord) (xid : Nat) : Option Nat :=
  (transactionLog log xid).getLast?.map LogRecord.lsn

/-- What following `prev_lsn` visits, newest first. -/
def undoChain (log : List LogRecord) (lsn : Nat) : Option (List LogRecord) :=
  follow LogRecord.prevLsn nullLsn (fun p => log.find? fun r => r.lsn = p) log.length lsn

theorem transactionLog_concat (log : List LogRecord) (r : LogRecord) (xid : Nat) :
    transactionLog (log ++ [r]) xid =
      if r.xid = xid then
        if r.getType = .begin then [r] else transactionLog log xid ++ [r]
      else
        transactionLog log xid := by
  rw [transactionLog, List.foldl_append]
  rfl

theorem transactionLog_concat_ne (log : List LogRecord) {r : LogRecord} {xid : Nat}
    (h : r.xid ≠ xid) : transactionLog (log ++ [r]) xid = transactionLog log xid := by
  rw [transactionLog_concat, if_neg h]

/-- The new record of a transaction is its last. -/
theorem lastLsn?_concat_self (log : List LogRecord) (r : LogRecord) :
    lastLsn? (log ++ [r]) r.xid = some r.lsn := by
  rw [lastLsn?, transactionLog_concat, if_pos rfl]
  split <;> simp

theorem lastLsn?_concat_ne (log : List LogRecord) {r : LogRecord} {xid : Nat} (h : r.xid ≠ xid) :
    lastLsn? (log ++ [r]) xid = lastLsn? log xid := by
  rw [lastLsn?, transactionLog_concat_ne log h]
  rfl

theorem transactionLog_sublist (log : List LogRecord) (xid : Nat) :
    (transactionLog log xid).Sublist log := by
  induction log using List.reverseRecOn with
  | nil => exact .slnil
  | append_singleton log r ih =>
      rw [transactionLog_concat]
      split
      · split
        · exact List.sublist_append_right log [r]
        · exact ih.append_right [r]
      · exact ih.trans (List.sublist_append_left log [r])

/-- Records of a transaction join its others, where none of them begins it. -/
theorem transactionLog_append (log records : List LogRecord) (xid : Nat)
    (h : ∀ r ∈ records, r.xid = xid → r.getType ≠ .begin) :
    transactionLog (log ++ records) xid =
      transactionLog log xid ++ records.filter fun r => r.xid = xid := by
  induction records using List.reverseRecOn with
  | nil => simp
  | append_singleton records r ih =>
      have hr := h r (by simp)
      rw [← List.append_assoc, transactionLog_concat,
        ih fun r' hr' => h r' (List.mem_append_left _ hr'), List.filter_append]
      by_cases hxid : r.xid = xid
      · rw [if_pos hxid, if_neg (hr hxid), List.append_assoc]
        simp [hxid]
      · simp [hxid]

/-! ## Records in the order they were appended -/

/-- Every record stands in a relation to the records before it. -/
def EachAfter (P : List LogRecord → LogRecord → Prop) (log : List LogRecord) : Prop :=
  ∀ before r after, log = before ++ r :: after → P before r

namespace EachAfter

variable {P : List LogRecord → LogRecord → Prop}

theorem nil : EachAfter P [] := fun before r after h => absurd h.symm (by simp)

theorem of_append {l₁ l₂ : List LogRecord} (h : EachAfter P (l₁ ++ l₂)) : EachAfter P l₁ := by
  intro before r after heq
  exact h before r (after ++ l₂) (by rw [heq]; simp)

theorem concat {log : List LogRecord} (h : EachAfter P log) {r : LogRecord} (hr : P log r) :
    EachAfter P (log ++ [r]) := by
  intro before r' after heq
  rcases List.eq_nil_or_concat after with rfl | ⟨after, r'', rfl⟩
  · obtain ⟨rfl, hrr⟩ := List.append_inj' heq rfl
    cases hrr
    exact hr
  · have heq' : log ++ [r] = (before ++ r' :: after) ++ [r''] := by rw [heq]; simp
    obtain ⟨rfl, -⟩ := List.append_inj' heq' rfl
    exact h before r' after rfl

end EachAfter

/-! ## The invariant of one record -/

/-- The entries of an active transaction table are the last LSNs of transactions. -/
def AttOk (log : List LogRecord) (att : Att) : Prop :=
  ∀ xid lsn, att.find? xid = some lsn →
    xid ≠ nullXid ∧ xid ≠ ddlXid ∧ lastLsn? log xid = some lsn

/-- A record of a transaction is linked to the one before it, and a checkpoint
saves a table of last LSNs. -/
def Chained (before : List LogRecord) (r : LogRecord) : Prop :=
  match r.body with
  | .begin => r.prevLsn = nullLsn
  | .beginCheckpoint => r.xid = nullXid
  | .endCheckpoint att _ => r.xid = nullXid ∧ AttOk before att
  | _ => r.xid ≠ ddlXid → lastLsn? before r.xid = some r.prevLsn

theorem Chained.begin {before : List LogRecord} {r : LogRecord} (h : Chained before r)
    (htype : r.getType = .begin) : r.prevLsn = nullLsn := by
  unfold Chained at h
  unfold LogRecord.getType at htype
  cases hbody : r.body with
  | begin =>
      rw [hbody] at h
      exact h
  | _ =>
      rw [hbody] at htype
      cases htype

theorem Chained.prev {before : List LogRecord} {r : LogRecord} (h : Chained before r)
    (htype : r.getType ≠ .begin) (hnull : r.xid ≠ nullXid) (hddl : r.xid ≠ ddlXid) :
    lastLsn? before r.xid = some r.prevLsn := by
  unfold Chained at h
  unfold LogRecord.getType at htype
  cases hbody : r.body with
  | begin =>
      rw [hbody] at htype
      exact absurd rfl htype
  | beginCheckpoint =>
      rw [hbody] at h
      exact absurd h hnull
  | endCheckpoint att dpt =>
      rw [hbody] at h
      exact absurd h.1 hnull
  | _ =>
      rw [hbody] at h
      exact h hddl

/-- In a chained log the records of a transaction are a chain from its last LSN
down to its `BeginLog`. -/
theorem backChain_transactionLog {log : List LogRecord} (chained : EachAfter Chained log)
    (range : ∀ r ∈ log, r.lsn < nullLsn) {xid lsn : Nat} (hnull : xid ≠ nullXid)
    (hddl : xid ≠ ddlXid) (hlast : lastLsn? log xid = some lsn) :
    BackChain LogRecord.lsn LogRecord.prevLsn nullLsn lsn (transactionLog log xid).reverse ∧
      ∃ b l, transactionLog log xid = b :: l ∧ b.getType = .begin := by
  induction log using List.reverseRecOn generalizing lsn with
  | nil => cases hlast
  | append_singleton log r ih =>
      have hr : Chained log r := chained log r [] rfl
      have hrange : r.lsn < nullLsn := range r (by simp)
      by_cases hxid : r.xid = xid
      · subst hxid
        rw [lastLsn?_concat_self] at hlast
        cases hlast
        rw [transactionLog_concat, if_pos rfl]
        by_cases htype : r.getType = .begin
        · rw [if_pos htype]
          exact ⟨⟨Nat.ne_of_lt hrange, rfl, hr.begin htype⟩, r, [], rfl, htype⟩
        · rw [if_neg htype, List.reverse_append]
          obtain ⟨chain, b, l, hl, hb⟩ := ih chained.of_append
            (fun r' hr' => range r' (List.mem_append_left _ hr')) (hr.prev htype hnull hddl)
          exact ⟨⟨Nat.ne_of_lt hrange, rfl, chain⟩, b, l ++ [r], by rw [hl]; rfl, hb⟩
      · rw [lastLsn?_concat_ne log hxid] at hlast
        rw [transactionLog_concat_ne log hxid]
        exact ih chained.of_append (fun r' hr' => range r' (List.mem_append_left _ hr')) hlast

/-- A record appended to the log leaves the tables of other transactions right. -/
theorem AttOk.concat {log : List LogRecord} {att : Att} (ok : AttOk log att) {r : LogRecord}
    (h : ∀ lsn, att.find? r.xid = some lsn → r.xid = nullXid ∨ lsn = r.lsn) :
    AttOk (log ++ [r]) att := by
  intro xid lsn hfind
  obtain ⟨hnull, hddl, hlast⟩ := ok xid lsn hfind
  refine ⟨hnull, hddl, ?_⟩
  by_cases hxid : r.xid = xid
  · subst hxid
    rw [lastLsn?_concat_self, (h lsn hfind).resolve_left hnull]
  · rw [lastLsn?_concat_ne log hxid, hlast]

/-- The table after a record of a transaction. -/
theorem AttOk.insert {log : List LogRecord} {att : Att} (ok : AttOk log att) {r : LogRecord}
    (hnull : r.xid ≠ nullXid) (hddl : r.xid ≠ ddlXid) :
    AttOk (log ++ [r]) (att.insert r.xid r.lsn) := by
  intro xid lsn hfind
  rw [Assoc.find?_insert] at hfind
  by_cases hxid : r.xid = xid
  · subst hxid
    rw [if_pos rfl] at hfind
    cases hfind
    exact ⟨hnull, hddl, lastLsn?_concat_self log r⟩
  · rw [if_neg hxid] at hfind
    obtain ⟨hnull', hddl', hlast⟩ := ok xid lsn hfind
    exact ⟨hnull', hddl', (lastLsn?_concat_ne log hxid).trans hlast⟩

/-- The table after the end record of a transaction. -/
theorem AttOk.erase {log : List LogRecord} {att : Att} (ok : AttOk log att) (r : LogRecord) :
    AttOk (log ++ [r]) (att.erase r.xid) := by
  intro xid lsn hfind
  rw [Assoc.find?_erase] at hfind
  by_cases hxid : r.xid = xid
  · rw [if_pos hxid] at hfind
    cases hfind
  · rw [if_neg hxid] at hfind
    obtain ⟨hnull, hddl, hlast⟩ := ok xid lsn hfind
    exact ⟨hnull, hddl, (lastLsn?_concat_ne log hxid).trans hlast⟩

/-! ## Histories of the log manager -/

/-- A log manager that was just constructed, at any `next_lsn`, on a disk whose
earlier records are out of sight. -/
structure LogOpened (σ : Engine) : Prop where
  disk : σ.disk.log = []
  file : σ.disk.logEnd ≤ σ.log.nextLsn
  log : σ.log = .new σ.log.nextLsn
  range : σ.log.nextLsn ≤ nullLsn

namespace LogOp

/-- What the callers see to: `TransactionManager::Begin` hands out neither
`NULL_XID` nor `DDL_XID`, and a log manager is closed with its buffer flushed. -/
def Callers (σ : Engine) : LogOp → Prop
  | .begin xid => xid ≠ nullXid ∧ xid ≠ ddlXid
  | .reopen => σ.log.logBuffer = []
  | _ => True

/-- A page creation is logged for a transaction only while its last LSN fits in
32 bits. -/
def Narrow (σ : Engine) : LogOp → Prop
  | .newPage xid _ _ _ =>
      xid ≠ ddlXid → ∀ lastLsn, σ.log.att.find? xid = some lastLsn → lastLsn < 2 ^ 32
  | _ => True

end LogOp

/-- A log that `Analyze` reads right: below 4 GiB, and behind the checkpoint of the
master record only records of transactions. -/
structure Disk.Recoverable (disk : Disk) : Prop where
  small : disk.logEnd < 2 ^ 32
  xids : ∀ r ∈ disk.afterCheckpoint, r.xid ≠ nullXid ∧ r.xid ≠ ddlXid

/-- The states of a log manager through calls, restarts and crashes, as long as
its LSNs fit in 64 bits. -/
inductive LogHistory (allowed : Engine → LogOp → Prop) (recoverable : Disk → Prop) :
    Engine → Prop
  | opened {σ : Engine} (opened : LogOpened σ) : LogHistory allowed recoverable σ
  | call {σ : Engine} (history : LogHistory allowed recoverable σ) (op : LogOp)
      (hallowed : allowed σ op) (range : (op.result σ).1.log.nextLsn ≤ nullLsn) :
      LogHistory allowed recoverable (op.result σ).1
  /-- A crash, and `Analyze` on what is on disk. -/
  | recovered {σ τ σ' : Engine} (history : LogHistory allowed recoverable σ)
      (hrecoverable : recoverable σ.disk) (hdisk : τ.disk = σ.disk)
      (hbuffer : τ.log.logBuffer = []) (run : LogManager.analyze τ = .ok () σ') :
      LogHistory allowed recoverable σ'

/-- Following `prev_lsn` from each entry of `att_` visits the records of the
transaction, each once, from the newest to its `BeginLog`, and then stops at
`NULL_LSN`. -/
def UndoChains (σ : Engine) : Prop :=
  ∀ xid lsn, σ.log.att.find? xid = some lsn →
    undoChain σ.appended lsn = some (transactionLog σ.appended xid).reverse ∧
      (∃ b l, transactionLog σ.appended xid = b :: l ∧ b.getType = .begin) ∧
      (transactionLog σ.appended xid).Nodup

structure ChainOk (σ : Engine) : Prop where
  split : ∃ start mid, LogSplit start σ.disk.log mid σ
  range : σ.log.nextLsn ≤ nullLsn
  chained : EachAfter Chained σ.appended
  att : AttOk σ.appended σ.log.att

namespace ChainOk

variable {σ : Engine}

theorem tiles (ok : ChainOk σ) : ∃ start, LogTiles start σ.appended σ.log.nextLsn := by
  obtain ⟨start, mid, split⟩ := ok.split
  exact ⟨start, split.doneTiles.append split.bufferTiles⟩

theorem visits (ok : ChainOk σ) : UndoChains σ := by
  intro xid lsn hfind
  obtain ⟨start, tiles⟩ := ok.tiles
  obtain ⟨hnull, hddl, hlast⟩ := ok.att xid lsn hfind
  have range : ∀ r ∈ σ.appended, r.lsn < nullLsn := fun r hr =>
    Nat.lt_of_lt_of_le (tiles.pos_lt LogRecord.getSize_pos hr) ok.range
  obtain ⟨chain, hbegin⟩ := backChain_transactionLog ok.chained range hnull hddl hlast
  have hsub := transactionLog_sublist σ.appended xid
  refine ⟨chain.follow_eq (fun r hr => ?_) ?_, hbegin, ?_⟩
  · exact tiles.find?_pos LogRecord.getSize_pos (hsub.subset (List.mem_reverse.mp hr))
  · rw [List.length_reverse]
    exact hsub.length_le
  · have hlt := (tiles.pairwise LogRecord.getSize_pos).sublist hsub
    exact hlt.imp fun h heq => absurd (congrArg LogRecord.lsn heq) (Nat.ne_of_lt h)

theorem of_opened (opened : LogOpened σ) : ChainOk σ := by
  have hbuffer : σ.log.logBuffer = [] := by rw [opened.log]; rfl
  have hatt : σ.log.att = [] := by rw [opened.log]; rfl
  have happ : σ.appended = [] := by rw [Engine.appended, opened.disk, hbuffer]; rfl
  refine { split := ⟨σ.log.nextLsn, σ.log.nextLsn, ?_⟩, range := opened.range,
           chained := happ ▸ .nil, att := fun xid lsn hfind => ?_ }
  · rw [opened.disk]
    exact .of_new rfl (fun _ => opened.file) (fun h => absurd rfl h) opened.log
  · rw [hatt] at hfind
    cases hfind

/-- Appending a chained record. -/
theorem append (ok : ChainOk σ) {xid prevLsn : Nat} {body : LogBody} {att : Att} (dpt : Dpt)
    (range : (σ.nextRecord xid prevLsn body).endLsn ≤ nullLsn)
    (hr : Chained σ.appended (σ.nextRecord xid prevLsn body))
    (hatt : AttOk (σ.appended ++ [σ.nextRecord xid prevLsn body]) att) :
    ChainOk (σ.appendedWith xid prevLsn body att dpt) := by
  obtain ⟨start, mid, split⟩ := ok.split
  have happ : (σ.appendedWith xid prevLsn body att dpt).appended =
      σ.appended ++ [σ.nextRecord xid prevLsn body] := (List.append_assoc _ _ _).symm
  refine { split := ⟨start, mid, ?_⟩, range := range, chained := ?_, att := happ ▸ hatt }
  · exact { split with bufferTiles := split.bufferTiles.concat rfl }
  · rw [happ]
    exact ok.chained.concat hr

theorem flushLog (ok : ChainOk σ) (lsn : Nat) : ChainOk (σ.flushLog lsn) := by
  obtain ⟨start, mid, split⟩ := ok.split
  obtain ⟨mid', flushed⟩ := split.flushLog lsn
  have happ : (σ.flushLog lsn).appended = σ.appended := by
    rw [Engine.appended, Engine.flushLog_disk_log, Engine.flushLog_logBuffer, List.append_assoc,
      ← (split.due lsn).1]
    rfl
  refine { split := ⟨start, mid', ?_⟩, range := ?_, chained := happ ▸ ok.chained, att := ?_ }
  · rw [Engine.flushLog_disk_log]
    exact flushed
  · rw [Engine.flushLog_nextLsn]
    exact ok.range
  · rw [happ, Engine.flushLog_att]
    exact ok.att

/-- The dirty page table and the master record play no part. -/
theorem congr (ok : ChainOk σ) {σ' : Engine} (hlog : σ'.disk.log = σ.disk.log)
    (hfile : σ'.disk.nextLsnFile = σ.disk.nextLsnFile)
    (hbuffer : σ'.log.logBuffer = σ.log.logBuffer) (hnext : σ'.log.nextLsn = σ.log.nextLsn)
    (hflushed : σ'.log.flushedLsn = σ.log.flushedLsn) (hatt : σ'.log.att = σ.log.att) :
    ChainOk σ' := by
  have happ : σ'.appended = σ.appended := by rw [Engine.appended, hlog, hbuffer]; rfl
  obtain ⟨start, mid, split⟩ := ok.split
  refine { split := ⟨start, mid, ?_⟩, range := hnext ▸ ok.range, chained := happ ▸ ok.chained,
           att := by rw [happ, hatt]; exact ok.att }
  exact hlog ▸ split.congr hfile hbuffer hnext hflushed

/-- A record of an active transaction, linked to its last one. -/
theorem appendActive (ok : ChainOk σ) {xid lastLsn prevLsn : Nat} {body : LogBody} (dpt : Dpt)
    (hfind : σ.log.att.find? xid = some lastLsn) (hprev : prevLsn = lastLsn)
    (range : (σ.nextRecord xid prevLsn body).endLsn ≤ nullLsn)
    (hr : lastLsn? σ.appended xid = some prevLsn →
      Chained σ.appended (σ.nextRecord xid prevLsn body)) :
    ChainOk (σ.appendedWith xid prevLsn body (σ.log.att.insert xid σ.log.nextLsn) dpt) := by
  obtain ⟨hnull, hddl, hlast⟩ := ok.att xid lastLsn hfind
  have hatt : AttOk (σ.appended ++ [σ.nextRecord xid prevLsn body])
      (σ.log.att.insert xid σ.log.nextLsn) := ok.att.insert hnull hddl
  exact ok.append dpt range (hr (hprev ▸ hlast)) hatt

/-- The end record of an active transaction, before it is flushed. -/
theorem ending (ok : ChainOk σ) {xid lastLsn : Nat} {body : LogBody}
    (hfind : σ.log.att.find? xid = some lastLsn)
    (range : (LogOp.ended σ xid lastLsn body).log.nextLsn ≤ nullLsn)
    (hr : lastLsn? σ.appended xid = some lastLsn →
      Chained σ.appended (σ.nextRecord xid lastLsn body)) :
    ChainOk (σ.appendedWith xid lastLsn body (σ.log.att.erase xid) σ.log.dpt) := by
  obtain ⟨-, -, hlast⟩ := ok.att xid lastLsn hfind
  have hatt : AttOk (σ.appended ++ [σ.nextRecord xid lastLsn body]) (σ.log.att.erase xid) :=
    ok.att.erase (σ.nextRecord xid lastLsn body)
  rw [LogOp.ended, Engine.flushLog_nextLsn] at range
  exact ok.append σ.log.dpt range (hr hlast) hatt

/-- The end record of an active transaction. -/
theorem ended (ok : ChainOk σ) {xid lastLsn : Nat} {body : LogBody}
    (hfind : σ.log.att.find? xid = some lastLsn)
    (range : (LogOp.ended σ xid lastLsn body).log.nextLsn ≤ nullLsn)
    (hr : lastLsn? σ.appended xid = some lastLsn →
      Chained σ.appended (σ.nextRecord xid lastLsn body)) :
    ChainOk (LogOp.ended σ xid lastLsn body) := (ok.ending hfind range hr).flushLog _

/-- The two records of a checkpoint, before they are flushed: the second saves the table. -/
theorem checkpointing (ok : ChainOk σ)
    (range : (LogOp.checkpointed σ).log.nextLsn ≤ nullLsn) : ChainOk (LogManager.checkpointLogged σ) := by
  have hatt : AttOk (σ.appended ++ [σ.nextRecord nullXid nullLsn .beginCheckpoint]) σ.log.att :=
    ok.att.concat fun _ _ => .inl rfl
  rw [LogOp.checkpointed, Engine.flushLog_nextLsn] at range
  have hrange : (σ.nextRecord nullXid nullLsn .beginCheckpoint).endLsn ≤ nullLsn :=
    Nat.le_trans (Nat.le_add_right _ _) range
  have begun : ChainOk (σ.appendedWith nullXid nullLsn .beginCheckpoint σ.log.att σ.log.dpt) :=
    ok.append σ.log.dpt hrange rfl hatt
  exact begun.append σ.log.dpt range ⟨rfl, begun.att⟩ (begun.att.concat fun _ _ => .inl rfl)

theorem checkpointed (ok : ChainOk σ)
    (range : (LogOp.checkpointed σ).log.nextLsn ≤ nullLsn) : ChainOk (LogOp.checkpointed σ) :=
  (ok.checkpointing range).flushLog _

theorem ofActive (ok : ChainOk σ) {xid : Nat} {next : Nat → Engine}
    (range : (LogOp.ofActive σ xid next).1.log.nextLsn ≤ nullLsn)
    (h : ∀ lastLsn, σ.log.att.find? xid = some lastLsn → (next lastLsn).log.nextLsn ≤ nullLsn →
      ChainOk (next lastLsn)) : ChainOk (LogOp.ofActive σ xid next).1 := by
  unfold LogOp.ofActive at range ⊢
  cases hfind : σ.log.att.find? xid with
  | none => exact ok
  | some lastLsn =>
      rw [hfind] at range
      exact h lastLsn hfind range

theorem reopen (ok : ChainOk σ) (hbuffer : σ.log.logBuffer = []) :
    ChainOk { σ with log := .new σ.log.nextLsn } := by
  obtain ⟨start, mid, split⟩ := ok.split
  have happ : σ.appended = σ.disk.log := by rw [Engine.appended, hbuffer, List.append_nil]
  have hmid : mid = σ.log.nextLsn := by
    have htiles := split.bufferTiles
    rw [hbuffer] at htiles
    exact Tiles.nil_iff.mp htiles
  subst hmid
  refine { split := ⟨start, σ.log.nextLsn, ?_⟩, range := ok.range, chained := ?_,
           att := fun xid lsn hfind => absurd hfind.symm (Option.some_ne_none _) }
  · exact .of_new split.doneTiles split.end_le split.end_eq rfl
  · have hnew : ({ σ with log := .new σ.log.nextLsn } : Engine).appended = σ.appended :=
      (List.append_nil _).trans happ.symm
    rw [hnew]
    exact ok.chained

/-- Every allowed call keeps the chains. -/
theorem call (ok : ChainOk σ) {op : LogOp} (callers : op.Callers σ) (narrow : op.Narrow σ)
    (range : (op.result σ).1.log.nextLsn ≤ nullLsn) : ChainOk (op.result σ).1 := by
  cases op with
  | begin xid =>
      rw [LogOp.result_begin] at range ⊢
      cases hfind : σ.log.att.find? xid with
      | none =>
          rw [hfind] at range
          have hatt : AttOk (σ.appended ++ [σ.nextRecord xid nullLsn .begin])
              (σ.log.att.insert xid σ.log.nextLsn) := ok.att.insert callers.1 callers.2
          exact ok.append σ.log.dpt range rfl hatt
      | some lastLsn => exact ok
  | insert xid oid pageId slotId offset size record =>
      rw [LogOp.result_insert] at range ⊢
      exact ok.ofActive range fun lastLsn hfind range =>
        ok.appendActive _ hfind rfl range fun h _ => h
  | delete xid oid pageId slotId =>
      rw [LogOp.result_delete] at range ⊢
      exact ok.ofActive range fun lastLsn hfind range =>
        ok.appendActive _ hfind rfl range fun h _ => h
  | newPage xid oid prevPageId pageId =>
      by_cases hxid : xid = ddlXid
      · subst hxid
        rw [LogOp.result_newPage_ddlXid] at range ⊢
        refine ok.append _ range (fun h => absurd rfl h) (ok.att.concat fun lsn hfind => ?_)
        exact absurd rfl (ok.att ddlXid lsn hfind).2.1
      · rw [LogOp.result_newPage σ hxid] at range ⊢
        exact ok.ofActive range fun lastLsn hfind range =>
          ok.appendActive _ hfind (Nat.mod_eq_of_lt (narrow hxid lastLsn hfind)) range
            fun h _ => h
  | commit xid =>
      rw [LogOp.result_commit] at range ⊢
      exact ok.ofActive range fun lastLsn hfind range => ok.ended hfind range fun h _ => h
  | rollback xid =>
      rw [LogOp.result_rollback] at range ⊢
      exact ok.ofActive range fun lastLsn hfind range => ok.ended hfind range fun h _ => h
  | flush lsn => exact ok.flushLog lsn
  | flushPage key pageLsn => exact (ok.flushLog pageLsn).congr rfl rfl rfl rfl rfl rfl
  | checkpoint =>
      rw [LogOp.result_checkpoint] at range ⊢
      exact (ok.checkpointed range).congr rfl rfl rfl rfl rfl rfl
  | tornCheckpoint =>
      rw [LogOp.result_tornCheckpoint] at range ⊢
      exact ok.checkpointed range
  | reopen => exact ok.reopen callers

/-- The scan of `Analyze` brings the saved table up to the records it reads. -/
theorem attOk_foldl_step {l log : List LogRecord} {s : LogManager.AnalyzeState}
    (hs : AttOk log s.att) (xids : ∀ r ∈ l, r.xid ≠ nullXid ∧ r.xid ≠ ddlXid) :
    AttOk (log ++ l) (l.foldl LogManager.AnalyzeState.step s).att := by
  induction l generalizing log s with
  | nil =>
      rw [List.append_nil]
      exact hs
  | cons r l ih =>
      have hstep : AttOk (log ++ [r]) (s.step r).att := by
        unfold LogManager.AnalyzeState.step
        dsimp only
        split
        · exact hs.erase r
        · exact hs.insert (xids r List.mem_cons_self).1 (xids r List.mem_cons_self).2
      have hrest := ih hstep fun r' hr' => xids r' (List.mem_cons_of_mem _ hr')
      rw [List.append_assoc] at hrest
      exact hrest

/-- A crash loses the buffer, and `Analyze` finds the table of what is left. -/
theorem recovered (ok : ChainOk σ) {τ σ' : Engine} (recoverable : σ.disk.Recoverable)
    (hdisk : τ.disk = σ.disk) (hbuffer : τ.log.logBuffer = [])
    (run : LogManager.analyze τ = .ok () σ') : ChainOk σ' := by
  obtain ⟨start, mid, split⟩ := ok.split
  have small : τ.disk.logEnd < 2 ^ 32 := hdisk ▸ recoverable.small
  -- where the disk holds a record, the file `next_lsn` holds the end of the log
  have htiles : ∃ lo, LogTiles lo τ.disk.log τ.disk.logEnd := by
    rw [hdisk]
    by_cases hnil : σ.disk.log = []
    · exact ⟨σ.disk.logEnd, hnil ▸ rfl⟩
    · refine ⟨start, ?_⟩
      rw [Disk.logEnd, split.end_eq hnil]
      exact split.doneTiles
  obtain ⟨lo, tiles⟩ := htiles
  obtain ⟨before, e, att, dpt, hlog, -, hbody, -, rfl⟩ := LogManager.analyze_eq_ok tiles small run
  have hne : τ.disk.log ≠ [] := by rw [hlog]; simp
  have hend : σ.disk.nextLsnFile = some τ.disk.logEnd := by
    have hfile := split.end_eq (hdisk ▸ hne)
    rw [hdisk, Disk.logEnd, hfile]
    rfl
  have happ : (LogManager.analyzed τ
      (τ.disk.afterCheckpoint.foldl LogManager.AnalyzeState.step ⟨att, dpt, 0⟩)).appended =
      σ.disk.log := by
    change τ.disk.log ++ τ.log.logBuffer = σ.disk.log
    rw [hbuffer, List.append_nil, hdisk]
  have hchained : EachAfter Chained σ.disk.log := ok.chained.of_append
  have hsaved : AttOk before att := by
    have he : Chained before e := hchained before e τ.disk.afterCheckpoint (hdisk ▸ hlog)
    unfold Chained at he
    rw [hbody] at he
    exact he.2
  have he : AttOk (before ++ [e]) att := by
    have hchainedE : Chained before e := hchained before e τ.disk.afterCheckpoint (hdisk ▸ hlog)
    unfold Chained at hchainedE
    rw [hbody] at hchainedE
    exact hsaved.concat fun _ _ => .inl hchainedE.1
  refine { split := ⟨start, τ.disk.logEnd, ?_⟩, range := ?_, chained := happ ▸ hchained,
           att := ?_ }
  · have htiles : LogTiles start τ.disk.log τ.disk.logEnd := by
      have hmid := split.end_eq (hdisk ▸ hne)
      rw [hend] at hmid
      cases hmid
      exact hdisk ▸ split.doneTiles
    refine (LogSplit.of_new (σ := { τ with log := .new τ.disk.logEnd }) htiles
      (fun h => absurd h hne) (fun _ => hdisk ▸ hend) rfl).congr rfl hbuffer rfl rfl
  · exact Nat.le_trans (Nat.le_of_lt small) (by decide)
  · have hall := attOk_foldl_step (s := ⟨att, dpt, 0⟩) he
      (l := τ.disk.afterCheckpoint) (hdisk ▸ recoverable.xids)
    rw [List.append_assoc, List.singleton_append, ← hlog, hdisk] at hall
    rw [happ]
    exact hdisk ▸ hall

end ChainOk

namespace LogHistory

/-- In every history in which page creations are logged while the last LSN of their
transaction fits in 32 bits, and crashes leave a log that `Analyze` reads right,
the undo chain of every active transaction is right. -/
theorem undoChains {σ : Engine}
    (history : LogHistory (fun σ op => op.Callers σ ∧ op.Narrow σ) Disk.Recoverable σ) :
    UndoChains σ := by
  have ok : ChainOk σ := by
    induction history with
    | opened opened => exact .of_opened opened
    | call _ op hallowed range ih => exact ih.call hallowed.1 hallowed.2 range
    | recovered _ hrecoverable hdisk hbuffer run ih =>
        exact ih.recovered hrecoverable hdisk hbuffer run
  exact ok.visits

/-- A log manager opened on an empty disk at a given LSN. -/
def openedAt (nextLsn : Nat) : Engine := { Engine.ofDisk {} with log := .new nextLsn }

/-- Two transactions that interleave, with a flush between. -/
theorem undoChain_twoTransactions :
    let σ₁ := ((LogOp.begin 1).result (openedAt 0)).1
    let σ₂ := ((LogOp.begin 2).result σ₁).1
    let σ₃ := ((LogOp.newPage 1 7 nullPageId 0).result σ₂).1
    let σ₄ := ((LogOp.flush nullLsn).result σ₃).1
    let σ := ((LogOp.delete 1 7 0 0).result σ₄).1
    undoChain σ.appended 51 = some [⟨51, 1, 26, .delete 7 0 0⟩,
      ⟨26, 1, 0, .newPage 7 nullPageId 0⟩, ⟨0, 1, nullLsn, .begin⟩] := by
  intro σ₁ σ₂ σ₃ σ₄ σ
  have history : LogHistory (fun σ op => op.Callers σ ∧ op.Narrow σ) Disk.Recoverable σ := by
    refine .call (.call (.call (.call (.call (.opened ⟨rfl, by decide, rfl, by decide⟩)
      (.begin 1) ?_ ?_) (.begin 2) ?_ ?_) (.newPage 1 7 nullPageId 0) ?_ ?_)
      (.flush nullLsn) ?_ ?_) (.delete 1 7 0 0) ?_ ?_
    · exact ⟨⟨by decide, by decide⟩, trivial⟩
    · decide
    · exact ⟨⟨by decide, by decide⟩, trivial⟩
    · decide
    · refine ⟨trivial, fun _ lastLsn hfind => ?_⟩
      cases hfind
      decide
    · decide
    · exact ⟨trivial, trivial⟩
    · decide
    · exact ⟨trivial, trivial⟩
    · decide
  exact (history.undoChains 1 51 (by decide)).1.trans (by decide)

/-- A page created by a transaction that began at 4 GiB: the link to the `BeginLog`
loses its high half. -/
theorem not_undoChains_beyond4GiB :
    ¬ ∀ σ, LogHistory (fun σ op => op.Callers σ) (fun _ => True) σ → UndoChains σ := by
  intro h
  have history : LogHistory (fun σ op => op.Callers σ) (fun _ => True)
      ((LogOp.newPage 1 7 nullPageId 0).result ((LogOp.begin 1).result (openedAt (2 ^ 32))).1).1 := by
    refine .call (.call (.opened ⟨rfl, by decide, rfl, by decide⟩) (.begin 1) ?_ ?_)
      (.newPage 1 7 nullPageId 0) ?_ ?_
    · exact ⟨by decide, by decide⟩
    · decide
    · exact trivial
    · decide
  have hchain := (h _ history 1 (2 ^ 32 + 13) (by decide)).1
  exact absurd hchain (by decide)

end LogHistory

end HuaDB
