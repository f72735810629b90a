import HuaDB.Lib.Mvcc
import HuaDB.LockSafety
import HuaDB.Sql.Rows

/-!
The state of a database as versions of rows under concurrent transactions.

`Database.mvcc` forgets pages, statements and connections. What the operations of a
table do to it are the changes of `Mvcc.Step` (`mvcc_rewritten`, `Inserted.step`), a
record that `TableScan::CanGet` lets through is a visible version
(`visible_of_canGet`), and a row lock that is granted is the only one on its row
(`alone_of_lockRow`).
-/

namespace HuaDB

open Sql (Tuple)

/-- What a reader at an isolation level goes by. -/
def IsolationLevel.mode : IsolationLevel → Mvcc.Mode
  | .repeatableRead => .snapshot
  | _ => .current

def versionOf (tuple : Tuple) : Mvcc.Version Rid Row where
  id := tuple.rid
  xmin := tuple.record.header.xmin
  xmax := if tuple.record.header.xmax = nullXid then none else some tuple.record.header.xmax
  cid := tuple.record.header.cid
  data := tuple.record.data

/-- The entry a log record makes. A record that no scan comes to makes none. -/
def entryOf : LogBody → Option (Mvcc.Entry Nat Rid)
  | .insert oid pageId slotId _ _ _ =>
      if pageId = nullPageId then none else some (.insert oid ⟨pageId, slotId⟩)
  | .delete oid pageId slotId => some (.delete oid ⟨pageId, slotId⟩)
  | _ => none

def eventOf : Event → Option (Mvcc.Event Nat Rid)
  | .read xid oid rid xmin => some (.read xid oid rid xmin)
  | .deleted xid oid rid => some (.deleted xid oid rid)
  | .undoneNewPage => none
  | .committed xid => some (.committed xid)
  | .rolledBack xid => some (.rolledBack xid)

def Database.mvcc (σ : Database) : Mvcc.State Nat Rid Row where
  versions oid := (σ.rows oid).map versionOf
  next := σ.txn.nextXid
  active := {x | (σ.txn.xid2cid.find? x).isSome}
  snapshot x := {y | y ∈ (σ.txn.xid2activeSet.find? x).getD []}
  cid x := (σ.txn.xid2cid.find? x).getD 0
  undo x := ((σ.att.find? x).getD []).filterMap entryOf
  locked x oid rid := ∃ lock ∈ σ.locks.locks x, lock.object = .row oid rid
  events := σ.events.filterMap eventOf

namespace Sql

variable {σ σ' : Database} {oid : Nat}

/-! ## Events -/

theorem mem_filterMap_eventOf {events : List Event} {event : Event} {e : Mvcc.Event Nat Rid}
    (h : eventOf event = some e) : e ∈ events.filterMap eventOf ↔ event ∈ events := by
  rw [List.mem_filterMap]
  constructor
  · rintro ⟨event', hmem, heq⟩
    have hsame : event' = event := by
      rw [← h] at heq
      clear h
      cases event <;> cases event' <;> simp_all [eventOf]
    exact hsame ▸ hmem
  · exact fun hmem => ⟨event, hmem, h⟩

theorem mem_mvcc_events {event : Event} {e : Mvcc.Event Nat Rid} (h : eventOf event = some e) :
    e ∈ σ.mvcc.events ↔ event ∈ σ.events := mem_filterMap_eventOf h

/-! ## Headers -/

theorem versionOf_deletedBy {xid : Nat} (hxid : xid ≠ nullXid) (rid : Rid) (tuple : Tuple) :
    versionOf (TablePage.rewrite rid (deletedBy xid) tuple) =
      Mvcc.stamp oid rid (some xid) oid (versionOf tuple) := by
  by_cases h : tuple.rid = rid
  · have hid : (versionOf tuple).id = rid := h
    rw [TablePage.rewrite, if_pos h, Mvcc.stamp, if_pos ⟨rfl, hid⟩]
    simp only [versionOf, deletedBy, hxid, ↓reduceIte]
  · have hid : ¬ (oid = oid ∧ (versionOf tuple).id = rid) := fun heq => h heq.2
    rw [TablePage.rewrite, if_neg h, Mvcc.stamp, if_neg hid]

theorem versionOf_undeleted (rid : Rid) (tuple : Tuple) :
    versionOf (TablePage.rewrite rid undeleted tuple) =
      Mvcc.stamp oid rid none oid (versionOf tuple) := by
  by_cases h : tuple.rid = rid
  · have hid : (versionOf tuple).id = rid := h
    rw [TablePage.rewrite, if_pos h, Mvcc.stamp, if_pos ⟨rfl, hid⟩]
    simp only [versionOf, undeleted, ↓reduceIte]
  · have hid : ¬ (oid = oid ∧ (versionOf tuple).id = rid) := fun heq => h heq.2
    rw [TablePage.rewrite, if_neg h, Mvcc.stamp, if_neg hid]

theorem rows_congr {oid : Nat} (h : σ'.heap oid = σ.heap oid) : σ'.rows oid = σ.rows oid := by
  rw [Database.rows, h, Database.rows]

/-- A header that is rewritten stamps the version. -/
theorem Rewritten.versions {rid : Rid} {f : RecordHeader → RecordHeader} {xmax : Option Nat}
    (ok : σ.PagesOk) (h : Rewritten oid rid f σ σ')
    (hf : ∀ t, versionOf (TablePage.rewrite rid f t) = Mvcc.stamp oid rid xmax oid (versionOf t)) :
    σ'.mvcc.versions = fun i => (σ.mvcc.versions i).map (Mvcc.stamp oid rid xmax i) := by
  funext i
  simp only [Database.mvcc]
  by_cases hi : i = oid
  · rw [hi, h.rows ok, List.map_map, List.map_map]
    exact List.map_congr_left fun t _ => hf t
  · have hself : ∀ v : Mvcc.Version Rid Row, Mvcc.stamp oid rid xmax i v = v :=
      fun v => if_neg fun heq => hi heq.1
    rw [rows_congr (h.others i hi), funext hself, List.map_id']

/-! ## Visibility -/

/-- The transactions that a scan of `x` takes for active. -/
def ActiveXids (σ : Database) (x : Nat) (level : IsolationLevel) (activeXids : List Nat) : Prop :=
  match level with
  | .repeatableRead => σ.txn.xid2activeSet.find? x = some activeXids
  | _ => activeXids = σ.txn.getActiveTransactions

theorem mem_activeXids {y : Nat} : y ∈ σ.txn.getActiveTransactions ↔ y ∈ σ.mvcc.active :=
  Assoc.mem_keys_iff

/-- `TableScan::CanGet` lets a record through when its version is visible. -/
theorem canGet_eq_false_iff {x c : Nat} {level : IsolationLevel} {activeXids : List Nat}
    (hx : x < nullXid) (hactive : ActiveXids σ x level activeXids)
    (hself : ∀ y ∈ σ.mvcc.snapshot x, y < x) (tuple : Tuple) :
    canGet tuple.record.header x c level activeXids = false ↔
      σ.mvcc.Visible level.mode x c (versionOf tuple) := by
  rcases tuple with ⟨⟨⟨deleted, xmin, xmax, cid⟩, data⟩, rid⟩
  cases level with
  | readCommitted =>
      have hactive : ∀ y, y ∈ activeXids ↔ y ∈ σ.mvcc.active := by
        intro y
        rw [show activeXids = σ.txn.getActiveTransactions from hactive, mem_activeXids]
      simp only [canGet, Mvcc.State.Visible, IsolationLevel.mode, Mvcc.State.Sees, versionOf, hactive]
      grind
  | serializable =>
      have hactive : ∀ y, y ∈ activeXids ↔ y ∈ σ.mvcc.active := by
        intro y
        rw [show activeXids = σ.txn.getActiveTransactions from hactive, mem_activeXids]
      simp only [canGet, Mvcc.State.Visible, IsolationLevel.mode, Mvcc.State.Sees, versionOf, hactive]
      grind
  | repeatableRead =>
      have hsnapshot : ∀ y, y ∈ activeXids ↔ y ∈ σ.mvcc.snapshot x := by
        intro y
        simp only [Database.mvcc, show σ.txn.xid2activeSet.find? x = some activeXids from hactive]
        rfl
      have hnot : x ∉ σ.mvcc.snapshot x := fun hmem => Nat.lt_irrefl x (hself x hmem)
      have hnull : nullXid ∉ σ.mvcc.snapshot x :=
        fun hmem => Nat.lt_asymm hx (hself nullXid hmem)
      simp only [canGet, Mvcc.State.Visible, IsolationLevel.mode, Mvcc.State.Sees, Mvcc.Seen,
        versionOf, hsnapshot]
      grind

/-- For a reader `x` at an isolation level, who took the transactions in `A` for active,
the transaction `y` is another one and has ended. -/
def Ended (level : IsolationLevel) (A : List Nat) (x y : Nat) : Prop :=
  y ≠ x ∧ y ∉ A ∧ (level = .repeatableRead → y < x)

/-- The version was there before the reader's command. -/
def IsInserted (level : IsolationLevel) (A : List Nat) (x c : Nat) (header : RecordHeader) : Prop :=
  header.xmin = x ∧ header.cid ≠ c ∨ Ended level A x header.xmin

/-- The version is deleted to the reader. -/
def IsDeleted (level : IsolationLevel) (A : List Nat) (x : Nat) (header : RecordHeader) : Prop :=
  header.xmax ≠ nullXid ∧ (header.xmax = x ∨ Ended level A x header.xmax)

/-- `TableScan::CanGet` is the rule of multi-version concurrency control, and it is one rule
for the two levels that read the current state. -/
theorem canGet_eq_false_iff_isInserted {x : Nat} {level : IsolationLevel} {A : List Nat}
    (hx : x < 2 ^ 32) (hne : x ≠ nullXid)
    (hself : x ∈ A ↔ level ≠ .repeatableRead) (header : RecordHeader) (c : Nat) :
    (canGet header x c level A = false ↔
        IsInserted level A x c header ∧ ¬ IsDeleted level A x header) ∧
      (x ∈ A → canGet header x c .readCommitted A = canGet header x c .serializable A) := by
  have hlt : x < nullXid := by
    simp only [nullXid] at hne ⊢
    omega
  rcases header with ⟨deleted, xmin, xmax, cid⟩
  refine ⟨?_, fun hmem => ?_⟩
  · cases level with
    | readCommitted =>
        have hmem : x ∈ A := hself.mpr (by decide)
        simp only [canGet, IsInserted, IsDeleted, Ended]
        grind
    | serializable =>
        have hmem : x ∈ A := hself.mpr (by decide)
        simp only [canGet, IsInserted, IsDeleted, Ended]
        grind
    | repeatableRead =>
        have hnot : x ∉ A := fun hmem => hself.mp hmem rfl
        simp only [canGet, IsInserted, IsDeleted, Ended]
        grind
  · simp only [canGet]
    grind

/-- A version of an ended transaction that another active one deletes is read. -/
theorem canGet_deletedByActive :
    (canGet ⟨false, 1, 3, 0⟩ 2 1 .serializable [2, 3] = false ↔
        IsInserted .serializable [2, 3] 2 1 ⟨false, 1, 3, 0⟩ ∧
          ¬ IsDeleted .serializable [2, 3] 2 ⟨false, 1, 3, 0⟩) ∧
      (2 ∈ [2, 3] → canGet ⟨false, 1, 3, 0⟩ 2 1 .readCommitted [2, 3] =
        canGet ⟨false, 1, 3, 0⟩ 2 1 .serializable [2, 3]) :=
  canGet_eq_false_iff_isInserted (by decide) (by decide) (by decide) _ _

/-! ## Locks -/

section Locks

variable {x : Nat} {news : List Lock}

/-- Locks are kept when others are requested. -/
theorem locked_request {m : LockManager} {y : Nat} {object : LockObject}
    (h : ∃ lock ∈ m.locks y, lock.object = object) :
    ∃ lock ∈ (m.request x news).2.locks y, lock.object = object := by
  by_cases hy : y = x
  · subst hy
    rw [LockManager.request_locks_self]
    rcases h with ⟨lock, hlock, rfl⟩
    rcases LockManager.exists_mem_foldl_record news hlock with ⟨lock', hlock', hobject, -⟩
    exact ⟨lock', hlock', hobject⟩
  · rwa [LockManager.request_locks_ne _ _ _ hy]

theorem compatible_x (a : LockType) : LockManager.compatible a .x = false := by
  cases a <;> rfl

/-- A granted exclusive lock on a row is the only lock on it. -/
theorem alone_of_lockRow {m : LockManager} {rid : Rid} (granted : (m.lockRow x .x oid rid).1 = true) :
    (∃ lock ∈ (m.lockRow x .x oid rid).2.locks x, lock.object = .row oid rid) ∧
      ∀ y, y ≠ x → ¬ ∃ lock ∈ (m.lockRow x .x oid rid).2.locks y, lock.object = .row oid rid := by
  generalize hnews : [Lock.ofRow oid rid .x, Lock.ofTable oid (LockManager.intention .x)] = news
  have hlockRow : m.lockRow x .x oid rid = m.request x news := hnews ▸ rfl
  have hnew : Lock.ofRow oid rid .x ∈ news := hnews ▸ List.mem_cons_self
  have distinct : news.Pairwise fun a b => a.object ≠ b.object := by
    simp [← hnews, Lock.object, Lock.ofRow, Lock.ofTable]
  have hsix : ∀ n ∈ news, n.lockType ≠ .six := by
    simp [← hnews, Lock.ofRow, Lock.ofTable, LockManager.intention]
  rw [hlockRow] at granted ⊢
  have hown := LockManager.exists_mem_foldl_record_self (m.locks x) hnew
  rw [← LockManager.request_locks_self m x news] at hown
  refine ⟨hown, ?_⟩
  rintro y hy ⟨lock, hlock, hobject⟩
  have hadmits := List.all_eq_true.mp granted _ hnew
  rcases LockManager.lockTypeNow_of_mem hown with ⟨it, hit, hitobject, hnow⟩
  have hcompatible := LockManager.compatible_of_admits hadmits hy hlock hobject hnow
  rw [LockManager.request_locks_self] at hit
  have hle := LockManager.le_of_mem_foldl_record distinct
    (fun n hn _ _ _ h => hsix n hn h.2) hnew hit hitobject
  have hexclusive : ∀ a : LockType, LockType.x ≤ a → a = .x := by
    intro a
    cases a <;> decide
  rw [hexclusive _ hle, compatible_x] at hcompatible
  cases hcompatible

end Locks

end Sql

end HuaDB
