import HuaDB.Sql.ExecuteSql
import HuaDB.Sql.Versions

/-!
The invariant of the state between two statements, and the operations that begin,
count and end transactions.

`Sound` ties together the structures a transaction is recorded in: `att_`, the two
maps of the transaction manager and `xids_`. It holds when the engine has started
(`Started.sound`), as the invariant of row versions does (`Started.inv`).
-/

namespace HuaDB

namespace Sql

open EStateM

variable {σ σ' : Database} {x conn : Nat}

theorem mem_active : x ∈ σ.mvcc.active ↔ (σ.txn.xid2cid.find? x).isSome := Iff.rfl

theorem mem_snapshot {y : Nat} :
    y ∈ σ.mvcc.snapshot x ↔ y ∈ (σ.txn.xid2activeSet.find? x).getD [] := Iff.rfl

/-- A transaction is in all of the maps or in none, and in one connection. -/
structure TxnOk (σ : Database) : Prop where
  next : firstXid ≤ σ.txn.nextXid ∧ σ.txn.nextXid ≤ nullXid
  att : ∀ x, (σ.att.find? x).isSome ↔ x ∈ σ.mvcc.active
  snapshot : ∀ x, (σ.txn.xid2activeSet.find? x).isSome ↔ x ∈ σ.mvcc.active
  conn : ∀ x, x ∈ σ.mvcc.active ↔ ∃ conn, σ.xids.find? conn = some x
  unique : ∀ x conn conn', σ.xids.find? conn = some x → σ.xids.find? conn' = some x → conn = conn'
  bounds : ∀ x ∈ σ.mvcc.active, firstXid ≤ x ∧ x < σ.txn.nextXid
  seen : ∀ x ∈ σ.mvcc.active, ∀ y ∈ σ.mvcc.snapshot x, y < x

/-- The pages of a log record are there. Under the null page number stands the first
record of a page. -/
def Logged (σ : Database) : LogBody → Prop
  | .insert oid pageId slotId _ _ _ =>
      ((σ.heap oid).page pageId).isSome ∧ (pageId = nullPageId → slotId = 0)
  | .delete oid pageId _ => ((σ.heap oid).page pageId).isSome
  | .newPage oid prevPageId pageId =>
      (σ.heap oid).Holds prevPageId ∧ ((σ.heap oid).page pageId).isSome
  | _ => True

structure Sound (σ : Database) : Prop where
  pages : σ.PagesOk
  txn : TxnOk σ
  logged : ∀ x chain, σ.att.find? x = some chain → ∀ body ∈ chain, Logged σ body

theorem TxnOk.lt_nullXid (ok : TxnOk σ) (active : x ∈ σ.mvcc.active) : x < nullXid :=
  Nat.lt_of_lt_of_le (ok.bounds x active).2 ok.next.2

theorem TxnOk.ne_ddlXid (ok : TxnOk σ) (active : x ∈ σ.mvcc.active) : x ≠ ddlXid :=
  Nat.ne_of_gt (ok.bounds x active).1

theorem TxnOk.exists_chain (ok : TxnOk σ) (active : x ∈ σ.mvcc.active) :
    ∃ chain, σ.att.find? x = some chain :=
  Option.isSome_iff_exists.mp ((ok.att x).mpr active)

theorem TxnOk.active_of_conn (ok : TxnOk σ) (h : σ.xids.find? conn = some x) :
    x ∈ σ.mvcc.active := (ok.conn x).mpr ⟨conn, h⟩

/-- Pages, rows, locks and events are no part of it. -/
theorem TxnOk.congr (ok : TxnOk σ) (htxn : σ'.txn = σ.txn)
    (hatt : ∀ x, (σ'.att.find? x).isSome ↔ (σ.att.find? x).isSome) (hxids : σ'.xids = σ.xids) :
    TxnOk σ' := by
  rcases ok with ⟨next, att, snapshot, conn, unique, bounds, seen⟩
  constructor <;> simp only [mem_active, mem_snapshot, htxn, hatt, hxids] at *
  all_goals assumption

theorem Logged.mono {body : LogBody} (logged : Logged σ body)
    (grows : ∀ key, (σ.pages key).isSome → (σ'.pages key).isSome) : Logged σ' body := by
  cases body with
  | insert => exact logged.imp_left (grows _)
  | delete => exact grows _ logged
  | newPage => exact ⟨logged.1.imp_right (grows _), grows _ logged.2⟩
  | begin | commit | rollback | beginCheckpoint | endCheckpoint => trivial

/-! ## Start -/

theorem Started.sound (started : Started σ) : Sound σ := by
  have hempty : ∀ x, x ∉ σ.mvcc.active := by
    intro x
    rw [mem_active, started.txn]
    exact Bool.false_ne_true
  constructor
  · constructor
    · intro oid
      have hnone : ∀ p, (σ.heap oid).page p = none := fun p => started.pages ⟨oid, p⟩
      constructor
      · exact fun p page h => by simp [hnone] at h
      · exact fun p page h => by simp [hnone] at h
      · exact fun p page h => by simp [hnone] at h
      · exact fun p page h => by simp [hnone] at h
      · apply Or.inl
        simp only [Database.heap]
        split
        · rfl
        · exact started.tables oid _ ‹_›
    · intro oid p page h
      cases (started.pages ⟨oid, p⟩).symm.trans h
  · constructor
    · exact ⟨started.nextXid.1, Nat.le_of_lt_succ started.nextXid.2⟩
    · intro x
      simp [started.att, hempty]
    · intro x
      rw [iff_false_right (hempty x), started.txn]
      exact Bool.false_ne_true
    · intro x
      simp [started.xids, hempty]
    · intro x conn conn' h
      simp [started.xids] at h
    · exact fun x active => absurd active (hempty x)
    · exact fun x active => absurd active (hempty x)
  · intro x chain h
    simp [started.att] at h

theorem Started.rows (started : Started σ) (oid : Nat) : σ.rows oid = [] := by
  apply Heap.rest_of_null
  simp only [Database.heap]
  split
  · rfl
  · exact started.tables oid _ ‹_›

theorem Started.inv (started : Started σ) : Mvcc.Inv σ.mvcc := by
  have hempty : ∀ x, x ∉ σ.mvcc.active := by
    intro x
    rw [mem_active, started.txn]
    exact Bool.false_ne_true
  have hversions : ∀ oid, σ.mvcc.versions oid = [] := by
    intro oid
    simp only [Database.mvcc, started.rows oid, List.map_nil]
  have hundo : ∀ x, σ.mvcc.undo x = [] := by
    intro x
    simp only [Database.mvcc, started.att]
    rfl
  have hevents : σ.mvcc.events = [] := by
    simp only [Database.mvcc, started.events, List.filterMap_nil]
  constructor <;> simp [hversions, hempty, hundo, hevents, Mvcc.Ordered]

/-! ## Transactions -/

/-- The state after a connection has begun a transaction. -/
def begun (conn : Nat) (σ : Database) : Database :=
  { σ with
    txn := σ.txn.begin.2
    xids := σ.xids.insert conn σ.txn.nextXid
    att := σ.att.insert σ.txn.nextXid [.begin] }

/-- A number that no transaction has had. -/
theorem TxnOk.not_active_next (ok : TxnOk σ) : σ.txn.nextXid ∉ σ.mvcc.active :=
  fun h => Nat.lt_irrefl _ (ok.bounds _ h).2

theorem begin_eq (sound : Sound σ) (hconn : σ.xids.find? conn = none) :
    DatabaseEngine.begin conn σ = .ok PUnit.unit (begun conn σ) := by
  have hfst : σ.txn.begin.1 = σ.txn.nextXid := rfl
  have hatt : (σ.att.find? σ.txn.nextXid).isSome = false := by
    apply Bool.eq_false_iff.mpr
    exact fun h => sound.txn.not_active_next ((sound.txn.att _).mp h)
  have hout : DatabaseEngine.inTransaction σ conn = false := by
    rw [DatabaseEngine.inTransaction, hconn]
    rfl
  simp [DatabaseEngine.begin, bind_apply, get_apply, hout, TransactionManager.begin, modify_apply,
    LogManager.appendBeginLog, hfst, hatt, begun]

theorem begin_eq_error (hconn : (σ.xids.find? conn).isSome) :
    ∃ message, DatabaseEngine.begin conn σ = .error (.thrown (.dbException message)) σ :=
  ⟨_, by simp [DatabaseEngine.begin, bind_apply, get_apply, DatabaseEngine.inTransaction, hconn,
    throwDb, throw_apply]; rfl⟩

theorem mem_active_begun :
    x ∈ (begun conn σ).mvcc.active ↔ x = σ.txn.nextXid ∨ x ∈ σ.mvcc.active :=
  Assoc.find?_insert_isSome

section Begun

variable (hnext : σ.txn.nextXid < nullXid)
include hnext

theorem nextXid_begun (conn : Nat) : (begun conn σ).txn.nextXid = σ.txn.nextXid + 1 := by
  apply Nat.mod_eq_of_lt
  exact Nat.lt_of_le_of_lt hnext (by decide)

theorem mvcc_begun : (begun conn σ).mvcc = σ.mvcc.begin := by
  apply Mvcc.State.ext
  · rfl
  · exact nextXid_begun hnext conn
  · apply Set.ext
    exact fun x => mem_active_begun
  · have hkeys : {y | y ∈ σ.txn.xid2cid.keys} = σ.mvcc.active :=
      Set.ext fun y => mem_activeXids
    rw [Mvcc.State.begin, ← hkeys]
    exact Assoc.comp_find?_insert (fun o : Option (List Nat) => {y : Nat | y ∈ o.getD []}) _ _ _
  · exact Assoc.comp_find?_insert (fun o : Option Nat => o.getD 0) _ _ _
  · exact Assoc.comp_find?_insert (fun o : Option (List LogBody) => (o.getD []).filterMap entryOf) _ _ _
  · rfl
  · rfl

theorem sound_begun (sound : Sound σ) (hconn : σ.xids.find? conn = none) :
    Sound (begun conn σ) := by
  have hself := sound.txn.not_active_next
  have hfresh : ∀ c, σ.xids.find? c ≠ some σ.txn.nextXid :=
    fun c h => hself (sound.txn.active_of_conn h)
  have hnext' := nextXid_begun hnext conn
  have hconns : ∀ y, (∃ c, (begun conn σ).xids.find? c = some y) ↔
      y = σ.txn.nextXid ∨ ∃ c, σ.xids.find? c = some y := by
    intro y
    simp only [begun, Assoc.find?_insert_eq_some_iff]
    constructor
    · rintro ⟨c, ⟨-, rfl⟩ | ⟨-, h⟩⟩
      · exact .inl rfl
      · exact .inr ⟨c, h⟩
    · rintro (rfl | ⟨c, h⟩)
      · exact ⟨conn, .inl ⟨rfl, rfl⟩⟩
      · refine ⟨c, .inr ⟨?_, h⟩⟩
        rintro rfl
        cases hconn.symm.trans h
  constructor
  · exact sound.pages.congr rfl rfl
  · constructor
    · rw [hnext']
      exact ⟨Nat.le_succ_of_le sound.txn.next.1, hnext⟩
    · intro y
      rw [mem_active_begun, ← sound.txn.att y]
      exact Assoc.find?_insert_isSome
    · intro y
      rw [mem_active_begun, ← sound.txn.snapshot y]
      exact Assoc.find?_insert_isSome
    · intro y
      rw [mem_active_begun, hconns, sound.txn.conn y]
    · intro y a b ha hb
      rcases Assoc.find?_insert_eq_some_iff.mp ha with ⟨rfl, rfl⟩ | ⟨-, holda⟩
      · rcases Assoc.find?_insert_eq_some_iff.mp hb with ⟨rfl, -⟩ | ⟨-, holdb⟩
        · rfl
        · exact absurd holdb (hfresh b)
      · rcases Assoc.find?_insert_eq_some_iff.mp hb with ⟨rfl, rfl⟩ | ⟨-, holdb⟩
        · exact absurd holda (hfresh a)
        · exact sound.txn.unique y a b holda holdb
    · intro y hy
      rw [hnext']
      rcases mem_active_begun.mp hy with rfl | hold
      · exact ⟨sound.txn.next.1, Nat.lt_succ_self _⟩
      · have hbounds := sound.txn.bounds y hold
        exact ⟨hbounds.1, Nat.lt_succ_of_lt hbounds.2⟩
    · intro y hy z hz
      have hnx : σ.mvcc.next = σ.txn.nextXid := rfl
      simp only [mvcc_begun hnext, Mvcc.State.begin, hnx] at hz
      rcases mem_active_begun.mp hy with rfl | hold
      · rw [Function.update_self] at hz
        exact (sound.txn.bounds z hz).2
      · have hne : y ≠ σ.txn.nextXid := fun h => hself (h ▸ hold)
        rw [Function.update_of_ne hne] at hz
        exact sound.txn.seen y hold z hz
  · intro y chain hchain body hbody
    have hlogged : Logged σ body := by
      rcases Assoc.find?_insert_eq_some_iff.mp hchain with ⟨-, rfl⟩ | ⟨-, hold⟩
      · cases List.mem_singleton.mp hbody
        trivial
      · exact sound.logged y chain hold body hbody
    exact hlogged.mono fun _ => id

end Begun

/-- The state after a connection has ended its transaction `x`. -/
def ended (conn x : Nat) (event : Event) (σ : Database) : Database :=
  { σ with
    txn := { σ.txn with
      xid2cid := σ.txn.xid2cid.erase x
      xid2activeSet := σ.txn.xid2activeSet.erase x }
    locks := σ.locks.releaseLocks x
    att := σ.att.erase x
    xids := σ.xids.erase conn
    events := event :: σ.events }

theorem xidOf_eq (hconn : σ.xids.find? conn = some x) : DatabaseEngine.xidOf conn σ = .ok x σ := by
  simp only [DatabaseEngine.xidOf, bind_apply, get_apply, hconn, pure_apply]

theorem xidOf_eq_error (hconn : σ.xids.find? conn = none) :
    DatabaseEngine.xidOf conn σ =
      .error (.thrown (.dbException "There is no transaction in process")) σ := by
  simp only [DatabaseEngine.xidOf, bind_apply, get_apply, hconn, throwDb, throw_apply]

/-- What COMMIT and ROLLBACK end with. -/
theorem end_eq (ok : TxnOk σ) (active : x ∈ σ.mvcc.active) (conn : Nat) (caller caller' : String)
    (event : Event) :
    (do
      LogManager.appendEndLog x caller
      TransactionManager.finish x caller'
      modify fun σ => { σ with xids := σ.xids.erase conn }
      record event : Sql Unit) σ = .ok PUnit.unit (ended conn x event σ) := by
  rcases ok.exists_chain active with ⟨chain, hchain⟩
  have hcid : (σ.txn.xid2cid.find? x).isNone = false := by
    rw [← Option.not_isSome, mem_active.mp active]
    rfl
  have hset : (σ.txn.xid2activeSet.find? x).isNone = false := by
    rw [← Option.not_isSome, (ok.snapshot x).mpr active]
    rfl
  have hfinish : σ.txn.finish x caller' = .ok { σ.txn with
      xid2cid := σ.txn.xid2cid.erase x
      xid2activeSet := σ.txn.xid2activeSet.erase x } := by
    simp only [HuaDB.TransactionManager.finish, hcid, hset, Bool.false_eq_true, ↓reduceIte]
  simp only [LogManager.appendEndLog, bind_apply, get_apply, hchain, modify_apply,
    TransactionManager.finish, hfinish, ofExcept, pure_apply, record, ended]

theorem commit_eq (ok : TxnOk σ) (hconn : σ.xids.find? conn = some x) :
    DatabaseEngine.commit conn σ = .ok PUnit.unit (ended conn x (.committed x) σ) := by
  rw [DatabaseEngine.commit, bind_of_ok (xidOf_eq hconn)]
  exact end_eq ok (ok.active_of_conn hconn) conn _ _ _

theorem mem_active_ended {event : Event} {y : Nat} :
    y ∈ (ended conn x event σ).mvcc.active ↔ y ≠ x ∧ y ∈ σ.mvcc.active :=
  Assoc.find?_erase_isSome

theorem mvcc_ended (conn : Nat) {event : Event} {e : Mvcc.Event Nat Rid} (h : eventOf event = some e) :
    (ended conn x event σ).mvcc = σ.mvcc.finish x e := by
  apply Mvcc.State.ext
  · rfl
  · rfl
  · apply Set.ext
    intro y
    rw [mem_active_ended, Mvcc.State.finish, Set.mem_sdiff, Set.mem_singleton_iff, and_comm]
  · have hnone : {y | y ∈ (none : Option (List Nat)).getD []} = (∅ : Set Nat) := by
      apply Set.ext
      intro y
      exact iff_of_false List.not_mem_nil id
    rw [Mvcc.State.finish, ← hnone]
    exact Assoc.comp_find?_erase (fun o : Option (List Nat) => {y : Nat | y ∈ o.getD []}) _ _
  · exact Assoc.comp_find?_erase (fun o : Option Nat => o.getD 0) _ _
  · exact Assoc.comp_find?_erase (fun o : Option (List LogBody) => (o.getD []).filterMap entryOf) _ _
  · funext y i r
    apply propext
    simp only [Database.mvcc, ended, Mvcc.State.finish]
    by_cases hy : y = x
    · simp [hy, HuaDB.LockManager.releaseLocks, HuaDB.LockManager.locks]
    · simp only [LockManager.releaseLocks_locks_ne _ _ hy, ne_eq, hy, not_false_eq_true, true_and]
  · simp only [Database.mvcc, ended, Mvcc.State.finish, List.filterMap_cons, h]

theorem sound_ended (sound : Sound σ) (hconn : σ.xids.find? conn = some x) (event : Event) :
    Sound (ended conn x event σ) := by
  have hconns : ∀ y, (∃ c, (ended conn x event σ).xids.find? c = some y) ↔
      y ≠ x ∧ ∃ c, σ.xids.find? c = some y := by
    intro y
    simp only [ended, Assoc.find?_erase_eq_some_iff]
    constructor
    · rintro ⟨c, hne, h⟩
      refine ⟨?_, c, h⟩
      rintro rfl
      exact hne (sound.txn.unique y c conn h hconn)
    · rintro ⟨hne, c, h⟩
      refine ⟨c, ?_, h⟩
      rintro rfl
      exact hne (Option.some.inj (h.symm.trans hconn))
  constructor
  · exact sound.pages.congr rfl rfl
  · constructor
    · exact sound.txn.next
    · intro y
      rw [mem_active_ended, ← sound.txn.att y]
      exact Assoc.find?_erase_isSome
    · intro y
      rw [mem_active_ended, ← sound.txn.snapshot y]
      exact Assoc.find?_erase_isSome
    · intro y
      rw [mem_active_ended, hconns, sound.txn.conn y]
    · intro y a b ha hb
      exact sound.txn.unique y a b (Assoc.find?_erase_eq_some_iff.mp ha).2
        (Assoc.find?_erase_eq_some_iff.mp hb).2
    · exact fun y hy => sound.txn.bounds y (mem_active_ended.mp hy).2
    · intro y hy z hz
      rcases mem_active_ended.mp hy with ⟨hne, hold⟩
      apply sound.txn.seen y hold z
      have hfind : (ended conn x event σ).txn.xid2activeSet.find? y =
          σ.txn.xid2activeSet.find? y := Assoc.find?_erase_ne hne.symm _
      rwa [mem_snapshot, hfind] at hz
  · intro y chain hchain body hbody
    have hold := (Assoc.find?_erase_eq_some_iff.mp hchain).2
    exact (sound.logged y chain hold body hbody).mono fun _ => id

/-- The state after a statement of `x` has got its number. -/
def numbered (x c : Nat) (σ : Database) : Database :=
  { σ with txn := { σ.txn with xid2cid := σ.txn.xid2cid.insert x c } }

theorem getCidAndIncrement_eq (active : x ∈ σ.mvcc.active) :
    TransactionManager.getCidAndIncrement x σ =
      .ok (σ.mvcc.cid x) (numbered x ((σ.mvcc.cid x + 1) % 2 ^ 32) σ) := by
  rcases Option.isSome_iff_exists.mp active with ⟨c, hc⟩
  have hcid : σ.mvcc.cid x = c := by
    simp only [Database.mvcc, hc, Option.getD_some]
  simp only [TransactionManager.getCidAndIncrement, bind_apply, get_apply, hc, modify_apply,
    pure_apply, hcid, numbered]

theorem mem_active_numbered (active : x ∈ σ.mvcc.active) {c y : Nat} :
    y ∈ (numbered x c σ).mvcc.active ↔ y ∈ σ.mvcc.active := by
  have hinsert : y ∈ (numbered x c σ).mvcc.active ↔ y = x ∨ y ∈ σ.mvcc.active :=
    Assoc.find?_insert_isSome
  rw [hinsert]
  constructor
  · rintro (rfl | h)
    · exact active
    · exact h
  · exact .inr

theorem mvcc_numbered (active : x ∈ σ.mvcc.active) (c : Nat) :
    (numbered x c σ).mvcc = { σ.mvcc with cid := Function.update σ.mvcc.cid x c } := by
  apply Mvcc.State.ext
  · rfl
  · rfl
  · exact Set.ext fun y => mem_active_numbered active
  · rfl
  · exact Assoc.comp_find?_insert (fun o : Option Nat => o.getD 0) _ _ _
  · rfl
  · rfl
  · rfl

theorem sound_numbered (sound : Sound σ) (active : x ∈ σ.mvcc.active) (c : Nat) :
    Sound (numbered x c σ) := by
  rcases sound with ⟨pages, ⟨next, att, snapshot, conn, unique, bounds, seen⟩, logged⟩
  constructor
  · exact pages.congr rfl rfl
  · have hactive : (numbered x c σ).mvcc.active = σ.mvcc.active :=
      Set.ext fun y => mem_active_numbered active
    constructor <;> try rw [hactive]
    · exact next
    · exact fun y => hactive ▸ att y
    · exact fun y => hactive ▸ snapshot y
    · exact fun y => hactive ▸ conn y
    · exact unique
    · exact bounds
    · exact seen
  · exact fun y chain hchain body hbody => (logged y chain hchain body hbody).mono fun _ => id

end Sql

end HuaDB
