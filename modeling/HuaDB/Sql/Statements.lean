import HuaDB.Sql.Queries
import HuaDB.Sql.Rollback
import HuaDB.Sql.Rules

/-!
What a statement does, run to its end.

A policy of row versions permits a statement (`Permits`) when it permits the rows that
the statement deletes, and the transaction that it commits. Such a statement takes a
sound state to a sound one by steps of the policy (`executeSql_ends`), unless it rolls
back the creation of a page; a run of such statements does so too (`Run.leads`).
-/

namespace HuaDB

/-- The table that a query writes to. -/
def Query.target : Query → Option Nat
  | .select _ => none
  | .insert oid _ _ | .update oid _ _ | .delete oid _ => some oid

/-- The rows that a query deletes. -/
def Query.deletes : Query → Option (Nat × Expression Bool)
  | .update oid predicate _ | .delete oid predicate => some (oid, predicate)
  | .select _ | .insert _ _ _ => none

def Statement.target : Statement → Option Nat
  | .query (.ok planned) => planned.target
  | _ => none

def Statement.deletes : Statement → Option (Nat × Expression Bool)
  | .query (.ok planned) => planned.deletes
  | _ => none

/-- The table of an entry. -/
def tableOf : Mvcc.Entry Nat Rid → Nat
  | .insert oid _ | .delete oid _ => oid

namespace Sql

open EStateM

variable {σ σ' σ'' : Database} {conn x : Nat} {P : Mvcc.Policy Nat Rid Row}

/-! ## Queries -/

section Query

variable {context : ExecutorContext} {σ₀ : Database}

/-- What a query has done, also one that throws. -/
def Executed (P : Mvcc.Policy Nat Rid Row) (context : ExecutorContext) (query : Query)
    (σ₀ σ : Database) : Prop :=
  ∃ oid gone new, Writes P context oid σ₀ σ gone new ∧
    (query.target ≠ some oid → gone = [] ∧ new = [])

theorem executeQuery_ends (fuel : Nat) (query : Query) (sound : Sound σ₀)
    (active : context.xid ∈ σ₀.mvcc.active)
    (counts : P.counts context.xid → context.cid < σ₀.mvcc.cid context.xid)
    (permits : ∀ oid predicate, query.deletes = some (oid, predicate) →
      ∀ t ∈ σ₀.rows oid, Wanted σ₀ context predicate t →
        P.delete context.isolationLevel.mode σ₀.mvcc.active (versionOf t)) :
    Ends σ₀ (executeQuery context fuel query) (fun _ σ' => Executed P context query σ₀ σ')
      fun e σ' => ∀ ex, e = .thrown ex → Executed P context query σ₀ σ' := by
  cases query with
  | select plan =>
      have hnone : ∀ σ', Reads σ₀ σ' → Executed P context (.select plan) σ₀ σ' := by
        intro σ' reads
        exact ⟨0, [], [], (Writes.refl P context 0 sound).reads reads, fun _ => ⟨rfl, rfl⟩⟩
      exact (select_ends fuel sound active plan).mono (fun _ σ' h => hnone σ' h.1)
        fun _ σ' h _ _ => hnone σ' h.1
  | insert oid toRecord plan =>
      apply (insert_ends fuel sound active counts toRecord plan).mono
      · rintro _ σ' ⟨done, new, -, writes, -⟩
        exact ⟨oid, [], new, writes, fun h => absurd rfl h⟩
      · rintro e σ' ⟨hthrown, -⟩ ex hex
        rcases hthrown ex hex with ⟨gone, new, writes⟩
        exact ⟨oid, gone, new, writes, fun h => absurd rfl h⟩
  | update oid predicate exprs =>
      apply (update_ends fuel sound active counts (permits oid predicate rfl) exprs).mono
      · rintro _ σ' ⟨done, new, -, writes, -⟩
        exact ⟨oid, done, new, writes, fun h => absurd rfl h⟩
      · rintro e σ' ⟨hthrown, -⟩ ex hex
        rcases hthrown ex hex with ⟨gone, new, writes, -⟩
        exact ⟨oid, gone, new, writes, fun h => absurd rfl h⟩
  | delete oid predicate =>
      apply (delete_ends fuel sound active (permits oid predicate rfl)).mono
      · rintro _ σ' ⟨done, -, writes, -⟩
        exact ⟨oid, done, [], writes, fun h => absurd rfl h⟩
      · rintro e σ' ⟨hthrown, -⟩ ex hex
        rcases hthrown ex hex with ⟨gone, new, writes⟩
        exact ⟨oid, gone, new, writes, fun h => absurd rfl h⟩

/-- The entries of a query are on its table. -/
theorem Executed.entries {query : Query} (executed : Executed P context query σ₀ σ) :
    ∃ entries, σ.mvcc.undo context.xid = entries ++ σ₀.mvcc.undo context.xid ∧
      ∀ e ∈ entries, query.target = some (tableOf e) := by
  rcases executed with ⟨oid, gone, new, writes, hnone⟩
  rcases writes.entries with ⟨entries, hentries, hperm⟩
  refine ⟨entries, hentries, ?_⟩
  by_cases htarget : query.target = some oid
  · intro e he
    rcases List.mem_append.mp (hperm.mem_iff.mp he) with hinsert | hdelete
    · rcases List.mem_map.mp hinsert with ⟨t, -, rfl⟩
      exact htarget
    · rcases List.mem_map.mp hdelete with ⟨t, -, rfl⟩
      exact htarget
  · rcases hnone htarget with ⟨rfl, rfl⟩
    rw [List.Perm.eq_nil hperm]
    exact nofun

end Query

/-! ## Statements of a transaction -/

/-- What the next statement of a transaction runs as. -/
def contextOf (σ : Database) (conn x : Nat) : ExecutorContext :=
  ⟨x, (σ.isolationLevels.find? conn).getD .readCommitted, σ.mvcc.cid x⟩

/-- `P` permits a statement of the transaction that the connection is in. -/
structure Permits (P : Mvcc.Policy Nat Rid Row) (conn : Nat) (stmt : Statement) (σ : Database) :
    Prop where
  counts : ∀ x, σ.xids.find? conn = some x → P.counts x → σ.mvcc.cid x + 1 < 2 ^ 32
  deletes : ∀ x oid predicate, σ.xids.find? conn = some x →
    stmt.deletes = some (oid, predicate) → ∀ t ∈ σ.rows oid,
      Wanted σ (contextOf σ conn x) predicate t →
        P.delete (contextOf σ conn x).isolationLevel.mode σ.mvcc.active (versionOf t)
  commits : ∀ x entries, σ.xids.find? conn = some x →
    conn ∈ σ.autoTransactionSet ∨ stmt = .commit →
      (∀ e ∈ entries, stmt.target = some (tableOf e)) → P.commit x (entries ++ σ.mvcc.undo x)

/-- Steps of `P` lead on, to a sound state. -/
structure Leads (P : Mvcc.Policy Nat Rid Row) (σ σ' : Database) : Prop where
  sound : Sound σ'
  steps : Mvcc.Steps P σ.mvcc σ'.mvcc

theorem Leads.refl (P : Mvcc.Policy Nat Rid Row) (sound : Sound σ) : Leads P σ σ := ⟨sound, .refl⟩

theorem Leads.trans (h : Leads P σ σ') (h' : Leads P σ' σ'') : Leads P σ σ'' :=
  ⟨h'.sound, h.steps.trans h'.steps⟩

/-- What a statement of a transaction does that returns. -/
structure Dispatched (P : Mvcc.Policy Nat Rid Row) (stmt : Statement) (x : Nat) (σ σ' : Database) :
    Prop extends Leads P σ σ' where
  xids : σ'.xids = σ.xids
  auto : σ'.autoTransactionSet = σ.autoTransactionSet
  entries : ∃ entries, σ'.mvcc.undo x = entries ++ σ.mvcc.undo x ∧
    ∀ e ∈ entries, stmt.target = some (tableOf e)

theorem Reads.dispatched (reads : Reads σ σ') (sound : Sound σ) (stmt : Statement) (x : Nat) :
    Dispatched P stmt x σ σ' where
  sound := reads.sound sound
  steps := reads.steps P
  xids := by rw [reads.frame]
  auto := by rw [reads.frame]
  entries := by
    have hundo : σ'.mvcc.undo = σ.mvcc.undo := by simp only [Database.mvcc, reads.att]
    exact ⟨[], by rw [hundo]; rfl, fun _ h => absurd h List.not_mem_nil⟩

theorem visible_numbered (active : x ∈ σ.mvcc.active) (c : Nat) (context : ExecutorContext) :
    Visible (numbered x c σ) context = Visible σ context := by
  funext t
  rw [Visible, mvcc_numbered active]
  rfl

section Transaction

variable (sound : Sound σ) (hconn : σ.xids.find? conn = some x)
include sound hconn

/-- What a query has done whose statement was numbered first. -/
theorem Executed.dispatched {query : Query} {c : Nat} (up : P.counts x → σ.mvcc.cid x < c)
    (executed : Executed P (contextOf σ conn x) query (numbered x c σ) σ') :
    Dispatched P (.query (.ok query)) x σ σ' := by
  have active := sound.txn.active_of_conn hconn
  rcases executed.entries with ⟨entries, hentries, htarget⟩
  rcases executed with ⟨oid, gone, new, writes, -⟩
  have hmvcc := mvcc_numbered active c
  constructor
  · constructor
    · exact writes.sound
    · apply Relation.ReflTransGen.trans _ writes.steps
      rw [hmvcc]
      exact .single (.count active up)
  · rw [writes.frame]
    rfl
  · rw [writes.frame]
    rfl
  · refine ⟨entries, ?_, htarget⟩
    rw [hmvcc] at hentries
    exact hentries

/-- What is permitted to a query whose statement has been numbered. -/
structure PermitsQuery (P : Mvcc.Policy Nat Rid Row) (context : ExecutorContext) (query : Query)
    (σ₀ : Database) : Prop where
  active : context.xid ∈ σ₀.mvcc.active
  counts : P.counts context.xid → context.cid < σ₀.mvcc.cid context.xid
  deletes : ∀ oid predicate, query.deletes = some (oid, predicate) → ∀ t ∈ σ₀.rows oid,
    Wanted σ₀ context predicate t →
      P.delete context.isolationLevel.mode σ₀.mvcc.active (versionOf t)

omit sound in
theorem Permits.up {stmt : Statement} (permits : Permits P conn stmt σ) (counts : P.counts x) :
    σ.mvcc.cid x < (σ.mvcc.cid x + 1) % 2 ^ 32 := by
  rw [Nat.mod_eq_of_lt (permits.counts x hconn counts)]
  exact Nat.lt_succ_self _

theorem Permits.query {query : Query} (permits : Permits P conn (.query (.ok query)) σ) :
    PermitsQuery P (contextOf σ conn x) query (numbered x ((σ.mvcc.cid x + 1) % 2 ^ 32) σ) := by
  have active := sound.txn.active_of_conn hconn
  constructor
  · exact (mem_active_numbered active).mpr active
  · rw [mvcc_numbered active]
    simp only [contextOf, Function.update_self]
    exact permits.up hconn
  · intro oid predicate hdeletes t ht wanted
    rw [mvcc_numbered active]
    rw [Wanted, visible_numbered active] at wanted
    exact permits.deletes x oid predicate hconn hdeletes t ht wanted

theorem query_ends (fuel : Nat) {planned : Except Exception Query}
    (permits : Permits P conn (.query planned) σ) :
    Ends σ (DatabaseEngine.query conn fuel planned)
      (fun _ σ' => Dispatched P (.query planned) x σ σ')
      fun e σ' => ∀ ex, e = .thrown ex → Leads P σ σ' := by
  have active := sound.txn.active_of_conn hconn
  cases planned with
  | error e => exact .bind_of_error rfl fun _ _ => .refl P sound
  | ok query =>
      apply Ends.bind_of_ok rfl
      apply Ends.get_bind
      apply Ends.bind_of_ok (xidOf_eq hconn)
      apply Ends.bind_of_ok (getCidAndIncrement_eq active)
      have permitted := permits.query sound hconn
      have ends := executeQuery_ends fuel query (sound_numbered sound active _) permitted.active
        permitted.counts permitted.deletes
      exact ends.mono (fun _ _ h => h.dispatched sound hconn (permits.up hconn))
        fun _ _ h ex hex => ((h ex hex).dispatched sound hconn (permits.up hconn)).toLeads

end Transaction

/-! ## Errors -/

/-- What is left of a statement that throws. -/
def Fails (P : Mvcc.Policy Nat Rid Row) (σ : Database) (e : SqlError) (σ' : Database) : Prop :=
  ∀ ex, e = .thrown ex → PagesKept σ' → Leads P σ σ'

theorem RolledBack.leads (rolledBack : RolledBack conn x σ σ') (active : x ∈ σ.mvcc.active) :
    Leads P σ σ' where
  sound := rolledBack.sound
  steps := by
    rw [rolledBack.mvcc]
    exact .single (.rollback active)

/-- `DatabaseEngine::Rollback`, in or out of a transaction. -/
theorem rollback_leads (sound : Sound σ) (inv : Mvcc.Inv σ.mvcc) (conn : Nat) :
    Ends σ (DatabaseEngine.rollback conn) (fun _ σ' => PagesKept σ' → Leads P σ σ') (Fails P σ) := by
  cases hconn : σ.xids.find? conn with
  | none => exact .bind_of_error (xidOf_eq_error hconn) fun _ _ _ => .refl P sound
  | some x =>
      have active := sound.txn.active_of_conn hconn
      apply (rollback_ends sound inv hconn).mono
      · rintro _ σ' (hundone | rolledBack) kept
        · exact absurd hundone kept
        · exact rolledBack.leads active
      · exact fun _ _ hundone _ _ kept => absurd hundone kept

theorem Leads.outOfAuto (leads : Leads P σ σ') (conn : Nat) : Leads P σ (outOfAuto conn σ') where
  sound := by
    have sound := leads.sound
    exact ⟨sound.pages.congr rfl rfl, sound.txn.congr rfl (fun _ => Iff.rfl) rfl,
      fun x chain hchain body hbody => (sound.logged x chain hchain body hbody).mono fun _ => id⟩
  steps := leads.steps

/-- A `catch` clause of `ExecuteSql` leads on. -/
theorem catches_fails (P : Mvcc.Policy Nat Rid Row) (inv : Mvcc.Inv σ.mvcc) (conn : Nat) :
    Catches conn (Fails P σ) (Fails P σ) where
  pass _ _ hfails _ := hfails
  rollback message σ₁ hfails _ := by
    by_cases kept : PagesKept σ₁
    · have leads := hfails _ rfl kept
      apply (rollback_leads leads.sound (inv.steps leads.steps) conn).mono
      · exact fun _ _ h _ _ kept' => (leads.trans (h kept')).outOfAuto conn
      · exact fun _ _ h ex hex kept' => leads.trans (h ex hex kept')
    · -- what was undone before stays undone
      apply (rollback_events σ₁ conn).mono
      · exact fun _ _ hsub _ _ kept' => absurd (fun h => kept' (hsub h)) kept
      · exact fun _ _ hsub _ _ kept' => absurd (fun h => kept' (hsub h)) kept

/-! ## `ExecuteSql` -/

section Transaction

variable (sound : Sound σ) (inv : Mvcc.Inv σ.mvcc) (hconn : σ.xids.find? conn = some x)
include hconn

theorem lock_ends (lockType : LockType) (oid : Nat) :
    Ends σ (DatabaseEngine.lock conn lockType oid) (fun _ σ' => Reads σ σ')
      fun e σ' => ∀ ex, e = .thrown ex → Reads σ σ' := by
  have htable : ∀ lockType message, Ends σ (orThrow (LockManager.lockTable x lockType oid) message)
      (fun _ σ' => Reads σ σ') fun e σ' => ∀ ex, e = .thrown ex → Reads σ σ' :=
    fun lockType message =>
      (lockTable_ends x lockType oid message).mono (fun _ _ h => h.1) fun _ _ h _ _ => h.1
  cases lockType with
  | s => exact .bind_of_ok (xidOf_eq hconn) (htable .s _)
  | x => exact .bind_of_ok (xidOf_eq hconn) (htable .x _)
  | is | ix | six => exact .throw fun _ _ => .refl σ

include sound inv

theorem dispatch_ends (fuel : Nat) {stmt : Statement} (permits : Permits P conn stmt σ) :
    Ends σ (DatabaseEngine.dispatch conn fuel stmt) (fun _ σ' => Dispatched P stmt x σ σ')
      (Fails P σ) := by
  have hsame : Dispatched P stmt x σ σ := (Reads.refl σ).dispatched sound stmt x
  have hfails : ∀ e : SqlError, Fails P σ e σ := fun _ _ _ _ => .refl P sound
  have hevaluate : ∀ outcome : Except Exception Unit,
      Ends σ (do evaluate outcome; return .rows [] : Sql QueryResult)
        (fun _ σ' => Dispatched P stmt x σ σ') (Fails P σ) := by
    rintro (e | -)
    · exact .bind_of_error rfl (hfails _)
    · exact .bind_of_ok rfl (.pure hsame)
  cases stmt with
  | unbound | begin | commit | rollback | checkpoint => exact .pure hsame
  | lock lockType oid =>
      apply Ends.bind ((lock_ends hconn lockType oid).mono (fun _ _ => id) _)
      · exact fun _ σ₁ reads => .pure (reads.dispatched sound _ x)
      · exact fun e σ₁ h ex hex _ => ((h ex hex).dispatched sound .begin x).toLeads
  | setIsolationLevel level =>
      apply Ends.bind_of_ok (modify_apply _ _)
      refine .pure ⟨⟨?_, .refl⟩, rfl, rfl, [], rfl, nofun⟩
      exact ⟨sound.pages.congr rfl rfl, sound.txn.congr rfl (fun _ => Iff.rfl) rfl,
        fun y chain hchain body hbody => (sound.logged y chain hchain body hbody).mono fun _ => id⟩
  | ddl outcome =>
      apply Ends.get_bind
      split
      · exact .bind_of_error rfl (hfails _)
      · exact hevaluate outcome
  | utility outcome => exact hevaluate outcome
  | query planned =>
      apply guarded_rule (catches_fails P inv conn)
      exact (query_ends sound hconn fuel permits).mono (fun _ _ => id) fun _ _ h ex hex _ => h ex hex

end Transaction

section Statement

variable {stmt : Statement} (sound : Sound σ)
  (hnext : σ.xids.find? conn = none → σ.txn.nextXid < nullXid)
include sound hnext

theorem leads_begun (P : Mvcc.Policy Nat Rid Row) (hconn : σ.xids.find? conn = none) :
    Leads P σ (begun conn σ) where
  sound := sound_begun (hnext hconn) sound hconn
  steps := by
    rw [mvcc_begun (hnext hconn)]
    exact .single (.begin _)

theorem leads_entered (P : Mvcc.Policy Nat Rid Row) (stmt : Statement) :
    Leads P σ (entered conn stmt σ) := by
  rw [entered]
  split
  · have leads := leads_begun sound hnext P ‹_ ∧ _›.2
    have sound' := leads.sound
    constructor
    · exact ⟨sound'.pages.congr rfl rfl, sound'.txn.congr rfl (fun _ => Iff.rfl) rfl,
        fun y chain hchain body hbody =>
          (sound'.logged y chain hchain body hbody).mono fun _ => id⟩
    · exact leads.steps
  · exact .refl P sound

variable (inv : Mvcc.Inv σ.mvcc)
include inv

theorem executeInTransaction_ends (fuel : Nat) (htransactional : transactional stmt = true)
    (permits : Permits P conn stmt (entered conn stmt σ)) :
    Ends σ (DatabaseEngine.executeInTransaction conn fuel stmt)
      (fun _ σ' => PagesKept σ' → Leads P σ σ') (Fails P σ) := by
  have leads : Leads P σ (entered conn stmt σ) := leads_entered sound hnext P stmt
  have invₑ := inv.steps leads.steps
  rcases exists_conn_entered htransactional with ⟨x, hconn⟩
  have hdispatch := dispatch_ends leads.sound invₑ hconn fuel permits
  apply executeInTransaction_rule (catches_fails P inv conn) sound htransactional
    (hdispatch.mono (fun _ _ => id) fun _ _ h ex hex kept => leads.trans (h ex hex kept))
  · intro result σ₁ dispatched hauto
    have hconn₁ : σ₁.xids.find? conn = some x := dispatched.xids ▸ hconn
    have hcommit : P.commit x (σ₁.mvcc.undo x) := by
      rcases dispatched.entries with ⟨entries, hentries, htarget⟩
      rw [hentries]
      exact permits.commits x entries hconn (.inl (dispatched.auto ▸ hauto)) htarget
    have hended : Leads P σ₁ (ended conn x (.committed x) σ₁) := by
      constructor
      · exact sound_ended dispatched.sound hconn₁ _
      · rw [mvcc_ended conn rfl]
        exact .single (.commit (dispatched.sound.txn.active_of_conn hconn₁) hcommit)
    apply Ends.of_eq_ok (commit_eq dispatched.sound.txn hconn₁)
    exact fun _ => ((leads.trans dispatched.toLeads).trans hended).outOfAuto conn
  · exact fun _ _ dispatched _ _ => leads.trans dispatched.toLeads

/-- `DatabaseEngine::ExecuteSql`. -/
theorem executeSql_ends (fuel : Nat) (permits : Permits P conn stmt (entered conn stmt σ)) :
    Ends σ (DatabaseEngine.executeSql conn fuel stmt) (fun _ σ' => PagesKept σ' → Leads P σ σ')
      (Fails P σ) := by
  have htransactional : transactional stmt = true →
      Ends σ (DatabaseEngine.executeInTransaction conn fuel stmt)
        (fun _ σ' => PagesKept σ' → Leads P σ σ') (Fails P σ) :=
    fun h => executeInTransaction_ends sound hnext inv fuel h permits
  cases stmt with
  | unbound e => exact .throw fun _ _ _ => .refl P sound
  | checkpoint => exact .pure fun _ => .refl P sound
  | begin =>
      cases hconn : σ.xids.find? conn with
      | none => exact .bind_of_ok (begin_eq sound hconn) (.pure fun _ => leads_begun sound hnext P hconn)
      | some x =>
          rcases begin_eq_error (Option.isSome_iff_exists.mpr ⟨x, hconn⟩) with ⟨message, herror⟩
          exact .bind_of_error herror fun _ _ _ => .refl P sound
  | commit =>
      cases hconn : σ.xids.find? conn with
      | none =>
          exact .bind_of_error (bind_of_error (xidOf_eq_error hconn)) fun _ _ _ => .refl P sound
      | some x =>
          apply Ends.bind_of_ok (commit_eq sound.txn hconn)
          refine .pure fun _ => ?_
          have hcommit := permits.commits x [] hconn (.inr rfl) nofun
          constructor
          · exact sound_ended sound hconn _
          · rw [mvcc_ended conn rfl]
            exact .single (.commit (sound.txn.active_of_conn hconn) hcommit)
  | rollback =>
      apply Ends.bind (rollback_leads sound inv conn)
      exact fun _ _ h => .pure h
  | lock | setIsolationLevel | ddl | utility | query => exact htransactional rfl

/-- The state that a statement leaves. -/
theorem settled_leads {fuel : Nat} (permits : Permits P conn stmt (entered conn stmt σ))
    (h : settled (DatabaseEngine.executeSql conn fuel stmt σ) = some σ') (kept : PagesKept σ') :
    Leads P σ σ' :=
  settled_of_ends (Q := fun σ' => PagesKept σ' → Leads P σ σ')
    (executeSql_ends sound hnext inv fuel permits) h kept

end Statement

/-! ## Runs -/

/-- A run of statements that a policy permits, in which no page creation is undone. -/
theorem Run.leads {guard : Nat → Statement → Database → Prop} {σ₀ : Database} (sound : Sound σ₀)
    (inv : Mvcc.Inv σ₀.mvcc) (kept : ∀ conn stmt σ, guard conn stmt σ → PagesKept σ)
    (next : ∀ conn stmt σ, guard conn stmt σ → σ.xids.find? conn = none → σ.txn.nextXid < nullXid)
    (permits : ∀ conn stmt σ, Sound σ → Mvcc.Inv σ.mvcc → guard conn stmt σ →
      Permits P conn stmt (entered conn stmt σ))
    (run : Run guard σ₀ σ) (hkept : PagesKept σ) : Leads P σ₀ σ := by
  induction run with
  | refl => exact .refl P sound
  | @step σ σ' conn fuel stmt run hguard hsettled ih =>
      have leads := ih (kept conn stmt σ hguard)
      have inv' := inv.steps leads.steps
      exact leads.trans (settled_leads leads.sound (next conn stmt σ hguard) inv'
        (permits conn stmt σ leads.sound inv' hguard) hsettled hkept)

end Sql

end HuaDB
