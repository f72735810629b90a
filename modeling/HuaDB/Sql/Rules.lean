import HuaDB.Sql.Sound

/-!
Rules for what `ExecuteSql` does around the work of a statement.

A `catch` clause turns a postcondition of its body into one of its own, given what a
rollback makes of the states in which an automatic transaction fails (`guarded_rule`).
A statement that runs in a transaction goes on from the state that it enters, and is
committed when the transaction is an automatic one (`executeInTransaction_rule`).
-/

namespace HuaDB

namespace Sql

open EStateM

variable {σ : Database} {conn : Nat}

/-- The state after a connection has left the automatic transactions. -/
def outOfAuto (conn : Nat) (σ : Database) : Database :=
  { σ with autoTransactionSet := σ.autoTransactionSet.filter (· ≠ conn) }

theorem not_mem_outOfAuto (conn : Nat) (σ : Database) :
    conn ∉ (outOfAuto conn σ).autoTransactionSet := by
  intro h
  simpa using (List.mem_filter.mp h).2

/-- What a `catch` clause makes of errors: a rollback in an automatic transaction. -/
structure Catches (conn : Nat) (error error' : SqlError → Database → Prop) : Prop where
  rollback : ∀ message σ', error (.thrown (.dbException message)) σ' →
    conn ∈ σ'.autoTransactionSet → Ends σ' (DatabaseEngine.rollback conn)
      (fun _ σ'' => error' (.thrown (.dbException message)) (outOfAuto conn σ'')) error'
  pass : ∀ e σ', error e σ' →
    (∀ message, e = .thrown (.dbException message) → conn ∉ σ'.autoTransactionSet) → error' e σ'

theorem guarded_rule {α : Type} {body : Sql α} {ok : α → Database → Prop}
    {error error' : SqlError → Database → Prop} (catches : Catches conn error error')
    (hbody : Ends σ body ok error) : Ends σ (DatabaseEngine.guarded conn body) ok error' := by
  apply hbody.tryCatch
  intro e σ' herror
  rcases e with (message | what) | - | -
  · apply Ends.get_bind
    split
    · apply Ends.bind (catches.rollback message σ' herror ‹_›)
      exact fun _ _ h => .bind_of_ok (modify_apply _ _) (.throw h)
    · exact .throw (catches.pass _ _ herror fun _ _ => ‹_›)
  · exact .throw (catches.pass _ _ herror nofun)
  · exact .throw (catches.pass _ _ herror nofun)
  · exact .throw (catches.pass _ _ herror nofun)

/-! ## Transactions -/

/-- The statements that a transaction is started for. -/
def transactional : Statement → Bool
  | .unbound _ | .begin | .commit | .rollback | .checkpoint => false
  | _ => true

/-- The state that a statement is executed in. -/
def entered (conn : Nat) (stmt : Statement) (σ : Database) : Database :=
  if transactional stmt ∧ σ.xids.find? conn = none then
    { begun conn σ with autoTransactionSet := conn :: σ.autoTransactionSet }
  else
    σ

theorem entered_of_conn {x : Nat} (stmt : Statement) (hconn : σ.xids.find? conn = some x) :
    entered conn stmt σ = σ := by
  apply if_neg
  rw [hconn]
  exact fun h => nomatch h.2

theorem exists_conn_entered {stmt : Statement} (htransactional : transactional stmt = true) :
    ∃ x, (entered conn stmt σ).xids.find? conn = some x := by
  cases hconn : σ.xids.find? conn with
  | none =>
      rw [entered, if_pos ⟨htransactional, hconn⟩]
      exact ⟨σ.txn.nextXid, Assoc.find?_insert_self _ _ _⟩
  | some x =>
      rw [entered_of_conn stmt hconn]
      exact ⟨x, hconn⟩

theorem executeInTransaction_rule {fuel : Nat} {stmt : Statement} {done : QueryResult → Database → Prop}
    {ok : QueryResult → Database → Prop} {error error' : SqlError → Database → Prop}
    (catches : Catches conn error error') (sound : Sound σ) (htransactional : transactional stmt = true)
    (hdispatch : Ends (entered conn stmt σ) (DatabaseEngine.dispatch conn fuel stmt) done error)
    (hcommit : ∀ result σ', done result σ' → conn ∈ σ'.autoTransactionSet →
      Ends σ' (DatabaseEngine.commit conn) (fun _ σ'' => ok result (outOfAuto conn σ'')) error')
    (hstay : ∀ result σ', done result σ' → conn ∉ σ'.autoTransactionSet → ok result σ') :
    Ends σ (DatabaseEngine.executeInTransaction conn fuel stmt) ok error' := by
  have hwork : Ends (entered conn stmt σ) (do
      let result ← DatabaseEngine.guarded conn (DatabaseEngine.dispatch conn fuel stmt)
      if conn ∈ (← get).autoTransactionSet then
        DatabaseEngine.commit conn
        DatabaseEngine.eraseAuto conn
      return result : Sql QueryResult) ok error' := by
    apply Ends.bind (guarded_rule catches hdispatch)
    intro result σ' hdone
    apply Ends.get_bind
    split
    · apply Ends.bind (hcommit result σ' hdone ‹_›)
      exact fun _ _ h => .bind_of_ok (modify_apply _ _) (.pure h)
    · exact .pure (hstay result σ' hdone ‹_›)
  rw [DatabaseEngine.executeInTransaction]
  apply Ends.get_bind
  cases hconn : σ.xids.find? conn with
  | none =>
      have hout : DatabaseEngine.inTransaction σ conn = false := by
        rw [DatabaseEngine.inTransaction, hconn]
        rfl
      have hentered : entered conn stmt σ = { begun conn σ with
          autoTransactionSet := conn :: σ.autoTransactionSet } := if_pos ⟨htransactional, hconn⟩
      rw [hentered] at hwork
      rw [hout, if_pos Bool.false_ne_true]
      apply Ends.bind_of_ok (begin_eq sound hconn)
      exact .bind_of_ok (modify_apply _ _) hwork
  | some x =>
      have hin : DatabaseEngine.inTransaction σ conn = true := by
        rw [DatabaseEngine.inTransaction, hconn]
        rfl
      rw [entered_of_conn stmt hconn] at hwork
      rw [hin, if_neg (not_not.mpr rfl)]
      exact hwork

/-- The state that a statement leaves. -/
theorem settled_of_ends {α : Type} {body : Sql α} {Q : Database → Prop} {σ' : Database}
    (hbody : Ends σ body (fun _ σ' => Q σ') fun e σ' => ∀ ex, e = .thrown ex → Q σ')
    (h : settled (body σ) = some σ') : Q σ' := by
  cases hrun : body σ with
  | ok result σ₁ =>
      rw [hrun] at h
      cases h
      exact hbody.ok_of hrun
  | error e σ₁ =>
      rw [hrun] at h
      rcases e with ex | - | -
      · cases h
        exact hbody.error_of hrun ex rfl
      · cases h
      · cases h

end Sql

end HuaDB
