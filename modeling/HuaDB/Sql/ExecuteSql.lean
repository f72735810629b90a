import HuaDB.Sql.Executors

/-!
`DatabaseEngine::ExecuteSql` for one statement of one connection, and the runs of
statements that the connections send, each executed without interruption.

Parsing, binding and planning are left out: a statement comes as what they make of
it, or as the exception they throw. What DDL and the statements that neither read
nor write rows do beyond throwing is left out as well.
-/

namespace HuaDB

inductive Statement where
  /-- The binder throws. -/
  | unbound (e : Exception)
  | begin
  | commit
  | rollback
  | checkpoint
  | lock (lockType : LockType) (oid : Nat)
  /-- `SET isolation_level`. -/
  | setIsolationLevel (level : IsolationLevel)
  | ddl (outcome : Except Exception Unit)
  /-- EXPLAIN, ANALYZE, VACUUM, SHOW and the settings no statement here reads. -/
  | utility (outcome : Except Exception Unit)
  /-- A plan, or what the planner throws. -/
  | query (query : Except Exception Query)

namespace Sql

namespace DatabaseEngine

def inTransaction (σ : Database) (conn : Nat) : Bool := (σ.xids.find? conn).isSome

/-- `xids_[&connection]`, inside a transaction. -/
def xidOf (conn : Nat) : Sql Nat := do
  match (← get).xids.find? conn with
  | none => throwDb "There is no transaction in process"
  | some xid => return xid

/-- `DatabaseEngine::Begin`. -/
def begin (conn : Nat) : Sql Unit := do
  if inTransaction (← get) conn then
    throwDb "There is already a transaction in progress"
  else
    let xid ← TransactionManager.begin
    modify fun σ => { σ with xids := σ.xids.insert conn xid }
    LogManager.appendBeginLog xid

/-- `DatabaseEngine::Commit`. -/
def commit (conn : Nat) : Sql Unit := do
  let xid ← xidOf conn
  LogManager.appendEndLog xid "AppendCommitLog"
  TransactionManager.finish xid "Commit"
  modify fun σ => { σ with xids := σ.xids.erase conn }
  record (.committed xid)

/-- `DatabaseEngine::Rollback`. -/
def rollback (conn : Nat) : Sql Unit := do
  let xid ← xidOf conn
  LogManager.rollback xid
  LogManager.appendEndLog xid "AppendRollbackLog"
  TransactionManager.finish xid "Rollback"
  modify fun σ => { σ with xids := σ.xids.erase conn }
  record (.rolledBack xid)

def eraseAuto (conn : Nat) : Sql Unit :=
  modify fun σ => { σ with autoTransactionSet := σ.autoTransactionSet.filter (· ≠ conn) }

/-- The `catch (DbException &e)` clauses of `ExecuteSql`: roll an automatic
transaction back, and throw on. -/
def guarded {α : Type} (conn : Nat) (x : Sql α) : Sql α :=
  tryCatch x fun e => do
    match e with
    | .thrown (.dbException message) =>
        if conn ∈ (← get).autoTransactionSet then
          rollback conn
          eraseAuto conn
        throwDb message
    | e => throw e

/-- `DatabaseEngine::Lock`. -/
def lock (conn : Nat) (lockType : LockType) (oid : Nat) : Sql Unit := do
  match lockType with
  | .s | .x => orThrow (LockManager.lockTable (← xidOf conn) lockType oid) "Cannot acquire lock"
  | _ => throwDb "Unknown lock type"

/-- The branch for statements that are planned and executed. -/
def query (conn fuel : Nat) (planned : Except Exception Query) : Sql QueryResult := do
  let query ← evaluate planned
  let isolationLevel := ((← get).isolationLevels.find? conn).getD .readCommitted
  let xid ← xidOf conn
  let cid ← TransactionManager.getCidAndIncrement xid
  executeQuery ⟨xid, isolationLevel, cid⟩ fuel query

/-- The `switch` over the statements that run in a transaction. -/
def dispatch (conn fuel : Nat) : Statement → Sql QueryResult
  | .lock lockType oid => do
      lock conn lockType oid
      return .rows []
  | .setIsolationLevel level => do
      modify fun σ => { σ with isolationLevels := σ.isolationLevels.insert conn level }
      return .rows []
  | .ddl outcome => do
      if conn ∉ (← get).autoTransactionSet then
        throwDb "Cannot execute DDL statement within a transaction block"
      evaluate outcome
      return .rows []
  | .query planned => guarded conn (query conn fuel planned)
  | .utility outcome => do
      evaluate outcome
      return .rows []
  | _ => return .rows []

/-- A statement that runs in a transaction: in the connection's own, or in one that
is started for it and committed after it. -/
def executeInTransaction (conn fuel : Nat) (stmt : Statement) : Sql QueryResult := do
  if ¬ inTransaction (← get) conn then
    begin conn
    modify fun σ => { σ with autoTransactionSet := conn :: σ.autoTransactionSet }
  let result ← guarded conn (dispatch conn fuel stmt)
  if conn ∈ (← get).autoTransactionSet then
    commit conn
    eraseAuto conn
  return result

/-- `DatabaseEngine::ExecuteSql`, for one statement. -/
def executeSql (conn fuel : Nat) : Statement → Sql QueryResult
  | .unbound e => evaluate (.error e)
  | .begin => do
      begin conn
      return .rows []
  | .commit => do
      commit conn
      return .rows []
  | .rollback => do
      rollback conn
      return .rows []
  | .checkpoint => return .rows []
  | stmt => executeInTransaction conn fuel stmt

end DatabaseEngine

/-! ## Runs -/

/-- The state a statement leaves, whether it returns or throws. A fault or a loop
without end leaves none. -/
def settled {α : Type} : EStateM.Result SqlError Database α → Option Database
  | .ok _ σ => some σ
  | .error (.thrown _) σ => some σ
  | .error _ _ => none

/-- The runs of statements from `σ₀` that all meet `guard` when they start. -/
inductive Run (guard : Nat → Statement → Database → Prop) (σ₀ : Database) : Database → Prop
  | refl : Run guard σ₀ σ₀
  | step {σ σ' : Database} {conn fuel : Nat} {stmt : Statement} :
      Run guard σ₀ σ → guard conn stmt σ →
        settled (DatabaseEngine.executeSql conn fuel stmt σ) = some σ' → Run guard σ₀ σ'

/-- An engine that has just started on tables without rows. The transaction counter
comes from the control file. -/
structure Started (σ : Database) : Prop where
  pages : ∀ key, σ.pages key = none
  tables : ∀ oid table, σ.tables.find? oid = some table → table.firstPageId = nullPageId
  att : σ.att = []
  txn : σ.txn = { nextXid := σ.txn.nextXid }
  nextXid : firstXid ≤ σ.txn.nextXid ∧ σ.txn.nextXid < 2 ^ 32
  locks : σ.locks = {}
  xids : σ.xids = []
  autoTransactionSet : σ.autoTransactionSet = []
  events : σ.events = []

/-- An engine started with one table. -/
def oneTable (nextXid oid : Nat) : Database where
  tables := [(oid, ⟨oid, 0, nullPageId⟩)]
  txn := { nextXid := nextXid }

theorem started_oneTable {nextXid : Nat} (oid : Nat) (h : firstXid ≤ nextXid ∧ nextXid < 2 ^ 32) :
    Started (oneTable nextXid oid) where
  pages _ := rfl
  tables oid' table hfind := by
    have hmem := Assoc.mem_of_find? hfind
    cases List.mem_singleton.mp hmem
    rfl
  att := rfl
  txn := rfl
  nextXid := h
  locks := rfl
  xids := rfl
  autoTransactionSet := rfl
  events := rfl

/-- Serve a list of statements, each by its connection. -/
def serve (fuel : Nat) : List (Nat × Statement) → Database → Option Database
  | [], σ => some σ
  | (conn, stmt) :: rest, σ =>
      match settled (DatabaseEngine.executeSql conn fuel stmt σ) with
      | none => none
      | some σ' => serve fuel rest σ'

theorem Run.serve {σ₀ σ σ' : Database} {fuel : Nat} {stmts : List (Nat × Statement)}
    (run : Run (fun _ _ _ => True) σ₀ σ) (h : serve fuel stmts σ = some σ') :
    Run (fun _ _ _ => True) σ₀ σ' := by
  induction stmts generalizing σ with
  | nil =>
      cases h
      exact run
  | cons entry rest ih =>
      rcases entry with ⟨conn, stmt⟩
      simp only [Sql.serve] at h
      split at h
      · cases h
      · exact ih (run.step trivial ‹_›) h

/-- Serve a list of statements that all meet `guard` when they start. -/
def serveWhere (guard : Nat → Statement → Database → Prop)
    [∀ conn stmt σ, Decidable (guard conn stmt σ)] (fuel : Nat) :
    List (Nat × Statement) → Database → Option Database
  | [], σ => some σ
  | (conn, stmt) :: rest, σ =>
      if guard conn stmt σ then
        match settled (DatabaseEngine.executeSql conn fuel stmt σ) with
        | none => none
        | some σ' => serveWhere guard fuel rest σ'
      else
        none

theorem Run.serveWhere {guard : Nat → Statement → Database → Prop}
    [∀ conn stmt σ, Decidable (guard conn stmt σ)] {σ₀ σ σ' : Database} {fuel : Nat}
    {stmts : List (Nat × Statement)} (run : Run guard σ₀ σ)
    (h : serveWhere guard fuel stmts σ = some σ') : Run guard σ₀ σ' := by
  induction stmts generalizing σ with
  | nil =>
      cases h
      exact run
  | cons entry rest ih =>
      rcases entry with ⟨conn, stmt⟩
      simp only [Sql.serveWhere] at h
      split at h
      · split at h
        · cases h
        · exact ih (run.step ‹_› ‹_›) h
      · cases h

theorem Run.mono {guard guard' : Nat → Statement → Database → Prop} {σ₀ σ : Database}
    (h : ∀ conn stmt σ, guard conn stmt σ → guard' conn stmt σ) (run : Run guard σ₀ σ) :
    Run guard' σ₀ σ := by
  induction run with
  | refl => exact .refl
  | step _ hguard hsettled ih => exact ih.step (h _ _ _ hguard) hsettled

theorem Run.trans {guard : Nat → Statement → Database → Prop} {σ₀ σ σ' : Database}
    (run : Run guard σ₀ σ) (run' : Run guard σ σ') : Run guard σ₀ σ' := by
  induction run' with
  | refl => exact run
  | step _ hguard hsettled ih => exact ih.step hguard hsettled

/-- What a served list of statements comes to is reached by a run. -/
theorem exists_run_of_serve {β : Type} {f : Database → β} {b : β} {σ₀ : Database} {fuel : Nat}
    {stmts : List (Nat × Statement)} (h : (serve fuel stmts σ₀).map f = some b) :
    ∃ σ, Run (fun _ _ _ => True) σ₀ σ ∧ f σ = b := by
  rcases Option.map_eq_some_iff.mp h with ⟨σ, hserve, hf⟩
  exact ⟨σ, Run.refl.serve hserve, hf⟩

theorem exists_run_of_serveWhere {guard : Nat → Statement → Database → Prop}
    [∀ conn stmt σ, Decidable (guard conn stmt σ)] {β : Type} {f : Database → β} {b : β}
    {σ₀ : Database} {fuel : Nat} {stmts : List (Nat × Statement)}
    (h : (serveWhere guard fuel stmts σ₀).map f = some b) : ∃ σ, Run guard σ₀ σ ∧ f σ = b := by
  rcases Option.map_eq_some_iff.mp h with ⟨σ, hserve, hf⟩
  exact ⟨σ, Run.refl.serveWhere hserve, hf⟩

end Sql

end HuaDB
