import HuaDB.Sql.Statements
import Mathlib.Algebra.Order.Group.Multiset
import Mathlib.Data.Multiset.Bind

/-!
What statements are for: tables that are multisets of rows, and for each connection in a
transaction the tables as it finds them.

A query that returns comes to a result and to a change of one table (`Query.Denotes`). A
transaction finds what had been committed when it began, or, of the current state, what is
committed now, both with its own changes; its isolation level says which. COMMIT puts the
current state as the transaction finds it in the place of the committed tables, by which
the current state of every other transaction changes as much, and ROLLBACK drops it
(`Model.Step`). Pages, row versions, locks and transaction numbers have no part in it. A
statement that fails in a transaction leaves the table that it writes to as it may.
-/

namespace HuaDB

/-- The rows of each table. -/
abbrev Tables := Nat → Multiset Row

/-! ## Queries -/

/-- What a filter makes of a row, or of what is thrown in its place. -/
def keepRow (predicate : Expression Bool) : Except Exception Row → Multiset (Except Exception Row)
  | .error e => {.error e}
  | .ok row => match predicate row with
    | .error e => {.error e}
    | .ok true => {.ok row}
    | .ok false => 0

/-- The rows of a plan, and what is thrown in their place. -/
def Plan.denote (tables : Tables) : Plan → Multiset (Except Exception Row)
  | .values rows => rows
  | .seqScan oid => (tables oid).map .ok
  | .filter predicate child => (child.denote tables).bind (keepRow predicate)
  | .projection exprs child => (child.denote tables).map fun row => row.bind exprs
  | .lockRows _ _ child => child.denote tables

/-- The rows that an UPDATE or a DELETE is for. -/
def Tables.wanted (tables : Tables) (oid : Nat) (predicate : Expression Bool) :
    Multiset (Except Exception Row) :=
  Plan.denote tables (.filter predicate (.seqScan oid))

/-- Rows, and nothing thrown. -/
def allOk (rows : List Row) : Multiset (Except Exception Row) :=
  (rows.map .ok : List (Except Exception Row))

/-- What a query takes out of a table and puts into it. -/
structure Change where
  oid : Nat
  gone : Multiset Row
  new : Multiset Row

def Tables.apply (tables : Tables) (change : Change) : Tables :=
  Function.update tables change.oid (tables change.oid - change.gone + change.new)

/-- On `tables`, the query returns the result and makes the change. Nothing is thrown for
any of its rows. -/
inductive Query.Denotes (tables : Tables) : Query → QueryResult → Option Change → Prop
  | select {plan : Plan} {rows : List Row} (denote : plan.denote tables = allOk rows) :
      Denotes tables (.select plan) (.rows rows) none
  | insert {oid : Nat} {toRecord : Expression Row} {plan : Plan} {rows new : List Row}
      (denote : plan.denote tables = allOk rows)
      (supplies : rows.map toRecord = new.map Except.ok) :
      Denotes tables (.insert oid toRecord plan) (.count (rows.length % 2 ^ 32)) (some ⟨oid, 0, new⟩)
  | update {oid : Nat} {predicate : Expression Bool} {exprs : Expression Row} {rows new : List Row}
      (denote : tables.wanted oid predicate = allOk rows)
      (supplies : rows.map exprs = new.map Except.ok) :
      Denotes tables (.update oid predicate exprs) (.count (rows.length % 2 ^ 32))
        (some ⟨oid, rows, new⟩)
  | delete {oid : Nat} {predicate : Expression Bool} {rows : List Row}
      (denote : tables.wanted oid predicate = allOk rows) :
      Denotes tables (.delete oid predicate) (.count (rows.length % 2 ^ 32)) (some ⟨oid, rows, 0⟩)

/-! ## Sessions -/

/-- The tables as a transaction finds them, by its snapshot and of the current state. -/
@[ext]
structure Session where
  snapshot : Tables
  current : Tables

namespace Session

def read (session : Session) : Mvcc.Mode → Tables
  | .snapshot => session.snapshot
  | .current => session.current

/-- A transaction that reads by `mode` makes a change. What it reads by its snapshot is
there in the current state, too, but not the other way round. -/
inductive Makes (mode : Mvcc.Mode) (session : Session) : Option Change → Session → Prop
  | none : Makes mode session none session
  | some {change : Change} (gone : Multiset Row) (le : gone ≤ change.gone)
      (shown : gone ≤ session.snapshot change.oid)
      (all : mode = .snapshot → gone = change.gone) :
      Makes mode session (some change)
        ⟨session.snapshot.apply { change with gone := gone }, session.current.apply change⟩

theorem read_same (tables : Tables) (mode : Mvcc.Mode) : read ⟨tables, tables⟩ mode = tables := by
  cases mode <;> rfl

theorem Makes.current_eq {mode : Mvcc.Mode} {session session' : Session} {change : Option Change}
    (makes : session.Makes mode change session') :
    session'.current = change.elim session.current session.current.apply := by
  cases makes <;> rfl

end Session

/-! ## Statements -/

/-- What `ExecuteSql` comes to, unless it throws an exception of the standard library. -/
inductive Outcome where
  | returned (result : QueryResult)
  | failed (message : String)
deriving DecidableEq, Repr

/-- The statement neither begins or ends a transaction, nor sets a level, nor is planned. -/
def Statement.isOther : Statement → Bool
  | .checkpoint | .lock _ _ | .ddl _ | .utility _ => true
  | _ => false

/-- The committed tables, what each connection in a transaction finds, and the isolation
levels. -/
@[ext]
structure Model where
  committed : Tables
  own : Nat → Option Session
  level : Nat → IsolationLevel

namespace Model

def setOwn (m : Model) (conn : Nat) (session : Option Session) : Model :=
  { m with own := Function.update m.own conn session }

def setLevel (m : Model) (conn : Nat) (level : IsolationLevel) : Model :=
  { m with level := Function.update m.level conn level }

/-- What another transaction finds when the committed tables become `tables`. -/
def follow (m : Model) (tables : Tables) (session : Session) : Session :=
  { session with current := fun oid => session.current oid + tables oid - m.committed oid }

/-- Commit `tables` for a connection. -/
def publish (m : Model) (conn : Nat) (tables : Tables) : Model where
  committed := tables
  own other := if other = conn then none else (m.own other).map (m.follow tables)
  level := m.level

@[simp] theorem committed_setOwn (m : Model) (conn : Nat) (session : Option Session) :
    (m.setOwn conn session).committed = m.committed := rfl

@[simp] theorem level_setOwn (m : Model) (conn : Nat) (session : Option Session) :
    (m.setOwn conn session).level = m.level := rfl

theorem own_setOwn (m : Model) (conn c : Nat) (session : Option Session) :
    (m.setOwn conn session).own c = if c = conn then session else m.own c :=
  Function.update_apply _ _ _ _

theorem own_publish (m : Model) (conn c : Nat) (tables : Tables) :
    (m.publish conn tables).own c =
      if c = conn then none else (m.own c).map (m.follow tables) := rfl

theorem setOwn_setOwn (m : Model) (conn : Nat) (session session' : Option Session) :
    (m.setOwn conn session).setOwn conn session' = m.setOwn conn session' := by
  apply Model.ext
  · rfl
  · funext c
    rw [own_setOwn, own_setOwn, own_setOwn]
    split <;> rfl
  · rfl

theorem setOwn_own {m : Model} {conn : Nat} {session : Option Session} (h : m.own conn = session) :
    m.setOwn conn session = m := by
  apply Model.ext
  · rfl
  · funext c
    rw [own_setOwn]
    by_cases hc : c = conn
    · rw [if_pos hc, hc, h]
    · rw [if_neg hc]
  · rfl

theorem publish_setOwn (m : Model) (conn : Nat) (session : Option Session) (tables : Tables) :
    (m.setOwn conn session).publish conn tables = m.publish conn tables := by
  apply Model.ext
  · rfl
  · funext c
    rw [own_publish, own_publish, own_setOwn]
    split <;> rfl
  · rfl

theorem follow_committed (m : Model) (session : Session) : m.follow m.committed session = session := by
  apply Session.ext
  · rfl
  · funext oid
    exact Multiset.add_sub_cancel_right

theorem publish_committed {m : Model} {conn : Nat} (h : m.own conn = none) :
    m.publish conn m.committed = m := by
  apply Model.ext
  · rfl
  · funext c
    rw [own_publish]
    by_cases hc : c = conn
    · rw [if_pos hc, hc, h]
    · rw [if_neg hc]
      cases m.own c with
      | none => rfl
      | some session => exact congrArg some (m.follow_committed session)
  · rfl

/-- A transaction that is committed after it has set a level. -/
theorem publish_begun {m : Model} {conn : Nat} {level : IsolationLevel} {session : Option Session}
    (h : m.own conn = none) :
    ({ (m.setOwn conn session).setOwn conn session with
      level := Function.update m.level conn level } : Model).publish conn m.committed =
        m.setLevel conn level := by
  have hpublish := congrArg (setLevel · conn level) (publish_committed h)
  rw [← publish_setOwn m conn session, ← publish_setOwn _ conn session] at hpublish
  exact hpublish

/-- A statement of a connection. -/
inductive Step (m : Model) (conn : Nat) : Statement → Outcome → Model → Prop
  | begin (outside : m.own conn = none) :
      Step m conn .begin (.returned (.rows [])) (m.setOwn conn (some ⟨m.committed, m.committed⟩))
  | commit {session : Session} (inside : m.own conn = some session) :
      Step m conn .commit (.returned (.rows [])) (m.publish conn session.current)
  | rollback {session : Session} (inside : m.own conn = some session) :
      Step m conn .rollback (.returned (.rows [])) (m.setOwn conn none)
  | query {session session' : Session} {query : Query} {result : QueryResult} {change : Option Change}
      (inside : m.own conn = some session)
      (denotes : query.Denotes (session.read (m.level conn).mode) result change)
      (makes : session.Makes (m.level conn).mode change session') :
      Step m conn (.query (.ok query)) (.returned result) (m.setOwn conn (some session'))
  | autocommit {query : Query} {result : QueryResult} {change : Option Change}
      (outside : m.own conn = none) (denotes : query.Denotes m.committed result change) :
      Step m conn (.query (.ok query)) (.returned result)
        (m.publish conn (change.elim m.committed m.committed.apply))
  | setLevel (level : IsolationLevel) :
      Step m conn (.setIsolationLevel level) (.returned (.rows [])) (m.setLevel conn level)
  | other {stmt : Statement} (other : stmt.isOther) : Step m conn stmt (.returned (.rows [])) m
  | refused {stmt : Statement} {message : String}
      (harmless : m.own conn = none ∨ stmt.target = none) : Step m conn stmt (.failed message) m
  | torn {stmt : Statement} {message : String} {session : Session} {oid : Nat}
      (snapshot current : Multiset Row) (inside : m.own conn = some session)
      (target : stmt.target = some oid) :
      Step m conn stmt (.failed message) (m.setOwn conn (some
        ⟨Function.update session.snapshot oid snapshot, Function.update session.current oid current⟩))

/-- What statements come to, one after the other. -/
inductive Run (m₀ : Model) : List (Nat × Statement × Outcome) → Model → Prop
  | refl : Run m₀ [] m₀
  | step {m m' : Model} {trace : List (Nat × Statement × Outcome)} {conn : Nat} {stmt : Statement}
      {outcome : Outcome} (run : Run m₀ trace m) (step : Step m conn stmt outcome m') :
      Run m₀ (trace ++ [(conn, stmt, outcome)]) m'

/-- No rows and no transactions. -/
def empty (level : Nat → IsolationLevel) : Model where
  committed _ := 0
  own _ := none
  level := level

end Model

end HuaDB
