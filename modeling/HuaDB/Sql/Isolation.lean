import HuaDB.Lib.MvccHistory
import HuaDB.Sql.Statements

/-!
What concurrent transactions see of each other: in a run of `Regular` statements, whose
transactions have numbers below `NULL_XID` and that undo no page creation, nothing is read
of active or rolled-back transactions (`noDirtyReads`), and where all of them read the
current state, no update is lost (`noLostUpdates`).
-/

namespace HuaDB

namespace Sql

open EStateM

variable {σ σ₀ σ' : Database} {conn x : Nat}

/-! ## Statements -/

/-- `INSERT INTO` a table `VALUES` rows. -/
def insertRows (oid : Nat) (rows : List Row) : Statement :=
  .query (.ok (.insert oid .ok (.values (rows.map .ok))))

/-- `SELECT * FROM` a table. -/
def selectAll (oid : Nat) : Statement := .query (.ok (.select (.seqScan oid)))

/-- `UPDATE` all rows of a table `SET` their values. -/
def updateAll (oid : Nat) (row : Row) : Statement :=
  .query (.ok (.update oid (fun _ => .ok true) fun _ => .ok row))

/-- `DELETE FROM` a table `WHERE` the row is this one. -/
def deleteRows (oid : Nat) (row : Row) : Statement :=
  .query (.ok (.delete oid fun data => .ok (data = row)))

/-! ## Runs -/

/-- No page creation has been undone, and a transaction that the statement starts gets a
number that is none. -/
structure Regular (conn : Nat) (σ : Database) : Prop where
  kept : PagesKept σ
  next : σ.xids.find? conn = none → σ.txn.nextXid < nullXid

theorem Started.regular (started : Started σ) : PagesKept σ := by
  rw [PagesKept, started.events]
  exact List.not_mem_nil

theorem Started.leads {P : Mvcc.Policy Nat Rid Row} {guard : Nat → Statement → Database → Prop}
    (started : Started σ₀) (regular : ∀ conn stmt σ, guard conn stmt σ → Regular conn σ)
    (permits : ∀ conn stmt σ, Sound σ → Mvcc.Inv σ.mvcc → guard conn stmt σ →
      Permits P conn stmt (entered conn stmt σ))
    (run : Run guard σ₀ σ) (kept : PagesKept σ) : Leads P σ₀ σ :=
  run.leads started.sound started.inv (fun conn stmt σ h => (regular conn stmt σ h).kept)
    (fun conn stmt σ h => (regular conn stmt σ h).next) permits kept

/-! ## Dirty reads -/

/-- Every version that was read had been inserted by its reader or by a transaction that
had committed, and had not been rolled back. -/
def NoDirtyReads (σ : Database) : Prop :=
  ∀ later earlier x oid rid xmin, σ.events = later ++ .read x oid rid xmin :: earlier →
    xmin = x ∨ .committed xmin ∈ earlier ∧ .rolledBack xmin ∉ earlier

/-- Everything is permitted. -/
def anyPolicy : Mvcc.Policy Nat Rid Row where
  delete _ _ _ := True
  commit _ _ := True
  counts _ := False

theorem permits_any (conn : Nat) (stmt : Statement) (σ : Database) :
    Permits anyPolicy conn stmt σ where
  counts _ _ := False.elim
  deletes _ _ _ _ _ _ _ _ := trivial
  commits _ _ _ _ _ := trivial

/-- What the events of a history were justified by, in the events of versions. -/
theorem justified_of_split {Q : Mvcc.Event Nat Rid → List (Mvcc.Event Nat Rid) → Prop}
    (h : Mvcc.Justified Q σ.mvcc.events) {later earlier : List Event} {event : Event}
    {e : Mvcc.Event Nat Rid} (hevent : eventOf event = some e)
    (split : σ.events = later ++ event :: earlier) : Q e (earlier.filterMap eventOf) := by
  have hsplit : σ.mvcc.events = later.filterMap eventOf ++ e :: earlier.filterMap eventOf := by
    simp only [Database.mvcc, split, List.filterMap_append, List.filterMap_cons, hevent]
  exact h.of_split hsplit

theorem Started.mvcc_events (started : Started σ) : σ.mvcc.events = [] := by
  simp only [Database.mvcc, started.events, List.filterMap_nil]

/-- No dirty reads. -/
theorem noDirtyReads (started : Started σ₀) (run : Run (fun conn _ => Regular conn) σ₀ σ)
    (kept : PagesKept σ) : NoDirtyReads σ := by
  have leads : Leads anyPolicy σ₀ σ :=
    started.leads (fun _ _ _ => id) (fun conn stmt σ _ _ _ => permits_any conn stmt _) run kept
  have inv := started.inv.steps leads.steps
  have hreads := Mvcc.steps_reads started.inv (started.mvcc_events ▸ trivial) leads.steps
  intro later earlier x oid rid xmin split
  have hread := justified_of_split hreads rfl split
  apply (hread x oid rid xmin rfl).imp_right
  intro hcommitted
  have hmem : .committed xmin ∈ earlier := (mem_filterMap_eventOf rfl).mp hcommitted
  have hsub : earlier ⊆ σ.events := by
    rw [split]
    exact List.Subset.trans (List.subset_cons_self _ _) (List.subset_append_right _ _)
  refine ⟨hmem, fun hback => ?_⟩
  exact inv.decided xmin ((mem_mvcc_events rfl).mpr (hsub hmem))
    ((mem_mvcc_events rfl).mpr (hsub hback))

instance : Decidable (PagesKept σ) := inferInstanceAs (Decidable (¬ _))

instance : Decidable (Regular conn σ) :=
  decidable_of_iff (PagesKept σ ∧ (σ.xids.find? conn = none → σ.txn.nextXid < nullXid))
    ⟨fun h => ⟨h.1, h.2⟩, fun h => ⟨h.kept, h.next⟩⟩

/-- A row is inserted and read. -/
theorem noDirtyReads_select :
    ∃ σ, σ.events = [.committed 2, .read 2 10001 ⟨0, 0⟩ 1, .committed 1] ∧ NoDirtyReads σ := by
  have hserve : (serveWhere (fun conn _ => Regular conn) 20
      [(1, insertRows 10001 [[1]]), (2, selectAll 10001)] (oneTable 1 10001)).map (·.events) =
        some [.committed 2, .read 2 10001 ⟨0, 0⟩ 1, .committed 1] := by decide +kernel
  rcases exists_run_of_serveWhere hserve with ⟨σ, run, hevents⟩
  refine ⟨σ, hevents, noDirtyReads (started_oneTable 10001 (by decide)) run ?_⟩
  rw [PagesKept, hevents]
  decide

/-- Connections 1 to 5 on one table: the page that transaction 2 created is unlinked when
it is rolled back, and created again while a deletion in it by transaction 4 can still be
undone. -/
def recreatedPage : List (Nat × Statement) :=
  [(1, insertRows 10001 [List.replicate 210 0]), (1, .begin), (1, insertRows 10001 [[1]]),
    (2, insertRows 10001 [[2]]), (4, .begin), (4, deleteRows 10001 [2]), (1, .rollback),
    (5, insertRows 10001 [[5]]), (3, .begin), (3, insertRows 10001 [[3]]), (3, .rollback),
    (4, .rollback), (1, selectAll 10001)]

/-- A row of transaction 6 is read that has been rolled back. -/
theorem dirtyRead : ∃ σ, Run (fun _ _ _ => True) (oneTable 1 10001) σ ∧ ¬ NoDirtyReads σ := by
  have hserve : (serve 20 recreatedPage (oneTable 1 10001)).map (fun σ => σ.events.take 6) =
      some [.committed 7, .read 7 10001 ⟨1, 1⟩ 6, .read 7 10001 ⟨1, 0⟩ 5, .read 7 10001 ⟨0, 0⟩ 1,
        .rolledBack 4, .rolledBack 6] := by decide +kernel
  rcases exists_run_of_serve hserve with ⟨σ, run, htake⟩
  refine ⟨σ, run, fun h => ?_⟩
  have hsplit : σ.events = [.committed 7] ++ .read 7 10001 ⟨1, 1⟩ 6 ::
      ([.read 7 10001 ⟨1, 0⟩ 5, .read 7 10001 ⟨0, 0⟩ 1, .rolledBack 4, .rolledBack 6] ++
        σ.events.drop 6) := by
    rw [← List.take_append_drop 6 σ.events, htake]
    rfl
  rcases h _ _ _ _ _ _ hsplit with heq | ⟨-, hback⟩
  · exact absurd heq (by decide)
  · exact hback (List.mem_append_left _ (by decide))

/-! ## Lost updates -/

/-- The isolation level that a connection has set. -/
def levelOf (σ : Database) (conn : Nat) : IsolationLevel :=
  (σ.isolationLevels.find? conn).getD .readCommitted

/-- Versions are spared whose deleter has ended. -/
def sparing (commit : Nat → List (Mvcc.Entry Nat Rid) → Prop) (counts : Nat → Prop) :
    Mvcc.Policy Nat Rid Row where
  delete _ A v := ∀ d, v.xmax = some d → d ∈ A
  commit := commit
  counts := counts

theorem sparing_clean (commit : Nat → List (Mvcc.Entry Nat Rid) → Prop) (counts : Nat → Prop) :
    (sparing commit counts).Clean := fun _ _ _ h => h

/-- What reads the current state sees no version of a deleter that has ended. -/
theorem active_of_visible {context : ExecutorContext} {tuple : Tuple} {d : Nat}
    (hlevel : context.isolationLevel ≠ .repeatableRead) (visible : Visible σ context tuple)
    (hxmax : (versionOf tuple).xmax = some d) : d ∈ σ.mvcc.active := by
  have hmode : context.isolationLevel.mode = .current := by
    cases hcase : context.isolationLevel with
    | readCommitted | serializable => rfl
    | repeatableRead => exact absurd hcase hlevel
  rw [Visible, hmode] at visible
  exact (visible.2.2 d hxmax).1

theorem isolationLevels_entered (conn : Nat) (stmt : Statement) (σ : Database) :
    (entered conn stmt σ).isolationLevels = σ.isolationLevels := by
  rw [entered]
  split <;> rfl

/-- A statement of a connection that reads the current state. -/
structure Current (conn : Nat) (σ : Database) : Prop extends Regular conn σ where
  level : levelOf σ conn ≠ .repeatableRead

theorem Current.permits (current : Current conn σ) (stmt : Statement) :
    Permits (sparing (fun _ _ => True) fun _ => False) conn stmt (entered conn stmt σ) where
  counts _ _ := False.elim
  deletes x oid predicate hconn hdeletes t ht wanted d hxmax := by
    apply active_of_visible _ wanted.1 hxmax
    rw [contextOf, isolationLevels_entered]
    exact current.level
  commits _ _ _ _ _ := trivial

/-- No version was deleted that another transaction had deleted, unless that one had been
rolled back. -/
def NoLostUpdates (σ : Database) : Prop :=
  ∀ later earlier x y oid rid, σ.events = later ++ .deleted x oid rid :: earlier → y ≠ x →
    .deleted y oid rid ∈ earlier → .rolledBack y ∈ earlier

theorem Started.marked (started : Started σ) : Mvcc.Marked σ.mvcc := by
  intro y i r hdeleted
  rw [started.mvcc_events] at hdeleted
  cases hdeleted

/-- No lost updates where no transaction reads by a snapshot. -/
theorem noLostUpdates (started : Started σ₀) (run : Run (fun conn _ => Current conn) σ₀ σ)
    (kept : PagesKept σ) : NoLostUpdates σ := by
  have leads := started.leads (fun _ _ _ h => h.toRegular)
    (fun conn stmt σ _ _ current => current.permits stmt) run kept
  have hdeletes := Mvcc.steps_deletes (sparing_clean _ _) started.inv started.marked
    (started.mvcc_events ▸ trivial) leads.steps
  intro later earlier x y oid rid split hne hdeleted
  have honce := justified_of_split hdeletes rfl split
  have hback := honce x oid rid rfl y hne ((mem_filterMap_eventOf rfl).mpr hdeleted)
  exact (mem_filterMap_eventOf rfl).mp hback

instance : Decidable (Current conn σ) :=
  decidable_of_iff (Regular conn σ ∧ levelOf σ conn ≠ .repeatableRead)
    ⟨fun h => ⟨h.1, h.2⟩, fun h => ⟨h.toRegular, h.level⟩⟩

/-- A row is refused to transaction 4 until transaction 3 is rolled back. -/
theorem noLostUpdates_update :
    ∃ σ, σ.events = [.committed 4, .deleted 4 10001 ⟨0, 0⟩, .read 4 10001 ⟨0, 0⟩ 1, .rolledBack 3,
        .read 4 10001 ⟨0, 0⟩ 1, .deleted 3 10001 ⟨0, 0⟩, .read 3 10001 ⟨0, 0⟩ 1, .committed 2,
        .committed 1] ∧ NoLostUpdates σ := by
  have hserve : (serveWhere (fun conn _ => Current conn) 20
      [(1, insertRows 10001 [[1]]), (2, .setIsolationLevel .serializable), (1, .begin),
        (1, updateAll 10001 [2]), (2, .begin), (2, updateAll 10001 [3]), (1, .rollback),
        (2, updateAll 10001 [3]), (2, .commit)] (oneTable 1 10001)).map (·.events) =
      some [.committed 4, .deleted 4 10001 ⟨0, 0⟩, .read 4 10001 ⟨0, 0⟩ 1, .rolledBack 3,
        .read 4 10001 ⟨0, 0⟩ 1, .deleted 3 10001 ⟨0, 0⟩, .read 3 10001 ⟨0, 0⟩ 1, .committed 2,
        .committed 1] := by decide +kernel
  rcases exists_run_of_serveWhere hserve with ⟨σ, run, hevents⟩
  refine ⟨σ, hevents, noLostUpdates (started_oneTable 10001 (by decide)) run ?_⟩
  rw [PagesKept, hevents]
  decide

/-- A deletion that is stamped with `NULL_XID` is none, and the row is deleted again. -/
theorem lostUpdate :
    ∃ σ, Run (fun conn _ σ => PagesKept σ ∧ levelOf σ conn ≠ .repeatableRead)
        (oneTable (2 ^ 32 - 2) 10001) σ ∧ PagesKept σ ∧ ¬ NoLostUpdates σ := by
  have hserve : (serveWhere (fun conn _ σ => PagesKept σ ∧ levelOf σ conn ≠ .repeatableRead) 20
      [(1, insertRows 10001 [[1]]), (1, deleteRows 10001 [1]), (2, deleteRows 10001 [1])]
        (oneTable (2 ^ 32 - 2) 10001)).map (·.events) =
      some [.committed 0, .deleted 0 10001 ⟨0, 0⟩, .read 0 10001 ⟨0, 0⟩ 4294967294,
        .committed 4294967295, .deleted 4294967295 10001 ⟨0, 0⟩,
        .read 4294967295 10001 ⟨0, 0⟩ 4294967294, .committed 4294967294] := by decide +kernel
  rcases exists_run_of_serveWhere hserve with ⟨σ, run, hevents⟩
  refine ⟨σ, run, ?_, fun h => ?_⟩
  · rw [PagesKept, hevents]
    decide
  · have hback := h [.committed 0] _ 0 4294967295 10001 ⟨0, 0⟩ hevents (by decide) (by decide)
    exact absurd hback (by decide)

end Sql

end HuaDB
