import HuaDB.Sql.Updates

/-!
Write-write conflicts.

Where versions are spared whose deleter has ended, no two transactions that commit delete
one version, and a workload of UPDATEs of transactions that read by snapshots leaves each
of them as many rows as there were (`noConflicts`).
-/

namespace HuaDB

namespace Sql

open EStateM

variable {σ σ₀ σ₁ σ₂ : Database} {conn x oid base : Nat} {stmt : Statement} {n : Nat → Nat}

/-! ## Deletions -/

/-- No version was deleted by two transactions that committed. -/
def NoConflicts (σ : Database) : Prop :=
  ∀ x y oid rid, .deleted x oid rid ∈ σ.events → .deleted y oid rid ∈ σ.events →
    .committed x ∈ σ.events → .committed y ∈ σ.events → x = y

theorem Started.leads_sparing (started : Started σ₀) (run : Run Sparing σ₀ σ) (kept : PagesKept σ) :
    Leads (sparing (fun _ _ => True) fun _ => True) σ₀ σ := by
  apply started.leads (fun _ _ _ h => h.toRegular) _ run kept
  intro conn stmt σ _ inv h
  exact permits_sparing inv h.toNumbered h.spares fun _ _ _ _ _ => trivial

theorem Started.deleter_unique (started : Started σ₀) (run : Run Sparing σ₀ σ) (kept : PagesKept σ) :
    NoConflicts σ := by
  have leads := started.leads_sparing run kept
  have inv := started.inv.steps leads.steps
  have marked := Mvcc.steps_marked (sparing_clean _ _) started.inv started.marked leads.steps
  intro x y oid rid hx hy hcx hcy
  exact marked.unique inv ((mem_filterMap_eventOf rfl).mpr hx) ((mem_filterMap_eventOf rfl).mpr hy)
    ((mem_filterMap_eventOf rfl).mpr hcx) ((mem_filterMap_eventOf rfl).mpr hcy)

/-! ## Rows -/

/-- When no transaction goes on, each table has the rows that have no deleter. -/
theorem Leads.steady (leads : Leads (sparing (fun _ _ => True) fun _ => True) σ₀ σ₁)
    (started : Started σ₀) (idle : σ₁.xids = []) :
    Steady σ₁.txn.nextXid (fun oid => (σ₁.mvcc.versions oid).countP fun v => v.xmax.isNone) σ₁ := by
  have inv := started.inv.steps leads.steps
  have counted : Mvcc.Counted (sparing (fun _ _ => True) fun _ => True) σ₁.mvcc := by
    apply Mvcc.steps_counted started.inv _ leads.steps
    intro i v hv
    simp only [Database.mvcc, started.rows, List.map_nil, List.not_mem_nil] at hv
  constructor
  · exact leads.sound
  · exact inv
  · exact counted
  · apply Mvcc.inOrder_of_idle (s := σ₁.mvcc)
    intro x active
    rcases (leads.sound.txn.conn x).mp active with ⟨conn, hconn⟩
    rw [idle] at hconn
    cases hconn
  · exact fun oid => Mvcc.level_of_lt (inv.xmin_lt oid) (inv.xmax_lt oid)

/-- A scan by a snapshot returns so many rows. -/
theorem Steady.scan_ends (steady : Steady base n σ) (updates : Updates conn (selectAll oid) σ)
    (fuel : Nat) : Ends σ (DatabaseEngine.executeSql conn fuel (selectAll oid))
      (fun result _ => ∀ rows, result = .rows rows → rows.length = n oid) fun _ _ => True := by
  have steadyₑ := steady.entered updates
  have hentered : ∃ x, (Sql.entered conn (selectAll oid) σ).xids.find? conn = some x :=
    exists_conn_entered rfl
  rcases hentered with ⟨x, hconn⟩
  have active := steadyₑ.sound.txn.active_of_conn hconn
  have hlevel : levelOf (Sql.entered conn (selectAll oid) σ) conn = .repeatableRead := by
    rw [levelOf, isolationLevels_entered]
    exact updates.level rfl
  apply (Sql.scan_ends fuel steady.sound updates.next rfl hconn _).mono
  · rintro result _ rfl rows hrows
    rw [hlevel] at hrows
    rw [← QueryResult.rows.inj hrows]
    exact steadyₑ.order.length_view active (steadyₑ.levels oid)
  · exact fun _ _ _ => trivial
  · exact fun v hv hxmin => hxmin ▸ steadyₑ.counted oid v hv trivial (hxmin ▸ active)

/-- What a scan returns that meets the guard. -/
def Selects (guard : Nat → Statement → Database → Prop) (oid : Nat) (rows : List Row) (σ : Database) :
    Prop :=
  ∃ conn fuel σ', guard conn (selectAll oid) σ ∧
    DatabaseEngine.executeSql conn fuel (selectAll oid) σ = .ok (.rows rows) σ'

theorem Steady.length_rows (steady : Steady base n σ) {rows : List Row}
    (selects : Selects Updates oid rows σ) : rows.length = n oid := by
  rcases selects with ⟨conn, fuel, σ', updates, hscan⟩
  exact (steady.scan_ends updates fuel).ok_of hscan rows rfl

/-- A workload that starts when no transaction goes on, and what a table has before it and
in it. -/
structure Workload (guard : Nat → Statement → Database → Prop) (oid : Nat) (rows rows' : List Row)
    (σ₁ σ₂ : Database) : Prop where
  idle : σ₁.xids = []
  before : Selects guard oid rows σ₁
  run : Run guard σ₁ σ₂
  during : Selects guard oid rows' σ₂

/-- No two transactions that commit delete one version, and UPDATEs leave as many rows as
there were. -/
theorem noConflicts (started : Started σ₀) (run : Run Sparing σ₀ σ₁) (kept : PagesKept σ₁) :
    NoConflicts σ₁ ∧ ∀ oid rows rows' σ₂, Workload Updates oid rows rows' σ₁ σ₂ →
      rows'.length = rows.length := by
  refine ⟨started.deleter_unique run kept, ?_⟩
  rintro oid rows rows' σ₂ ⟨idle, before, run', during⟩
  have steady := (started.leads_sparing run kept).steady started idle
  rw [steady.length_rows before]
  rcases during with ⟨conn, fuel, σ', updates, hscan⟩
  have steady' := run'.steady steady updates.kept updates.free
  exact steady'.length_rows ⟨conn, fuel, σ', updates, hscan⟩

/-! ### Workloads that are served -/

section Serve

variable (guard : Nat → Statement → Database → Prop) [∀ conn stmt σ, Decidable (guard conn stmt σ)]
  (fuel : Nat)

/-- What a scan returns of a state that meets the guard. -/
def select? (conn oid : Nat) (σ : Database) : Option (List Row) :=
  if guard conn (selectAll oid) σ then
    match DatabaseEngine.executeSql conn fuel (selectAll oid) σ with
    | .ok (.rows rows) _ => some rows
    | _ => none
  else
    none

/-- Serve a workload, and scan a table before and after it. -/
def workload? (conn oid : Nat) (stmts : List (Nat × Statement)) (σ₁ : Database) :
    Option (List Row × List Row × List Event) := do
  let rows ← select? guard fuel conn oid σ₁
  let σ₂ ← serveWhere guard fuel stmts σ₁
  let rows' ← select? guard fuel conn oid σ₂
  if σ₁.xids = [] then
    some (rows, rows', σ₂.events)
  else
    none

variable {guard fuel}

theorem selects_of_select? {rows : List Row} (h : select? guard fuel conn oid σ = some rows) :
    Selects guard oid rows σ := by
  rw [select?] at h
  split at h
  · split at h
    · cases h
      exact ⟨conn, fuel, _, ‹_›, ‹_›⟩
    · cases h
  · cases h

theorem workload_of_serve {guard₀ : Nat → Statement → Database → Prop}
    [∀ conn stmt σ, Decidable (guard₀ conn stmt σ)] {before stmts : List (Nat × Statement)}
    {rows rows' : List Row} {events : List Event}
    (h : (serveWhere guard₀ fuel before σ₀).bind (workload? guard fuel conn oid stmts) =
      some (rows, rows', events)) :
    ∃ σ₁ σ₂, Run guard₀ σ₀ σ₁ ∧ Workload guard oid rows rows' σ₁ σ₂ ∧ σ₂.events = events := by
  rcases Option.bind_eq_some_iff.mp h with ⟨σ₁, hbefore, hworkload⟩
  rcases Option.bind_eq_some_iff.mp hworkload with ⟨_, hfirst, hrest⟩
  rcases Option.bind_eq_some_iff.mp hrest with ⟨σ₂, hrun, hlast⟩
  rcases Option.bind_eq_some_iff.mp hlast with ⟨_, hsecond, hidle⟩
  split at hidle
  · cases hidle
    exact ⟨σ₁, σ₂, Run.refl.serveWhere hbefore, ⟨‹_›, selects_of_select? hfirst,
      Run.refl.serveWhere hrun, selects_of_select? hsecond⟩, rfl⟩
  · cases hidle

end Serve

theorem Selects.mono {guard guard' : Nat → Statement → Database → Prop} {rows : List Row}
    (h : ∀ conn stmt σ, guard conn stmt σ → guard' conn stmt σ) (selects : Selects guard oid rows σ) :
    Selects guard' oid rows σ := by
  rcases selects with ⟨conn, fuel, σ', hguard, hscan⟩
  exact ⟨conn, fuel, σ', h _ _ _ hguard, hscan⟩

theorem Workload.mono {guard guard' : Nat → Statement → Database → Prop} {rows rows' : List Row}
    (h : ∀ conn stmt σ, guard conn stmt σ → guard' conn stmt σ)
    (workload : Workload guard oid rows rows' σ₁ σ₂) : Workload guard' oid rows rows' σ₁ σ₂ where
  idle := workload.idle
  before := workload.before.mono h
  run := workload.run.mono h
  during := workload.during.mono h

instance : Decidable (BySnapshot conn stmt σ) := inferInstanceAs (Decidable (_ → _))

instance : Decidable (PagesFree σ) := inferInstanceAs (Decidable (∀ entry ∈ σ.tables, _ = none))

/-- No row has a deleter that has ended, or becomes larger than a page takes. -/
def replaceable (σ : Database) : Statement → Bool
  | .query (.ok (.update oid _ exprs)) => (σ.rows oid).all fun t =>
      ((versionOf t).xmax.all fun d => (σ.txn.xid2cid.find? d).isSome) &&
        (exprs t.record.data).toOption.all fun data =>
          ({ data := data } : Record).getSize ≤ maxRecordSize
  | _ => true

/-- What can be evaluated of `Updates`. -/
def UpdatesEvidently (conn : Nat) (stmt : Statement) (σ : Database) : Prop :=
  Numbered conn σ ∧ BySnapshot conn stmt σ ∧ stmt.onlyUpdates ∧ PagesFree σ ∧
    (σ.xids.find? conn = none ∨ replaceable σ stmt)

instance : Decidable (UpdatesEvidently conn stmt σ) := inferInstanceAs (Decidable (_ ∧ _))

theorem UpdatesEvidently.updates (h : UpdatesEvidently conn stmt σ) : Updates conn stmt σ := by
  rcases h with ⟨numbered, level, update, free, hrows⟩
  have hreplaceable : ∀ x oid predicate exprs, σ.xids.find? conn = some x →
      stmt = .query (.ok (.update oid predicate exprs)) → ∀ t ∈ σ.rows oid,
        (∀ d, (versionOf t).xmax = some d → d ∈ σ.mvcc.active) ∧ ¬ Oversize exprs t := by
    rintro x oid predicate exprs hconn rfl t ht
    rcases hrows with hnone | hrows
    · cases hnone.symm.trans hconn
    have hrow := List.all_eq_true.mp hrows t ht
    rcases Bool.and_eq_true_iff.mp hrow with ⟨hxmax, hsize⟩
    constructor
    · intro d hd
      rw [hd] at hxmax
      exact hxmax
    · rintro ⟨data, hdata, hlarge⟩
      rw [hdata] at hsize
      exact Nat.not_lt.mpr (of_decide_eq_true hsize) hlarge
  constructor
  · refine ⟨numbered, ?_⟩
    intro x oid predicate hconn hdeletes t ht wanted d hxmax
    cases stmt with
    | unbound | begin | commit | rollback | checkpoint | lock | setIsolationLevel | ddl
      | utility => cases hdeletes
    | query planned =>
        rcases planned with e | (plan | ⟨oid', toRecord, plan⟩ | ⟨oid', predicate', exprs⟩ |
          ⟨oid', predicate'⟩)
        · cases hdeletes
        · cases hdeletes
        · cases hdeletes
        · cases hdeletes
          exact (hreplaceable x oid predicate exprs hconn rfl t ht).1 d hxmax
        · cases update
  · exact level
  · exact update
  · exact fun x oid predicate exprs hstmt hconn _ t ht _ =>
      (hreplaceable x oid predicate exprs hconn hstmt t ht).2
  · exact free

/-- Transaction 4 updates two rows, which are refused to transaction 5 and then updated by
transaction 6. -/
theorem noConflicts_update :
    ∃ σ₁ σ₂ rows', Run Sparing (oneTable 1 10001) σ₁ ∧
      Workload Updates 10001 [[1], [2]] rows' σ₁ σ₂ ∧ NoConflicts σ₂ ∧ rows'.length = 2 ∧
      .committed 6 ∈ σ₂.events ∧ .rolledBack 5 ∈ σ₂.events ∧ .committed 4 ∈ σ₂.events := by
  have hserve : ∃ events, (serveWhere SparesEvidently 20
      [(1, insertRows 10001 [[1], [2]]), (1, .setIsolationLevel .repeatableRead),
        (2, .setIsolationLevel .repeatableRead)] (oneTable 1 10001)).bind
          (workload? UpdatesEvidently 20 1 10001 [(2, .begin), (2, updateAll 10001 [3]),
            (1, updateAll 10001 [4]), (2, .commit), (1, updateAll 10001 [4])]) =
      some ([[1], [2]], [[4], [4]], events) ∧
        .committed 6 ∈ events ∧ .rolledBack 5 ∈ events ∧ .committed 4 ∈ events := by
    refine ⟨[.committed 6, .deleted 6 10001 ⟨0, 3⟩, .read 6 10001 ⟨0, 3⟩ 4,
      .deleted 6 10001 ⟨0, 2⟩, .read 6 10001 ⟨0, 2⟩ 4, .committed 4, .rolledBack 5,
      .read 5 10001 ⟨0, 0⟩ 1, .deleted 4 10001 ⟨0, 1⟩, .read 4 10001 ⟨0, 1⟩ 1,
      .deleted 4 10001 ⟨0, 0⟩, .read 4 10001 ⟨0, 0⟩ 1, .committed 3, .committed 2,
      .committed 1], ?_, ?_⟩
    · decide +kernel
    · decide
  rcases hserve with ⟨events, hserve, hmem⟩
  rcases workload_of_serve hserve with ⟨σ₁, σ₂, run, workload, rfl⟩
  have started : Started (oneTable 1 10001) := started_oneTable 10001 (by decide)
  have run₁ : Run Sparing (oneTable 1 10001) σ₁ := run.mono fun _ _ _ h => h.sparing
  have workload' := workload.mono fun _ _ _ h => UpdatesEvidently.updates h
  rcases workload'.before with ⟨_, _, _, updates₁, -⟩
  rcases workload'.during with ⟨_, _, _, updates₂, -⟩
  have run₂ : Run Sparing (oneTable 1 10001) σ₂ :=
    run₁.trans (workload'.run.mono fun _ _ _ h => h.toSparing)
  exact ⟨σ₁, σ₂, [[4], [4]], run₁, workload', (noConflicts started run₂ updates₂.kept).1,
    (noConflicts started run₁ updates₁.kept).2 _ _ _ _ workload', hmem⟩

/-- Transaction 5 updates a row after transaction 6, which it does not see, has updated it
and committed; there are two rows then. -/
theorem writeConflict :
    ∃ σ₁ σ₂, Run BySnapshot (oneTable 1 10001) σ₁ ∧
      Workload (fun conn stmt σ => BySnapshot conn stmt σ ∧ stmt.onlyUpdates) 10001 [[1]] [[2], [3]]
        σ₁ σ₂ ∧ ¬ NoConflicts σ₂ := by
  have hserve : ∃ events, (serveWhere BySnapshot 20
      [(1, .setIsolationLevel .repeatableRead), (1, insertRows 10001 [[1]]),
        (2, .setIsolationLevel .repeatableRead), (3, .setIsolationLevel .repeatableRead)]
        (oneTable 1 10001)).bind
          (workload? (fun conn stmt σ => BySnapshot conn stmt σ ∧ stmt.onlyUpdates) 20 3 10001
            [(2, .begin), (1, updateAll 10001 [2]), (2, updateAll 10001 [3]), (2, .commit)]) =
      some ([[1]], [[2], [3]], events) ∧
        .deleted 5 10001 ⟨0, 0⟩ ∈ events ∧ .deleted 6 10001 ⟨0, 0⟩ ∈ events ∧
        .committed 5 ∈ events ∧ .committed 6 ∈ events := by
    refine ⟨[.committed 5, .deleted 5 10001 ⟨0, 0⟩, .read 5 10001 ⟨0, 0⟩ 2, .committed 6,
      .deleted 6 10001 ⟨0, 0⟩, .read 6 10001 ⟨0, 0⟩ 2, .committed 4, .committed 3, .committed 2,
      .committed 1], ?_, ?_⟩
    · decide +kernel
    · decide
  rcases hserve with ⟨events, hserve, hdeleted, hdeleted', hcommitted, hcommitted'⟩
  rcases workload_of_serve hserve with ⟨σ₁, σ₂, run, workload, rfl⟩
  refine ⟨σ₁, σ₂, run, workload, fun h => ?_⟩
  exact absurd (h 5 6 10001 ⟨0, 0⟩ hdeleted hdeleted' hcommitted hcommitted') (by decide)

end Sql

end HuaDB
