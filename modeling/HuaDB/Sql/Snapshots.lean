import HuaDB.Sql.Isolation

/-!
What two scans of a table by one transaction return.

A scan returns what its transaction sees of the table (`scan_ends`), so that two scans
agree where no step in between changes that. By a snapshot this takes statements that
spare the versions whose deleter has ended (`repeatableReads`); a transaction that reads
the current state also has to meet no commit (`serializableReads`).
-/

namespace HuaDB

def Statement.isCommit : Statement → Bool
  | .commit => true
  | _ => false

namespace Sql

open EStateM

variable {σ σ₀ σ₁ σ₁' σ₂ σ₂' : Database} {conn x oid : Nat} {stmt : Statement}

/-! ## Statements that spare versions -/

/-- The number of the next statement has 32 bits, too. -/
structure Numbered (conn : Nat) (σ : Database) : Prop extends Regular conn σ where
  cid : ∀ x ∈ σ.xids.find? conn, (σ.txn.xid2cid.find? x).getD 0 + 1 < 2 ^ 32

/-- The statement deletes no version whose deleter has ended. -/
def Spares (conn : Nat) (stmt : Statement) (σ : Database) : Prop :=
  ∀ x oid predicate, σ.xids.find? conn = some x → stmt.deletes = some (oid, predicate) →
    ∀ t ∈ σ.rows oid, Wanted σ (contextOf σ conn x) predicate t →
      ∀ d, (versionOf t).xmax = some d → d ∈ σ.mvcc.active

theorem spares_of_level (hlevel : levelOf σ conn ≠ .repeatableRead) : Spares conn stmt σ :=
  fun _ _ _ _ _ _ _ wanted _ hxmax => active_of_visible hlevel wanted.1 hxmax

theorem spares_of_deletes (hdeletes : stmt.deletes = none) : Spares conn stmt σ :=
  fun _ _ _ _ h => nomatch hdeletes.symm.trans h

theorem entered_cases (conn : Nat) (stmt : Statement) (σ : Database) :
    entered conn stmt σ = σ ∨ σ.xids.find? conn = none ∧ entered conn stmt σ =
      { begun conn σ with autoTransactionSet := conn :: σ.autoTransactionSet } := by
  rw [entered]
  split
  · exact .inr ⟨‹_ ∧ _›.2, rfl⟩
  · exact .inl rfl

/-- The transaction that is started for a statement has number `nextXid`. -/
theorem eq_nextXid_of_begun (hconn : (begun conn σ).xids.find? conn = some x) :
    x = σ.txn.nextXid := by
  rw [begun, Assoc.find?_insert_self] at hconn
  exact (Option.some.inj hconn).symm

theorem cid_entered (numbered : Numbered conn σ)
    (hconn : (entered conn stmt σ).xids.find? conn = some x) :
    (entered conn stmt σ).mvcc.cid x + 1 < 2 ^ 32 := by
  rcases entered_cases conn stmt σ with heq | ⟨hnone, heq⟩
  · rw [heq] at hconn ⊢
    exact numbered.cid x hconn
  · rw [heq] at hconn ⊢
    cases eq_nextXid_of_begun hconn
    have hcid : (begun conn σ).mvcc.cid σ.txn.nextXid = 1 := by
      rw [mvcc_begun (numbered.next hnone)]
      exact Function.update_self _ _ _
    change (begun conn σ).mvcc.cid σ.txn.nextXid + 1 < 2 ^ 32
    rw [hcid]
    decide

/-- A transaction that is started for a statement spares versions anyway. -/
theorem spares_entered (inv : Mvcc.Inv σ.mvcc) (regular : Regular conn σ)
    (spares : Spares conn stmt σ) : Spares conn stmt (entered conn stmt σ) := by
  rcases entered_cases conn stmt σ with heq | ⟨hnone, heq⟩
  · rw [heq]
    exact spares
  · rw [heq]
    intro y oid predicate hconn hdeletes t ht wanted d hxmax
    cases eq_nextXid_of_begun hconn
    have hmvcc : (begun conn σ).mvcc = σ.mvcc.begin := mvcc_begun (regular.next hnone)
    have hvisible : (begun conn σ).mvcc.Visible _ σ.txn.nextXid _ (versionOf t) := wanted.1
    change d ∈ (begun conn σ).mvcc.active
    rw [hmvcc] at hvisible ⊢
    exact inv.active_of_visible_begin (List.mem_map_of_mem ht) hvisible hxmax

/-- Everything is permitted to statements with numbers. -/
def numberedPolicy : Mvcc.Policy Nat Rid Row where
  delete _ _ _ := True
  commit _ _ := True
  counts _ := True

theorem Numbered.permits (numbered : Numbered conn σ) (stmt : Statement) :
    Permits numberedPolicy conn stmt (entered conn stmt σ) where
  counts _ hconn _ := cid_entered numbered hconn
  deletes _ _ _ _ _ _ _ _ := trivial
  commits _ _ _ _ _ := trivial

theorem permits_sparing {commit : Nat → List (Mvcc.Entry Nat Rid) → Prop}
    (inv : Mvcc.Inv σ.mvcc) (numbered : Numbered conn σ) (spares : Spares conn stmt σ)
    (commits : ∀ x entries, (entered conn stmt σ).xids.find? conn = some x →
      conn ∈ (entered conn stmt σ).autoTransactionSet ∨ stmt = .commit →
      (∀ e ∈ entries, stmt.target = some (tableOf e)) →
        commit x (entries ++ (entered conn stmt σ).mvcc.undo x)) :
    Permits (sparing commit fun _ => True) conn stmt (entered conn stmt σ) where
  counts _ hconn _ := cid_entered numbered hconn
  deletes := spares_entered inv numbered.toRegular spares
  commits := commits

/-! ## Results -/

theorem catches_trivial (conn : Nat) : Catches conn (fun _ _ => True) fun _ _ => True where
  rollback _ _ _ _ := Ends.trivial _ _
  pass _ _ _ _ := trivial

/-- A query returns what its executor does. -/
theorem executeSql_result {fuel : Nat} {query : Query} {R : QueryResult → Prop} (sound : Sound σ)
    (hnext : σ.xids.find? conn = none → σ.txn.nextXid < nullXid)
    (hstmt : entered conn (.query (.ok query)) σ = σ')
    (hconn : σ'.xids.find? conn = some x)
    (h : Ends (numbered x ((σ'.mvcc.cid x + 1) % 2 ^ 32) σ')
      (executeQuery (contextOf σ' conn x) fuel query) (fun result _ => R result) fun _ _ => True) :
    Ends σ (DatabaseEngine.executeSql conn fuel (.query (.ok query)))
      (fun result _ => R result) fun _ _ => True := by
  have sound' : Sound σ' := hstmt ▸ (leads_entered sound hnext anyPolicy _).sound
  have hquery : Ends σ' (DatabaseEngine.query conn fuel (.ok query)) (fun result _ => R result)
      fun _ _ => True := by
    apply Ends.bind_of_ok rfl
    apply Ends.get_bind
    apply Ends.bind_of_ok (xidOf_eq hconn)
    exact .bind_of_ok (getCidAndIncrement_eq (sound'.txn.active_of_conn hconn)) h
  rw [← hstmt] at hquery
  apply executeInTransaction_rule (catches_trivial conn) sound rfl
    (guarded_rule (catches_trivial conn) hquery)
  · exact fun _ _ hresult _ => (Ends.trivial _ _).mono (fun _ _ _ => hresult) fun _ _ _ => trivial
  · exact fun _ _ hresult _ => hresult

/-- A scan returns what its transaction sees, if no earlier statement had its number. -/
theorem scan_ends (fuel : Nat) (sound : Sound σ)
    (hnext : σ.xids.find? conn = none → σ.txn.nextXid < nullXid)
    (hstmt : entered conn (selectAll oid) σ = σ') (hconn : σ'.xids.find? conn = some x)
    (counted : ∀ v ∈ σ'.mvcc.versions oid, v.xmin = x → v.cid < σ'.mvcc.cid x) :
    Ends σ (DatabaseEngine.executeSql conn fuel (selectAll oid))
      (fun result _ => result = .rows (σ'.mvcc.view (levelOf σ' conn).mode x oid))
      fun _ _ => True := by
  classical
  have sound' : Sound σ' := hstmt ▸ (leads_entered sound hnext anyPolicy _).sound
  have active := sound'.txn.active_of_conn hconn
  apply executeSql_result sound hnext hstmt hconn
  have active₀ := (mem_active_numbered active (c := (σ'.mvcc.cid x + 1) % 2 ^ 32)).mpr active
  apply (select_ends fuel (sound_numbered sound' active _) active₀ (.seqScan oid)).mono
  · rintro result _ ⟨-, done, hitems, rfl⟩
    have hdone : done = (σ'.rows oid).filter fun t => Visible σ' (contextOf σ' conn x) t := by
      have hok : Function.Injective (Except.ok : Tuple → Item) := fun _ _ h => Except.ok.inj h
      apply List.map_injective_iff.mpr hok
      rw [← hitems, ← visible_numbered active]
      rfl
    have hsees : ∀ t ∈ σ'.rows oid, Visible σ' (contextOf σ' conn x) t ↔
        σ'.mvcc.Sees (levelOf σ' conn).mode x (versionOf t) := by
      intro t ht
      apply and_iff_right
      intro hcid hxmin
      have hlt := counted _ (List.mem_map_of_mem ht) hxmin
      exact Nat.ne_of_lt hlt hcid
    have hfilter : done = (σ'.rows oid).filter
        ((fun v => decide (σ'.mvcc.Sees (levelOf σ' conn).mode x v)) ∘ versionOf) :=
      hdone.trans (List.filter_congr fun t ht => decide_eq_decide.mpr (hsees t ht))
    have hview : σ'.mvcc.view (levelOf σ' conn).mode x oid = done.map fun t => t.record.data := by
      rw [Mvcc.State.view, hfilter]
      simp only [Database.mvcc, List.filter_map, List.map_map]
      rfl
    rw [hview]
  · exact fun _ _ _ => trivial

/-! ## Two scans -/

/-- Two scans of a table by one transaction at an isolation level, which writes nothing in
between. -/
structure Rescan (guard : Nat → Statement → Database → Prop) (level : IsolationLevel)
    (conn x oid : Nat) (rows rows' : List Row) (σ₁ σ₂ : Database) : Prop where
  inside : σ₁.xids.find? conn = some x ∧ σ₂.xids.find? conn = some x
  levels : levelOf σ₁ conn = level ∧ levelOf σ₂ conn = level
  guards : guard conn (selectAll oid) σ₁ ∧ guard conn (selectAll oid) σ₂
  first : ∃ fuel σ₁', DatabaseEngine.executeSql conn fuel (selectAll oid) σ₁ = .ok (.rows rows) σ₁' ∧
    Run guard σ₁' σ₂
  second : ∃ fuel σ₂', DatabaseEngine.executeSql conn fuel (selectAll oid) σ₂ = .ok (.rows rows') σ₂'
  /-- No log record was appended for the transaction. -/
  unwritten : σ₂.att.find? x = σ₁.att.find? x

section Rescan

variable {P : Mvcc.Policy Nat Rid Row} {guard : Nat → Statement → Database → Prop}
  {level : IsolationLevel} {rows rows' : List Row}

/-- Statements that keep what a transaction sees keep what it reads. -/
theorem Rescan.rows_eq (rescan : Rescan guard level conn x oid rows rows' σ₁ σ₂)
    (started : Started σ₀) (run : Run (fun conn _ => Numbered conn) σ₀ σ₁) (clean : P.Clean)
    (quiet : level.mode = .current → P.Quiet oid) (counts : ∀ x, P.counts x)
    (numbered : ∀ conn stmt σ, guard conn stmt σ → Numbered conn σ)
    (permits : ∀ conn stmt σ, Sound σ → Mvcc.Inv σ.mvcc → guard conn stmt σ →
      Permits P conn stmt (entered conn stmt σ)) : rows' = rows := by
  rcases rescan with ⟨⟨hconn, hconn'⟩, ⟨hlevel, hlevel'⟩, ⟨hguard, hguard'⟩, ⟨fuel, σ₁', first, run'⟩,
    ⟨fuel', σ₂', second⟩, unwritten⟩
  have leads₁ : Leads numberedPolicy σ₀ σ₁ :=
    started.leads (fun _ _ _ h => h.toRegular) (fun _ stmt _ _ _ h => h.permits stmt) run
      (numbered _ _ _ hguard).kept
  have inv₁ := started.inv.steps leads₁.steps
  have settled₁ : settled (DatabaseEngine.executeSql conn fuel (selectAll oid) σ₁) = some σ₁' := by
    rw [first]
    rfl
  have run₂ : Run guard σ₁ σ₂ := (Run.refl.step hguard settled₁).trans run'
  have leads₂ : Leads P σ₁ σ₂ :=
    run₂.leads leads₁.sound inv₁ (fun _ _ _ h => (numbered _ _ _ h).kept)
      (fun _ _ _ h => (numbered _ _ _ h).next) permits (numbered _ _ _ hguard').kept
  have counted₁ : Mvcc.Counted numberedPolicy σ₁.mvcc := by
    apply Mvcc.steps_counted started.inv _ leads₁.steps
    intro i v hv
    simp only [Database.mvcc, started.rows, List.map_nil, List.not_mem_nil] at hv
  have counted₂ : Mvcc.Counted P σ₂.mvcc :=
    Mvcc.steps_counted inv₁ (fun i v hv _ => counted₁ i v hv trivial) leads₂.steps
  have active₁ := leads₁.sound.txn.active_of_conn hconn
  have active₂ := leads₂.sound.txn.active_of_conn hconn'
  have hcounted₁ : ∀ v ∈ σ₁.mvcc.versions oid, v.xmin = x → v.cid < σ₁.mvcc.cid x :=
    fun v hv hxmin => hxmin ▸ counted₁ oid v hv trivial (hxmin ▸ active₁)
  have hcounted₂ : ∀ v ∈ σ₂.mvcc.versions oid, v.xmin = x → v.cid < σ₂.mvcc.cid x :=
    fun v hv hxmin => hxmin ▸ counted₂ oid v hv (counts _) (hxmin ▸ active₂)
  have hview := (Mvcc.steps_view clean quiet inv₁ active₁ active₂ leads₂.steps).2 (by
    simp only [Database.mvcc, unwritten])
  have hrows := (scan_ends fuel leads₁.sound (numbered _ _ _ hguard).next (entered_of_conn _ hconn)
    hconn hcounted₁).ok_of first
  have hrows' := (scan_ends fuel' leads₂.sound (numbered _ _ _ hguard').next
    (entered_of_conn _ hconn') hconn' hcounted₂).ok_of second
  rw [hlevel] at hrows
  rw [hlevel', hview, ← hrows] at hrows'
  exact QueryResult.rows.inj hrows'

end Rescan

/-! ### Scans that are served -/

section Serve

variable (guard : Nat → Statement → Database → Prop) [∀ conn stmt σ, Decidable (guard conn stmt σ)]
  (level : IsolationLevel) (fuel : Nat)

/-- Scan a table, serve other statements, and scan it again. -/
def rescan? (conn x oid : Nat) (between : List (Nat × Statement)) (σ₁ : Database) :
    Option (List Row × List Row) := do
  let .ok (.rows rows) σ₁' := DatabaseEngine.executeSql conn fuel (selectAll oid) σ₁ | none
  let σ₂ ← serveWhere guard fuel between σ₁'
  let .ok (.rows rows') _ := DatabaseEngine.executeSql conn fuel (selectAll oid) σ₂ | none
  if (σ₁.xids.find? conn = some x ∧ σ₂.xids.find? conn = some x) ∧
      (levelOf σ₁ conn = level ∧ levelOf σ₂ conn = level) ∧
      (guard conn (selectAll oid) σ₁ ∧ guard conn (selectAll oid) σ₂) ∧
      σ₂.att.find? x = σ₁.att.find? x then
    some (rows, rows')
  else
    none

variable {guard level fuel}

theorem rescan_of_serve {guard₀ : Nat → Statement → Database → Prop}
    [∀ conn stmt σ, Decidable (guard₀ conn stmt σ)] {before between : List (Nat × Statement)}
    {rows rows' : List Row}
    (h : (serveWhere guard₀ fuel before σ₀).bind (rescan? guard level fuel conn x oid between) =
      some (rows, rows')) :
    ∃ σ₁ σ₂, Run guard₀ σ₀ σ₁ ∧ Rescan guard level conn x oid rows rows' σ₁ σ₂ := by
  rcases Option.bind_eq_some_iff.mp h with ⟨σ₁, hbefore, hrescan⟩
  rw [rescan?] at hrescan
  split at hrescan
  · rename_i rows₁ σ₁' first
    rcases Option.bind_eq_some_iff.mp hrescan with ⟨σ₂, hbetween, hlast⟩
    split at hlast
    · rename_i rows₂ σ₂' second
      split at hlast
      · rename_i hsame
        cases hlast
        rcases hsame with ⟨inside, levels, guards, unwritten⟩
        exact ⟨σ₁, σ₂, Run.refl.serveWhere hbefore, inside, levels, guards,
          ⟨fuel, σ₁', first, Run.refl.serveWhere hbetween⟩, ⟨fuel, σ₂', second⟩, unwritten⟩
      · cases hlast
    · cases hlast
  · cases hrescan

end Serve

instance : Decidable (Numbered conn σ) :=
  decidable_of_iff (Regular conn σ ∧
      ∀ x ∈ σ.xids.find? conn, (σ.txn.xid2cid.find? x).getD 0 + 1 < 2 ^ 32)
    ⟨fun h => ⟨h.1, h.2⟩, fun h => ⟨h.toRegular, h.cid⟩⟩

theorem Rescan.mono {guard guard' : Nat → Statement → Database → Prop} {level : IsolationLevel}
    {rows rows' : List Row} (h : ∀ conn stmt σ, guard conn stmt σ → guard' conn stmt σ)
    (rescan : Rescan guard level conn x oid rows rows' σ₁ σ₂) :
    Rescan guard' level conn x oid rows rows' σ₁ σ₂ where
  inside := rescan.inside
  levels := rescan.levels
  guards := ⟨h _ _ _ rescan.guards.1, h _ _ _ rescan.guards.2⟩
  first := by
    rcases rescan.first with ⟨fuel, σ₁', first, run⟩
    exact ⟨fuel, σ₁', first, run.mono h⟩
  second := rescan.second
  unwritten := rescan.unwritten

/-! ## Repeatable reads -/

/-- A statement that deletes no version whose deleter has ended. -/
structure Sparing (conn : Nat) (stmt : Statement) (σ : Database) : Prop extends Numbered conn σ where
  spares : Spares conn stmt σ

/-- A transaction that reads by its snapshot reads the same again. -/
theorem repeatableReads {rows rows' : List Row} (started : Started σ₀)
    (run : Run (fun conn _ => Numbered conn) σ₀ σ₁)
    (rescan : Rescan Sparing .repeatableRead conn x oid rows rows' σ₁ σ₂) : rows' = rows := by
  apply rescan.rows_eq started run (sparing_clean (fun _ _ => True) fun _ => True) nofun
    (fun _ => trivial) fun _ _ _ h => h.toNumbered
  intro conn stmt σ _ inv h
  exact permits_sparing inv h.toNumbered h.spares fun _ _ _ _ _ => trivial

/-- What can be evaluated of `Sparing`. -/
def SparesEvidently (conn : Nat) (stmt : Statement) (σ : Database) : Prop :=
  Numbered conn σ ∧ (levelOf σ conn ≠ .repeatableRead ∨ stmt.deletes.isNone)

instance : Decidable (SparesEvidently conn stmt σ) := inferInstanceAs (Decidable (_ ∧ _))

theorem SparesEvidently.sparing (h : SparesEvidently conn stmt σ) : Sparing conn stmt σ where
  toNumbered := h.1
  spares := by
    rcases h.2 with hlevel | hdeletes
    · exact spares_of_level hlevel
    · exact spares_of_deletes (Option.isNone_iff_eq_none.mp hdeletes)

/-- Transaction 3 does not see an update that is committed between its scans. -/
theorem repeatableReads_update :
    ∃ σ₁ σ₂ rows', Run (fun conn _ => Numbered conn) (oneTable 1 10001) σ₁ ∧
      Rescan Sparing .repeatableRead 2 3 10001 [[1]] rows' σ₁ σ₂ ∧ rows' = [[1]] := by
  have hserve : ∃ rows', (serveWhere (fun conn _ => Numbered conn) 20
      [(1, insertRows 10001 [[1]]), (2, .setIsolationLevel .repeatableRead), (2, .begin)]
        (oneTable 1 10001)).bind (rescan? SparesEvidently .repeatableRead 20 2 3 10001
          [(1, updateAll 10001 [2])]) = some ([[1]], rows') := ⟨[[1]], by decide +kernel⟩
  rcases hserve with ⟨rows', hserve⟩
  rcases rescan_of_serve hserve with ⟨σ₁, σ₂, run, rescan⟩
  have rescan' := rescan.mono fun _ _ _ h => h.sparing
  exact ⟨σ₁, σ₂, rows', run, rescan',
    repeatableReads (started_oneTable 10001 (by decide)) run rescan'⟩

/-- Transaction 6 sees a row again that had been deleted, when transaction 3 deletes it, too. -/
theorem unrepeatableRead :
    ∃ σ₁ σ₂, Run (fun _ _ _ => True) (oneTable 1 10001) σ₁ ∧
      Rescan (fun _ _ _ => True) .repeatableRead 3 6 10001 [] [[1]] σ₁ σ₂ := by
  have hserve : (serveWhere (fun _ _ _ => True) 20
      [(1, insertRows 10001 [[1]]), (2, .setIsolationLevel .repeatableRead), (2, .begin),
        (1, deleteRows 10001 [1]), (3, .setIsolationLevel .repeatableRead), (3, .begin)]
        (oneTable 1 10001)).bind (rescan? (fun _ _ _ => True) .repeatableRead 20 3 6 10001
          [(2, deleteRows 10001 [1])]) = some ([], [[1]]) := by decide +kernel
  exact rescan_of_serve hserve

/-! ## Reads of the current state -/

/-- The statement commits no transaction that wrote to the table. -/
structure CommitsElsewhere (oid conn : Nat) (stmt : Statement) (σ : Database) : Prop where
  target : σ.xids.find? conn = none ∨ conn ∈ σ.autoTransactionSet → stmt.target ≠ some oid
  undo : conn ∈ σ.autoTransactionSet ∨ stmt.isCommit → ∀ x ∈ σ.xids.find? conn,
    ∀ e ∈ σ.mvcc.undo x, tableOf e ≠ oid

/-- A statement that neither deletes a version whose deleter has ended nor commits a write
to the table. -/
structure Undisturbing (oid conn : Nat) (stmt : Statement) (σ : Database) : Prop
    extends Sparing conn stmt σ where
  commits : CommitsElsewhere oid conn stmt σ

theorem commitsElsewhere_entered (regular : Regular conn σ) (h : CommitsElsewhere oid conn stmt σ)
    {entries : List (Mvcc.Entry Nat Rid)} (hconn : (entered conn stmt σ).xids.find? conn = some x)
    (hcommits : conn ∈ (entered conn stmt σ).autoTransactionSet ∨ stmt = .commit)
    (hentries : ∀ e ∈ entries, stmt.target = some (tableOf e)) :
    ∀ e ∈ entries ++ (entered conn stmt σ).mvcc.undo x, tableOf e ≠ oid := by
  intro e he heq
  have hcommit : stmt = .commit → stmt.isCommit := fun h => h ▸ rfl
  rcases entered_cases conn stmt σ with hsame | ⟨hnone, hbegun⟩
  · rw [hsame] at hconn hcommits he
    rcases List.mem_append.mp he with hnew | hold
    · have htarget := heq ▸ hentries e hnew
      rcases hcommits with hauto | rfl
      · exact h.target (.inr hauto) htarget
      · cases htarget
    · exact h.undo (hcommits.imp_right hcommit) x hconn e hold heq
  · rw [hbegun] at hconn he
    cases eq_nextXid_of_begun hconn
    have hundo : (begun conn σ).mvcc.undo σ.txn.nextXid = [] := by
      rw [mvcc_begun (regular.next hnone)]
      exact Function.update_self _ _ _
    have hnew : e ∈ entries ++ (begun conn σ).mvcc.undo σ.txn.nextXid := he
    rw [hundo, List.append_nil] at hnew
    exact h.target (.inl hnone) (heq ▸ hentries e hnew)

/-- A transaction that reads the current state reads the same again, if nobody commits a
write in between. -/
theorem serializableReads {rows rows' : List Row} (started : Started σ₀)
    (run : Run (fun conn _ => Numbered conn) σ₀ σ₁)
    (rescan : Rescan (Undisturbing oid) .serializable conn x oid rows rows' σ₁ σ₂) :
    rows' = rows := by
  have quiet : (sparing (fun _ entries => ∀ e ∈ entries, tableOf e ≠ oid) fun _ => True).Quiet oid :=
    fun _ _ hcommit _ => ⟨fun h => hcommit _ h rfl, fun h => hcommit _ h rfl⟩
  apply rescan.rows_eq started run (sparing_clean _ _) (fun _ => quiet) (fun _ => trivial)
    fun _ _ _ h => h.toNumbered
  intro conn stmt σ _ inv h
  exact permits_sparing inv h.toNumbered h.spares fun _ _ hconn hcommits hentries =>
    commitsElsewhere_entered h.toRegular h.commits hconn hcommits hentries

/-- What can be evaluated of `Undisturbing`. -/
def UndisturbingEvidently (oid conn : Nat) (stmt : Statement) (σ : Database) : Prop :=
  SparesEvidently conn stmt σ ∧
    (σ.xids.find? conn = none ∨ conn ∈ σ.autoTransactionSet → stmt.target ≠ some oid) ∧
    (conn ∈ σ.autoTransactionSet ∨ stmt.isCommit → ∀ x ∈ σ.xids.find? conn,
      ∀ e ∈ σ.mvcc.undo x, tableOf e ≠ oid)

instance : Decidable (UndisturbingEvidently oid conn stmt σ) := inferInstanceAs (Decidable (_ ∧ _ ∧ _))

/-- Transaction 3 does not see an update that has not been committed. -/
theorem serializableReads_update :
    ∃ σ₁ σ₂ rows', Run (fun conn _ => Numbered conn) (oneTable 1 10001) σ₁ ∧
      Rescan (Undisturbing 10001) .serializable 2 3 10001 [[1]] rows' σ₁ σ₂ ∧ rows' = [[1]] := by
  have hserve : ∃ rows', (serveWhere (fun conn _ => Numbered conn) 20
      [(1, insertRows 10001 [[1]]), (2, .setIsolationLevel .serializable), (2, .begin)]
        (oneTable 1 10001)).bind (rescan? (UndisturbingEvidently 10001) .serializable 20 2 3 10001
          [(1, .begin), (1, updateAll 10001 [2])]) = some ([[1]], rows') :=
    ⟨[[1]], by decide +kernel⟩
  rcases hserve with ⟨rows', hserve⟩
  rcases rescan_of_serve hserve with ⟨σ₁, σ₂, run, rescan⟩
  have rescan' : Rescan (Undisturbing 10001) .serializable 2 3 10001 [[1]] rows' σ₁ σ₂ :=
    rescan.mono fun _ _ _ h => ⟨h.1.sparing, h.2.1, h.2.2⟩
  exact ⟨σ₁, σ₂, rows', run, rescan',
    serializableReads (started_oneTable 10001 (by decide)) run rescan'⟩

/-- An update by transaction 4 is seen once it is committed. -/
theorem unserializableRead :
    ∃ σ₁ σ₂, Run (fun _ _ _ => True) (oneTable 1 10001) σ₁ ∧
      Rescan (fun _ _ _ => True) .serializable 2 3 10001 [[1]] [[2]] σ₁ σ₂ := by
  have hserve : (serveWhere (fun _ _ _ => True) 20
      [(1, insertRows 10001 [[1]]), (2, .setIsolationLevel .serializable), (2, .begin)]
        (oneTable 1 10001)).bind (rescan? (fun _ _ _ => True) .serializable 20 2 3 10001
          [(1, updateAll 10001 [2])]) = some ([[1]], [[2]]) := by decide +kernel
  exact rescan_of_serve hserve

end Sql

end HuaDB
