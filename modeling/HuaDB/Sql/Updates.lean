import HuaDB.Lib.MvccCounts
import HuaDB.Sql.Rules
import HuaDB.Sql.Snapshots

/-!
What a workload of UPDATEs leaves of each table.

A query that deletes and inserts rows in pairs keeps the `Levels`, and so does one that
fails in an automatic transaction, which is rolled back; a run of such statements of
transactions that read by snapshots keeps them (`Run.steady`).
-/

namespace HuaDB

def Statement.isQuery : Statement → Bool
  | .query _ => true
  | _ => false

/-- The statement writes by no INSERT or DELETE. -/
def Statement.onlyUpdates : Statement → Bool
  | .query (.ok (.insert _ _ _)) | .query (.ok (.delete _ _)) => false
  | _ => true

namespace Sql

open EStateM

variable {σ σ₀ σ₁ σ' : Database} {conn x oid base : Nat} {stmt : Statement} {n : Nat → Nat}

/-! ## What a query leaves of each table -/

/-- For each table, the rows of the transactions from `base` on replace one another. -/
def Levels (base : Nat) (n : Nat → Nat) (except : Set Nat) (σ : Database) : Prop :=
  ∀ oid, Mvcc.Level base (n oid) except (σ.mvcc.versions oid)

/-- No table has come to its last page number, whose rows no scan comes to. -/
def PagesFree (σ : Database) : Prop := ∀ entry ∈ σ.tables, σ.pages ⟨entry.1, nullPageId⟩ = none

theorem PagesFree.page (free : PagesFree σ) (ok : σ.PagesOk) (oid : Nat) :
    (σ.heap oid).page nullPageId = none := by
  cases hpage : (σ.heap oid).page nullPageId with
  | none => rfl
  | some page =>
      rcases Option.isSome_iff_exists.mp (ok.table oid nullPageId page hpage) with ⟨table, htable⟩
      exact hpage.symm.trans (free _ (Assoc.mem_of_find? htable))

theorem xmax_deleting (hx : x ≠ nullXid) {gone : List Tuple} {t : Tuple} (ht : t ∈ gone) :
    (versionOf (deleting x gone t)).xmax = some x := by
  rw [deleting, if_pos ht, TablePage.rewrite, if_pos rfl]
  exact if_neg hx

theorem xmin_deleting (x : Nat) (gone : List Tuple) (t : Tuple) :
    (versionOf (deleting x gone t)).xmin = (versionOf t).xmin := by
  rw [deleting]
  split
  · rw [TablePage.rewrite, if_pos rfl]
    rfl
  · rfl

section Writes

variable {P : Mvcc.Policy Nat Rid Row} {context : ExecutorContext} {gone new : List Tuple}
  (writes : Writes P context oid σ₀ σ gone new) (inv : Mvcc.Inv σ₀.mvcc) (sound : Sound σ₀)
  (active : context.xid ∈ σ₀.mvcc.active)
include writes inv sound active

/-- What is deleted had no deleter. -/
theorem Writes.xmax_eq_none (clean : P.Clean) {t : Tuple} (ht : t ∈ gone) :
    (versionOf t).xmax = none := by
  rcases writes.deleted t ht with ⟨hmem, visible⟩
  have hx : context.xid ≠ nullXid := Nat.ne_of_lt (sound.txn.lt_nullXid active)
  have inv' := inv.steps writes.steps
  have hmem' : deleting context.xid gone t ∈ σ.rows oid :=
    writes.rows.mem_iff.mpr (List.mem_append_left _ (List.mem_map_of_mem hmem))
  -- the version has one deleter afterwards
  have hself : ∀ v ∈ σ.mvcc.versions oid, ∀ d, v.id = t.rid → v.xmax = some d →
      d = context.xid := by
    intro v hv d hid hd
    have hid' : v.id = (versionOf (deleting context.xid gone t)).id :=
      hid.trans (rid_deleting context.xid gone t).symm
    cases inv'.eq_of_id hv (List.mem_map_of_mem hmem') hid'
    rw [xmax_deleting hx ht] at hd
    exact (Option.some.inj hd).symm
  cases hxmax : (versionOf t).xmax with
  | none => rfl
  | some d =>
      have hne : d ≠ context.xid := by
        rintro rfl
        apply visible.xmax_ne sound active
        simp only [versionOf] at hxmax
        split at hxmax
        · cases hxmax
        · exact Option.some.inj hxmax
      by_cases hd : d ∈ σ₀.mvcc.active
      · have hundo := inv.undo_of_xmax oid _ (List.mem_map_of_mem hmem) d hd hxmax
        have hsame : σ.mvcc.undo d = σ₀.mvcc.undo d := by
          simp only [Database.mvcc, writes.att d hne]
        rw [← hsame] at hundo
        rcases inv'.xmax_of_undo d oid _ hundo with ⟨v, hv, hid, hvd, -⟩
        exact absurd (hself v hv d hid hvd) hne
      · rcases Mvcc.steps_kept clean inv writes.steps oid _ (List.mem_map_of_mem hmem) d hxmax hd with
          ⟨v, hv, hid, hvd⟩
        exact absurd (hself v hv d hid hvd) hne

theorem Writes.stamps (clean : P.Clean) :
    Mvcc.Stamps context.xid (fun t => decide (t ∈ gone)) versionOf
      (versionOf ∘ deleting context.xid gone) (σ₀.rows oid) where
  xmin t _ := xmin_deleting _ _ t
  goes t _ ht := by
    have ht := of_decide_eq_true ht
    have hx : context.xid ≠ nullXid := Nat.ne_of_lt (sound.txn.lt_nullXid active)
    exact ⟨writes.xmax_eq_none inv sound active clean ht, xmax_deleting hx ht⟩
  stays t _ ht := by
    have ht : t ∉ gone := by simpa using ht
    rw [Function.comp_apply, deleting, if_neg ht]

omit inv sound active in
theorem Writes.countP_gone : (σ₀.rows oid).countP (fun t => decide (t ∈ gone)) = gone.length := by
  have hnodup : (σ₀.rows oid).Nodup := by
    have hrids := writes.nodup_rids
    exact (List.nodup_append.mp hrids).1.of_map
  have hperm : ((σ₀.rows oid).filter fun t => decide (t ∈ gone)).Perm gone := by
    apply (List.perm_ext_iff_of_nodup (hnodup.filter _) writes.nodup).mpr
    intro t
    rw [List.mem_filter, decide_eq_true_iff]
    exact ⟨And.right, fun ht => ⟨(writes.deleted t ht).1, ht⟩⟩
  rw [List.countP_eq_length_filter]
  exact hperm.length_eq

/-- Other transactions are not concerned, nor is this one if it puts a row in the place of
each that it deletes. -/
theorem Writes.levels (clean : P.Clean) (hbase : base ≤ context.xid) (levels : Levels base n ∅ σ₀) :
    Levels base n {context.xid} σ ∧ (gone.length = (kept new).length → Levels base n ∅ σ) := by
  have stamps := writes.stamps inv sound active clean
  have hnew : ∀ v ∈ (kept new).map versionOf, v.xmin = context.xid ∧ v.xmax = none := by
    intro v hv
    rcases List.mem_map.mp hv with ⟨t, ht, rfl⟩
    rcases writes.inserted t (List.mem_of_mem_filter ht) with ⟨hxmin, -, hxmax⟩
    exact ⟨hxmin, if_pos hxmax⟩
  have hperm : (σ.mvcc.versions oid).Perm
      ((σ₀.rows oid).map (versionOf ∘ deleting context.xid gone) ++ (kept new).map versionOf) := by
    have h := writes.rows.map versionOf
    rw [List.map_append, List.map_map] at h
    exact h
  have hothers : ∀ o, o ≠ oid → σ.mvcc.versions o = σ₀.mvcc.versions o := by
    intro o ho
    simp only [Database.mvcc, rows_congr (writes.others o ho)]
  constructor
  · intro o
    by_cases ho : o = oid
    · subst ho
      exact stamps.level_except hnew hbase (levels o) hperm
    · rw [hothers o ho]
      exact (levels o).mono (Set.empty_subset _)
  · intro hlength o
    by_cases ho : o = oid
    · subst ho
      apply stamps.balanced hnew hbase (levels o) hperm
      rw [writes.countP_gone, hlength, List.length_map]
    · rw [hothers o ho]
      exact levels o

end Writes

theorem kept_of_stored {new : List Tuple} (free : PagesFree σ) (ok : σ.PagesOk)
    (stored : Stored oid new σ) : kept new = new := by
  apply List.filter_eq_self.mpr
  intro t ht
  apply decide_eq_true
  intro hnull
  have hsome := stored t ht
  rw [hnull, free.page ok oid] at hsome
  cases hsome

/-! ## Workloads of UPDATEs -/

/-- Transactions that read by snapshots delete versions whose deleter goes on. -/
def replacing : Mvcc.Policy Nat Rid Row where
  delete mode A v := mode = .snapshot ∧ ∀ d, v.xmax = some d → d ∈ A
  commit _ _ := True
  counts _ := True

/-- A statement of a transaction that reads by its snapshot. -/
def BySnapshot (conn : Nat) (stmt : Statement) (σ : Database) : Prop :=
  stmt.isQuery → levelOf σ conn = .repeatableRead

/-- A statement of a workload of UPDATEs, none of which deletes a version whose deleter has
ended or fails between the two halves of its work in a transaction that goes on. -/
structure Updates (conn : Nat) (stmt : Statement) (σ : Database) : Prop extends Sparing conn stmt σ where
  level : BySnapshot conn stmt σ
  update : stmt.onlyUpdates
  small : ∀ x oid predicate exprs, stmt = .query (.ok (.update oid predicate exprs)) →
    σ.xids.find? conn = some x → conn ∉ σ.autoTransactionSet →
      ∀ t ∈ σ.rows oid, Wanted σ (contextOf σ conn x) predicate t → ¬ Oversize exprs t
  free : PagesFree σ

theorem Updates.permits (updates : Updates conn stmt σ) (inv : Mvcc.Inv σ.mvcc) :
    Permits replacing conn stmt (entered conn stmt σ) where
  counts _ hconn _ := cid_entered updates.toNumbered hconn
  deletes y oid predicate hconn hdeletes t ht wanted := by
    refine ⟨?_, spares_entered inv updates.toRegular updates.spares y oid predicate hconn hdeletes
      t ht wanted⟩
    have hquery : stmt.isQuery := by
      cases stmt with
      | query => rfl
      | unbound | begin | commit | rollback | checkpoint | lock | setIsolationLevel | ddl | utility =>
          cases hdeletes
    have hlevel := updates.level hquery
    simp only [contextOf, isolationLevels_entered]
    rw [show (σ.isolationLevels.find? conn).getD .readCommitted = .repeatableRead from hlevel]
    rfl
  commits _ _ _ _ _ := trivial

/-- What a statement of `x` leaves that throws. -/
def Throws (base : Nat) (n : Nat → Nat) (conn x : Nat) (σ : Database) (e : SqlError) (σ' : Database) :
    Prop :=
  ∀ ex, e = .thrown ex → PagesKept σ' →
    Leads replacing σ σ' ∧ (conn ∈ σ'.autoTransactionSet → σ'.xids.find? conn = some x) ∧
      Levels base n {x} σ' ∧
      (PagesFree σ' → Levels base n ∅ σ' ∨
        (∃ message, ex = .dbException message) ∧ conn ∈ σ'.autoTransactionSet)

theorem Levels.except (levels : Levels base n ∅ σ) (x : Nat) : Levels base n {x} σ :=
  fun oid => (levels oid).mono (Set.empty_subset _)

theorem replacing_clean : replacing.Clean := fun _ _ _ h => h.2

theorem replacing_snapshot (mode : Mvcc.Mode) (A : Set Nat) (v : Mvcc.Version Rid Row)
    (h : replacing.delete mode A v) : mode = .snapshot := h.1

section Query

variable (sound : Sound σ) (inv : Mvcc.Inv σ.mvcc) (hconn : σ.xids.find? conn = some x)
  (hbase : base ≤ x) (levels : Levels base n ∅ σ)
include hconn

theorem Dispatched.throws (dispatched : Dispatched replacing stmt x σ σ')
    (hexcept : Levels base n {x} σ') {e : SqlError}
    (hlevels : ∀ ex, e = .thrown ex → PagesFree σ' → Levels base n ∅ σ' ∨
      (∃ message, ex = .dbException message) ∧ conn ∈ σ'.autoTransactionSet) :
    Throws base n conn x σ e σ' := by
  intro ex hex _
  refine ⟨dispatched.toLeads, fun _ => ?_, hexcept, hlevels ex hex⟩
  rw [dispatched.xids]
  exact hconn

include sound inv hbase levels

/-- What a query writes that deletes and inserts in pairs. -/
theorem levels_of_writes (query : Query) {c : Nat} (up : σ.mvcc.cid x < c) {gone new : List Tuple}
    (htarget : query.target ≠ some oid → gone = [] ∧ new = [])
    (writes : Writes replacing (contextOf σ conn x) oid (numbered x c σ) σ' gone new) :
    Dispatched replacing (.query (.ok query)) x σ σ' ∧ Levels base n {x} σ' ∧
      (gone.length = (kept new).length → Levels base n ∅ σ') := by
  have active := sound.txn.active_of_conn hconn
  have hcount : Mvcc.Step replacing σ.mvcc (numbered x c σ).mvcc := by
    rw [mvcc_numbered active]
    exact .count active fun _ => up
  have executed : Executed replacing (contextOf σ conn x) query (numbered x c σ) σ' :=
    ⟨oid, gone, new, writes, htarget⟩
  have hwrites := writes.levels (inv.step hcount) (sound_numbered sound active c)
    ((mem_active_numbered active).mpr active) replacing_clean hbase levels
  exact ⟨executed.dispatched sound hconn fun _ => up, hwrites.1, hwrites.2⟩

theorem query_levels (fuel : Nat) {planned : Except Exception Query}
    (permits : Permits replacing conn (.query planned) σ)
    (update : (Statement.query planned).onlyUpdates)
    (small : ∀ oid predicate exprs, planned = .ok (.update oid predicate exprs) →
      conn ∉ σ.autoTransactionSet → ∀ t ∈ σ.rows oid,
        Wanted σ (contextOf σ conn x) predicate t → ¬ Oversize exprs t) :
    Ends σ (DatabaseEngine.query conn fuel planned)
      (fun _ σ' => Dispatched replacing (.query planned) x σ σ' ∧
        (PagesFree σ' → Levels base n ∅ σ'))
      (Throws base n conn x σ) := by
  have active := sound.txn.active_of_conn hconn
  have hsame : Dispatched replacing (.query planned) x σ σ := (Reads.refl σ).dispatched sound _ x
  cases planned with
  | error e =>
      have hthrows := hsame.throws hconn (e := .thrown e) (levels.except x) fun _ _ _ => .inl levels
      exact .bind_of_error rfl hthrows
  | ok query =>
      have permitted := permits.query sound hconn
      have up := permits.up hconn trivial
      have sound₀ := sound_numbered sound active ((σ.mvcc.cid x + 1) % 2 ^ 32)
      apply Ends.bind_of_ok rfl
      apply Ends.get_bind
      apply Ends.bind_of_ok (xidOf_eq hconn)
      apply Ends.bind_of_ok (getCidAndIncrement_eq active)
      cases query with
      | select plan =>
          have hreads : ∀ σ', Reads (numbered x ((σ.mvcc.cid x + 1) % 2 ^ 32) σ) σ' →
              Dispatched replacing (.query (.ok (.select plan))) x σ σ' ∧ Levels base n ∅ σ' := by
            intro σ' reads
            have h := levels_of_writes sound inv hconn hbase levels (.select plan) up
              (fun _ => ⟨rfl, rfl⟩)
              ((Writes.refl replacing (contextOf σ conn x) 0 sound₀).reads reads)
            exact ⟨h.1, h.2.2 rfl⟩
          apply (select_ends fuel sound₀ permitted.active plan).mono
          · exact fun _ σ' h => ⟨(hreads σ' h.1).1, fun _ => (hreads σ' h.1).2⟩
          · rintro e σ' ⟨reads, -⟩
            rcases hreads σ' reads with ⟨dispatched, hlevels⟩
            exact dispatched.throws hconn (hlevels.except x) fun _ _ _ => .inl hlevels
      | update oid predicate exprs =>
          apply (update_ends fuel sound₀ permitted.active permitted.counts
            (permitted.deletes oid predicate rfl) exprs).mono
          · rintro _ σ' ⟨done, new, -, writes, stored, supplies, -⟩
            have h := levels_of_writes sound inv hconn hbase levels (.update oid predicate exprs) up
              (fun h => absurd rfl h) writes
            refine ⟨h.1, fun free => h.2.2 ?_⟩
            rw [kept_of_stored free writes.sound.pages stored]
            exact List.Forall₂.length_eq supplies
          · rintro e σ' ⟨hthrown, -⟩ ex hex
            rcases hthrown ex hex with ⟨gone, new, writes, stored, paired⟩
            have h := levels_of_writes sound inv hconn hbase levels (.update oid predicate exprs) up
              (fun h => absurd rfl h) writes
            apply h.1.throws hconn h.2.1 _ ex hex
            intro ex' hex' free
            cases hex.symm.trans hex'
            rcases paired with hlength | ⟨hdb, t, ht, wanted, oversize⟩
            · apply Or.inl
              apply h.2.2
              rw [kept_of_stored free writes.sound.pages stored]
              exact hlength
            · refine .inr ⟨hdb, ?_⟩
              rw [h.1.auto]
              by_contra hauto
              rw [Wanted, visible_numbered active] at wanted
              exact small oid predicate exprs rfl hauto t ht wanted oversize
      | insert | delete => cases update

end Query

/-! ## Statements -/

/-- A rollback takes back what its transaction did to the rows. -/
theorem rollback_levels (sound : Sound σ) (inv : Mvcc.Inv σ.mvcc) (hconn : σ.xids.find? conn = some x)
    (hbase : base ≤ x) (levels : Levels base n {x} σ) :
    Ends σ (DatabaseEngine.rollback conn)
      (fun _ σ' => PagesKept σ' → Leads replacing σ σ' ∧ Levels base n ∅ σ')
      fun _ σ' => ¬ PagesKept σ' := by
  have active := sound.txn.active_of_conn hconn
  apply (rollback_ends sound inv hconn).mono
  · rintro _ σ' (hundone | rolledBack) kept
    · exact absurd hundone kept
    · refine ⟨rolledBack.leads active, fun oid => ?_⟩
      rw [rolledBack.mvcc]
      exact (levels oid).rollback inv active hbase
  · exact fun _ _ hundone kept => kept hundone

section Catch

variable (inv : Mvcc.Inv σ.mvcc) (hbase : base ≤ x)
include inv hbase

theorem Throws.rollback {message : String}
    (throws : Throws base n conn x σ (.thrown (.dbException message)) σ₁)
    (hauto : conn ∈ σ₁.autoTransactionSet) :
    Ends σ₁ (DatabaseEngine.rollback conn)
      (fun _ σ' => PagesKept σ' → Leads replacing σ (outOfAuto conn σ') ∧
        Levels base n ∅ (outOfAuto conn σ'))
      fun _ σ' => ¬ PagesKept σ' := by
  by_cases kept : PagesKept σ₁
  · rcases throws _ rfl kept with ⟨leads, hconn, hexcept, -⟩
    apply (rollback_levels leads.sound (inv.steps leads.steps) (hconn hauto) hbase hexcept).mono
    · intro _ σ' h kept'
      rcases h kept' with ⟨leads', levels⟩
      exact ⟨(leads.trans leads').outOfAuto conn, levels⟩
    · exact fun _ _ => id
  · apply (rollback_events σ₁ conn).mono
    · exact fun _ _ hsub kept' => absurd (fun h => kept' (hsub h)) kept
    · exact fun _ _ hsub kept' => absurd (fun h => kept' (hsub h)) kept

/-- The inner `catch` clause, of queries. -/
theorem catches_throws : Catches conn (Throws base n conn x σ) (Throws base n conn x σ) where
  pass _ _ throws _ := throws
  rollback message σ₁ throws hauto := by
    apply (throws.rollback inv hbase hauto).mono
    · intro _ σ' h ex _ kept
      rcases h kept with ⟨leads, levels⟩
      refine ⟨leads, fun hmem => ?_, levels.except x, fun _ => .inl levels⟩
      exact absurd hmem (not_mem_outOfAuto conn σ')
    · exact fun _ _ h _ _ kept => absurd kept h

/-- What is left of a statement that throws. -/
def Restores (base : Nat) (n : Nat → Nat) (e : SqlError) (σ' : Database) : Prop :=
  ∀ ex, e = .thrown ex → PagesKept σ' → PagesFree σ' → Levels base n ∅ σ'

/-- The outer one. -/
theorem catches_restores : Catches conn (Throws base n conn x σ) (Restores base n) where
  pass e σ' throws hpass ex hex kept free := by
    rcases (throws ex hex kept).2.2.2 free with levels | ⟨⟨message, hmessage⟩, hauto⟩
    · exact levels
    · exact absurd hauto (hpass message (hmessage ▸ hex))
  rollback message σ₁ throws hauto := by
    apply (throws.rollback inv hbase hauto).mono
    · exact fun _ _ h _ _ kept _ => (h kept).2
    · exact fun _ _ h _ _ kept => absurd kept h

end Catch

/-- What leaves the rows and the connections alone. -/
structure Untouched (σ σ' : Database) : Prop where
  versions : σ'.mvcc.versions = σ.mvcc.versions
  xids : σ'.xids = σ.xids

theorem Reads.untouched (reads : Reads σ σ') : Untouched σ σ' where
  versions := funext fun oid => by simp only [Database.mvcc, rows_congr (reads.heap oid)]
  xids := by rw [reads.frame]

theorem Untouched.levels (untouched : Untouched σ σ') (levels : Levels base n ∅ σ) :
    Levels base n ∅ σ' := by
  intro oid
  rw [untouched.versions]
  exact levels oid

theorem dispatch_untouched (fuel : Nat) (hquery : stmt.isQuery = false)
    (hconn : σ.xids.find? conn = some x) :
    Ends σ (DatabaseEngine.dispatch conn fuel stmt) (fun _ σ' => Untouched σ σ')
      fun e σ' => ∀ ex, e = .thrown ex → Untouched σ σ' := by
  have hsame : Untouched σ σ := ⟨rfl, rfl⟩
  have hevaluate : ∀ outcome : Except Exception Unit,
      Ends σ (do evaluate outcome; return .rows [] : Sql QueryResult) (fun _ σ' => Untouched σ σ')
        fun e σ' => ∀ ex, e = .thrown ex → Untouched σ σ' := by
    rintro (e | -)
    · exact .bind_of_error rfl fun _ _ => hsame
    · exact .bind_of_ok rfl (.pure hsame)
  cases stmt with
  | unbound | begin | commit | rollback | checkpoint => exact .pure hsame
  | lock lockType oid =>
      apply Ends.bind ((lock_ends hconn lockType oid).mono (fun _ _ => id) _)
      · exact fun _ σ₁ reads => .pure reads.untouched
      · exact fun _ _ h ex hex => (h ex hex).untouched
  | setIsolationLevel level => exact .bind_of_ok (modify_apply _ _) (.pure ⟨rfl, rfl⟩)
  | ddl outcome =>
      apply Ends.get_bind
      split
      · exact .bind_of_error rfl fun _ _ => hsame
      · exact hevaluate outcome
  | utility outcome => exact hevaluate outcome
  | query => cases hquery

/-- What is kept in a workload of UPDATEs that started when no transaction went on: `base`
was the next transaction, and table `oid` had `n oid` rows. -/
structure Steady (base : Nat) (n : Nat → Nat) (σ : Database) : Prop where
  sound : Sound σ
  inv : Mvcc.Inv σ.mvcc
  counted : Mvcc.Counted replacing σ.mvcc
  order : Mvcc.InOrder base σ.mvcc
  levels : Levels base n ∅ σ

theorem Steady.leads (steady : Steady base n σ) (leads : Leads replacing σ σ')
    (levels : Levels base n ∅ σ') : Steady base n σ' where
  sound := leads.sound
  inv := steady.inv.steps leads.steps
  counted := Mvcc.steps_counted steady.inv steady.counted leads.steps
  order := Mvcc.steps_inOrder replacing_snapshot steady.inv steady.order leads.steps
  levels := levels

theorem versions_entered (conn : Nat) (stmt : Statement) (σ : Database) :
    (entered conn stmt σ).mvcc.versions = σ.mvcc.versions := by
  rw [entered]
  split <;> rfl

section Statement

variable (steady : Steady base n σ) (updates : Updates conn stmt σ)
include steady updates

theorem Steady.entered : Steady base n (entered conn stmt σ) := by
  apply steady.leads (leads_entered steady.sound updates.next replacing stmt)
  intro oid
  rw [versions_entered]
  exact steady.levels oid

theorem dispatch_levels (fuel : Nat) (hconn : (Sql.entered conn stmt σ).xids.find? conn = some x) :
    Ends (Sql.entered conn stmt σ) (DatabaseEngine.dispatch conn fuel stmt)
      (fun _ σ' => Dispatched replacing stmt x (Sql.entered conn stmt σ) σ' ∧
        (PagesFree σ' → Levels base n ∅ σ'))
      (Throws base n conn x (Sql.entered conn stmt σ)) := by
  have steadyₑ := steady.entered updates
  have hbase : base ≤ x := steadyₑ.order.active x (steadyₑ.sound.txn.active_of_conn hconn)
  have permits := updates.permits steady.inv
  cases hquery : stmt.isQuery with
  | true =>
      cases stmt with
      | unbound | begin | commit | rollback | checkpoint | lock | setIsolationLevel | ddl
        | utility => cases hquery
      | query planned =>
          apply guarded_rule (catches_throws steadyₑ.inv hbase)
          apply query_levels steadyₑ.sound steadyₑ.inv hconn hbase steadyₑ.levels fuel permits
            updates.update
          · rintro oid predicate exprs rfl hauto
            -- outside the automatic transactions nothing is started
            rcases entered_cases conn (.query (.ok (.update oid predicate exprs))) σ with hsame | ⟨-, hbegun⟩
            · rw [hsame] at hconn hauto ⊢
              exact updates.small x oid predicate exprs rfl hconn hauto
            · rw [hbegun] at hauto
              exact absurd List.mem_cons_self hauto
  | false =>
      have hdispatch := dispatch_ends steadyₑ.sound steadyₑ.inv hconn fuel permits
      apply (hdispatch.and (dispatch_untouched fuel hquery hconn)).mono
      · exact fun _ _ ⟨dispatched, untouched⟩ =>
          ⟨dispatched, fun _ => untouched.levels steadyₑ.levels⟩
      · rintro e σ' ⟨hfails, huntouched⟩ ex hex kept
        have levels := (huntouched ex hex).levels steadyₑ.levels
        refine ⟨hfails ex hex kept, fun _ => ?_, levels.except x, fun _ => .inl levels⟩
        rw [(huntouched ex hex).xids]
        exact hconn

/-- `DatabaseEngine::ExecuteSql`, in a workload of UPDATEs. -/
theorem executeSql_levels (fuel : Nat) :
    Ends σ (DatabaseEngine.executeSql conn fuel stmt)
      (fun _ σ' => PagesKept σ' → PagesFree σ' → Levels base n ∅ σ') (Restores base n) := by
  have levels := steady.levels
  have htransactional : transactional stmt = true →
      Ends σ (DatabaseEngine.executeInTransaction conn fuel stmt)
        (fun _ σ' => PagesKept σ' → PagesFree σ' → Levels base n ∅ σ') (Restores base n) := by
    intro htransactional
    rcases exists_conn_entered htransactional with ⟨x, hconn⟩
    have steadyₑ := steady.entered updates
    have hbase : base ≤ x := steadyₑ.order.active x (steadyₑ.sound.txn.active_of_conn hconn)
    apply executeInTransaction_rule (catches_restores steadyₑ.inv hbase) steady.sound htransactional
      (dispatch_levels steady updates fuel hconn)
    · rintro _ σ₁ ⟨dispatched, hlevels⟩ -
      have hconn₁ : σ₁.xids.find? conn = some x := dispatched.xids ▸ hconn
      apply Ends.of_eq_ok (commit_eq dispatched.sound.txn hconn₁)
      exact fun _ free => hlevels free
    · exact fun _ _ h _ _ free => h.2 free
  cases stmt with
  | unbound e => exact .throw fun _ _ _ _ => levels
  | checkpoint => exact .pure fun _ _ => levels
  | begin =>
      cases hconn : σ.xids.find? conn with
      | none => exact .bind_of_ok (begin_eq steady.sound hconn) (.pure fun _ _ => levels)
      | some x =>
          rcases begin_eq_error (Option.isSome_iff_exists.mpr ⟨x, hconn⟩) with ⟨message, herror⟩
          exact .bind_of_error herror fun _ _ _ _ => levels
  | commit =>
      cases hconn : σ.xids.find? conn with
      | none =>
          exact .bind_of_error (bind_of_error (xidOf_eq_error hconn)) fun _ _ _ _ => levels
      | some x =>
          exact .bind_of_ok (commit_eq steady.sound.txn hconn) (.pure fun _ _ => levels)
  | rollback =>
      cases hconn : σ.xids.find? conn with
      | none =>
          exact .bind_of_error (bind_of_error (xidOf_eq_error hconn)) fun _ _ _ _ => levels
      | some x =>
          have hbase := steady.order.active x (steady.sound.txn.active_of_conn hconn)
          apply Ends.bind ((rollback_levels steady.sound steady.inv hconn hbase
            (levels.except x)).mono (fun _ _ => id) fun _ _ h _ _ kept => absurd kept h)
          exact fun _ _ h => .pure fun kept _ => (h kept).2
  | lock | setIsolationLevel | ddl | utility | query => exact htransactional rfl

theorem Steady.settled {fuel : Nat}
    (h : Sql.settled (DatabaseEngine.executeSql conn fuel stmt σ) = some σ') (kept : PagesKept σ')
    (free : PagesFree σ') : Steady base n σ' := by
  apply steady.leads (settled_leads steady.sound updates.next steady.inv
    (updates.permits steady.inv) h kept)
  exact settled_of_ends (Q := fun σ' => PagesKept σ' → PagesFree σ' → Levels base n ∅ σ')
    (executeSql_levels steady updates fuel) h kept free

end Statement

theorem Run.steady (run : Run Updates σ₁ σ) (steady : Steady base n σ₁) (kept : PagesKept σ)
    (free : PagesFree σ) : Steady base n σ := by
  induction run with
  | refl => exact steady
  | step _ updates hsettled ih => exact (ih updates.kept updates.free).settled updates hsettled kept free

end Sql

end HuaDB
