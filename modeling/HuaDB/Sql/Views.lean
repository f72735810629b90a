import HuaDB.Lib.MvccViews
import HuaDB.Sql.Relational
import HuaDB.Sql.Updates

/-!
What queries do to the tables as their transaction finds them.

A plan hands on what it denotes on these tables (`items_denote`), and what a query deletes
and inserts shows in them (`Writes.changes`), so that a query that returns does what it
denotes, and changes nothing else (`executeQuery_acts`).
-/

namespace HuaDB

namespace Database

/-- The tables as transaction `x` sees them. -/
noncomputable def tablesOf (σ : Database) (mode : Mvcc.Mode) (x : Nat) : Tables :=
  fun oid => σ.mvcc.view mode x oid

noncomputable def session (σ : Database) (x : Nat) : Session where
  snapshot := σ.tablesOf .snapshot x
  current := σ.tablesOf .current x

theorem read_session (σ : Database) (x : Nat) (mode : Mvcc.Mode) :
    (σ.session x).read mode = σ.tablesOf mode x := by
  cases mode <;> rfl

end Database

namespace Sql

open EStateM

variable {σ₀ σ σ' : Database} {x oid : Nat} {context : ExecutorContext} {mode : Mvcc.Mode}

theorem session_eq (h : ∀ mode, σ'.tablesOf mode x = σ.tablesOf mode x) :
    σ'.session x = σ.session x := by
  apply Session.ext
  · exact h .snapshot
  · exact h .current

/-! ## Plans -/

/-- No row is one of the statement itself. -/
def Fresh (context : ExecutorContext) (σ : Database) : Prop :=
  ∀ oid, ∀ v ∈ σ.mvcc.versions oid, v.xmin = context.xid → v.cid ≠ context.cid

theorem visible_iff_sees (fresh : Fresh context σ) {t : Tuple} (ht : t ∈ σ.rows oid) :
    Visible σ context t ↔ σ.mvcc.Sees context.isolationLevel.mode context.xid (versionOf t) :=
  and_iff_right fun hcid hxmin => fresh oid _ (List.mem_map_of_mem ht) hxmin hcid

/-- The values of an item. -/
def Item.row (item : Item) : Except Exception Row := item.map fun tuple => tuple.record.data

theorem accept_row (predicate : Expression Bool) (item : Item) :
    ((accept predicate item).map Item.row : List (Except Exception Row)) =
      keepRow predicate item.row := by
  cases item with
  | error e => rfl
  | ok tuple =>
      simp only [accept, Item.row, Except.map, keepRow]
      cases predicate tuple.record.data with
      | error e => rfl
      | ok keeps => cases keeps <;> rfl

theorem project_row (exprs : Expression Row) (item : Item) :
    Item.row (project exprs item) = item.row.bind exprs := by
  cases item with
  | error e => rfl
  | ok tuple =>
      simp only [project, Item.row, Except.map, Except.bind]
      cases exprs tuple.record.data <;> rfl

open Classical in
/-- A scan hands on the rows that are seen. -/
theorem data_items_seqScan (fresh : Fresh context σ) :
    (items σ context (.seqScan oid)).map Item.row =
      (σ.mvcc.view context.isolationLevel.mode context.xid oid).map Except.ok := by
  have hitems : items σ context (.seqScan oid) =
      ((σ.rows oid).filter fun t => Visible σ context t).map Except.ok := rfl
  have hfilter : ((σ.rows oid).filter fun t => Visible σ context t) =
      (σ.rows oid).filter ((fun v => decide (σ.mvcc.Sees context.isolationLevel.mode context.xid v)) ∘
        versionOf) :=
    List.filter_congr fun t ht => decide_eq_decide.mpr (visible_iff_sees fresh ht)
  have hversions : σ.mvcc.versions oid = (σ.rows oid).map versionOf := rfl
  rw [hitems, hfilter, Mvcc.State.view, hversions, List.filter_map, List.map_map, List.map_map,
    List.map_map]
  rfl

/-- A plan hands on what it denotes on the tables as they are seen. -/
theorem items_denote (fresh : Fresh context σ) (plan : Plan) :
    ((items σ context plan).map Item.row : List (Except Exception Row)) =
      plan.denote (σ.tablesOf context.isolationLevel.mode context.xid) := by
  induction plan with
  | values rows =>
      have hitems : items σ context (.values rows) =
          List.map (Except.map fun data => { record := { data := data } }) rows := rfl
      rw [hitems, List.map_map]
      have hrow : (Item.row ∘ Except.map fun data => ({ record := { data := data } } : Tuple)) = id := by
        funext row
        cases row <;> rfl
      rw [hrow, List.map_id]
      rfl
  | seqScan oid =>
      rw [data_items_seqScan fresh]
      rfl
  | filter predicate child ih =>
      have hitems : items σ context (.filter predicate child) =
          (items σ context child).flatMap (accept predicate) := rfl
      rw [hitems, List.map_flatMap, Plan.denote, ← ih, ← Multiset.coe_bind, ← Multiset.map_coe,
        Multiset.bind_map]
      exact Multiset.bind_congr fun item _ => accept_row predicate item
  | projection exprs child ih =>
      have hitems : items σ context (.projection exprs child) =
          (items σ context child).map (project exprs) := rfl
      rw [hitems, List.map_map, Plan.denote, ← ih, Multiset.map_coe, List.map_map]
      exact congrArg _ (List.map_congr_left fun item _ => project_row exprs item)
  | lockRows _ _ _ ih => exact ih

/-! ## Writes -/

section Writes

variable {P : Mvcc.Policy Nat Rid Row} {gone new : List Tuple}
  (writes : Writes P context oid σ₀ σ gone new)
include writes

/-- The versions of the table that is written to. -/
theorem Writes.versions_perm : (σ.mvcc.versions oid).Perm
    ((σ₀.rows oid).map (versionOf ∘ deleting context.xid gone) ++ (kept new).map versionOf) := by
  have h := writes.rows.map versionOf
  rw [List.map_append, List.map_map] at h
  exact h

theorem Writes.versions_of_ne {o : Nat} (ho : o ≠ oid) :
    σ.mvcc.versions o = σ₀.mvcc.versions o := by
  simp only [Database.mvcc, rows_congr (writes.others o ho)]

variable (inv : Mvcc.Inv σ₀.mvcc) (sound : Sound σ₀) (active : context.xid ∈ σ₀.mvcc.active)
include inv sound active

theorem Writes.changes (clean : P.Clean) :
    Mvcc.Changes σ₀.mvcc σ.mvcc oid context.xid versionOf (versionOf ∘ deleting context.xid gone)
      (σ₀.rows oid) gone ((kept new).map versionOf) where
  active := writes.active
  snapshot := by
    rw [writes.frame]
    rfl
  own := active
  before := rfl
  after := writes.versions_perm
  data t _ := by
    rw [Function.comp_apply, deleting]
    split
    · rw [TablePage.rewrite, if_pos rfl]
      rfl
    · rfl
  xmin t _ := xmin_deleting _ _ t
  goes t ht := ⟨writes.xmax_eq_none inv sound active clean ht,
    xmax_deleting (Nat.ne_of_lt (sound.txn.lt_nullXid active)) ht⟩
  stays t _ ht := by rw [Function.comp_apply, deleting, if_neg ht]
  inserted v hv := by
    obtain ⟨t, ht, htv⟩ := List.mem_map.mp hv
    obtain ⟨hxmin, -, hxmax⟩ := writes.inserted t (List.mem_of_mem_filter ht)
    exact htv ▸ ⟨hxmin, if_pos hxmax⟩
  sub := fun t ht => (writes.deleted t ht).1
  nodup := ⟨(List.nodup_append.mp writes.nodup_rids).1.of_map, writes.nodup⟩

end Writes

/-! ## What is changed -/

/-- Of the tables, only what transaction `x` finds differs. -/
structure Private (x : Nat) (σ σ' : Database) : Prop where
  active : σ'.mvcc.active = σ.mvcc.active
  content : σ'.mvcc.content = σ.mvcc.content
  others : ∀ y ∈ σ.mvcc.active, y ≠ x → σ'.session y = σ.session y
  xids : σ'.xids = σ.xids
  auto : σ'.autoTransactionSet = σ.autoTransactionSet

namespace Private

theorem refl (x : Nat) (σ : Database) : Private x σ σ where
  active := rfl
  content := rfl
  others _ _ _ := rfl
  xids := rfl
  auto := rfl

theorem trans {σ'' : Database} (h : Private x σ σ') (h' : Private x σ' σ'') : Private x σ σ'' where
  active := h'.active.trans h.active
  content := h'.content.trans h.content
  others y hy hne := (h'.others y (h.active ▸ hy) hne).trans (h.others y hy hne)
  xids := h'.xids.trans h.xids
  auto := h'.auto.trans h.auto

end Private

/-- Versions, active transactions and snapshots make a table. -/
theorem table_congr (hversions : σ'.mvcc.versions oid = σ.mvcc.versions oid)
    (hactive : σ'.mvcc.active = σ.mvcc.active) (hsnapshot : σ'.mvcc.snapshot = σ.mvcc.snapshot) :
    σ'.mvcc.content oid = σ.mvcc.content oid ∧
      ∀ mode y, σ'.tablesOf mode y oid = σ.tablesOf mode y oid := by
  have hsettled : σ'.mvcc.Settled = σ.mvcc.Settled := by
    funext v
    simp only [Mvcc.State.Settled, hactive]
  constructor
  · rw [Mvcc.State.content, Mvcc.State.content, hversions, hsettled]
  · intro mode y
    have hsees : σ'.mvcc.Sees mode y = σ.mvcc.Sees mode y := by
      funext v
      cases mode with
      | snapshot => simp only [Mvcc.State.Sees, hsnapshot]
      | current => simp only [Mvcc.State.Sees, hactive]
    rw [Database.tablesOf, Database.tablesOf, Mvcc.coe_view, Mvcc.coe_view, hversions, hsees]

theorem private_of_versions (hversions : σ'.mvcc.versions = σ.mvcc.versions)
    (hactive : σ'.mvcc.active = σ.mvcc.active) (hsnapshot : σ'.mvcc.snapshot = σ.mvcc.snapshot)
    (hxids : σ'.xids = σ.xids) (hauto : σ'.autoTransactionSet = σ.autoTransactionSet) (x : Nat) :
    Private x σ σ' ∧ σ'.session x = σ.session x := by
  have hsame := fun o => table_congr (congrFun hversions o) hactive hsnapshot
  have hsession : ∀ y, σ'.session y = σ.session y :=
    fun y => session_eq fun mode => funext fun o => (hsame o).2 mode y
  exact ⟨⟨hactive, funext fun o => (hsame o).1, fun y _ _ => hsession y, hxids, hauto⟩, hsession x⟩

theorem Reads.versions (reads : Reads σ σ') : σ'.mvcc.versions = σ.mvcc.versions := by
  funext o
  simp only [Database.mvcc, rows_congr (reads.heap o)]

theorem Reads.keeps_session (reads : Reads σ σ') (x : Nat) :
    Private x σ σ' ∧ σ'.session x = σ.session x := by
  apply private_of_versions reads.versions reads.active
  · rw [reads.frame]
    rfl
  · rw [reads.frame]
  · rw [reads.frame]

/-! ## Queries -/

section Queries

variable (fuel : Nat) (sound : Sound σ₀) (inv : Mvcc.Inv σ₀.mvcc)
  (active : context.xid ∈ σ₀.mvcc.active) (fresh : Fresh context σ₀)

section Writes

variable {P : Mvcc.Policy Nat Rid Row} {gone new : List Tuple}
  (writes : Writes P context oid σ₀ σ gone new) (clean : P.Clean)
include writes

theorem Writes.snapshot : σ.mvcc.snapshot = σ₀.mvcc.snapshot := by
  rw [writes.frame]
  rfl

include sound inv active clean

/-- What deletes and inserts rows of a table. -/
theorem Writes.private : Private context.xid σ₀ σ := by
  have changes := writes.changes inv sound active clean
  constructor
  · exact writes.active
  · funext o
    by_cases ho : o = oid
    · subst ho
      exact changes.content
    · exact (table_congr (writes.versions_of_ne ho) writes.active writes.snapshot).1
  · intro y hy hne
    apply session_eq
    intro mode
    funext o
    by_cases ho : o = oid
    · subst ho
      exact changes.view_of_ne inv hy hne mode
    · exact (table_congr (writes.versions_of_ne ho) writes.active writes.snapshot).2 mode y
  · rw [writes.frame]
  · rw [writes.frame]

/-- Of the rows that were deleted, those are gone that were seen, and those that were
inserted are there. -/
theorem Writes.tablesOf (mode : Mvcc.Mode) :
    σ.tablesOf mode context.xid = (σ₀.tablesOf mode context.xid).apply
      ⟨oid, Mvcc.shown (σ₀.mvcc.Sees mode context.xid) (gone.map versionOf),
        ((kept new).map fun t => t.record.data : List Row)⟩ := by
  have changes := writes.changes inv sound active clean
  have hnew : ((kept new).map versionOf).map Mvcc.Version.data =
      (kept new).map fun t => t.record.data := List.map_map
  funext o
  rw [Tables.apply, Function.update_apply]
  by_cases ho : o = oid
  · subst ho
    rw [if_pos rfl, ← hnew]
    exact changes.view inv
  · rw [if_neg ho]
    exact (table_congr (writes.versions_of_ne ho) writes.active writes.snapshot).2 mode _

include fresh in
/-- What is deleted is there in the current state. -/
theorem Writes.sees_current {t : Tuple} (ht : t ∈ gone) :
    σ₀.mvcc.Sees .current context.xid (versionOf t) := by
  obtain ⟨hmem, visible⟩ := writes.deleted t ht
  have sees := (visible_iff_sees fresh hmem).mp visible
  cases hmode : context.isolationLevel.mode with
  | current => exact hmode ▸ sees
  | snapshot =>
      rw [hmode] at sees
      exact inv.sees_current active (writes.xmax_eq_none inv sound active clean ht) sees

include fresh in
/-- What has written `new` for the rows `gone`, on a table whose pages are not used up. -/
theorem Writes.makes (stored : Stored oid new σ) (free : PagesFree σ) :
    (σ₀.session context.xid).Makes context.isolationLevel.mode
      (some ⟨oid, (gone.map fun t => t.record.data : List Row),
        (new.map fun t => t.record.data : List Row)⟩) (σ.session context.xid) := by
  have changes := writes.changes inv sound active clean
  have hdata : (gone.map versionOf).map Mvcc.Version.data = gone.map fun t => t.record.data :=
    List.map_map
  have hshown : ∀ mode, (∀ t ∈ gone, σ₀.mvcc.Sees mode context.xid (versionOf t)) →
      Mvcc.shown (σ₀.mvcc.Sees mode context.xid) (gone.map versionOf) =
        (gone.map fun t => t.record.data : List Row) := by
    intro mode h
    rw [← hdata]
    exact Mvcc.shown_of_all (List.forall_mem_map.mpr h)
  have hsession : σ.session context.xid =
      ⟨(σ₀.tablesOf .snapshot context.xid).apply
          ⟨oid, Mvcc.shown (σ₀.mvcc.Sees .snapshot context.xid) (gone.map versionOf),
            (new.map fun t => t.record.data : List Row)⟩,
        (σ₀.tablesOf .current context.xid).apply
          ⟨oid, (gone.map fun t => t.record.data : List Row),
            (new.map fun t => t.record.data : List Row)⟩⟩ := by
    have htables := writes.tablesOf sound inv active clean
    rw [kept_of_stored free writes.sound.pages stored] at htables
    apply Session.ext
    · exact htables .snapshot
    · rw [← hshown .current fun t ht => writes.sees_current sound inv active fresh clean ht]
      exact htables .current
  rw [hsession]
  apply Session.Makes.some
  · rw [← hdata]
    exact Mvcc.shown_le _ _
  · exact changes.shown_gone_le .snapshot
  · intro hmode
    apply hshown
    intro t ht
    obtain ⟨hmem, visible⟩ := writes.deleted t ht
    exact hmode ▸ (visible_iff_sees fresh hmem).mp visible

end Writes

/-- What a query has done that returns, whose transaction reads by `mode`. -/
structure Acts (query : Query) (result : QueryResult) (x : Nat) (mode : Mvcc.Mode)
    (σ σ' : Database) : Prop where
  keeps : Private x σ σ'
  levels : σ'.isolationLevels = σ.isolationLevels
  denotes : PagesFree σ' → ∃ change, query.Denotes (σ.tablesOf mode x) result change ∧
    (σ.session x).Makes mode change (σ'.session x)

/-- What a statement leaves that fails. -/
structure Tears (stmt : Statement) (x : Nat) (σ σ' : Database) : Prop where
  keeps : Private x σ σ'
  levels : σ'.isolationLevels = σ.isolationLevels
  others : ∀ mode oid, stmt.target ≠ some oid → σ'.tablesOf mode x oid = σ.tablesOf mode x oid

include fresh in
/-- The items of a plan that throws nothing. -/
theorem denote_of_items {plan : Plan} {done : List Tuple}
    (hitems : items σ₀ context plan = done.map .ok) :
    plan.denote (σ₀.tablesOf context.isolationLevel.mode context.xid) =
      allOk (done.map fun t => t.record.data) := by
  rw [← items_denote fresh, hitems, allOk, List.map_map, List.map_map]
  rfl

theorem Supplies.map_eq {toRecord : Expression Row} {done new : List Tuple}
    (supplies : Supplies toRecord done new) :
    (done.map fun t => t.record.data).map toRecord = (new.map fun t => t.record.data).map .ok := by
  induction supplies with
  | nil => rfl
  | cons h _ ih =>
      rw [List.map_cons, List.map_cons, List.map_cons, List.map_cons, h, ih]

section Policy

variable {P : Mvcc.Policy Nat Rid Row} (clean : P.Clean)
include sound inv active clean

theorem Executed.tears {query : Query} (executed : Executed P context query σ₀ σ) :
    Tears (.query (.ok query)) context.xid σ₀ σ := by
  obtain ⟨oid, gone, new, writes, hnone⟩ := executed
  refine ⟨writes.private sound inv active clean, ?_, fun mode o ho => ?_⟩
  · rw [writes.frame]
  rw [writes.tablesOf sound inv active clean mode, Tables.apply, Function.update_apply]
  by_cases heq : o = oid
  · subst heq
    obtain ⟨rfl, rfl⟩ := hnone ho
    have hnone : Mvcc.shown (σ₀.mvcc.Sees mode context.xid) (([] : List Tuple).map versionOf) = 0 :=
      Mvcc.shown_of_none fun _ hv => absurd hv List.not_mem_nil
    rw [if_pos rfl, hnone, Multiset.sub_zero]
    exact Multiset.add_zero _
  · rw [if_neg heq]

variable (counts : P.counts context.xid → context.cid < σ₀.mvcc.cid context.xid)
include fresh counts

/-- A query that returns does what it denotes. -/
theorem executeQuery_denotes (query : Query)
    (permits : ∀ oid predicate, query.deletes = some (oid, predicate) →
      ∀ t ∈ σ₀.rows oid, Wanted σ₀ context predicate t →
        P.delete context.isolationLevel.mode σ₀.mvcc.active (versionOf t)) :
    Ends σ₀ (executeQuery context fuel query)
      (fun result σ' => Acts query result context.xid context.isolationLevel.mode σ₀ σ')
      fun _ _ => True := by
  have hcount : ∀ done : List Tuple, done.length % 2 ^ 32 =
      (done.map fun t => t.record.data).length % 2 ^ 32 := by
    intro done
    rw [List.length_map]
  cases query with
  | select plan =>
      apply (select_ends fuel sound active plan).mono _ fun _ _ _ => trivial
      intro result σ' h
      obtain ⟨reads, done, hitems, rfl⟩ := h
      obtain ⟨hprivate, hsession⟩ := reads.keeps_session context.xid
      refine ⟨hprivate, by rw [reads.frame], fun _ => ⟨none, .select (denote_of_items fresh hitems), ?_⟩⟩
      rw [hsession]
      exact .none
  | insert oid toRecord plan =>
      apply (insert_ends fuel sound active counts toRecord plan).mono _ fun _ _ _ => trivial
      intro result σ' h
      obtain ⟨done, new, hitems, writes, supplies, rfl, stored⟩ := h
      refine ⟨writes.private sound inv active clean, by rw [writes.frame], fun free => ⟨_, ?_,
        writes.makes sound inv active fresh clean stored free⟩⟩
      rw [hcount]
      exact .insert (denote_of_items fresh hitems) supplies.map_eq
  | update oid predicate exprs =>
      apply (update_ends fuel sound active counts (permits oid predicate rfl) exprs).mono _
        fun _ _ _ => trivial
      intro result σ' h
      obtain ⟨done, new, hitems, writes, stored, supplies, rfl⟩ := h
      refine ⟨writes.private sound inv active clean, by rw [writes.frame], fun free => ⟨_, ?_,
        writes.makes sound inv active fresh clean stored free⟩⟩
      rw [hcount]
      exact .update (denote_of_items fresh hitems) supplies.map_eq
  | delete oid predicate =>
      apply (delete_ends fuel sound active (permits oid predicate rfl)).mono _ fun _ _ _ => trivial
      intro result σ' h
      obtain ⟨done, hitems, writes, rfl⟩ := h
      refine ⟨writes.private sound inv active clean, by rw [writes.frame], fun free => ⟨_, ?_,
        writes.makes sound inv active fresh clean (fun _ h => absurd h List.not_mem_nil) free⟩⟩
      rw [hcount]
      exact .delete (denote_of_items fresh hitems)

/-- A query acts on the tables that its transaction finds, and one that fails on one of them. -/
theorem executeQuery_acts (query : Query)
    (permits : ∀ oid predicate, query.deletes = some (oid, predicate) →
      ∀ t ∈ σ₀.rows oid, Wanted σ₀ context predicate t →
        P.delete context.isolationLevel.mode σ₀.mvcc.active (versionOf t)) :
    Ends σ₀ (executeQuery context fuel query)
      (fun result σ' => Acts query result context.xid context.isolationLevel.mode σ₀ σ')
      fun e σ' => ∀ ex, e = .thrown ex → Tears (.query (.ok query)) context.xid σ₀ σ' := by
  have hdenotes := executeQuery_denotes fuel sound inv active fresh clean counts query permits
  have hexecuted := executeQuery_ends fuel query sound active counts permits
  apply (hdenotes.and hexecuted).mono
  · exact fun _ _ h => h.1
  · exact fun e σ' h ex hex => (h.2 ex hex).tears sound inv active clean

end Policy

end Queries

end Sql

end HuaDB
