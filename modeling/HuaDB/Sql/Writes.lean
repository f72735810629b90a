import HuaDB.Sql.Scans

/-!
What the executors do that write.

`Writes` is what a statement has done to its table since it started: the records it
deleted, all of them visible when it started, and the records it inserted, none of
them visible to it. The operations of a table extend it (`Writes.delete`,
`Writes.insert`).
-/

namespace HuaDB

namespace Sql

open EStateM

variable {σ₀ σ σ' : Database} {oid x : Nat}

/-! ## Operations as steps -/

/-- A transaction writes records of pages that are there. -/
theorem Sound.of_write (sound : Sound σ) (hatt : (σ.att.find? x).isSome) {chain : List LogBody}
    (pages : σ'.PagesOk) (htxn : σ'.txn = σ.txn) (hxids : σ'.xids = σ.xids)
    (hchain : σ'.att = σ.att.insert x chain)
    (grows : ∀ key, (σ.pages key).isSome → (σ'.pages key).isSome)
    (logged : ∀ body ∈ chain, Logged σ' body) : Sound σ' where
  pages := pages
  txn := by
    apply sound.txn.congr htxn _ hxids
    intro y
    rw [hchain, Assoc.find?_insert_isSome]
    constructor
    · rintro (rfl | h)
      · exact hatt
      · exact h
    · exact .inr
  logged y chain' hfind body hbody := by
    rw [hchain] at hfind
    rcases Assoc.find?_insert_eq_some_iff.mp hfind with ⟨-, rfl⟩ | ⟨-, hold⟩
    · exact logged body hbody
    · exact (sound.logged y chain' hold body hbody).mono grows

/-- What an operation that leaves transactions and locks alone changes. -/
theorem mvcc_of_txn (htxn : σ'.txn = σ.txn) (hlocks : σ'.locks = σ.locks) :
    σ'.mvcc = { σ.mvcc with
      versions := σ'.mvcc.versions, undo := σ'.mvcc.undo, events := σ'.mvcc.events } := by
  simp only [Database.mvcc, htxn, hlocks]

/-- `Table::DeleteRecord`. -/
structure Deleted (oid : Nat) (rid : Rid) (x : Nat) (σ σ' : Database) : Prop where
  frame : σ' = { σ with pages := σ'.pages, att := σ'.att, events := σ'.events }
  sound : Sound σ'
  mvcc : σ'.mvcc = σ.mvcc.delete x oid rid
  att : ∃ chain, σ.att.find? x = some chain ∧
    σ'.att = σ.att.insert x (.delete oid rid.pageId rid.slotId :: chain)
  events : σ'.events = .deleted x oid rid :: σ.events
  place : ∀ r, (σ.heap oid).Place r → (σ'.heap oid).Place r
  rest : ∀ r, (σ.heap oid).Place r →
    (σ'.heap oid).rest r = ((σ.heap oid).rest r).map (TablePage.rewrite rid (deletedBy x))
  rows : σ'.rows oid = (σ.rows oid).map (TablePage.rewrite rid (deletedBy x))
  others : ∀ oid', oid' ≠ oid → σ'.heap oid' = σ.heap oid'

theorem deleteRecord_deleted (sound : Sound σ) (active : x ∈ σ.mvcc.active) {rid : Rid}
    (hat : (σ.heap oid).At rid) :
    ∃ σ', Table.deleteRecord oid rid x σ = .ok PUnit.unit σ' ∧ Deleted oid rid x σ σ' ∧
      ∀ key, (σ.pages key).isSome → (σ'.pages key).isSome := by
  rcases sound.txn.exists_chain active with ⟨chain, hchain⟩
  rcases deleteRecord_eq sound.pages hat hchain with ⟨σ₁, rewritten, hrun⟩
  generalize hσ' : { σ₁ with
    att := σ.att.insert x (.delete oid rid.pageId rid.slotId :: chain)
    events := .deleted x oid rid :: σ.events } = σ' at hrun
  have hheap : ∀ o, σ'.heap o = σ₁.heap o := by
    rw [← hσ']
    exact fun o => Database.heap_congr rfl rfl o
  have frame : σ' = { σ with pages := σ'.pages, att := σ'.att, events := σ'.events } := by
    rw [← hσ', rewritten.frame]
  have hatt : σ'.att = σ.att.insert x (.delete oid rid.pageId rid.slotId :: chain) := by rw [← hσ']
  have hevents : σ'.events = .deleted x oid rid :: σ.events := by rw [← hσ']
  have hpages : σ'.pages = σ₁.pages := by rw [← hσ']
  have hversions : σ'.mvcc.versions = σ₁.mvcc.versions := by
    funext o
    simp only [Database.mvcc, rows_congr (hheap o)]
  refine ⟨σ', hrun, ?_, hpages ▸ rewritten.grows⟩
  constructor
  · exact frame
  · apply sound.of_write (hchain ▸ rfl) _ (by rw [frame]) (by rw [frame]) hatt
    · rw [hpages]
      exact rewritten.grows
    · have hgrows : ∀ key, (σ.pages key).isSome → (σ'.pages key).isSome := hpages ▸ rewritten.grows
      rw [List.forall_mem_cons]
      constructor
      · rcases hat with ⟨page, hpage, -⟩
        have hstored : (σ.pages ⟨oid, rid.pageId⟩).isSome := Option.isSome_iff_exists.mpr ⟨page, hpage⟩
        exact hgrows _ hstored
      · exact fun body hbody => (sound.logged x chain hchain body hbody).mono hgrows
    · exact rewritten.pagesOk.congr hpages (by rw [frame, rewritten.frame])
  · have hversions' := rewritten.versions sound.pages fun t =>
      versionOf_deletedBy (Nat.ne_of_lt (sound.txn.lt_nullXid active)) rid t
    have hundo : σ'.mvcc.undo =
        Function.update σ.mvcc.undo x (.delete oid rid :: σ.mvcc.undo x) := by
      have hold : σ.mvcc.undo x = chain.filterMap entryOf := by
        simp only [Database.mvcc, hchain, Option.getD_some]
      rw [hold]
      simp only [Database.mvcc, hatt]
      exact Assoc.comp_find?_insert (fun o : Option (List LogBody) => (o.getD []).filterMap entryOf)
        _ _ _
    have hevents' : σ'.mvcc.events = .deleted x oid rid :: σ.mvcc.events := by
      simp only [Database.mvcc, hevents]
      rfl
    have htxn : σ'.txn = σ.txn := by rw [frame]
    have hlocks : σ'.locks = σ.locks := by rw [frame]
    rw [mvcc_of_txn htxn hlocks, hversions, hversions', hundo, hevents']
    rfl
  · exact ⟨chain, hchain, hatt⟩
  · exact hevents
  · intro r place
    rw [hheap]
    exact rewritten.place r place
  · intro r place
    rw [hheap]
    exact rewritten.rest r place
  · rw [rows_congr (hheap oid)]
    exact rewritten.rows sound.pages
  · exact fun o h => (hheap o).trans (rewritten.others o h)

section Insertion

variable {newRecord : Record} {cid : Nat} {rid : Rid}

theorem Inserted.sound (sound : Sound σ) (inserted : Inserted oid newRecord x cid rid σ σ') :
    Sound σ' := by
  rcases inserted.att with ⟨chain, bodies, hchain, log, hatt⟩
  have hstored : ((σ'.heap oid).page rid.pageId).isSome := by
    rcases inserted.stored with ⟨page, hpage, -⟩
    exact Option.isSome_iff_exists.mpr ⟨page, hpage⟩
  apply sound.of_write (hchain ▸ rfl) inserted.pagesOk (by rw [inserted.frame])
    (by rw [inserted.frame]) hatt inserted.grows
  intro body hbody
  rcases List.mem_append.mp hbody with hnew | hold
  · have hslot := log.slotId_eq
    cases log with
    | placed =>
        cases List.mem_singleton.mp hnew
        exact ⟨hstored, hslot⟩
    | created offset size prevPageId holds =>
        rcases List.mem_cons.mp hnew with rfl | hnew
        · exact ⟨hstored, hslot⟩
        · cases List.mem_singleton.mp hnew
          exact ⟨holds.imp_right (inserted.grows ⟨oid, prevPageId⟩), hstored⟩
  · exact (sound.logged x chain hchain body hold).mono inserted.grows

theorem InsertionLog.entries {h : Heap} {stored : Record} {bodies : List LogBody}
    (log : InsertionLog h oid rid stored bodies) :
    bodies.filterMap entryOf = if rid.pageId = nullPageId then [] else [.insert oid rid] := by
  cases log with
  | placed => by_cases hnull : rid.pageId = nullPageId <;> simp [entryOf, hnull]
  | created => by_cases hnull : rid.pageId = nullPageId <;> simp [entryOf, hnull]

theorem Inserted.mvcc_undo (inserted : Inserted oid newRecord x cid rid σ σ') :
    σ'.mvcc.undo = Function.update σ.mvcc.undo x
      ((if rid.pageId = nullPageId then [] else [.insert oid rid]) ++ σ.mvcc.undo x) := by
  rcases inserted.att with ⟨chain, bodies, hchain, log, hatt⟩
  have hundo : σ.mvcc.undo x = chain.filterMap entryOf := by
    simp only [Database.mvcc, hchain, Option.getD_some]
  rw [hundo, ← log.entries, ← List.filterMap_append]
  simp only [Database.mvcc, hatt]
  exact Assoc.comp_find?_insert (fun o : Option (List LogBody) => (o.getD []).filterMap entryOf) _ _ _

/-- An insertion is a step, or it changes nothing that a scan comes to. -/
theorem Inserted.step {P : Mvcc.Policy Nat Rid Row} (active : x ∈ σ.mvcc.active)
    (header : newRecord.header = {}) (counts : P.counts x → cid < σ.mvcc.cid x)
    (inserted : Inserted oid newRecord x cid rid σ σ') : Mvcc.Steps P σ.mvcc σ'.mvcc := by
  have hundo := inserted.mvcc_undo
  have hothers : ∀ o, o ≠ oid → σ'.mvcc.versions o = σ.mvcc.versions o := by
    intro o ho
    simp only [Database.mvcc, rows_congr (inserted.others o ho)]
  have htxn : σ'.txn = σ.txn := by rw [inserted.frame]
  have hlocks : σ'.locks = σ.locks := by rw [inserted.frame]
  have hevents : σ'.mvcc.events = σ.mvcc.events := by
    rw [inserted.frame]
    rfl
  by_cases hnull : rid.pageId = nullPageId
  · have hversions : σ'.mvcc.versions = σ.mvcc.versions := by
      funext o
      by_cases ho : o = oid
      · simp only [Database.mvcc, ho, inserted.lost hnull]
      · exact hothers o ho
    rw [if_pos hnull, List.nil_append, Function.update_eq_self] at hundo
    rw [mvcc_of_txn htxn hlocks, hversions, hundo, hevents]
  · rcases inserted.rows hnull with ⟨pre, post, hrows, hrows'⟩
    generalize hnew : (⟨stamp newRecord x cid, rid⟩ : Tuple) = new at hrows'
    have hxmin : (versionOf new).xmin = x := hnew ▸ rfl
    have hid : (versionOf new).id = rid := hnew ▸ rfl
    have hcid : (versionOf new).cid = cid := hnew ▸ rfl
    have hxmax : (versionOf new).xmax = none := by
      rw [← hnew]
      simp only [versionOf, stamp, header, ↓reduceIte]
    have hsplit : σ.mvcc.versions oid = pre.map versionOf ++ post.map versionOf := by
      simp only [Database.mvcc, hrows, List.map_append]
    have hversions : σ'.mvcc.versions = Function.update σ.mvcc.versions oid
        (pre.map versionOf ++ versionOf new :: post.map versionOf) := by
      funext o
      rw [Function.update_apply]
      by_cases ho : o = oid
      · simp only [Database.mvcc, ho, hrows', List.map_append, List.map_cons, ↓reduceIte]
      · rw [if_neg ho]
        exact hothers o ho
    have hfresh : ∀ u ∈ σ.mvcc.versions oid, u.id ≠ (versionOf new).id := by
      have hnodup := (inserted.pagesOk.heap oid).nodup_rows
      have hrows'' : (σ'.heap oid).rows = pre ++ new :: post := hrows'
      rw [hrows'', List.map_append, List.map_cons, List.nodup_middle, List.nodup_cons,
        ← List.map_append] at hnodup
      intro u hu heq
      rw [hsplit, ← List.map_append] at hu
      rcases List.mem_map.mp hu with ⟨t, ht, rfl⟩
      exact hnodup.1 (List.mem_map.mpr ⟨t, ht, heq⟩)
    have hstate : σ'.mvcc = (σ.mvcc.setVersions oid
        (pre.map versionOf ++ versionOf new :: post.map versionOf)).push (versionOf new).xmin
          (.insert oid (versionOf new).id) := by
      rw [if_neg hnull] at hundo
      rw [mvcc_of_txn htxn hlocks, hversions, hundo, hevents, hxmin, hid]
      rfl
    rw [hstate]
    apply Relation.ReflTransGen.single
    apply Mvcc.Step.insert (hxmin ▸ active) hxmax _ hsplit hfresh
    rw [hxmin, hcid]
    exact counts

end Insertion

/-! ## Statements that write -/

/-- A row after `x` deleted the rows `gone`. -/
def deleting (x : Nat) (gone : List Tuple) (tuple : Tuple) : Tuple :=
  if tuple ∈ gone then TablePage.rewrite tuple.rid (deletedBy x) tuple else tuple

theorem rid_deleting (x : Nat) (gone : List Tuple) (t : Tuple) : (deleting x gone t).rid = t.rid := by
  unfold deleting TablePage.rewrite
  split
  · split <;> rfl
  · rfl

/-- The records among `new` that a scan comes to. -/
def kept (new : List Tuple) : List Tuple := new.filter fun t => t.rid.pageId ≠ nullPageId

/-- What the statement of `context` has done to table `oid` since `σ₀`. -/
structure Writes (P : Mvcc.Policy Nat Rid Row) (context : ExecutorContext) (oid : Nat)
    (σ₀ σ : Database) (gone new : List Tuple) : Prop where
  frame : σ = { σ₀ with
    pages := σ.pages, tables := σ.tables, att := σ.att, locks := σ.locks, events := σ.events }
  sound : Sound σ
  steps : Mvcc.Steps P σ₀.mvcc σ.mvcc
  clean : .undoneNewPage ∈ σ.events → .undoneNewPage ∈ σ₀.events
  place : ∀ o r, (σ₀.heap o).Place r → (σ.heap o).Place r
  rows : (σ.rows oid).Perm ((σ₀.rows oid).map (deleting context.xid gone) ++ kept new)
  others : ∀ o, o ≠ oid → σ.heap o = σ₀.heap o
  nodup : gone.Nodup
  deleted : ∀ t ∈ gone, t ∈ σ₀.rows oid ∧ Visible σ₀ context t
  inserted : ∀ t ∈ new, t.record.header.xmin = context.xid ∧ t.record.header.cid = context.cid ∧
    t.record.header.xmax = nullXid
  entries : ∃ entries, σ.mvcc.undo context.xid = entries ++ σ₀.mvcc.undo context.xid ∧
    entries.Perm ((kept new).map (fun t => .insert oid t.rid) ++
      gone.map fun t => .delete oid t.rid)
  att : ∀ y, y ≠ context.xid → σ.att.find? y = σ₀.att.find? y

/-- What is visible was not deleted by its reader. -/
theorem Visible.xmax_ne {context : ExecutorContext} {t : Tuple} (sound : Sound σ)
    (active : context.xid ∈ σ.mvcc.active) (visible : Visible σ context t) :
    t.record.header.xmax ≠ context.xid := by
  intro heq
  have hne : t.record.header.xmax ≠ nullXid :=
    heq.symm ▸ Nat.ne_of_lt (sound.txn.lt_nullXid active)
  have hxmax : (versionOf t).xmax = some context.xid := heq ▸ if_neg hne
  rcases visible with ⟨-, hsees⟩
  cases hmode : context.isolationLevel.mode with
  | snapshot =>
      rw [hmode] at hsees
      apply hsees.2 _ hxmax
      exact ⟨fun hmem => Nat.lt_irrefl _ (sound.txn.seen _ active _ hmem), Nat.le_refl _⟩
  | current =>
      rw [hmode] at hsees
      exact (hsees.2 _ hxmax).2 rfl

namespace Writes

variable {P : Mvcc.Policy Nat Rid Row} {context : ExecutorContext} {gone new : List Tuple}

theorem refl (P : Mvcc.Policy Nat Rid Row) (context : ExecutorContext) (oid : Nat) (sound : Sound σ) :
    Writes P context oid σ σ [] [] where
  frame := rfl
  sound := sound
  steps := .refl
  clean := id
  place _ _ := id
  rows := by
    have hid : deleting context.xid [] = id := funext fun t => if_neg List.not_mem_nil
    rw [hid, List.map_id, kept, List.filter_nil, List.append_nil]
  others _ _ := rfl
  nodup := List.nodup_nil
  deleted := nofun
  inserted := nofun
  entries := ⟨[], rfl, .refl _⟩
  att _ _ := rfl

variable (writes : Writes P context oid σ₀ σ gone new)
include writes

theorem txn : σ.txn = σ₀.txn := by rw [writes.frame]

theorem visible : Visible σ context = Visible σ₀ context := visible_congr writes.txn

theorem active : σ.mvcc.active = σ₀.mvcc.active := by simp only [Database.mvcc, writes.txn]

theorem reads (h : Reads σ σ') : Writes P context oid σ₀ σ' gone new where
  frame := by rw [h.frame, writes.frame]
  sound := h.sound writes.sound
  steps := writes.steps.trans (h.steps P)
  clean := writes.clean ∘ h.clean
  place o r place := h.heap o ▸ writes.place o r place
  rows := rows_congr (h.heap oid) ▸ writes.rows
  others o ho := (h.heap o).trans (writes.others o ho)
  nodup := writes.nodup
  deleted := writes.deleted
  inserted := writes.inserted
  entries := by
    have hundo : σ'.mvcc.undo = σ.mvcc.undo := by simp only [Database.mvcc, h.att]
    exact hundo ▸ writes.entries
  att y hy := h.att ▸ writes.att y hy

/-- A row that is seen now was there when the statement started. -/
theorem mem_of_visible (active : context.xid ∈ σ₀.mvcc.active) {t : Tuple} (hmem : t ∈ σ.rows oid)
    (visible : Visible σ₀ context t) : t ∈ σ₀.rows oid ∧ t ∉ gone := by
  rcases List.mem_append.mp (writes.rows.mem_iff.mp hmem) with hold | hnew
  · rcases List.mem_map.mp hold with ⟨u, hu, hut⟩
    by_cases hgone : u ∈ gone
    · -- the statement deleted it, so does not see it
      rw [deleting, if_pos hgone, TablePage.rewrite, if_pos rfl] at hut
      have hxmax : t.record.header.xmax = context.xid := by
        rw [← hut]
        rfl
      rw [← writes.visible] at visible
      exact absurd hxmax (visible.xmax_ne writes.sound (writes.active ▸ active))
    · rw [deleting, if_neg hgone] at hut
      exact hut ▸ ⟨hu, hgone⟩
  · rcases writes.inserted t (List.mem_of_mem_filter hnew) with ⟨hxmin, hcid, -⟩
    exact absurd hxmin (visible.1 hcid)

/-- The records that were there and the new ones are at different places. -/
theorem nodup_rids : ((σ₀.rows oid).map Tuple.rid ++ (kept new).map Tuple.rid).Nodup := by
  have hrids : (σ₀.rows oid).map Tuple.rid =
      ((σ₀.rows oid).map (deleting context.xid gone)).map Tuple.rid := by
    rw [List.map_map]
    exact List.map_congr_left fun t _ => (rid_deleting context.xid gone t).symm
  rw [hrids, ← List.map_append]
  exact (writes.rows.map Tuple.rid).nodup_iff.mp (writes.sound.pages.heap oid).nodup_rows

/-- Another row is deleted. -/
theorem delete (active : context.xid ∈ σ₀.mvcc.active) {t : Tuple} (hmem : t ∈ σ.rows oid)
    (visible : Visible σ₀ context t)
    (policy : P.delete context.isolationLevel.mode σ₀.mvcc.active (versionOf t))
    (own : σ.mvcc.locked context.xid oid t.rid)
    (alone : ∀ y, y ≠ context.xid → ¬ σ.mvcc.locked y oid t.rid)
    (deleted : Deleted oid t.rid context.xid σ σ') :
    Writes P context oid σ₀ σ' (gone ++ [t]) new := by
  rcases writes.mem_of_visible active hmem visible with ⟨hmem₀, hgone⟩
  have hnodup := writes.nodup_rids
  have hrewrite : ((σ₀.rows oid).map (deleting context.xid gone) ++ kept new).map
        (TablePage.rewrite t.rid (deletedBy context.xid)) =
      (σ₀.rows oid).map (deleting context.xid (gone ++ [t])) ++ kept new := by
    rw [List.map_append, List.map_map]
    congr 1
    · apply List.map_congr_left
      intro u hu
      by_cases hut : u = t
      · subst hut
        have hnew : u ∈ gone ++ [u] := List.mem_append_right _ List.mem_cons_self
        rw [Function.comp_apply, deleting, if_neg hgone, deleting, if_pos hnew]
      · have hrid : u.rid ≠ t.rid := fun heq =>
          hut (List.inj_on_of_nodup_map (List.nodup_append.mp hnodup).1 hu hmem₀ heq)
        have hiff : u ∈ gone ++ [t] ↔ u ∈ gone := by simp [hut]
        have hother : ¬ (deleting context.xid gone u).rid = t.rid := by rwa [rid_deleting]
        rw [Function.comp_apply, TablePage.rewrite, if_neg hother, deleting, deleting]
        simp only [hiff]
    · rw [← List.map_id (kept new), List.map_map]
      apply List.map_congr_left
      intro n hn
      have hrid : ¬ n.rid = t.rid := by
        intro heq
        exact (List.nodup_append.mp hnodup).2.2 _ (List.mem_map_of_mem hmem₀) _
          (List.mem_map_of_mem hn) heq.symm
      exact if_neg hrid
  constructor
  · rw [deleted.frame, writes.frame]
  · exact deleted.sound
  · apply writes.steps.tail
    rw [deleted.mvcc]
    have hversion : versionOf t ∈ σ.mvcc.versions oid := List.mem_map_of_mem hmem
    exact .delete (writes.active ▸ active) hversion (writes.visible ▸ visible : Visible σ context t)
      (writes.active ▸ policy) own alone
  · intro h
    rw [deleted.events] at h
    rcases List.mem_cons.mp h with heq | hold
    · cases heq
    · exact writes.clean hold
  · intro o r place
    by_cases ho : o = oid
    · subst ho
      exact deleted.place r (writes.place o r place)
    · rw [deleted.others o ho]
      exact writes.place o r place
  · rw [deleted.rows, ← hrewrite]
    exact writes.rows.map _
  · exact fun o ho => (deleted.others o ho).trans (writes.others o ho)
  · apply List.Nodup.append writes.nodup (List.nodup_singleton t)
    exact fun u hu hut => hgone (List.mem_singleton.mp hut ▸ hu)
  · intro u hu
    rcases List.mem_append.mp hu with hold | hnew
    · exact writes.deleted u hold
    · cases List.mem_singleton.mp hnew
      exact ⟨hmem₀, visible⟩
  · exact writes.inserted
  · rcases writes.entries with ⟨entries, hentries, hperm⟩
    refine ⟨.delete oid t.rid :: entries, ?_, ?_⟩
    · rw [deleted.mvcc]
      simp only [Mvcc.State.delete, Mvcc.State.record, Mvcc.State.push, Mvcc.State.map,
        Function.update_self, hentries, List.cons_append]
    · rw [List.map_append, List.map_singleton, ← List.append_assoc]
      exact (hperm.cons _).trans (List.perm_append_singleton _ _).symm
  · intro y hy
    rcases deleted.att with ⟨chain, -, hatt⟩
    rw [hatt, Assoc.find?_insert_ne hy.symm]
    exact writes.att y hy

/-- Another record is inserted. -/
theorem insert (active : context.xid ∈ σ₀.mvcc.active)
    (counts : P.counts context.xid → context.cid < σ₀.mvcc.cid context.xid) {newRecord : Record}
    {rid : Rid} (header : newRecord.header = {})
    (inserted : Inserted oid newRecord context.xid context.cid rid σ σ') :
    Writes P context oid σ₀ σ' gone (new ++ [⟨stamp newRecord context.xid context.cid, rid⟩]) := by
  generalize hnew : (⟨stamp newRecord context.xid context.cid, rid⟩ : Tuple) = t
  have hrid : t.rid = rid := hnew ▸ rfl
  have hkept : kept (new ++ [t]) = kept new ++ if rid.pageId = nullPageId then [] else [t] := by
    rw [kept, kept, List.filter_append]
    by_cases hnull : rid.pageId = nullPageId <;> simp [hrid, hnull]
  have hcid : σ.mvcc.cid = σ₀.mvcc.cid := by simp only [Database.mvcc, writes.txn]
  constructor
  · rw [inserted.frame, writes.frame]
  · exact inserted.sound writes.sound
  · exact writes.steps.trans (inserted.step (writes.active ▸ active) header (hcid ▸ counts))
  · intro h
    rw [inserted.frame] at h
    exact writes.clean h
  · intro o r place
    by_cases ho : o = oid
    · subst ho
      exact inserted.place r (writes.place o r place)
    · rw [inserted.others o ho]
      exact writes.place o r place
  · rw [hkept, ← List.append_assoc]
    by_cases hnull : rid.pageId = nullPageId
    · rw [if_pos hnull, List.append_nil, inserted.lost hnull]
      exact writes.rows
    · rcases inserted.rows hnull with ⟨pre, post, hrows, hrows'⟩
      rw [hnew] at hrows'
      rw [if_neg hnull, hrows']
      apply List.perm_middle.trans
      rw [← hrows]
      exact (writes.rows.cons t).trans (List.perm_append_singleton t _).symm
  · exact fun o ho => (inserted.others o ho).trans (writes.others o ho)
  · exact writes.nodup
  · exact writes.deleted
  · intro u hu
    rcases List.mem_append.mp hu with hold | hlast
    · exact writes.inserted u hold
    · cases List.mem_singleton.mp hlast
      rw [← hnew]
      simp only [stamp, header, and_self]
  · rcases writes.entries with ⟨entries, hentries, hperm⟩
    refine ⟨(if rid.pageId = nullPageId then [] else [.insert oid rid]) ++ entries, ?_, ?_⟩
    · rw [inserted.mvcc_undo, Function.update_self, hentries, List.append_assoc]
    · rw [hkept]
      by_cases hnull : rid.pageId = nullPageId
      · simpa only [if_pos hnull, List.nil_append, List.append_nil] using hperm
      · simp only [if_neg hnull, List.map_append, List.map_singleton, hrid, List.append_assoc,
          List.singleton_append]
        exact (hperm.cons _).trans List.perm_middle.symm
  · intro y hy
    rcases inserted.att with ⟨chain, bodies, -, -, hatt⟩
    rw [hatt, Assoc.find?_insert_ne hy.symm]
    exact writes.att y hy

end Writes

/-! ## What is ahead of a scan -/

/-- What writes leave ahead of a plan that insert at most `n` records. -/
structure Keeps (context : ExecutorContext) (plan : Plan) (s : Plan.State plan) (n : Nat)
    (σ σ' : Database) : Prop where
  placed : Placed σ' plan s
  ahead : ahead σ' context plan s = ahead σ context plan s
  rounds : rounds σ' plan s ≤ rounds σ plan s + n

section Keeps

variable {context : ExecutorContext} {plan : Plan} {s : Plan.State plan} {n m : Nat}
  {σ'' : Database}

theorem Reads.keeps (reads : Reads σ σ') (placed : Placed σ plan s) :
    Keeps context plan s 0 σ σ' where
  placed := reads.placed placed
  ahead := reads.ahead context plan s
  rounds := Nat.le_of_eq (reads.rounds plan s)

theorem Keeps.trans (keeps : Keeps context plan s n σ σ') (keeps' : Keeps context plan s m σ' σ'') :
    Keeps context plan s (n + m) σ σ'' where
  placed := keeps'.placed
  ahead := keeps'.ahead.trans keeps.ahead
  rounds := by
    have hle := keeps.rounds
    have hle' := keeps'.rounds
    omega

end Keeps

/-- A statement does not come to the records it inserts. -/
theorem Inserted.keeps {context : ExecutorContext} {newRecord : Record} {rid : Rid}
    (inserted : Inserted oid newRecord context.xid context.cid rid σ σ') {plan : Plan}
    {s : Plan.State plan} (placed : Placed σ plan s) : Keeps context plan s 1 σ σ' := by
  have htxn : σ'.txn = σ.txn := by rw [inserted.frame]
  induction plan with
  | values => exact ⟨trivial, rfl, Nat.le_succ _⟩
  | filter predicate _ ih =>
      have keeps := ih placed
      exact ⟨keeps.placed, congrArg (List.flatMap (accept predicate)) keeps.ahead, keeps.rounds⟩
  | projection exprs _ ih =>
      have keeps := ih placed
      exact ⟨keeps.placed, congrArg (List.map (project exprs)) keeps.ahead, keeps.rounds⟩
  | lockRows _ _ _ ih =>
      have keeps := ih placed
      exact ⟨keeps.placed, keeps.ahead, keeps.rounds⟩
  | seqScan o =>
      by_cases ho : o = oid
      · subst ho
        refine ⟨inserted.place s placed, ?_, ?_⟩
        · rw [ahead, ahead, visible_congr htxn]
          rcases inserted.rest s placed with hsame | ⟨pre, post, hrest, hrest'⟩
          · rw [hsame]
          · have hunseen : ¬ Visible σ context ⟨stamp newRecord context.xid context.cid, rid⟩ :=
              fun h => h.1 rfl rfl
            rw [hrest, hrest', List.filter_append, List.filter_append,
              List.filter_cons_of_neg (by simpa using hunseen)]
        · simp only [rounds]
          rcases inserted.rest s placed with hsame | ⟨pre, post, hrest, hrest'⟩
          · rw [hsame]
            exact Nat.le_succ _
          · rw [hrest, hrest', List.length_append, List.length_append, List.length_cons]
            omega
      · have hheap := inserted.others o ho
        refine ⟨?_, ?_, ?_⟩
        · rw [Placed, hheap]
          exact placed
        · rw [ahead, ahead, visible_congr htxn, hheap]
        · rw [rounds, hheap]
          exact Nat.le_succ _

/-- A deletion behind the scan. -/
theorem Deleted.keeps {context : ExecutorContext} {rid r : Rid}
    (deleted : Deleted oid rid context.xid σ σ') (predicate : Expression Bool)
    (place : (σ.heap oid).Place r) (behind : ∀ u ∈ (σ.heap oid).rest r, u.rid ≠ rid) :
    Keeps context (.filter predicate (.seqScan oid)) r 0 σ σ' := by
  have htxn : σ'.txn = σ.txn := by rw [deleted.frame]
  have hrest : (σ'.heap oid).rest r = (σ.heap oid).rest r := by
    rw [deleted.rest r place]
    apply (List.map_congr_left _).trans (List.map_id _)
    exact fun u hu => if_neg (behind u hu)
  refine ⟨deleted.place r place, ?_, ?_⟩
  · have hscan : ∀ s : Plan.State (.seqScan oid), (σ'.heap oid).rest s = (σ.heap oid).rest s →
        ahead σ' context (.seqScan oid) s = ahead σ context (.seqScan oid) s := by
      intro s hrest
      rw [ahead, ahead, visible_congr htxn, hrest]
    exact congrArg (List.flatMap (accept predicate)) (hscan r hrest)
  · simp only [rounds, hrest]
    exact Nat.le_refl _

/-! ## Rows -/

section Row

variable {P : Mvcc.Policy Nat Rid Row} {context : ExecutorContext} {gone new : List Tuple}
  (fuel : Nat) (active : context.xid ∈ σ₀.mvcc.active)
  (counts : P.counts context.xid → context.cid < σ₀.mvcc.cid context.xid)
include active counts

/-- The pages of the records are there. -/
def Stored (oid : Nat) (new : List Tuple) (σ : Database) : Prop :=
  ∀ n ∈ new, ((σ.heap oid).page n.rid.pageId).isSome

omit active counts in
theorem Stored.mono (stored : Stored oid new σ)
    (grows : ∀ key, (σ.pages key).isSome → (σ'.pages key).isSome) : Stored oid new σ' :=
  fun n hn => grows ⟨oid, n.rid.pageId⟩ (stored n hn)

omit active counts in
theorem Reads.stored (reads : Reads σ σ') (stored : Stored oid new σ) : Stored oid new σ' :=
  fun n hn => (reads.heap oid).symm ▸ stored n hn

omit active counts in
theorem Inserted.stored_concat {newRecord : Record} {cid : Nat} {rid : Rid}
    (inserted : Inserted oid newRecord x cid rid σ σ') (stored : Stored oid new σ) {n : Tuple}
    (hrid : n.rid = rid) : Stored oid (new ++ [n]) σ' := by
  intro m hm
  rcases List.mem_append.mp hm with hold | hlast
  · exact stored.mono inserted.grows m hold
  · cases List.mem_singleton.mp hlast
    rcases inserted.stored with ⟨page, hpage, -⟩
    rw [hrid]
    exact Option.isSome_iff_exists.mpr ⟨page, hpage⟩

/-- The record that `exprs` makes of a row overruns a page. -/
def Overlong (exprs : Expression Row) (tuple : Tuple) : Prop :=
  ∃ data, exprs tuple.record.data = .ok data ∧ Overruns { data := data }

/-- What `InsertExecutor` does with a row. -/
theorem insertRow_ends (writes : Writes P context oid σ₀ σ gone new) (toRecord : Expression Row)
    (tuple : Tuple) {plan : Plan} {s : Plan.State plan} (placed : Placed σ plan s) :
    Ends σ (insertRow context fuel oid toRecord tuple)
      (fun _ σ' => ∃ n, toRecord tuple.record.data = .ok n.record.data ∧
        Writes P context oid σ₀ σ' gone (new ++ [n]) ∧ Keeps context plan s 1 σ σ' ∧
        (Stored oid new σ → Stored oid (new ++ [n]) σ'))
      fun e σ' => (∀ ex, e = .thrown ex → ∃ new', Writes P context oid σ₀ σ' gone new') ∧
        Stops fuel nullPageId (Overlong toRecord tuple) e := by
  rw [insertRow]
  cases hrecord : toRecord tuple.record.data with
  | error e => exact .bind_of_error rfl ⟨fun _ _ => ⟨new, writes⟩, trivial⟩
  | ok data =>
      apply Ends.bind_of_ok rfl
      apply Ends.bind ((lockTable_ends context.xid .ix oid _).mono (fun _ _ => id) _)
      · rintro _ σ₁ ⟨reads, -⟩
        have writes₁ := writes.reads reads
        have active₁ : context.xid ∈ σ₁.mvcc.active := writes₁.active ▸ active
        rcases writes₁.sound.txn.exists_chain active₁ with ⟨chain, hchain⟩
        apply Ends.bind ((insertRecord_ends context.cid writes₁.sound.pages
          (writes₁.sound.txn.ne_ddlXid active₁) hchain fuel).mono (fun _ _ => id) _)
        · rintro rid σ₂ ⟨-, inserted⟩
          have writes₂ := writes₁.insert active counts rfl inserted
          have keeps := (reads.keeps placed).trans (inserted.keeps (reads.placed placed))
          apply (lockRow_ends context.xid .x oid rid _).mono
          · rintro _ σ₃ ⟨reads', -⟩
            exact ⟨_, rfl, writes₂.reads reads', keeps.trans (reads'.keeps keeps.placed),
              fun stored => reads'.stored (inserted.stored_concat (reads.stored stored) rfl)⟩
          · rintro e σ₃ ⟨reads', rfl⟩
            exact ⟨fun _ _ => ⟨_, writes₂.reads reads'⟩, trivial⟩
        · rintro e σ₂ ⟨hthrown, stops⟩
          refine ⟨fun ex hex => ?_, stops.mono id fun h => ⟨data, hrecord, h⟩⟩
          rw [(hthrown ex hex).1]
          exact ⟨new, writes₁⟩
      · rintro e σ₁ ⟨reads, rfl⟩
        exact ⟨fun _ _ => ⟨new, writes.reads reads⟩, trivial⟩

/-- The rows of an UPDATE or a DELETE of the table. -/
structure Target (σ : Database) (context : ExecutorContext) (oid : Nat) (r : Rid) (tuple : Tuple) :
    Prop where
  mem : tuple ∈ σ.rows oid
  visible : Visible σ context tuple
  place : (σ.heap oid).Place r
  behind : ∀ u ∈ (σ.heap oid).rest r, u.rid ≠ tuple.rid

omit active counts in
theorem Target.reads {r : Rid} {tuple : Tuple} (h : Target σ context oid r tuple)
    (reads : Reads σ σ') : Target σ' context oid r tuple where
  mem := (rows_congr (reads.heap oid)).symm ▸ h.mem
  visible := reads.visible.symm ▸ h.visible
  place := (reads.heap oid).symm ▸ h.place
  behind := (reads.heap oid).symm ▸ h.behind

omit active counts in
theorem Target.placed {r : Rid} {tuple : Tuple} (h : Target σ context oid r tuple)
    (predicate : Expression Bool) : Placed σ (.filter predicate (.seqScan oid)) r := h.place

omit counts in
/-- `Table::DeleteRecord` for a row that is locked. -/
theorem deleteTarget_ends (writes : Writes P context oid σ₀ σ gone new) {r : Rid} {tuple : Tuple}
    (target : Target σ context oid r tuple)
    (policy : P.delete context.isolationLevel.mode σ₀.mvcc.active (versionOf tuple))
    (own : σ.mvcc.locked context.xid oid tuple.rid)
    (alone : ∀ y, y ≠ context.xid → ¬ σ.mvcc.locked y oid tuple.rid) (predicate : Expression Bool) :
    ∃ σ', Table.deleteRecord oid tuple.rid context.xid σ = .ok PUnit.unit σ' ∧
      Writes P context oid σ₀ σ' (gone ++ [tuple]) new ∧
      Keeps context (.filter predicate (.seqScan oid)) r 0 σ σ' ∧
      ∀ key, (σ.pages key).isSome → (σ'.pages key).isSome := by
  have hat := (writes.sound.pages.heap oid).at_of_mem (writes.sound.pages.heap oid).place_first
    target.mem
  rcases deleteRecord_deleted writes.sound (writes.active ▸ active) hat with
    ⟨σ', hrun, deleted, grows⟩
  have hvisible : Visible σ₀ context tuple := writes.visible ▸ target.visible
  exact ⟨σ', hrun, writes.delete active target.mem hvisible policy own alone deleted,
    deleted.keeps predicate target.place target.behind, grows⟩

omit counts in
/-- What `DeleteExecutor` does with a row. -/
theorem deleteRow_ends (writes : Writes P context oid σ₀ σ gone new) {r : Rid} {tuple : Tuple}
    (target : Target σ context oid r tuple)
    (policy : P.delete context.isolationLevel.mode σ₀.mvcc.active (versionOf tuple))
    (predicate : Expression Bool) :
    Ends σ (deleteRow context oid tuple)
      (fun _ σ' => Writes P context oid σ₀ σ' (gone ++ [tuple]) new ∧
        Keeps context (.filter predicate (.seqScan oid)) r 0 σ σ')
      fun e σ' => Writes P context oid σ₀ σ' gone new ∧ ∃ ex, e = .thrown ex := by
  rw [deleteRow]
  apply Ends.bind ((lockRow_ends context.xid .x oid tuple.rid _).mono (fun _ _ => id) _)
  · rintro _ σ₁ ⟨reads, -, hlocked⟩
    rcases hlocked rfl with ⟨own, alone⟩
    rcases deleteTarget_ends active (writes.reads reads) (target.reads reads) policy own alone
      predicate with ⟨σ₂, hrun, writes₂, keeps, -⟩
    exact .of_eq_ok hrun ⟨writes₂, (reads.keeps (target.placed predicate)).trans keeps⟩
  · rintro e σ₁ ⟨reads, rfl⟩
    exact ⟨writes.reads reads, _, rfl⟩

/-- The record that `exprs` makes of a row is larger than a page takes. -/
def Oversize (exprs : Expression Row) (tuple : Tuple) : Prop :=
  ∃ data, exprs tuple.record.data = .ok data ∧ maxRecordSize < ({ data := data } : Record).getSize

/-- An UPDATE that throws has put a row in the place of each that it deleted, unless `torn`. -/
def Paired (ex : Exception) (torn : Prop) (gone new : List Tuple) : Prop :=
  gone.length = new.length ∨ (∃ message, ex = .dbException message) ∧ torn

/-- What `UpdateExecutor` does with a row. -/
theorem updateRow_ends (writes : Writes P context oid σ₀ σ gone new) (stored : Stored oid new σ)
    (hlength : gone.length = new.length) {r : Rid} {tuple : Tuple}
    (target : Target σ context oid r tuple)
    (policy : P.delete context.isolationLevel.mode σ₀.mvcc.active (versionOf tuple))
    (predicate : Expression Bool) (exprs : Expression Row) :
    Ends σ (updateRow context fuel oid exprs tuple)
      (fun _ σ' => ∃ n, exprs tuple.record.data = .ok n.record.data ∧
        Writes P context oid σ₀ σ' (gone ++ [tuple]) (new ++ [n]) ∧ Stored oid (new ++ [n]) σ' ∧
        Keeps context (.filter predicate (.seqScan oid)) r 1 σ σ')
      fun e σ' => (∀ ex, e = .thrown ex → ∃ gone' new', Writes P context oid σ₀ σ' gone' new' ∧
          Stored oid new' σ' ∧ Paired ex (Oversize exprs tuple) gone' new') ∧
        Stops fuel nullPageId (Overlong exprs tuple) e := by
  have hlength' : ∀ n : Tuple, (gone ++ [tuple]).length = (new ++ [n]).length := by
    intro n
    rw [List.length_append, List.length_append, hlength]
    rfl
  rw [updateRow]
  cases hexprs : exprs tuple.record.data with
  | error e => exact .bind_of_error rfl ⟨fun _ _ => ⟨gone, new, writes, stored, .inl hlength⟩, trivial⟩
  | ok data =>
      apply Ends.bind_of_ok rfl
      apply Ends.bind ((lockRow_ends context.xid .x oid tuple.rid _).mono (fun _ _ => id) _)
      · rintro _ σ₁ ⟨reads, -, hlocked⟩
        rcases hlocked rfl with ⟨own, alone⟩
        rcases deleteTarget_ends active (writes.reads reads) (target.reads reads) policy own alone
          predicate with ⟨σ₂, hrun, writes₂, keeps₂, grows₂⟩
        have stored₂ : Stored oid new σ₂ := (reads.stored stored).mono grows₂
        have active₂ : context.xid ∈ σ₂.mvcc.active := writes₂.active ▸ active
        rcases writes₂.sound.txn.exists_chain active₂ with ⟨chain, hchain⟩
        have htable : ¬ σ₂.tables.find? oid = none := by
          have hat := (writes.sound.pages.heap oid).at_of_mem
            (writes.sound.pages.heap oid).place_first target.mem
          rcases hat with ⟨page, hpage, -⟩
          have hpage₁ : (σ₁.pages ⟨oid, tuple.rid.pageId⟩).isSome := by
            rw [reads.frame]
            exact Option.isSome_iff_exists.mpr ⟨page, hpage⟩
          rcases Option.isSome_iff_exists.mp (grows₂ _ hpage₁) with ⟨page₂, hpage₂⟩
          have hsome := writes₂.sound.pages.table oid tuple.rid.pageId page₂ hpage₂
          intro hnone
          rw [hnone] at hsome
          cases hsome
        have hupdate : Ends σ₁
            (Table.updateRecord fuel oid tuple.rid context.xid context.cid { data := data })
            (fun rid σ₃ => Inserted oid { data := data } context.xid context.cid rid σ₂ σ₃)
            fun e σ₃ => (∀ ex, e = .thrown ex → σ₃ = σ₂ ∧ (∃ message, ex = .dbException message) ∧
              maxRecordSize < ({ data := data } : Record).getSize) ∧
              Stops fuel nullPageId (Overlong exprs tuple) e := by
          apply Ends.bind_of_ok hrun
          apply (insertRecord_ends context.cid writes₂.sound.pages
            (writes₂.sound.txn.ne_ddlXid active₂) hchain fuel).mono
          · exact fun _ _ h => h.2
          · rintro e σ₃ ⟨hthrown, stops⟩
            refine ⟨fun ex hex => ?_, stops.mono id fun h => ⟨data, hexprs, h⟩⟩
            rcases hthrown ex hex with ⟨hsame, hdb, hcause⟩
            exact ⟨hsame, hdb, hcause.resolve_left htable⟩
        apply Ends.bind (hupdate.mono (fun _ _ => id) _)
        · intro rid σ₃ inserted
          have writes₃ := writes₂.insert active counts rfl inserted
          have stored₃ : Stored oid
              (new ++ [⟨stamp { data := data } context.xid context.cid, rid⟩]) σ₃ :=
            inserted.stored_concat stored₂ rfl
          have keeps₃ := ((reads.keeps (target.placed predicate)).trans keeps₂).trans
            (inserted.keeps keeps₂.placed)
          apply (lockRow_ends context.xid .x oid rid _).mono
          · rintro _ σ₄ ⟨reads', -⟩
            exact ⟨_, rfl, writes₃.reads reads', reads'.stored stored₃,
              keeps₃.trans (reads'.keeps keeps₃.placed)⟩
          · rintro e σ₄ ⟨reads', rfl⟩
            exact ⟨fun _ _ => ⟨_, _, writes₃.reads reads', reads'.stored stored₃,
              .inl (hlength' _)⟩, trivial⟩
        · rintro e σ₃ ⟨hthrown, stops⟩
          refine ⟨fun ex hex => ?_, stops⟩
          rcases hthrown ex hex with ⟨hsame, hdb, hsize⟩
          rw [hsame]
          exact ⟨_, _, writes₂, stored₂, .inr ⟨hdb, data, hexprs, hsize⟩⟩
      · rintro e σ₁ ⟨reads, rfl⟩
        exact ⟨fun _ _ => ⟨gone, new, writes.reads reads, reads.stored stored, .inl hlength⟩, trivial⟩

end Row

end Sql

end HuaDB
