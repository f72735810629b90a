import HuaDB.Sql.Sound

/-!
What a rollback does.

Undoing the log records of a transaction stamps its versions as `Mvcc.undoAll` does
(`undoAll_ends`), so that ROLLBACK is a step of row versions (`rollback_ends`), unless
it comes to the creation of a page: then `undoneNewPage` is recorded, and stays so.
-/

namespace HuaDB

namespace Sql

open EStateM

variable {σ σ' : Database} {x conn : Nat}

/-- No rollback has come to the creation of a page. -/
def PagesKept (σ : Database) : Prop := .undoneNewPage ∉ σ.events

/-! ## Events stay -/

theorem getPage_ends (σ : Database) (oid p : Nat) :
    Ends σ (getPage oid p) (fun _ σ' => σ' = σ) fun _ σ' => σ' = σ := by
  cases htable : σ.tables.find? oid with
  | none =>
      rcases getTable_error htable with ⟨message, herror⟩
      exact .bind_of_error herror rfl
  | some table =>
      apply Ends.bind_of_ok (getTable_eq htable)
      apply Ends.get_bind
      cases σ.pages ⟨oid, p⟩ with
      | none => exact .throw rfl
      | some page => exact .pure rfl

theorem modifyPage_events (σ : Database) (oid p : Nat) (f : TablePage → Option TablePage) :
    Ends σ (modifyPage oid p f) (fun _ σ' => σ'.events = σ.events)
      fun _ σ' => σ'.events = σ.events := by
  apply Ends.bind ((getPage_ends σ oid p).mono (fun _ _ => id) fun _ _ h => congrArg _ h)
  rintro page _ rfl
  cases f page with
  | none => exact .throw rfl
  | some page' => exact .modify rfl

theorem undo_events (σ : Database) (x : Nat) (body : LogBody) :
    Ends σ (LogManager.undo x body) (fun _ σ' => σ.events ⊆ σ'.events)
      fun _ σ' => σ.events ⊆ σ'.events := by
  have hsame : ∀ σ' : Database, σ'.events = σ.events → σ.events ⊆ σ'.events :=
    fun σ' h => h ▸ List.Subset.refl _
  cases body with
  | insert | delete =>
      exact (modifyPage_events σ _ _ _).mono (fun _ σ' => hsame σ') fun _ σ' => hsame σ'
  | newPage oid prevPageId pageId =>
      generalize hσ₁ : { σ with events := .undoneNewPage :: σ.events } = σ₁
      have hrun : record .undoneNewPage σ = .ok PUnit.unit σ₁ := hσ₁ ▸ rfl
      have hsub : σ.events ⊆ σ₁.events := hσ₁ ▸ List.subset_cons_self _ _
      apply Ends.bind_of_ok hrun
      apply Ends.bind ((getPage_ends σ₁ oid prevPageId).mono (fun _ _ => id) fun _ _ h => h ▸ hsub)
      rintro prevPage _ rfl
      apply Ends.bind ((getPage_ends _ oid pageId).mono (fun _ _ => id) fun _ _ h => h ▸ hsub)
      rintro page _ rfl
      exact .modify hsub
  | begin | commit | rollback | beginCheckpoint | endCheckpoint =>
      exact .pure (List.Subset.refl _)

theorem undoAll_events (σ : Database) (x : Nat) (chain : List LogBody) :
    Ends σ (LogManager.undoAll x chain) (fun _ σ' => σ.events ⊆ σ'.events)
      fun _ σ' => σ.events ⊆ σ'.events := by
  induction chain generalizing σ with
  | nil => exact .pure (List.Subset.refl _)
  | cons body chain ih =>
      apply Ends.bind (undo_events σ x body)
      intro _ σ₁ hsub
      exact (ih σ₁).mono (fun _ _ => List.Subset.trans hsub) fun _ _ => List.Subset.trans hsub

theorem finish_events (σ : Database) (x : Nat) (caller : String) :
    Ends σ (TransactionManager.finish x caller) (fun _ σ' => σ'.events = σ.events)
      fun _ σ' => σ'.events = σ.events := by
  apply Ends.get_bind
  cases σ.txn.finish x caller with
  | ok txn => exact .bind_of_ok rfl (.modify rfl)
  | error e => cases e <;> exact .bind_of_error rfl rfl

theorem appendEndLog_events (σ : Database) (x : Nat) (caller : String) :
    Ends σ (LogManager.appendEndLog x caller) (fun _ σ' => σ'.events = σ.events)
      fun _ σ' => σ'.events = σ.events := by
  apply Ends.get_bind
  cases σ.att.find? x with
  | none => exact .throw rfl
  | some _ => exact .modify rfl

theorem logRollback_events (σ : Database) (x : Nat) :
    Ends σ (LogManager.rollback x) (fun _ σ' => σ.events ⊆ σ'.events)
      fun _ σ' => σ.events ⊆ σ'.events := by
  apply Ends.get_bind
  cases σ.att.find? x with
  | none => exact .throw (List.Subset.refl _)
  | some chain => exact undoAll_events σ x chain

theorem end_events (σ : Database) (conn x : Nat) (caller caller' : String) (event : Event) :
    Ends σ
      (do
        LogManager.appendEndLog x caller
        TransactionManager.finish x caller'
        modify fun σ => { σ with xids := σ.xids.erase conn }
        record event : Sql Unit)
      (fun _ σ' => σ.events ⊆ σ'.events) fun _ σ' => σ.events ⊆ σ'.events := by
  have hsame : ∀ σ' : Database, σ'.events = σ.events → σ.events ⊆ σ'.events :=
    fun σ' h => h ▸ List.Subset.refl _
  apply Ends.bind ((appendEndLog_events σ x _).mono (fun _ _ => id) fun _ σ' => hsame σ')
  intro _ σ₁ hσ₁
  apply Ends.bind ((finish_events σ₁ x _).mono (fun _ _ => id) fun _ σ' h => hsame σ' (h.trans hσ₁))
  intro _ σ₂ hσ₂
  apply Ends.bind_of_ok (modify_apply _ _)
  exact .modify (List.Subset.trans (hsame σ₂ (hσ₂.trans hσ₁)) (List.subset_cons_self _ _))

theorem rollback_events (σ : Database) (conn : Nat) :
    Ends σ (DatabaseEngine.rollback conn) (fun _ σ' => σ.events ⊆ σ'.events)
      fun _ σ' => σ.events ⊆ σ'.events := by
  cases hconn : σ.xids.find? conn with
  | none => exact .bind_of_error (xidOf_eq_error hconn) (List.Subset.refl _)
  | some x =>
      apply Ends.bind_of_ok (xidOf_eq hconn)
      apply Ends.bind (logRollback_events σ x)
      intro _ σ₁ hsub
      exact (end_events σ₁ conn x _ _ _).mono (fun _ _ => List.Subset.trans hsub)
        fun _ _ => List.Subset.trans hsub

/-! ## Undo -/

/-- What undoing log records of `x` does that create no page. -/
structure Undone (x : Nat) (chain : List LogBody) (σ σ' : Database) : Prop where
  frame : σ' = { σ with pages := σ'.pages }
  pagesOk : σ'.PagesOk
  stays : ∀ oid r, (σ.heap oid).At r → (σ'.heap oid).At r
  grows : ∀ key, (σ.pages key).isSome → (σ'.pages key).isSome
  versions : σ'.mvcc.versions = fun i =>
    (σ.mvcc.versions i).map (Mvcc.undoAll x (chain.filterMap entryOf) i)

/-- The record that is undone is there. -/
def Undoable (σ : Database) : LogBody → Prop
  | .insert oid pageId slotId _ _ _ | .delete oid pageId slotId => (σ.heap oid).At ⟨pageId, slotId⟩
  | _ => True

theorem Undoable.mono {body : LogBody} (undoable : Undoable σ body)
    (stays : ∀ oid r, (σ.heap oid).At r → (σ'.heap oid).At r) : Undoable σ' body := by
  cases body with
  | insert | delete => exact stays _ _ undoable
  | begin | commit | rollback | newPage | beginCheckpoint | endCheckpoint => trivial

theorem Undone.refl (x : Nat) (ok : σ.PagesOk) : Undone x [] σ σ where
  frame := rfl
  pagesOk := ok
  stays _ _ := id
  grows _ := id
  versions := funext fun _ => (List.map_id _).symm

/-- A record that no scan comes to is undone without a trace. -/
theorem Rewritten.versions_of_null {oid slotId : Nat} {f : RecordHeader → RecordHeader}
    (ok : σ.PagesOk) (h : Rewritten oid ⟨nullPageId, slotId⟩ f σ σ') :
    σ'.mvcc.versions = σ.mvcc.versions := by
  funext i
  simp only [Database.mvcc]
  by_cases hi : i = oid
  · have hself : ∀ t ∈ σ.rows oid, TablePage.rewrite ⟨nullPageId, slotId⟩ f t = t := by
      intro t ht
      apply if_neg
      intro hrid
      have hok := ok.heap oid
      exact (hok.mem_rest hok.first ht).1 (congrArg Rid.pageId hrid)
    rw [hi, h.rows ok, List.map_congr_left hself, List.map_id']
  · rw [rows_congr (h.others i hi)]

theorem Rewritten.undone {oid : Nat} {rid : Rid} {f : RecordHeader → RecordHeader} {body : LogBody}
    (h : Rewritten oid rid f σ σ') (hversions : σ'.mvcc.versions = fun i =>
      (σ.mvcc.versions i).map (Mvcc.undoAll x ([body].filterMap entryOf) i)) :
    Undone x [body] σ σ' where
  frame := h.frame
  pagesOk := h.pagesOk
  stays := h.stays
  grows := h.grows
  versions := hversions

theorem undo_ends (ok : σ.PagesOk) (hx : x ≠ nullXid) {body : LogBody} (undoable : Undoable σ body) :
    Ends σ (LogManager.undo x body)
      (fun _ σ' => .undoneNewPage ∈ σ'.events ∨ Undone x [body] σ σ')
      fun _ σ' => .undoneNewPage ∈ σ'.events := by
  cases body with
  | insert oid pageId slotId offset size stored =>
      rcases undo_insert (x := x) ok undoable with ⟨σ', rewritten, hrun⟩
      refine .of_eq_ok hrun (.inr (rewritten.undone ?_))
      by_cases hnull : pageId = nullPageId
      · subst hnull
        have hentries : [LogBody.insert oid nullPageId slotId offset size stored].filterMap entryOf =
            [] := by simp [entryOf]
        rw [rewritten.versions_of_null ok, hentries]
        exact funext fun _ => (List.map_id _).symm
      · have hentries : [LogBody.insert oid pageId slotId offset size stored].filterMap entryOf =
            [.insert oid ⟨pageId, slotId⟩] := by simp [entryOf, hnull]
        rw [hentries]
        exact rewritten.versions ok fun t => versionOf_deletedBy hx _ t
  | delete oid pageId slotId =>
      rcases undo_delete (x := x) ok undoable with ⟨σ', rewritten, hrun⟩
      refine .of_eq_ok hrun (.inr (rewritten.undone ?_))
      exact rewritten.versions ok fun t => versionOf_undeleted _ t
  | newPage oid prevPageId pageId =>
      generalize hσ₁ : { σ with events := .undoneNewPage :: σ.events } = σ₁
      have hrun : record .undoneNewPage σ = .ok PUnit.unit σ₁ := hσ₁ ▸ rfl
      have hmem : .undoneNewPage ∈ σ₁.events := hσ₁ ▸ List.mem_cons_self
      apply Ends.bind_of_ok hrun
      apply Ends.bind ((getPage_ends σ₁ oid prevPageId).mono (fun _ _ => id) fun _ _ h => h ▸ hmem)
      rintro prevPage _ rfl
      apply Ends.bind ((getPage_ends _ oid pageId).mono (fun _ _ => id) fun _ _ h => h ▸ hmem)
      rintro page _ rfl
      exact .modify (.inl hmem)
  | begin | commit | rollback | beginCheckpoint | endCheckpoint =>
      exact .pure (.inr ⟨rfl, ok, fun _ _ => id, fun _ => id, funext fun _ => (List.map_id _).symm⟩)

/-- Undoing goes on through the rest of the chain. -/
theorem Undone.trans {body : LogBody} {chain : List LogBody} {σ₁ : Database}
    (h : Undone x [body] σ σ₁) (h' : Undone x chain σ₁ σ') : Undone x (body :: chain) σ σ' where
  frame := by rw [h'.frame, h.frame]
  pagesOk := h'.pagesOk
  stays oid r := h'.stays oid r ∘ h.stays oid r
  grows key := h'.grows key ∘ h.grows key
  versions := by
    funext i
    have hcons : body :: chain = [body] ++ chain := rfl
    simp only [h'.versions, h.versions, List.map_map]
    rw [hcons, List.filterMap_append]
    apply List.map_congr_left
    intro v _
    exact List.foldl_append.symm

theorem undoAll_ends (ok : σ.PagesOk) (hx : x ≠ nullXid) {chain : List LogBody}
    (undoable : ∀ body ∈ chain, Undoable σ body) :
    Ends σ (LogManager.undoAll x chain)
      (fun _ σ' => .undoneNewPage ∈ σ'.events ∨ Undone x chain σ σ')
      fun _ σ' => .undoneNewPage ∈ σ'.events := by
  induction chain generalizing σ with
  | nil => exact .pure (.inr (.refl x ok))
  | cons body chain ih =>
      rcases List.forall_mem_cons.mp undoable with ⟨hbody, hchain⟩
      apply Ends.bind (undo_ends ok hx hbody)
      rintro _ σ₁ (hundone | undone)
      · have hstays := undoAll_events σ₁ x chain
        exact hstays.mono (fun _ _ hsub => .inl (hsub hundone)) fun _ _ hsub => hsub hundone
      · have hrest := ih undone.pagesOk fun b hb => (hchain b hb).mono undone.stays
        exact hrest.mono (fun _ _ h => h.imp_right undone.trans) fun _ _ => id

/-- The records of the log chain of a transaction are there. -/
theorem undoable_of_chain (sound : Sound σ) (inv : Mvcc.Inv σ.mvcc) {chain : List LogBody}
    (hchain : σ.att.find? x = some chain) {body : LogBody} (hbody : body ∈ chain) :
    Undoable σ body := by
  have hlogged := sound.logged x chain hchain body hbody
  have hrow : ∀ oid, ∀ v ∈ σ.mvcc.versions oid, (σ.heap oid).At v.id := by
    intro oid v hv
    rcases List.mem_map.mp hv with ⟨t, ht, rfl⟩
    have hok := sound.pages.heap oid
    exact hok.at_of_mem hok.place_first ht
  have hundo : ∀ e, entryOf body = some e → e ∈ σ.mvcc.undo x := by
    intro e he
    simp only [Database.mvcc, hchain, Option.getD_some]
    exact List.mem_filterMap.mpr ⟨body, hbody, he⟩
  cases body with
  | insert oid pageId slotId =>
      by_cases hnull : pageId = nullPageId
      · rcases hlogged with ⟨hpage, hslot⟩
        rcases Option.isSome_iff_exists.mp hpage with ⟨page, hpage⟩
        refine ⟨page, hpage, ?_⟩
        rw [hslot hnull]
        exact (sound.pages.heap oid).nonempty _ page hpage
      · have he := hundo (.insert oid ⟨pageId, slotId⟩) (if_neg hnull)
        rcases inv.xmin_of_undo x oid _ he with ⟨v, hv, hid, -⟩
        have hat := hrow oid v hv
        rwa [hid] at hat
  | delete oid pageId slotId =>
      rcases inv.xmax_of_undo x oid _ (hundo (.delete oid ⟨pageId, slotId⟩) rfl) with
        ⟨v, hv, hid, -⟩
      have hat := hrow oid v hv
      rwa [hid] at hat
  | begin | commit | rollback | newPage | beginCheckpoint | endCheckpoint => trivial

theorem Undone.sound {chain : List LogBody} (undone : Undone x chain σ σ') (sound : Sound σ) :
    Sound σ' := by
  have hframe := undone.frame
  constructor
  · exact undone.pagesOk
  · apply sound.txn.congr
    · rw [hframe]
    · rw [hframe]
      exact fun _ => Iff.rfl
    · rw [hframe]
  · intro y chain' hchain body hbody
    rw [hframe] at hchain
    exact (sound.logged y chain' hchain body hbody).mono undone.grows

theorem Undone.mvcc {chain : List LogBody} (undone : Undone x chain σ σ')
    (hchain : σ.att.find? x = some chain) :
    σ'.mvcc = σ.mvcc.map (Mvcc.undoAll x (σ.mvcc.undo x)) := by
  have hundo : σ.mvcc.undo x = chain.filterMap entryOf := by
    simp only [Database.mvcc, hchain, Option.getD_some]
  have hsame : σ'.mvcc = { σ.mvcc with versions := σ'.mvcc.versions } := by
    rw [undone.frame]
    rfl
  rw [hsame, undone.versions, hundo]
  rfl

/-- The state after a transaction has been rolled back. -/
structure RolledBack (conn x : Nat) (σ σ' : Database) : Prop where
  sound : Sound σ'
  mvcc : σ'.mvcc = (σ.mvcc.map (Mvcc.undoAll x (σ.mvcc.undo x))).finish x (.rolledBack x)
  xids : σ'.xids = σ.xids.erase conn
  locks : σ'.locks = σ.locks.releaseLocks x
  auto : σ'.autoTransactionSet = σ.autoTransactionSet
  levels : σ'.isolationLevels = σ.isolationLevels
  events : σ'.events = .rolledBack x :: σ.events

/-- `DatabaseEngine::Rollback`. -/
theorem rollback_ends (sound : Sound σ) (inv : Mvcc.Inv σ.mvcc) (hconn : σ.xids.find? conn = some x) :
    Ends σ (DatabaseEngine.rollback conn)
      (fun _ σ' => .undoneNewPage ∈ σ'.events ∨ RolledBack conn x σ σ')
      fun _ σ' => .undoneNewPage ∈ σ'.events := by
  have active := sound.txn.active_of_conn hconn
  rcases sound.txn.exists_chain active with ⟨chain, hchain⟩
  have hundo : Ends σ (LogManager.rollback x)
      (fun _ σ' => .undoneNewPage ∈ σ'.events ∨ Undone x chain σ σ')
      fun _ σ' => .undoneNewPage ∈ σ'.events := by
    apply Ends.get_bind
    rw [hchain]
    exact undoAll_ends sound.pages (Nat.ne_of_lt (sound.txn.lt_nullXid active))
      fun body hbody => undoable_of_chain sound inv hchain hbody
  apply Ends.bind_of_ok (xidOf_eq hconn)
  apply Ends.bind (hundo.mono (fun _ _ => id) fun _ _ => id)
  rintro _ σ₁ (hundone | undone)
  · exact (end_events σ₁ conn x _ _ _).mono (fun _ _ hsub => .inl (hsub hundone))
      fun _ _ hsub => hsub hundone
  · have sound₁ := undone.sound sound
    have hactive : σ₁.mvcc.active = σ.mvcc.active := by
      rw [undone.mvcc hchain]
      rfl
    have hconn₁ : σ₁.xids.find? conn = some x := by
      rw [undone.frame]
      exact hconn
    have hrun := end_eq sound₁.txn (hactive ▸ active) conn "AppendRollbackLog" "Rollback"
      (.rolledBack x)
    refine .of_eq_ok hrun (.inr ?_)
    have hframe := undone.frame
    constructor
    · exact sound_ended sound₁ hconn₁ _
    · rw [mvcc_ended conn rfl, undone.mvcc hchain]
    · rw [hframe]
      rfl
    · rw [hframe]
      rfl
    · rw [hframe]
      rfl
    · rw [hframe]
      rfl
    · rw [hframe]
      rfl

end Sql

end HuaDB
