import HuaDB.StorageRel
import HuaDB.TableSpec

/-!
Invariants of page contents, in the buffer pool and on disk.

An invariant is a pair of predicates, one on the entries of the pool and one on
the images on disk, both relative to the log records of the state
(`PageInvariant`). What the pool does to pages by itself, which is to write an
entry back after flushing the log up to the page's LSN, and to load an image,
must lead from one predicate to the other; then fetching any page keeps the
invariant (`PageInvariant.getPage`), and modifying one does if the modification
does.
-/

namespace HuaDB

open EStateM (RunsFrom)

/-- A frame predicate and an image predicate that the buffer pool respects. -/
structure PageInvariant (frameOk : Engine → BufferPoolEntry → Prop)
    (imageOk : Engine → FilePath → Nat → TablePage → Prop) : Prop where
  /-- The predicates read the log records of the state only. -/
  frame_congr : ∀ {σ σ' : Engine} {entry}, σ'.disk.log = σ.disk.log →
    σ'.log.logBuffer = σ.log.logBuffer → frameOk σ entry → frameOk σ' entry
  image_congr : ∀ {σ σ' : Engine} {path pageId page}, σ'.disk.log = σ.disk.log →
    σ'.log.logBuffer = σ.log.logBuffer → imageOk σ path pageId page → imageOk σ' path pageId page
  frame_flushLog : ∀ {σ : Engine} lsn {entry}, frameOk σ entry → frameOk (σ.flushLog lsn) entry
  image_flushLog : ∀ {σ : Engine} lsn {path pageId page},
    imageOk σ path pageId page → imageOk (σ.flushLog lsn) path pageId page
  written : ∀ {σ : Engine} {entry}, frameOk σ entry → entry.isDirty = true →
    imageOk (σ.flushLog entry.page.pageLsn) ⟨entry.dbOid, entry.tableOid⟩ entry.pageId entry.page
  loaded : ∀ {σ : Engine} {path pageId page}, imageOk σ path pageId page →
    frameOk σ ⟨path.dbOid, path.tableOid, pageId, page, false⟩
  blank : ∀ {σ : Engine} {dbOid tableOid pageId},
    frameOk σ ⟨dbOid, tableOid, pageId, .zero, false⟩
  hole : ∀ {σ : Engine} {path pageId}, imageOk σ path pageId .zero

/-- Every entry and every image satisfies its predicate. -/
structure PagesOk (frameOk : Engine → BufferPoolEntry → Prop)
    (imageOk : Engine → FilePath → Nat → TablePage → Prop) (σ : Engine) : Prop where
  frames : ∀ entry ∈ σ.pool.buffers, frameOk σ entry
  images : ∀ path file, σ.disk.files path = some file → ∀ pageId,
    imageOk σ path pageId (file.page pageId)

namespace PageInvariant

variable {frameOk : Engine → BufferPoolEntry → Prop}
  {imageOk : Engine → FilePath → Nat → TablePage → Prop} (inv : PageInvariant frameOk imageOk)
include inv

/-- A state with the same records, files and entries. -/
theorem congr {σ σ' : Engine} (ok : PagesOk frameOk imageOk σ) (hlog : σ'.disk.log = σ.disk.log)
    (hbuffer : σ'.log.logBuffer = σ.log.logBuffer) (hfiles : σ'.disk.files = σ.disk.files)
    (hframes : ∀ entry ∈ σ'.pool.buffers, entry ∈ σ.pool.buffers ∨ frameOk σ entry) :
    PagesOk frameOk imageOk σ' where
  frames entry hmem := inv.frame_congr hlog hbuffer ((hframes entry hmem).elim (ok.frames entry) id)
  images path file hfile pageId :=
    inv.image_congr hlog hbuffer (ok.images path file (hfiles ▸ hfile) pageId)

theorem flushLog {σ : Engine} (ok : PagesOk frameOk imageOk σ) (lsn : Nat) :
    PagesOk frameOk imageOk (σ.flushLog lsn) where
  frames entry hmem :=
    inv.frame_flushLog lsn (ok.frames entry (by rwa [Engine.flushLog_pool] at hmem))
  images path file hfile pageId :=
    inv.image_flushLog lsn (ok.images path file (by rwa [Engine.flushLog_files] at hfile) pageId)

/-- Writing an image that satisfies the predicate. -/
theorem writePage {σ : Engine} (ok : PagesOk frameOk imageOk σ) {path : FilePath} {pageId : Nat}
    {page : TablePage} (himage : imageOk σ path pageId page) :
    PagesOk frameOk imageOk { σ with disk := σ.disk.writePage path pageId page } := by
  cases hpath : σ.disk.files path with
  | none =>
      rw [Disk.writePage_of_none hpath]
      exact ok
  | some file =>
      rw [Disk.writePage_of_some hpath]
      refine ⟨fun entry hmem => inv.frame_congr (σ := σ) rfl rfl (ok.frames entry hmem), ?_⟩
      intro path' file' hfile' pageId'
      refine inv.image_congr (σ := σ) rfl rfl ?_
      dsimp only at hfile'
      split at hfile'
      · rename_i hpath'
        subst hpath'
        cases hfile'
        dsimp only
        split
        · rename_i hpageId
          exact hpageId ▸ himage
        · exact ok.images _ _ hpath _
      · exact ok.images _ _ hfile' _

/-- Files may go, and empty files may come. -/
theorem changeFiles {σ : Engine} (ok : PagesOk frameOk imageOk σ)
    {files : FilePath → Option DataFile}
    (hfiles : ∀ path file, files path = some file →
      σ.disk.files path = some file ∨ file = DataFile.empty) :
    PagesOk frameOk imageOk { σ with disk := { σ.disk with files := files } } where
  frames entry hmem := inv.frame_congr (σ := σ) rfl rfl (ok.frames entry hmem)
  images path file hfile pageId := by
    refine inv.image_congr (σ := σ) rfl rfl ?_
    rcases hfiles path file hfile with hold | rfl
    · exact ok.images path file hold pageId
    · exact inv.hole

theorem flushPage {σ : Engine} (ok : PagesOk frameOk imageOk σ) (frame : Nat) :
    PagesOk frameOk imageOk (σ.flushPage frame) := by
  unfold Engine.flushPage
  split
  · exact ok
  · rename_i entry hentry
    dsimp only
    have hframe := ok.frames entry (List.mem_of_getElem? hentry)
    split
    · rename_i hdirty
      have hflushed := inv.flushLog ok entry.page.pageLsn
      have hwritten := inv.writePage hflushed (inv.written hframe hdirty)
      exact inv.congr hwritten rfl rfl rfl fun _ hmem => .inl hmem
    · exact inv.congr ok rfl rfl rfl fun _ hmem => .inl hmem

/-- An entry outside the pool keeps its predicate while another is written back. -/
theorem frame_flushPage {σ : Engine} {entry : BufferPoolEntry} (hentry : frameOk σ entry)
    (frame : Nat) : frameOk (σ.flushPage frame) entry := by
  unfold Engine.flushPage
  split
  · exact hentry
  · rename_i written _
    dsimp only
    split
    · have hlog := (σ.flushLog written.page.pageLsn).disk.writePage_log
        ⟨written.dbOid, written.tableOid⟩ written.pageId written.page
      exact inv.frame_congr hlog rfl (inv.frame_flushLog written.page.pageLsn hentry)
    · exact inv.frame_congr (σ := σ) rfl rfl hentry

/-- `BufferPool::Flush`. -/
theorem flushBuffers {σ : Engine} (ok : PagesOk frameOk imageOk σ) (regularOnly : Bool) :
    PagesOk frameOk imageOk (σ.flushBuffers regularOnly) := by
  have hflushed (frames : List Nat) : PagesOk frameOk imageOk (frames.foldl Engine.flushPage σ) := by
    induction frames generalizing σ with
    | nil => exact ok
    | cons frame frames ih => exact ih (inv.flushPage ok frame)
  have hempty : PagesOk frameOk imageOk
      { (List.range σ.pool.buffers.length).foldl Engine.flushPage σ with
        pool := { ((List.range σ.pool.buffers.length).foldl Engine.flushPage σ).pool with
          buffers := [] } } :=
    inv.congr (hflushed (List.range σ.pool.buffers.length)) rfl rfl rfl
      fun _ hmem => absurd hmem List.not_mem_nil
  unfold Engine.flushBuffers
  cases regularOnly with
  | true => exact hempty
  | false => exact inv.congr hempty rfl rfl rfl fun _ hmem => .inl hmem

/-! ## Fetching and modifying pages -/

theorem addToBuffer {σ σ' : Engine} (ok : PagesOk frameOk imageOk σ) {entry : BufferPoolEntry}
    (hentry : frameOk σ entry) {frame : Nat}
    (run : BufferPool.addToBuffer entry σ = .ok frame σ') : PagesOk frameOk imageOk σ' := by
  rcases BufferPool.addToBuffer_eq_ok_iff.mp run with ⟨-, -, rfl⟩ | ⟨-, -, rfl⟩
  · have hvec : PagesOk frameOk imageOk
        { σ with pool := { σ.pool with bufferVec := σ.pool.bufferVec.erase frame } } :=
      inv.congr ok rfl rfl rfl fun _ hmem => .inl hmem
    refine inv.congr (inv.flushPage hvec frame) rfl rfl rfl fun e hmem => ?_
    rcases List.mem_or_eq_of_mem_set hmem with hold | rfl
    · exact .inl hold
    · refine .inr (inv.frame_flushPage ?_ frame)
      exact inv.frame_congr (σ := σ) rfl rfl hentry
  · refine inv.congr ok rfl rfl rfl fun e hmem => ?_
    rcases List.mem_append.mp hmem with hold | hnew
    · exact .inl hold
    · exact .inr (List.mem_singleton.mp hnew ▸ hentry)

theorem getPage {σ σ' : Engine} (ok : PagesOk frameOk imageOk σ)
    {dbOid tableOid pageId frame : Nat}
    (run : BufferPool.getPage dbOid tableOid pageId σ = .ok frame σ') :
    PagesOk frameOk imageOk σ' := by
  unfold BufferPool.getPage at run
  rw [EStateM.bind_of_ok (EStateM.get_eq_ok_iff.mpr ⟨rfl, rfl⟩)] at run
  cases hmap : σ.pool.hashmap ⟨tableOid, pageId⟩ with
  | none =>
      rw [hmap] at run
      cases hread : σ.disk.readPage ⟨dbOid, tableOid⟩ pageId with
      | error e =>
          simp only [hread] at run
          cases run
      | ok page =>
          simp only [hread] at run
          obtain ⟨file, hfile, -, rfl⟩ := Disk.readPage_eq_ok_iff.mp hread
          exact inv.addToBuffer ok (inv.loaded (ok.images _ _ hfile pageId)) run
  | some frame' =>
      rw [hmap] at run
      cases run
      exact inv.congr ok rfl rfl rfl fun _ hmem => .inl hmem

theorem newPage {σ σ' : Engine} (ok : PagesOk frameOk imageOk σ)
    {dbOid tableOid pageId frame : Nat}
    (run : BufferPool.newPage dbOid tableOid pageId σ = .ok frame σ') :
    PagesOk frameOk imageOk σ' :=
  inv.addToBuffer ok inv.blank run

theorem withPage {σ : Engine} (ok : PagesOk frameOk imageOk σ) {frame : Nat} {page : TablePage}
    (hpage : ∀ entry, σ.pool.buffers[frame]? = some entry →
      frameOk σ { entry with page := page, isDirty := true }) :
    PagesOk frameOk imageOk { σ with pool := σ.pool.withPage frame page } := by
  refine inv.congr ok rfl rfl rfl fun e hmem => ?_
  rcases BufferPool.mem_withPage hmem with hold | ⟨entry, hentry, rfl⟩
  · exact .inl hold
  · exact .inr (hpage entry hentry)

/-- Modifying a page in a way that keeps the predicate. -/
theorem modifyPage {σ σ' : Engine} (ok : PagesOk frameOk imageOk σ) {frame : Nat}
    {f : TablePage → TablePage}
    (hf : ∀ entry, frameOk σ entry → frameOk σ { entry with page := f entry.page, isDirty := true })
    (run : BufferPool.modifyPage frame f σ = .ok () σ') : PagesOk frameOk imageOk σ' := by
  obtain ⟨entry, hentry, rfl⟩ := BufferPool.modifyPage_eq_ok run
  refine inv.withPage ok fun entry' hentry' => ?_
  cases hentry.symm.trans hentry'
  exact hf entry (ok.frames entry (List.mem_of_getElem? hentry))

theorem modifyPage? {σ σ' : Engine} (ok : PagesOk frameOk imageOk σ) {frame : Nat}
    {f : TablePage → Option TablePage}
    (hf : ∀ entry page, frameOk σ entry → f entry.page = some page →
      frameOk σ { entry with page := page, isDirty := true })
    (run : BufferPool.modifyPage? frame f σ = .ok () σ') : PagesOk frameOk imageOk σ' := by
  obtain ⟨entry, page, hentry, hpage, rfl⟩ := BufferPool.modifyPage?_eq_ok run
  refine inv.withPage ok fun entry' hentry' => ?_
  cases hentry.symm.trans hentry'
  exact hf entry page (ok.frames entry (List.mem_of_getElem? hentry)) hpage

/-- The walk of `Table::InsertRecord` over the pages of a table, which may link
the last one to its successor. -/
theorem findRoom
    (hlink : ∀ {σ : Engine} {entry} pageId, frameOk σ entry →
      frameOk σ { entry with page := entry.page.setNextPageId pageId, isDirty := true })
    {dbOid oid size fuel lastPageId nextPageId : Nat} {σ σ' : Engine}
    (ok : PagesOk frameOk imageOk σ) {found : Option Nat × Nat}
    (run : Table.findRoom dbOid oid size fuel lastPageId nextPageId σ = .ok found σ') :
    PagesOk frameOk imageOk σ' := by
  induction fuel generalizing lastPageId nextPageId σ with
  | zero => cases run
  | succ fuel ih =>
      rcases Table.findRoom_succ_eq_ok run with ⟨-, -, rfl⟩ | ⟨-, frame, σ₁, entry, hget, hentry, h⟩
      · exact ok
      have ok₁ := inv.getPage ok hget
      rcases h with ⟨-, -, rfl⟩ | ⟨-, hrest⟩
      · exact ok₁
      refine ih ?_ hrest
      unfold Table.linked
      split
      · refine inv.withPage ok₁ fun entry' hentry' => ?_
        cases hentry.symm.trans hentry'
        exact hlink _ (ok₁.frames entry (List.mem_of_getElem? hentry))
      · exact ok₁

end PageInvariant

end HuaDB
