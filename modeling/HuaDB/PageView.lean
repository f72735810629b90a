import HuaDB.LogInvariant

/-!
What a caller of the buffer pool sees of a table.

A page is seen in its frame where `hashmap_` has one, and on disk otherwise
(`Engine.view`). As long as the pool holds one frame at most for each page of a
table (`Cached`), evictions and flushes change nothing that is seen
(`Shows`), and modifying a frame changes the one page it holds.
-/

namespace List

theorem modify_concat_length {α : Type} (l : List α) (a : α) (f : α → α) :
    (l ++ [a]).modify l.length f = l ++ [f a] := by
  induction l with
  | nil => rfl
  | cons b l ih => simpa [List.modify] using ih

end List

namespace HuaDB

/-! ## Images on disk -/

namespace Disk

variable {disk : Disk} {path path' : FilePath} {pageId pageId' : Nat} {page page' : TablePage}

theorem image?_eq_some_iff :
    disk.image? path pageId = some page ↔
      ∃ file, disk.files path = some file ∧ pageId < file.pageCount ∧ file.page pageId = page := by
  unfold image?
  rw [Option.bind_eq_some_iff]
  refine exists_congr fun file => and_congr_right fun _ => ?_
  split <;> simp [*]

theorem image?_congr {disk' : Disk} (h : disk'.files path = disk.files path) (pageId : Nat) :
    disk'.image? path pageId = disk.image? path pageId := by
  rw [image?, image?, h]

theorem image?_writePage_self (hfile : (disk.files path).isSome) :
    (disk.writePage path pageId page).image? path pageId = some page := by
  obtain ⟨file, hfile⟩ := Option.isSome_iff_exists.mp hfile
  rw [writePage_of_some hfile, image?_eq_some_iff]
  dsimp only
  rw [if_pos rfl]
  exact ⟨_, rfl, Nat.lt_of_lt_of_le (Nat.lt_succ_self _) (Nat.le_max_right _ _), if_pos rfl⟩

/-- Writing a page keeps the images of the others. A hole may become a page. -/
theorem image?_writePage_of_ne (hne : path' = path → pageId' ≠ pageId)
    (h : disk.image? path' pageId' = some page') :
    (disk.writePage path pageId page).image? path' pageId' = some page' := by
  cases hfile : disk.files path with
  | none =>
      rw [writePage_of_none hfile]
      exact h
  | some file =>
      rw [writePage_of_some hfile, image?_eq_some_iff]
      obtain ⟨file', hfile', hlt, hpage⟩ := image?_eq_some_iff.mp h
      dsimp only
      by_cases hpath : path' = path
      · subst hpath
        cases hfile.symm.trans hfile'
        rw [if_pos rfl]
        refine ⟨_, rfl, Nat.lt_of_lt_of_le hlt (Nat.le_max_left _ _), ?_⟩
        dsimp only
        rw [if_neg (hne rfl), hpage]
      · rw [if_neg hpath]
        exact ⟨file', hfile', hlt, hpage⟩

theorem files_writePage_isSome (h : (disk.files path').isSome) :
    ((disk.writePage path pageId page).files path').isSome := by
  cases hfile : disk.files path with
  | none =>
      rw [writePage_of_none hfile]
      exact h
  | some file =>
      rw [writePage_of_some hfile]
      dsimp only
      split
      · rfl
      · exact h

theorem readPage_eq_ok_iff_image? :
    disk.readPage path pageId = .ok page ↔ disk.image? path pageId = some page := by
  rw [readPage_eq_ok_iff, image?_eq_some_iff]
  simp only [eq_comm]

end Disk

/-! ## The view -/

/-- The page that `BufferPool::GetPage` hands out for a key. -/
def Engine.view (σ : Engine) (dbOid : Nat) (key : TablePageid) : Option TablePage :=
  match σ.pool.hashmap key with
  | some frame => σ.pool.buffers[frame]?.map BufferPoolEntry.page
  | none => σ.disk.image? ⟨dbOid, key.tableOid⟩ key.pageId

/-- The frames of the pool are in its least recently used list. The list may hold
frames of before a flush. -/
structure PoolShape (pool : BufferPool) : Prop where
  nodup : pool.bufferVec.Nodup
  bound : ∀ i ∈ pool.bufferVec, i < bufferSize
  accessed : ∀ i < pool.buffers.length, i ∈ pool.bufferVec
  size : pool.buffers.length ≤ bufferSize

/-- The live frames of the pool and the file of a table agree: `hashmap_` leads to
live frames of the key it is asked for, to each of the table's, and those differ
from the image on disk only where they are dirty. -/
structure CachedOn (live : Nat → Prop) (dbOid oid : Nat) (σ : Engine) : Prop where
  file : (σ.disk.files ⟨dbOid, oid⟩).isSome
  mapped : ∀ key i, σ.pool.hashmap key = some i →
    live i ∧ ∃ entry, σ.pool.buffers[i]? = some entry ∧ entry.key = key
  frame : ∀ i entry, live i → σ.pool.buffers[i]? = some entry → entry.tableOid = oid →
    entry.dbOid = dbOid ∧ σ.pool.hashmap entry.key = some i ∧
      (entry.isDirty = false → σ.disk.image? ⟨dbOid, oid⟩ entry.pageId = some entry.page)

/-- Between operations every frame is live. -/
structure Cached (dbOid oid : Nat) (σ : Engine) : Prop
    extends CachedOn (fun _ => True) dbOid oid σ where
  shape : PoolShape σ.pool

/-- The pages of a table that are seen in one state are seen in another. -/
def Shows (dbOid oid : Nat) (σ σ' : Engine) : Prop :=
  ∀ pageId page, σ.view dbOid ⟨oid, pageId⟩ = some page → σ'.view dbOid ⟨oid, pageId⟩ = some page

theorem Shows.refl (dbOid oid : Nat) (σ : Engine) : Shows dbOid oid σ σ := fun _ _ h => h

theorem Shows.trans {dbOid oid : Nat} {σ₁ σ₂ σ₃ : Engine} (h₁ : Shows dbOid oid σ₁ σ₂)
    (h₂ : Shows dbOid oid σ₂ σ₃) : Shows dbOid oid σ₁ σ₃ :=
  fun pageId page h => h₂ pageId page (h₁ pageId page h)

namespace Engine

variable {σ σ' : Engine} {dbOid : Nat} {key : TablePageid} {frame : Nat} {entry : BufferPoolEntry}

theorem view_of_frame (hmap : σ.pool.hashmap key = some frame)
    (hentry : σ.pool.buffers[frame]? = some entry) : σ.view dbOid key = some entry.page := by
  simp only [view, hmap, hentry, Option.map_some]

theorem view_of_none (hmap : σ.pool.hashmap key = none) :
    σ.view dbOid key = σ.disk.image? ⟨dbOid, key.tableOid⟩ key.pageId := by
  simp only [view, hmap]

/-- The view depends on the frames, `hashmap_` and the files only. -/
theorem view_congr (hbuffers : σ'.pool.buffers = σ.pool.buffers)
    (hhashmap : σ'.pool.hashmap = σ.pool.hashmap) (hfiles : σ'.disk.files = σ.disk.files)
    (dbOid : Nat) (key : TablePageid) : σ'.view dbOid key = σ.view dbOid key := by
  rw [view, view, hbuffers, hhashmap, Disk.image?_congr (congrFun hfiles _)]

/-! ## Writing a frame back -/

theorem flushPage_pool (hentry : σ.pool.buffers[frame]? = some entry) :
    (σ.flushPage frame).pool =
      { σ.pool with hashmap := fun k => if k = entry.key then none else σ.pool.hashmap k } := by
  have hlog : (σ.logFlushPage entry.key entry.page.pageLsn).pool = σ.pool := σ.flushLog_pool _
  unfold flushPage
  rw [hentry]
  dsimp only
  split
  · dsimp only
    rw [hlog]
  · rfl

theorem flushPage_files (hentry : σ.pool.buffers[frame]? = some entry) :
    (σ.flushPage frame).disk.files =
      if entry.isDirty then
        (σ.disk.writePage ⟨entry.dbOid, entry.tableOid⟩ entry.pageId entry.page).files
      else
        σ.disk.files := by
  have hfiles : (σ.logFlushPage entry.key entry.page.pageLsn).disk.files = σ.disk.files :=
    σ.flushLog_files _
  unfold flushPage
  rw [hentry]
  dsimp only
  split
  · dsimp only
    simp only [Disk.writePage, hfiles]
    split <;> simp [hfiles]
  · rfl

theorem files_flushPage_isSome (frame : Nat) {path : FilePath} (h : (σ.disk.files path).isSome) :
    ((σ.flushPage frame).disk.files path).isSome := by
  cases hentry : σ.pool.buffers[frame]? with
  | none =>
      unfold flushPage
      rw [hentry]
      exact h
  | some entry =>
      rw [flushPage_files hentry]
      split
      · exact Disk.files_writePage_isSome h
      · exact h

/-- The image of another page stays. -/
theorem image?_flushPage_of_ne (hentry : σ.pool.buffers[frame]? = some entry) {path : FilePath}
    {pageId : Nat} {page : TablePage}
    (hne : path = ⟨entry.dbOid, entry.tableOid⟩ → pageId ≠ entry.pageId)
    (h : σ.disk.image? path pageId = some page) :
    (σ.flushPage frame).disk.image? path pageId = some page := by
  have hfiles := flushPage_files hentry
  split at hfiles
  · rw [Disk.image?_congr (congrFun hfiles path)]
    exact Disk.image?_writePage_of_ne hne h
  · rw [Disk.image?_congr (congrFun hfiles path), h]

/-- The page that was in the frame is the image on disk. -/
theorem image?_flushPage_self (hentry : σ.pool.buffers[frame]? = some entry)
    (hfile : (σ.disk.files ⟨entry.dbOid, entry.tableOid⟩).isSome)
    (hclean : entry.isDirty = false →
      σ.disk.image? ⟨entry.dbOid, entry.tableOid⟩ entry.pageId = some entry.page) :
    (σ.flushPage frame).disk.image? ⟨entry.dbOid, entry.tableOid⟩ entry.pageId =
      some entry.page := by
  have hfiles := flushPage_files hentry
  split at hfiles
  · rw [Disk.image?_congr (congrFun hfiles _)]
    exact Disk.image?_writePage_self hfile
  · rename_i hdirty
    rw [Disk.image?_congr (congrFun hfiles _)]
    exact hclean (Bool.eq_false_iff.mpr hdirty)

end Engine

namespace CachedOn

variable {live : Nat → Prop} {dbOid oid : Nat} {σ σ' : Engine} {frame : Nat}
  {entry : BufferPoolEntry}

theorem congr (ok : CachedOn live dbOid oid σ) (hbuffers : σ'.pool.buffers = σ.pool.buffers)
    (hhashmap : σ'.pool.hashmap = σ.pool.hashmap) (hfiles : σ'.disk.files = σ.disk.files) :
    CachedOn live dbOid oid σ' where
  file := hfiles ▸ ok.file
  mapped := by
    rw [hbuffers, hhashmap]
    exact ok.mapped
  frame i entry hlive hentry htable := by
    rw [hbuffers] at hentry
    rw [hhashmap, Disk.image?_congr (congrFun hfiles _)]
    exact ok.frame i entry hlive hentry htable

/-- No two live frames hold the same page of the table. -/
theorem frame_unique (ok : CachedOn live dbOid oid σ) {i : Nat} {other : BufferPoolEntry}
    (hlive : live frame) (hentry : σ.pool.buffers[frame]? = some entry) (htable : entry.tableOid = oid)
    (hmap : σ.pool.hashmap other.key = some i) (hkey : other.key = entry.key) : i = frame := by
  have hframe := (ok.frame frame entry hlive hentry htable).2.1
  rw [← hkey, hmap] at hframe
  exact Option.some.inj hframe

/-- Writing a live frame back retires it. -/
theorem flushPage (ok : CachedOn live dbOid oid σ) (hlive : live frame)
    (hentry : σ.pool.buffers[frame]? = some entry) :
    CachedOn (fun i => live i ∧ i ≠ frame) dbOid oid (σ.flushPage frame) where
  file := Engine.files_flushPage_isSome frame ok.file
  mapped key i hmap := by
    rw [Engine.flushPage_pool hentry] at hmap ⊢
    dsimp only at hmap ⊢
    split at hmap
    · cases hmap
    · rename_i hkey
      obtain ⟨hi, e, he, rfl⟩ := ok.mapped key i hmap
      refine ⟨⟨hi, ?_⟩, e, he, rfl⟩
      rintro rfl
      cases hentry.symm.trans he
      exact hkey rfl
  frame i e hi he htable := by
    rw [Engine.flushPage_pool hentry] at he ⊢
    dsimp only at he ⊢
    obtain ⟨hdb, hmap, hclean⟩ := ok.frame i e hi.1 he htable
    have hkey : e.key ≠ entry.key := by
      intro hkey
      have htable' : entry.tableOid = oid := (congrArg TablePageid.tableOid hkey).symm.trans htable
      exact hi.2 (ok.frame_unique hlive hentry htable' hmap hkey)
    refine ⟨hdb, by rw [if_neg hkey]; exact hmap, fun hdirty => ?_⟩
    refine Engine.image?_flushPage_of_ne hentry (fun hpath hpage => hkey ?_) (hclean hdirty)
    have hoid : oid = entry.tableOid := congrArg FilePath.tableOid hpath
    rw [BufferPoolEntry.key, BufferPoolEntry.key, hpage, htable, hoid]

/-- Nothing that is seen changes. -/
theorem shows_flushPage (ok : CachedOn live dbOid oid σ) (hlive : live frame)
    (hentry : σ.pool.buffers[frame]? = some entry) : Shows dbOid oid σ (σ.flushPage frame) := by
  intro pageId page hview
  have hpool := Engine.flushPage_pool hentry
  by_cases hkey : (⟨oid, pageId⟩ : TablePageid) = entry.key
  · -- the page of the frame itself is seen on disk from now on
    have htable : entry.tableOid = oid := (congrArg TablePageid.tableOid hkey).symm
    have hpage : entry.pageId = pageId := (congrArg TablePageid.pageId hkey).symm
    obtain ⟨hdb, hmap, hclean⟩ := ok.frame frame entry hlive hentry htable
    rw [Engine.view_of_frame (hkey ▸ hmap) hentry] at hview
    cases hview
    subst htable hpage hdb
    rw [Engine.view_of_none (by rw [hpool]; exact if_pos hkey)]
    exact Engine.image?_flushPage_self hentry ok.file hclean
  · cases hmap : σ.pool.hashmap ⟨oid, pageId⟩ with
    | some i =>
        obtain ⟨-, e, he, -⟩ := ok.mapped _ i hmap
        rw [Engine.view_of_frame hmap he] at hview
        rw [@Engine.view_of_frame _ _ _ i e, hview]
        · rw [hpool]
          exact (if_neg hkey).trans hmap
        · rw [hpool]
          exact he
    | none =>
        rw [Engine.view_of_none hmap] at hview
        rw [Engine.view_of_none (by rw [hpool]; exact (if_neg hkey).trans hmap)]
        refine Engine.image?_flushPage_of_ne hentry (fun hpath hpage => hkey ?_) hview
        have hoid : oid = entry.tableOid := congrArg FilePath.tableOid hpath
        exact congrArg₂ TablePageid.mk hoid hpage

/-- Nothing is mapped to a frame that does not exist. -/
theorem retireNew (ok : CachedOn live dbOid oid σ) (hframe : σ.pool.buffers.length ≤ frame) :
    CachedOn (fun i => live i ∧ i ≠ frame) dbOid oid σ where
  file := ok.file
  mapped key i hmap := by
    obtain ⟨hlive, e, he, hkey⟩ := ok.mapped key i hmap
    refine ⟨⟨hlive, ?_⟩, e, he, hkey⟩
    have hlt := (List.getElem?_eq_some_iff.mp he).1
    exact fun h => Nat.not_lt_of_le hframe (h ▸ hlt)
  frame i entry hlive := ok.frame i entry hlive.1

end CachedOn

/-! ## Handing out a frame -/

/-- An entry of the table may enter the pool: its page is in no frame, and it is
dirty or the image on disk. -/
def BufferPoolEntry.MayEnter (entry : BufferPoolEntry) (dbOid oid : Nat) (σ : Engine) : Prop :=
  entry.tableOid = oid → entry.dbOid = dbOid ∧ σ.pool.hashmap entry.key = none ∧
    (entry.isDirty = false → σ.disk.image? ⟨dbOid, oid⟩ entry.pageId = some entry.page)

/-- Putting an entry into a retired frame. -/
structure Installs (frame : Nat) (entry : BufferPoolEntry) (σ σ' : Engine) : Prop where
  self : σ'.pool.buffers[frame]? = some entry
  other : ∀ i, i ≠ frame → σ'.pool.buffers[i]? = σ.pool.buffers[i]?
  hashmap : σ'.pool.hashmap =
    fun k => if k = entry.key then some frame else σ.pool.hashmap k
  files : σ'.disk.files = σ.disk.files

namespace Installs

variable {dbOid oid : Nat} {σ σ' : Engine} {frame : Nat} {entry : BufferPoolEntry}

theorem cached (installs : Installs frame entry σ σ')
    (ok : CachedOn (fun i => True ∧ i ≠ frame) dbOid oid σ) (enter : entry.MayEnter dbOid oid σ) :
    CachedOn (fun _ => True) dbOid oid σ' where
  file := installs.files ▸ ok.file
  mapped key i hmap := by
    rw [installs.hashmap] at hmap
    dsimp only at hmap
    split at hmap
    · rename_i hkey
      cases hmap
      exact ⟨trivial, entry, installs.self, hkey.symm⟩
    · obtain ⟨⟨-, hi⟩, e, he, hkey⟩ := ok.mapped key i hmap
      exact ⟨trivial, e, (installs.other i hi).trans he, hkey⟩
  frame i e _ he htable := by
    rw [installs.hashmap, Disk.image?_congr (congrFun installs.files _)]
    dsimp only
    by_cases hi : i = frame
    · subst hi
      cases installs.self.symm.trans he
      obtain ⟨hdb, -, hclean⟩ := enter htable
      exact ⟨hdb, if_pos rfl, hclean⟩
    · obtain ⟨hdb, hmap, hclean⟩ := ok.frame i e ⟨trivial, hi⟩ ((installs.other i hi).symm.trans he) htable
      refine ⟨hdb, ?_, hclean⟩
      rw [if_neg, hmap]
      intro hkey
      have hentry : entry.tableOid = oid := (congrArg TablePageid.tableOid hkey).symm.trans htable
      rw [hkey, (enter hentry).2.1] at hmap
      cases hmap

theorem view_of_ne (installs : Installs frame entry σ σ')
    (ok : CachedOn (fun i => True ∧ i ≠ frame) dbOid oid σ) {key : TablePageid}
    (hkey : key ≠ entry.key) : σ'.view dbOid key = σ.view dbOid key := by
  have hhashmap : σ'.pool.hashmap key = σ.pool.hashmap key := by
    rw [installs.hashmap]
    exact if_neg hkey
  rw [Engine.view, Engine.view, hhashmap, Disk.image?_congr (congrFun installs.files _)]
  cases hmap : σ.pool.hashmap key with
  | none => rfl
  | some i =>
      exact congrArg (Option.map BufferPoolEntry.page) (installs.other i (ok.mapped key i hmap).1.2)

end Installs

namespace BufferPool

/-- What `addToBuffer` does: it retires the frame it returns and installs the entry. -/
theorem addToBuffer_installs {entry : BufferPoolEntry} {σ σ' : Engine} {frame dbOid oid : Nat}
    (ok : Cached dbOid oid σ) (run : addToBuffer entry σ = .ok frame σ') :
    ∃ σ₁, Installs frame entry σ₁ σ' ∧ CachedOn (fun i => True ∧ i ≠ frame) dbOid oid σ₁ ∧
      Shows dbOid oid σ σ₁ ∧ (entry.MayEnter dbOid oid σ → entry.MayEnter dbOid oid σ₁) ∧
      (∀ key, σ.pool.hashmap key = none → σ₁.pool.hashmap key = none) ∧
      σ₁.pool.buffers = σ.pool.buffers := by
  rcases addToBuffer_eq_ok_iff.mp run with ⟨hfull, hlast, rfl⟩ | ⟨-, rfl, rfl⟩
  · let σ₀ : Engine := { σ with pool := { σ.pool with bufferVec := σ.pool.bufferVec.erase frame } }
    have hlt : frame < σ.pool.buffers.length :=
      hfull ▸ ok.shape.bound frame (List.mem_of_getLast? hlast)
    have hentry : σ₀.pool.buffers[frame]? = some σ.pool.buffers[frame] :=
      List.getElem?_eq_getElem hlt
    have ok₀ : CachedOn (fun _ => True) dbOid oid σ₀ := ok.toCachedOn.congr rfl rfl rfl
    have hpool := Engine.flushPage_pool hentry
    have hunmapped (key : TablePageid) (hkey : σ.pool.hashmap key = none) :
        (σ₀.flushPage frame).pool.hashmap key = none := by
      rw [hpool]
      dsimp only
      split
      · rfl
      · exact hkey
    refine ⟨σ₀.flushPage frame, ⟨?_, ?_, rfl, rfl⟩, ok₀.flushPage trivial hentry, ?_, ?_, hunmapped,
      by rw [hpool]⟩
    · change ((σ₀.flushPage frame).pool.buffers.set frame entry)[frame]? = some entry
      rw [hpool]
      exact List.getElem?_set_self hlt
    · intro i hi
      exact List.getElem?_set_ne (Ne.symm hi)
    · have hshows₀ : Shows dbOid oid σ σ₀ := fun pageId page h =>
        (Engine.view_congr rfl rfl rfl dbOid _).trans h
      exact hshows₀.trans (ok₀.shows_flushPage trivial hentry)
    · intro enter htable
      obtain ⟨hdb, hmap, hclean⟩ := enter htable
      have hne : entry.key ≠ σ.pool.buffers[frame].key := by
        intro hkey
        have htable' := (congrArg TablePageid.tableOid hkey).symm.trans htable
        rw [hkey, (ok.frame frame _ trivial hentry htable').2.1] at hmap
        cases hmap
      refine ⟨hdb, hunmapped _ hmap, fun hdirty => ?_⟩
      refine Engine.image?_flushPage_of_ne hentry (fun hpath hpage => hne ?_) (hclean hdirty)
      have hoid := congrArg FilePath.tableOid hpath
      exact congrArg₂ TablePageid.mk (htable.trans hoid) hpage
  · refine ⟨σ, ⟨?_, ?_, rfl, rfl⟩, ok.toCachedOn.retireNew (Nat.le_refl _), Shows.refl _ _ _, id,
      fun _ hkey => hkey, rfl⟩
    · exact List.getElem?_concat_length
    · intro i hi
      change (σ.pool.buffers ++ [entry])[i]? = _
      rcases Nat.lt_or_gt_of_ne hi with hlt | hgt
      · exact List.getElem?_append_left hlt
      · rw [List.getElem?_eq_none (by simp; omega), List.getElem?_eq_none (by omega)]

end BufferPool

namespace PoolShape

variable {pool : BufferPool}

theorem mem_access (shape : PoolShape pool) (frame i : Nat) :
    i ∈ (pool.access frame).bufferVec ↔ i = frame ∨ i ∈ pool.bufferVec := by
  change i ∈ frame :: pool.bufferVec.erase frame ↔ _
  rw [List.mem_cons, shape.nodup.mem_erase_iff]
  tauto

theorem access (shape : PoolShape pool) {frame : Nat} (hframe : frame < bufferSize) :
    PoolShape (pool.access frame) where
  nodup := List.nodup_cons.mpr ⟨shape.nodup.not_mem_erase, shape.nodup.erase frame⟩
  bound i hi := ((shape.mem_access frame i).mp hi).elim (· ▸ hframe) (shape.bound i)
  accessed i hi := (shape.mem_access frame i).mpr (.inr (shape.accessed i hi))
  size := shape.size

/-- The least recently used frame is not the most recently used one. -/
theorem head?_ne_getLast? (shape : PoolShape pool) (hfull : pool.buffers.length = bufferSize)
    {frame victim : Nat} (hhead : pool.bufferVec.head? = some frame)
    (hlast : pool.bufferVec.getLast? = some victim) : frame ≠ victim := by
  have hmem (i : Nat) (hi : i < 2) : i ∈ pool.bufferVec :=
    shape.accessed i (hfull ▸ Nat.lt_trans hi (by decide))
  cases hvec : pool.bufferVec with
  | nil =>
      rw [hvec] at hhead
      cases hhead
  | cons i rest =>
      have hnodup := shape.nodup
      rw [hvec] at hhead hlast hnodup hmem
      cases hhead
      cases rest with
      | nil =>
          have h₀ := List.mem_singleton.mp (hmem 0 (by decide))
          have h₁ := List.mem_singleton.mp (hmem 1 (by decide))
          omega
      | cons j rest =>
          rw [List.getLast?_cons_cons] at hlast
          rintro rfl
          exact (List.nodup_cons.mp hnodup).1 (List.mem_of_getLast? hlast)

/-- The list after a victim's frame is taken. -/
theorem replaceFrame {pool' : BufferPool} {victim : Nat} (shape : PoolShape pool)
    (hbound : victim < bufferSize)
    (hvec : pool'.bufferVec = victim :: (pool.bufferVec.erase victim).erase victim)
    (hlength : pool'.buffers.length = pool.buffers.length) : PoolShape pool' := by
  have hmem (i : Nat) : i ∈ pool'.bufferVec ↔ i = victim ∨ i ∈ pool.bufferVec := by
    rw [hvec, List.mem_cons, (shape.nodup.erase victim).mem_erase_iff, shape.nodup.mem_erase_iff]
    tauto
  refine ⟨?_, fun i hi => ?_, fun i hi => (hmem i).mpr (.inr ?_), hlength ▸ shape.size⟩
  · rw [hvec]
    have hnodup := shape.nodup.erase victim
    exact List.nodup_cons.mpr ⟨hnodup.not_mem_erase, hnodup.erase victim⟩
  · exact ((hmem i).mp hi).elim (· ▸ hbound) (shape.bound i)
  · rw [hlength] at hi
    exact shape.accessed i hi

/-- The list after a free frame is taken. -/
theorem addFrame {pool' : BufferPool} (shape : PoolShape pool)
    (hfree : pool.buffers.length ≠ bufferSize)
    (hvec : pool'.bufferVec = (pool.access pool.buffers.length).bufferVec)
    (hlength : pool'.buffers.length = pool.buffers.length + 1) : PoolShape pool' := by
  have hlt : pool.buffers.length < bufferSize := Nat.lt_of_le_of_ne shape.size hfree
  have haccess := shape.access hlt
  refine ⟨hvec ▸ haccess.nodup, hvec ▸ haccess.bound, fun i hi => ?_, hlength ▸ hlt⟩
  rw [hlength] at hi
  rw [hvec]
  apply (shape.mem_access _ i).mpr
  rcases Nat.lt_or_eq_of_le (Nat.le_of_lt_succ hi) with hlt | rfl
  · exact .inr (shape.accessed i hlt)
  · exact .inl rfl

/-- The list after `addToBuffer`. -/
theorem addToBuffer {σ σ' : Engine} {entry : BufferPoolEntry} {frame : Nat}
    (shape : PoolShape σ.pool) (run : BufferPool.addToBuffer entry σ = .ok frame σ') :
    PoolShape σ'.pool ∧ σ'.pool.bufferVec.head? = some frame := by
  rcases BufferPool.addToBuffer_eq_ok_iff.mp run with ⟨hfull, hlast, rfl⟩ | ⟨hfree, rfl, rfl⟩
  · have hbound := shape.bound frame (List.mem_of_getLast? hlast)
    have hentry : σ.pool.buffers[frame]? = some σ.pool.buffers[frame] :=
      List.getElem?_eq_getElem (hfull ▸ hbound)
    have hpool := @Engine.flushPage_pool
      { σ with pool := { σ.pool with bufferVec := σ.pool.bufferVec.erase frame } } frame _ hentry
    have hvec : (σ.replaceFrame frame entry).pool.bufferVec =
        frame :: (σ.pool.bufferVec.erase frame).erase frame := by
      unfold Engine.replaceFrame
      dsimp only [BufferPool.mapKey, BufferPool.access]
      rw [hpool]
    have hbuffers : (σ.replaceFrame frame entry).pool.buffers = σ.pool.buffers.set frame entry := by
      unfold Engine.replaceFrame
      dsimp only [BufferPool.mapKey, BufferPool.access]
      rw [hpool]
    exact ⟨shape.replaceFrame hbound hvec (by rw [hbuffers, List.length_set]), by rw [hvec]; rfl⟩
  · exact ⟨shape.addFrame hfree rfl List.length_append, rfl⟩

end PoolShape

/-- A frame that `hashmap_` leads to. -/
structure Holds (σ : Engine) (frame : Nat) (entry : BufferPoolEntry) : Prop where
  stored : σ.pool.buffers[frame]? = some entry
  mapped : σ.pool.hashmap entry.key = some frame

/-- What a caller of the buffer pool knows of the frame it was handed: it holds the
entry, it is the most recent one, and the one handed out before still holds its own.
No other page has entered the pool. -/
structure Hands (dbOid oid : Nat) (σ : Engine) (frame : Nat) (entry : BufferPoolEntry)
    (σ' : Engine) : Prop where
  cached : Cached dbOid oid σ'
  holds : Holds σ' frame entry
  recent : σ'.pool.bufferVec.head? = some frame
  others : ∀ pageId page, (⟨oid, pageId⟩ : TablePageid) ≠ entry.key →
    σ.view dbOid ⟨oid, pageId⟩ = some page → σ'.view dbOid ⟨oid, pageId⟩ = some page
  keeps : ∀ i e, Holds σ i e → σ.pool.bufferVec.head? = some i → e.tableOid = oid →
    e.key ≠ entry.key → Holds σ' i e
  unmapped : ∀ key, key ≠ entry.key → σ.pool.hashmap key = none → σ'.pool.hashmap key = none

namespace Cached

variable {dbOid oid : Nat} {σ σ' : Engine} {frame : Nat} {entry : BufferPoolEntry}

theorem congr (ok : Cached dbOid oid σ) (hpool : σ'.pool = σ.pool)
    (hfiles : σ'.disk.files = σ.disk.files) : Cached dbOid oid σ' where
  toCachedOn := ok.toCachedOn.congr (congrArg _ hpool) (congrArg _ hpool) hfiles
  shape := hpool ▸ ok.shape

theorem addToBuffer (ok : Cached dbOid oid σ) (enter : entry.MayEnter dbOid oid σ)
    (run : BufferPool.addToBuffer entry σ = .ok frame σ') : Hands dbOid oid σ frame entry σ' := by
  obtain ⟨σ₁, installs, ok₁, shows₁, henter, hunmapped, -⟩ := BufferPool.addToBuffer_installs ok run
  obtain ⟨shape, recent⟩ := ok.shape.addToBuffer run
  refine { cached := ⟨installs.cached ok₁ (henter enter), shape⟩, holds := ⟨installs.self, ?_⟩,
           recent := recent, others := fun pageId page hkey hview => ?_,
           keeps := fun i e holds hhead htable hkey => ?_,
           unmapped := fun key hkey hmap => ?_ }
  · rw [installs.hashmap]
    exact if_pos rfl
  · rw [installs.view_of_ne ok₁ hkey]
    exact shows₁ pageId page hview
  · rcases BufferPool.addToBuffer_eq_ok_iff.mp run with ⟨hfull, hlast, rfl⟩ | ⟨-, rfl, rfl⟩
    · have hi : i ≠ frame := ok.shape.head?_ne_getLast? hfull hhead hlast
      have hlt : frame < σ.pool.buffers.length :=
        hfull ▸ ok.shape.bound frame (List.mem_of_getLast? hlast)
      have hvictim : σ.pool.buffers[frame]? = some σ.pool.buffers[frame] :=
        List.getElem?_eq_getElem hlt
      have hpool := @Engine.flushPage_pool
        { σ with pool := { σ.pool with bufferVec := σ.pool.bufferVec.erase frame } } frame _ hvictim
      have hne : e.key ≠ σ.pool.buffers[frame].key := by
        intro h
        have htable' := (congrArg TablePageid.tableOid h).symm.trans htable
        exact hi (ok.frame_unique trivial hvictim htable' holds.mapped h)
      constructor
      · unfold Engine.replaceFrame
        dsimp only [BufferPool.mapKey, BufferPool.access]
        rw [hpool]
        exact (List.getElem?_set_ne (Ne.symm hi)).trans holds.stored
      · unfold Engine.replaceFrame
        dsimp only [BufferPool.mapKey, BufferPool.access]
        rw [hpool]
        dsimp only
        rw [if_neg hkey, if_neg hne]
        exact holds.mapped
    · constructor
      · have hlt := (List.getElem?_eq_some_iff.mp holds.stored).1
        exact (List.getElem?_append_left hlt).trans holds.stored
      · exact (if_neg hkey).trans holds.mapped
  · rw [installs.hashmap]
    exact (if_neg hkey).trans (hunmapped key hmap)

/-- `BufferPool::GetPage` for a page of the table hands out what is seen there. -/
theorem getPage (ok : Cached dbOid oid σ) {pageId : Nat}
    (run : BufferPool.getPage dbOid oid pageId σ = .ok frame σ') :
    ∃ entry, entry.key = ⟨oid, pageId⟩ ∧ σ.view dbOid ⟨oid, pageId⟩ = some entry.page ∧
      Hands dbOid oid σ frame entry σ' ∧ Shows dbOid oid σ σ' := by
  unfold BufferPool.getPage at run
  rw [EStateM.bind_of_ok (EStateM.get_eq_ok_iff.mpr ⟨rfl, rfl⟩)] at run
  cases hmap : σ.pool.hashmap ⟨oid, pageId⟩ with
  | none =>
      rw [hmap] at run
      cases hread : σ.disk.readPage ⟨dbOid, oid⟩ pageId with
      | error e =>
          simp only [hread] at run
          cases run
      | ok page =>
          simp only [hread] at run
          have himage := Disk.readPage_eq_ok_iff_image?.mp hread
          have hview : σ.view dbOid ⟨oid, pageId⟩ = some page :=
            (Engine.view_of_none hmap).trans himage
          have enter : (⟨dbOid, oid, pageId, page, false⟩ : BufferPoolEntry).MayEnter dbOid oid σ :=
            fun _ => ⟨rfl, hmap, fun _ => himage⟩
          have hands := ok.addToBuffer enter run
          refine ⟨_, rfl, hview, hands, fun pageId' page' hview' => ?_⟩
          by_cases hkey : (⟨oid, pageId'⟩ : TablePageid) = ⟨oid, pageId⟩
          · rw [hkey] at hview' ⊢
            cases hview.symm.trans hview'
            exact Engine.view_of_frame hands.holds.mapped hands.holds.stored
          · exact hands.others pageId' page' hkey hview'
  | some i =>
      rw [hmap] at run
      cases run
      obtain ⟨-, entry, hentry, hkey⟩ := ok.mapped _ _ hmap
      have hi : frame < bufferSize :=
        Nat.lt_of_lt_of_le (List.getElem?_eq_some_iff.mp hentry).1 ok.shape.size
      have shows' : Shows dbOid oid σ { σ with pool := σ.pool.access frame } :=
        fun pageId page hview => (Engine.view_congr rfl rfl rfl dbOid _).trans hview
      refine ⟨entry, hkey, Engine.view_of_frame hmap hentry, ?_, shows'⟩
      exact { cached := ⟨ok.toCachedOn.congr rfl rfl rfl, ok.shape.access hi⟩,
              holds := ⟨hentry, hkey ▸ hmap⟩, recent := rfl,
              others := fun pageId page _ hview => shows' pageId page hview,
              keeps := fun _ _ holds _ _ _ => ⟨holds.stored, holds.mapped⟩,
              unmapped := fun _ _ h => h }

/-! ## Modifying a frame -/

/-- Modifying any frame keeps the pool in step: the frame is dirty from then on. -/
theorem withPage (ok : Cached dbOid oid σ) (frame : Nat) (page : TablePage) :
    Cached dbOid oid { σ with pool := σ.pool.withPage frame page } where
  file := ok.file
  mapped key i hmap := by
    obtain ⟨-, e, he, hkey⟩ := ok.mapped key i hmap
    dsimp only
    rw [BufferPool.getElem?_withPage, he]
    split
    · exact ⟨trivial, _, rfl, hkey⟩
    · exact ⟨trivial, e, rfl, hkey⟩
  frame i e _ he htable := by
    dsimp only at he
    rw [BufferPool.getElem?_withPage] at he
    split at he
    · obtain ⟨e', he', rfl⟩ := Option.map_eq_some_iff.mp he
      obtain ⟨hdb, hmap, -⟩ := ok.frame i e' trivial he' htable
      exact ⟨hdb, hmap, nofun⟩
    · exact ok.frame i e trivial he htable
  shape :=
    { nodup := ok.shape.nodup
      bound := ok.shape.bound
      accessed := fun i hi => ok.shape.accessed i (by simpa using hi)
      size := by simpa using ok.shape.size }

/-- The page of the frame is seen as modified. -/
theorem view_withPage_self (holds : Holds σ frame entry) (page : TablePage) :
    ({ σ with pool := σ.pool.withPage frame page } : Engine).view dbOid entry.key = some page := by
  have hstored := BufferPool.getElem?_withPage_self holds.stored page
  exact Engine.view_of_frame (σ := { σ with pool := σ.pool.withPage frame page }) holds.mapped hstored

/-- The other pages are seen as before. -/
theorem view_withPage_of_ne (ok : Cached dbOid oid σ) (hentry : σ.pool.buffers[frame]? = some entry)
    (page : TablePage) {key : TablePageid} (hkey : key ≠ entry.key) :
    ({ σ with pool := σ.pool.withPage frame page } : Engine).view dbOid key = σ.view dbOid key := by
  unfold Engine.view
  dsimp only [BufferPool.withPage_hashmap]
  cases hmap : σ.pool.hashmap key with
  | none => rfl
  | some i =>
      obtain ⟨-, e, he, rfl⟩ := ok.mapped key i hmap
      dsimp only
      rw [BufferPool.getElem?_withPage, if_neg]
      rintro rfl
      cases hentry.symm.trans he
      exact hkey rfl

/-- `BufferPool::NewPage` for a page that is in no frame hands out a blank page, and
with the first page stored there the pool holds a dirty page. -/
theorem newPage (ok : Cached dbOid oid σ) {pageId : Nat} (hfree : σ.pool.hashmap ⟨oid, pageId⟩ = none)
    (run : BufferPool.newPage dbOid oid pageId σ = .ok frame σ') :
    σ'.pool.buffers[frame]? = some ⟨dbOid, oid, pageId, .zero, false⟩ ∧
      ∀ page, Hands dbOid oid σ frame ⟨dbOid, oid, pageId, page, true⟩
        { σ' with pool := σ'.pool.withPage frame page } := by
  obtain ⟨_, installs, -⟩ := BufferPool.addToBuffer_installs ok run
  refine ⟨installs.self, fun page => ok.addToBuffer (fun _ => ⟨rfl, hfree, nofun⟩) ?_⟩
  rcases BufferPool.addToBuffer_eq_ok_iff.mp run with ⟨hfull, hlast, rfl⟩ | ⟨hroom, rfl, rfl⟩
  · refine BufferPool.addToBuffer_eq_ok_iff.mpr (.inl ⟨hfull, hlast, ?_⟩)
    unfold Engine.replaceFrame BufferPool.withPage
    simp only [BufferPool.mapKey, BufferPool.access, List.set_eq_modify, List.modify_modify_eq]
    rfl
  · refine BufferPool.addToBuffer_eq_ok_iff.mpr (.inr ⟨hroom, rfl, ?_⟩)
    unfold Engine.addFrame BufferPool.withPage
    simp only [BufferPool.mapKey, BufferPool.access, List.modify_concat_length]
    rfl

end Cached

/-! ## Other tables -/

/-- A frame that holds a page of another table. -/
def Foreign (oid : Nat) (σ : Engine) (frame : Nat) : Prop :=
  ∃ entry, σ.pool.buffers[frame]? = some entry ∧ entry.tableOid ≠ oid

/-- What the work on other tables does: the table is seen as before, and frames of
other tables stay frames of other tables. -/
structure Beside (dbOid oid : Nat) (σ σ' : Engine) : Prop where
  cached : Cached dbOid oid σ'
  shows' : Shows dbOid oid σ σ'
  foreign : ∀ i, Foreign oid σ i → Foreign oid σ' i
  unmapped : ∀ p, σ.pool.hashmap ⟨oid, p⟩ = none → σ'.pool.hashmap ⟨oid, p⟩ = none

namespace Beside

variable {dbOid oid : Nat} {σ σ₁ σ' : Engine} {frame : Nat}

theorem refl (ok : Cached dbOid oid σ) : Beside dbOid oid σ σ :=
  ⟨ok, Shows.refl _ _ _, fun _ h => h, fun _ h => h⟩

theorem trans (h : Beside dbOid oid σ σ₁) (h' : Beside dbOid oid σ₁ σ') : Beside dbOid oid σ σ' :=
  ⟨h'.cached, h.shows'.trans h'.shows', fun i hi => h'.foreign i (h.foreign i hi),
    fun p hp => h'.unmapped p (h.unmapped p hp)⟩

/-- A state with the same pool and files. -/
theorem congr (h : Beside dbOid oid σ σ₁) (hpool : σ'.pool = σ₁.pool)
    (hfiles : σ'.disk.files = σ₁.disk.files) : Beside dbOid oid σ σ' where
  cached := h.cached.congr hpool hfiles
  shows' pageId page hview :=
    (Engine.view_congr (congrArg _ hpool) (congrArg _ hpool) hfiles _ _).trans (h.shows' _ _ hview)
  foreign i hi := by
    unfold Foreign
    rw [hpool]
    exact h.foreign i hi
  unmapped := by
    rw [hpool]
    exact h.unmapped

theorem addToBuffer (ok : Cached dbOid oid σ) {entry : BufferPoolEntry} (hoid : entry.tableOid ≠ oid)
    (run : BufferPool.addToBuffer entry σ = .ok frame σ') :
    Beside dbOid oid σ σ' ∧ Foreign oid σ' frame := by
  have hands := ok.addToBuffer (fun h => absurd h hoid) run
  obtain ⟨σ₁, installs, -, -, -, -, hbuffers⟩ := BufferPool.addToBuffer_installs ok run
  have hframe : Foreign oid σ' frame := ⟨entry, hands.holds.stored, hoid⟩
  have hkey (p : Nat) : (⟨oid, p⟩ : TablePageid) ≠ entry.key := fun hkey =>
    hoid (congrArg TablePageid.tableOid hkey).symm
  refine ⟨⟨hands.cached, fun pageId page => hands.others pageId page (hkey pageId), fun i hi => ?_,
    fun p => hands.unmapped _ (hkey p)⟩, hframe⟩
  · by_cases heq : i = frame
    · exact heq ▸ hframe
    · obtain ⟨e, he, htable⟩ := hi
      exact ⟨e, by rw [installs.other i heq, hbuffers, he], htable⟩

/-- Fetching a page of another table. -/
theorem getPage (ok : Cached dbOid oid σ) {dbOid' oid' pageId : Nat} (hoid : oid' ≠ oid)
    (run : BufferPool.getPage dbOid' oid' pageId σ = .ok frame σ') :
    Beside dbOid oid σ σ' ∧ Foreign oid σ' frame := by
  unfold BufferPool.getPage at run
  rw [EStateM.bind_of_ok (EStateM.get_eq_ok_iff.mpr ⟨rfl, rfl⟩)] at run
  cases hmap : σ.pool.hashmap ⟨oid', pageId⟩ with
  | none =>
      rw [hmap] at run
      cases hread : σ.disk.readPage ⟨dbOid', oid'⟩ pageId with
      | error e =>
          simp only [hread] at run
          cases run
      | ok page =>
          simp only [hread] at run
          exact addToBuffer ok hoid run
  | some i =>
      rw [hmap] at run
      cases run
      obtain ⟨-, entry, hentry, hkey⟩ := ok.mapped _ _ hmap
      have htable : entry.tableOid = oid' := congrArg TablePageid.tableOid hkey
      have hi : frame < bufferSize :=
        Nat.lt_of_lt_of_le (List.getElem?_eq_some_iff.mp hentry).1 ok.shape.size
      refine ⟨⟨⟨ok.toCachedOn.congr rfl rfl rfl, ok.shape.access hi⟩, fun pageId page hview => ?_,
        fun _ h => h, fun _ h => h⟩, entry, hentry, htable ▸ hoid⟩
      exact (Engine.view_congr rfl rfl rfl dbOid _).trans hview

/-- Modifying a frame of another table. -/
theorem withPage (ok : Cached dbOid oid σ) (hframe : Foreign oid σ frame) (page : TablePage) :
    Beside dbOid oid σ { σ with pool := σ.pool.withPage frame page } := by
  obtain ⟨entry, hentry, htable⟩ := hframe
  refine ⟨ok.withPage frame page, fun pageId page' hview => ?_, fun i hi => ?_, fun _ h => h⟩
  · have hkey : (⟨oid, pageId⟩ : TablePageid) ≠ entry.key := fun h =>
      htable (congrArg TablePageid.tableOid h).symm
    rw [ok.view_withPage_of_ne hentry page hkey]
    exact hview
  · obtain ⟨e, he, htable'⟩ := hi
    unfold Foreign
    dsimp only
    rw [BufferPool.getElem?_withPage, he]
    split
    · exact ⟨_, rfl, htable'⟩
    · exact ⟨e, rfl, htable'⟩

end Beside

/-! ## Flushing the pool -/

namespace CachedOn

variable {live : Nat → Prop} {dbOid oid : Nat} {σ : Engine}

/-- Writing several frames back, each once. -/
theorem foldl_flushPage {frames : List Nat} (ok : CachedOn live dbOid oid σ)
    (hframes : ∀ i ∈ frames, live i ∧ i < σ.pool.buffers.length) (hnodup : frames.Nodup) :
    let σ' := frames.foldl Engine.flushPage σ
    CachedOn (fun i => live i ∧ i ∉ frames) dbOid oid σ' ∧ Shows dbOid oid σ σ' ∧
      σ'.pool.buffers = σ.pool.buffers ∧ σ'.pool.bufferVec = σ.pool.bufferVec := by
  induction frames generalizing live σ with
  | nil =>
      have hlive : (fun i => live i ∧ i ∉ ([] : List Nat)) = live := by simp
      exact ⟨by rw [hlive]; exact ok, Shows.refl _ _ _, rfl, rfl⟩
  | cons i frames ih =>
      obtain ⟨hlive, hlt⟩ := hframes i List.mem_cons_self
      obtain ⟨hi, hnodup⟩ := List.nodup_cons.mp hnodup
      have hentry := List.getElem?_eq_getElem hlt
      have hpool := Engine.flushPage_pool hentry
      have hbuffers : (σ.flushPage i).pool.buffers = σ.pool.buffers := by rw [hpool]
      have hvec : (σ.flushPage i).pool.bufferVec = σ.pool.bufferVec := by rw [hpool]
      obtain ⟨ok', shows', hbuffers', hvec'⟩ := ih (ok.flushPage hlive hentry) (fun j hj => by
        obtain ⟨hj', hlt'⟩ := hframes j (List.mem_cons_of_mem _ hj)
        exact ⟨⟨hj', fun h => hi (h ▸ hj)⟩, by rw [hbuffers]; exact hlt'⟩) hnodup
      have hset : (fun j => (live j ∧ j ≠ i) ∧ j ∉ frames) = fun j => live j ∧ j ∉ i :: frames := by
        funext j
        simp only [List.mem_cons, not_or, and_assoc]
      exact ⟨hset ▸ ok', (ok.shows_flushPage hlive hentry).trans shows',
        hbuffers'.trans hbuffers, hvec'.trans hvec⟩

end CachedOn

/-- `BufferPool::Flush` empties the pool, and nothing that is seen changes. -/
theorem Cached.flushBuffers {dbOid oid : Nat} {σ : Engine} (ok : Cached dbOid oid σ)
    (regularOnly : Bool) :
    Cached dbOid oid (σ.flushBuffers regularOnly) ∧ Shows dbOid oid σ (σ.flushBuffers regularOnly) := by
  have hrange : ∀ i ∈ List.range σ.pool.buffers.length, True ∧ i < σ.pool.buffers.length :=
    fun i hi => ⟨trivial, List.mem_range.mp hi⟩
  obtain ⟨ok', shows', hbuffers, hvec⟩ := ok.foldl_flushPage hrange List.nodup_range
  let σ' := (List.range σ.pool.buffers.length).foldl Engine.flushPage σ
  -- a frame that was not written back does not exist
  have hnone (key : TablePageid) : σ'.pool.hashmap key = none := by
    cases hmap : σ'.pool.hashmap key with
    | none => rfl
    | some i =>
        obtain ⟨⟨-, hi⟩, e, he, -⟩ := ok'.mapped key i hmap
        rw [hbuffers] at he
        exact absurd (List.mem_range.mpr (List.getElem?_eq_some_iff.mp he).1) hi
  have emptied : Cached dbOid oid { σ' with pool := { σ'.pool with buffers := [] } } :=
    { file := ok'.file
      mapped := fun key i hmap => absurd ((hnone key).symm.trans hmap) nofun
      frame := fun i entry _ hentry => nomatch hentry
      shape :=
        { nodup := by rw [hvec]; exact ok.shape.nodup
          bound := by rw [hvec]; exact ok.shape.bound
          accessed := nofun
          size := Nat.zero_le _ } }
  have shows'' : Shows dbOid oid σ { σ' with pool := { σ'.pool with buffers := [] } } := by
    intro pageId page hview
    have hview' := shows' pageId page hview
    rw [Engine.view_of_none (hnone _)] at hview'
    exact (Engine.view_of_none (σ := { σ' with pool := { σ'.pool with buffers := [] } })
      (hnone _)).trans hview'
  unfold Engine.flushBuffers
  cases regularOnly with
  | true => exact ⟨emptied, shows''⟩
  | false => exact ⟨emptied.congr rfl rfl, shows''⟩

end HuaDB
