import HuaDB.Lib.Indexed
import HuaDB.PagePool

/-!
The buffer pool as a page store: each page in one frame, `hashmap_` the index of the
frames, and `GetPage` the content last written.

A write-back does not change what the pool stores (`WritesBack`), so what a page holds
is in its frame, and on disk unless that frame is dirty (`Current`). The calls keep
this as long as none of them leaves a page in two frames or in a frame that
`hashmap_` does not know (`PoolOp.Sound`).
-/

namespace HuaDB

/-! ## Writing back -/

namespace TableFiles

/-- The file holds `page` there, or it is gone and holds nothing any more. -/
def Stored (disk : TableFiles) (path : FilePath) (pageId : Nat) (page : TablePage) : Prop :=
  disk.image? path pageId = some page ∨ disk.files path = none

/-- The streams and the files are there as before. -/
def SameStreams (disk disk' : TableFiles) : Prop :=
  disk'.failed = disk.failed ∧ ∀ path, (disk'.files path).isSome = (disk.files path).isSome

theorem SameStreams.refl (disk : TableFiles) : SameStreams disk disk := ⟨rfl, fun _ => rfl⟩

theorem SameStreams.trans {d₁ d₂ d₃ : TableFiles} (h₁ : SameStreams d₁ d₂)
    (h₂ : SameStreams d₂ d₃) : SameStreams d₁ d₃ :=
  ⟨h₂.1.trans h₁.1, fun path => (h₂.2 path).trans (h₁.2 path)⟩

variable {disk disk' : TableFiles} {path path' : FilePath} {pageId pageId' : Nat}
  {page page' : TablePage}

theorem SameStreams.none_iff (h : SameStreams disk disk') :
    disk'.files path = none ↔ disk.files path = none := by
  rw [← Option.not_isSome_iff_eq_none, h.2, Option.not_isSome_iff_eq_none]

theorem writePage_sameStreams (h : disk.writePage path pageId page = .ok disk') :
    SameStreams disk disk' := by
  rcases writePage_cases h with ⟨-, rfl⟩ | ⟨file, hfile, rfl⟩
  · exact .refl _
  · refine ⟨rfl, fun p => ?_⟩
    by_cases hp : p = path
    · simp only [written, hp, ↓reduceIte, hfile, Option.isSome_some]
    · simp only [written, hp, ↓reduceIte]

/-- A page that was written is stored. -/
theorem writePage_stored (h : disk.writePage path pageId page = .ok disk') :
    disk'.Stored path pageId page := by
  rcases writePage_cases h with ⟨hgone, rfl⟩ | ⟨file, -, rfl⟩
  · exact .inr hgone
  · left
    have hlt : pageId < max file.pageCount (pageId + 1) := by omega
    simp only [image?, written, ↓reduceIte, Option.bind_some, hlt]

/-- Other pages stay stored. -/
theorem Stored.writePage (hstored : disk.Stored path' pageId' page')
    (hsame : path' = path → pageId' = pageId → page' = page)
    (h : disk.writePage path pageId page = .ok disk') : disk'.Stored path' pageId' page' := by
  rcases hstored with himage | hgone
  · rcases writePage_cases h with ⟨-, rfl⟩ | ⟨file, hfile, rfl⟩
    · exact .inl himage
    by_cases hpath : path' = path
    · subst hpath
      by_cases hpage : pageId' = pageId
      · subst hpage
        rw [hsame rfl rfl]
        exact writePage_stored h
      · left
        obtain ⟨file', hfile', himage⟩ := Option.bind_eq_some_iff.mp himage
        cases hfile.symm.trans hfile'
        by_cases hlt : pageId' < file.pageCount
        · have hlt' : pageId' < max file.pageCount (pageId + 1) := by omega
          rw [if_pos hlt] at himage
          simp only [image?, written, ↓reduceIte, Option.bind_some, hlt', hpage]
          exact himage
        · rw [if_neg hlt] at himage
          cases himage
    · left
      simp only [image?, written, hpath, ↓reduceIte]
      exact himage
  · right
    rw [(writePage_sameStreams h).none_iff]
    exact hgone

end TableFiles

namespace PagePool

variable {dbOf : Nat → Nat} {flushLog : FlushLog} {disk disk' : TableFiles}
  {entries entries' : List BufferPoolEntry} {entry : BufferPoolEntry} {key : TablePageid}
  {page : TablePage}

theorem writeBack_cases (h : writeBack flushLog entry disk = .ok disk') :
    (entry.isDirty = false ∧ disk' = disk) ∨
      (entry.isDirty = true ∧
        disk.writePage ⟨entry.dbOid, entry.tableOid⟩ entry.pageId entry.page = .ok disk') := by
  unfold writeBack at h
  cases hdirty : entry.isDirty with
  | false =>
      rw [hdirty] at h
      cases h
      exact .inl ⟨rfl, rfl⟩
  | true =>
      rw [hdirty, if_pos rfl] at h
      refine .inr ⟨rfl, ?_⟩
      by_cases hdb : entry.dbOid = systemDatabaseOid
      · rw [if_neg (not_not.mpr hdb)] at h
        exact h
      · rw [if_pos hdb] at h
        cases hlog : flushLog entry.key entry.page.pageLsn with
        | error e =>
            rw [hlog] at h
            cases h
        | ok u =>
            rw [hlog] at h
            exact h

theorem writeBack_sameStreams (h : writeBack flushLog entry disk = .ok disk') :
    disk.SameStreams disk' := by
  rcases writeBack_cases h with ⟨-, rfl⟩ | ⟨-, hwrite⟩
  · exact .refl _
  · exact TableFiles.writePage_sameStreams hwrite

/-- Whether a write-back throws depends on the streams only. -/
theorem writeBack_isOk_congr (same : disk.SameStreams disk') :
    (writeBack flushLog entry disk').isOk = (writeBack flushLog entry disk).isOk := by
  have hwrite : (disk'.writePage ⟨entry.dbOid, entry.tableOid⟩ entry.pageId entry.page).isOk =
      (disk.writePage ⟨entry.dbOid, entry.tableOid⟩ entry.pageId entry.page).isOk := by
    have hfiles := same.2 ⟨entry.dbOid, entry.tableOid⟩
    unfold TableFiles.writePage
    rw [same.1]
    cases hfile : disk.files ⟨entry.dbOid, entry.tableOid⟩ with
    | none =>
        rw [hfile, Option.isSome_none, Option.isSome_eq_false_iff, Option.isNone_iff_eq_none] at hfiles
        rw [hfiles]
        rfl
    | some file =>
        rw [hfile, Option.isSome_some, Option.isSome_iff_exists] at hfiles
        obtain ⟨file', hfile'⟩ := hfiles
        rw [hfile']
        cases hstream : disk.failed ⟨entry.dbOid, entry.tableOid⟩ with
        | true => rfl
        | false => rfl
  unfold writeBack
  cases hdirty : entry.isDirty with
  | false => rfl
  | true =>
      by_cases hdb : entry.dbOid = systemDatabaseOid
      · simp only [hdb, ne_eq, not_true_eq_false, ↓reduceIte]
        exact hdb ▸ hwrite
      · simp only [hdb, ne_eq, not_false_eq_true, ↓reduceIte]
        cases hlog : flushLog entry.key entry.page.pageLsn with
        | error e => rfl
        | ok u => exact hwrite

/-! ## What a page holds -/

/-- The files hold a page. -/
abbrev StoredAt (dbOf : Nat → Nat) (disk : TableFiles) (key : TablePageid) (page : TablePage) :
    Prop :=
  disk.Stored (key.path dbOf) key.pageId page

/-- The frames hold `page` under its key, and one of them is dirty unless the files
do, too. -/
structure Current (dbOf : Nat → Nat) (entries : List BufferPoolEntry) (disk : TableFiles)
    (key : TablePageid) (page : TablePage) : Prop where
  frames : ∀ entry ∈ entries, entry.key = key → entry.page = page
  stored : (∃ entry ∈ entries, entry.key = key ∧ entry.isDirty = true) ∨
    StoredAt dbOf disk key page

/-- A write-back keeps what is stored. -/
theorem stored_writeBack (hstored : StoredAt dbOf disk key page)
    (hpage : entry.key = key → entry.page = page)
    (h : writeBack flushLog entry disk = .ok disk') : StoredAt dbOf disk' key page := by
  rcases writeBack_cases h with ⟨-, rfl⟩ | ⟨-, hwrite⟩
  · exact hstored
  · apply hstored.writePage _ hwrite
    intro hpath hid
    have htable : key.tableOid = entry.tableOid := congrArg FilePath.tableOid hpath
    have hkey : entry.key = key := congrArg₂ TablePageid.mk htable.symm hid.symm
    exact (hpage hkey).symm

/-- A page that was written back is stored. -/
theorem Current.stored_writeBack_self (cur : Current dbOf entries disk entry.key page)
    (hmem : entry ∈ entries) (honce : ∀ e ∈ entries, e.key = entry.key → e = entry)
    (home : entry.dbOid = dbOf entry.tableOid)
    (h : writeBack flushLog entry disk = .ok disk') : StoredAt dbOf disk' entry.key page := by
  rcases writeBack_cases h with ⟨hclean, rfl⟩ | ⟨-, hwrite⟩
  · rcases cur.stored with ⟨e, he, hkey, hdirty⟩ | hstored
    · rw [honce e he hkey, hclean] at hdirty
      cases hdirty
    · exact hstored
  · rw [← cur.frames entry hmem rfl, StoredAt, TablePageid.path]
    have hwritten := TableFiles.writePage_stored hwrite
    rw [home] at hwritten
    exact hwritten

/-- A page stays current when its dirty frames stay or are stored. -/
theorem Current.of_frames (cur : Current dbOf entries disk key page)
    (hframes : ∀ e ∈ entries', e.key = key → e ∈ entries)
    (hdirty : ∀ e ∈ entries, e.key = key → e ∈ entries' ∨ StoredAt dbOf disk' key page)
    (hstored : StoredAt dbOf disk key page → StoredAt dbOf disk' key page) :
    Current dbOf entries' disk' key page where
  frames e he hkey := cur.frames e (hframes e he hkey) hkey
  stored := by
    rcases cur.stored with ⟨e, he, hkey, hdirt⟩ | h
    · rcases hdirty e he hkey with hmem | h
      · exact .inl ⟨e, hmem, hkey, hdirt⟩
      · exact .inr h
    · exact .inr (hstored h)

/-! ## The invariant -/

/-- The pool is a page store: `hashmap_` is the index of the frames, and a page whose
latest content is known holds it. -/
structure Coherent (dbOf : Nat → Nat) (latest : TablePageid → Option TablePage) (σ : PagePool) :
    Prop where
  user : Indexed BufferPoolEntry.key σ.pool.buffers σ.pool.hashmap
  system : Indexed BufferPoolEntry.key σ.systableBuffers σ.systableHashmap
  userHome : ∀ e ∈ σ.pool.buffers,
    e.dbOid = dbOf e.tableOid ∧ dbOf e.tableOid ≠ systemDatabaseOid
  systemHome : ∀ e ∈ σ.systableBuffers,
    e.dbOid = dbOf e.tableOid ∧ dbOf e.tableOid = systemDatabaseOid
  bound : ∀ i ∈ σ.pool.bufferVec, i < bufferSize
  size : σ.pool.buffers.length ≤ bufferSize
  current : ∀ key page, latest key = some page →
    Current dbOf (σ.pool.buffers ++ σ.systableBuffers) σ.disk key page

/-- The call that gives a page a frame leaves it in one frame only: no other frame
holds it, or the call throws. It does not evict from an empty `buffer_vec`. -/
def Placeable (σ : PagePool) (flushLog : FlushLog) (dbOid : Nat) (key : TablePageid) : Prop :=
  if dbOid = systemDatabaseOid then
    σ.systableHashmap key = none
  else if σ.pool.buffers.length = bufferSize then
    ∃ victim, σ.pool.bufferVec.getLast? = some victim ∧
      ((∃ old, σ.pool.buffers[victim]? = some old ∧
          (writeBack flushLog old σ.disk).isOk = false) ∨
        ∀ i, σ.pool.hashmap key = some i → i = victim)
  else
    σ.pool.hashmap key = none

variable {σ : PagePool} {latest : TablePageid → Option TablePage} {old : BufferPoolEntry}
  {victim frame : Nat}

namespace Coherent

theorem home (co : Coherent dbOf latest σ) {e : BufferPoolEntry}
    (he : e ∈ σ.pool.buffers ++ σ.systableBuffers) : e.dbOid = dbOf e.tableOid := by
  rcases List.mem_append.mp he with huser | hsystem
  · exact (co.userHome e huser).1
  · exact (co.systemHome e hsystem).1

/-- A page is in one frame. -/
theorem once (co : Coherent dbOf latest σ) {e e' : BufferPoolEntry}
    (he : e ∈ σ.pool.buffers ++ σ.systableBuffers)
    (he' : e' ∈ σ.pool.buffers ++ σ.systableBuffers) (hkey : e.key = e'.key) : e = e' := by
  have htable : e.tableOid = e'.tableOid := congrArg TablePageid.tableOid hkey
  rcases List.mem_append.mp he with huser | hsystem
  · rcases List.mem_append.mp he' with huser' | hsystem'
    · exact co.user.eq_of_mem huser huser' hkey
    · exact ((co.userHome e huser).2 (htable ▸ (co.systemHome e' hsystem').2)).elim
  · rcases List.mem_append.mp he' with huser' | hsystem'
    · exact ((co.userHome e' huser').2 (htable ▸ (co.systemHome e hsystem).2)).elim
    · exact co.system.eq_of_mem hsystem hsystem' hkey

/-- Only the order of use changes. -/
theorem setVec (co : Coherent dbOf latest σ) {vec : List Nat} (hvec : ∀ i ∈ vec, i < bufferSize) :
    Coherent dbOf latest { σ with pool := { σ.pool with bufferVec := vec } } where
  user := co.user
  system := co.system
  userHome := co.userHome
  systemHome := co.systemHome
  bound := hvec
  size := co.size
  current := co.current

/-- Only the streams change. -/
theorem setFailed (co : Coherent dbOf latest σ) (failed : FilePath → Bool) :
    Coherent dbOf latest { σ with disk := { σ.disk with failed := failed } } where
  user := co.user
  system := co.system
  userHome := co.userHome
  systemHome := co.systemHome
  bound := co.bound
  size := co.size
  current key page h := ⟨(co.current key page h).frames, (co.current key page h).stored⟩

theorem access (co : Coherent dbOf latest σ) (hframe : frame < bufferSize) :
    Coherent dbOf latest { σ with pool := σ.pool.access frame } := by
  apply co.setVec
  intro i hi
  rcases List.mem_cons.mp hi with rfl | hi
  · exact hframe
  · exact co.bound i (List.mem_of_mem_erase hi)

/-- The content that an entry brings into the pool. -/
def Brings (dbOf : Nat → Nat) (latest : TablePageid → Option TablePage) (disk : TableFiles)
    (entry : BufferPoolEntry) : Prop :=
  ∀ page, latest entry.key = some page →
    entry.page = page ∧ StoredAt dbOf disk entry.key page

/-- What is current stays so when an entry comes in and the entries that leave are
stored. -/
theorem current_install (co : Coherent dbOf latest σ) {entries' : List BufferPoolEntry}
    {disk' : TableFiles} (brings : Brings dbOf latest σ.disk entry)
    (hsub : ∀ e ∈ entries', e = entry ∨ e ∈ σ.pool.buffers ++ σ.systableBuffers)
    (hleave : ∀ e ∈ σ.pool.buffers ++ σ.systableBuffers, e ∈ entries' ∨
      ∀ page, latest e.key = some page → StoredAt dbOf disk' e.key page)
    (hstored : ∀ key page, latest key = some page → StoredAt dbOf σ.disk key page →
      StoredAt dbOf disk' key page)
    (key : TablePageid) (page : TablePage) (h : latest key = some page) :
    Current dbOf entries' disk' key page := by
  by_cases hkey : key = entry.key
  · subst hkey
    obtain ⟨hpage, himage⟩ := brings page h
    refine ⟨fun e he hk => ?_, .inr (hstored _ page h himage)⟩
    rcases hsub e he with rfl | he
    · exact hpage
    · exact (co.current _ page h).frames e he hk
  · apply (co.current key page h).of_frames
    · intro e he hk
      rcases hsub e he with rfl | he
      · exact (hkey hk.symm).elim
      · exact he
    · rintro e he rfl
      rcases hleave e he with he' | hst
      · exact .inl he'
      · exact .inr (hst page h)
    · exact hstored key page h

theorem addSystem (co : Coherent dbOf latest σ) (hnew : σ.systableHashmap entry.key = none)
    (home : entry.dbOid = dbOf entry.tableOid) (hdb : entry.dbOid = systemDatabaseOid)
    (brings : Brings dbOf latest σ.disk entry) : Coherent dbOf latest (σ.addSystem entry) where
  user := co.user
  system := co.system.push hnew
  userHome := co.userHome
  systemHome e he := by
    rcases List.mem_append.mp he with he | he
    · exact co.systemHome e he
    · obtain rfl := List.mem_singleton.mp he
      exact ⟨home, home ▸ hdb⟩
  bound := co.bound
  size := co.size
  current := by
    apply co.current_install brings
    · intro e he
      rw [PagePool.addSystem, ← List.append_assoc] at he
      rcases List.mem_append.mp he with he | he
      · exact .inr he
      · exact .inl (List.mem_singleton.mp he)
    · intro e he
      rw [PagePool.addSystem, ← List.append_assoc]
      exact .inl (List.mem_append_left _ he)
    · exact fun _ _ _ => id

theorem addFrame (co : Coherent dbOf latest σ) (hnew : σ.pool.hashmap entry.key = none)
    (home : entry.dbOid = dbOf entry.tableOid) (hdb : entry.dbOid ≠ systemDatabaseOid)
    (hfree : σ.pool.buffers.length ≠ bufferSize)
    (brings : Brings dbOf latest σ.disk entry) : Coherent dbOf latest (σ.addFrame entry) where
  user := co.user.push hnew
  system := co.system
  userHome e he := by
    rcases List.mem_append.mp he with he | he
    · exact co.userHome e he
    · obtain rfl := List.mem_singleton.mp he
      exact ⟨home, home ▸ hdb⟩
  systemHome := co.systemHome
  bound i hi := by
    have hlt : σ.pool.buffers.length < bufferSize := Nat.lt_of_le_of_ne co.size hfree
    rcases List.mem_cons.mp hi with rfl | hi
    · exact hlt
    · exact co.bound i (List.mem_of_mem_erase hi)
  size := by
    have hlt : σ.pool.buffers.length < bufferSize := Nat.lt_of_le_of_ne co.size hfree
    rw [PagePool.addFrame, List.length_append, List.length_singleton]
    exact hlt
  current := by
    apply co.current_install brings
    · intro e he
      rcases List.mem_append.mp he with he | he
      · rcases List.mem_append.mp he with he | he
        · exact .inr (List.mem_append_left _ he)
        · exact .inl (List.mem_singleton.mp he)
      · exact .inr (List.mem_append_right _ he)
    · intro e he
      left
      rcases List.mem_append.mp he with he | he
      · exact List.mem_append_left _ (List.mem_append_left _ he)
      · exact List.mem_append_right _ he
    · exact fun _ _ _ => id

theorem replaced (co : Coherent dbOf latest σ) (hold : σ.pool.buffers[victim]? = some old)
    (hnew : ∀ i, σ.pool.hashmap entry.key = some i → i = victim)
    (home : entry.dbOid = dbOf entry.tableOid) (hdb : entry.dbOid ≠ systemDatabaseOid)
    (hwrite : writeBack flushLog old σ.disk = .ok disk')
    (brings : Brings dbOf latest σ.disk entry) :
    Coherent dbOf latest (σ.replaced victim old entry disk') := by
  have hmem : old ∈ σ.pool.buffers ++ σ.systableBuffers :=
    List.mem_append_left _ (List.mem_of_getElem? hold)
  have hlt : victim < bufferSize :=
    Nat.lt_of_lt_of_le (List.getElem?_eq_some_iff.mp hold).1 co.size
  have hstored (key page) (h : latest key = some page) (hst : StoredAt dbOf σ.disk key page) :
      StoredAt dbOf disk' key page :=
    stored_writeBack hst ((co.current key page h).frames old hmem) hwrite
  refine ⟨co.user.set hold hnew, co.system, fun e he => ?_, co.systemHome, fun i hi => ?_, ?_,
    co.current_install brings ?_ ?_ hstored⟩
  · rcases List.mem_or_eq_of_mem_set he with he | rfl
    · exact co.userHome e he
    · exact ⟨home, home ▸ hdb⟩
  · rcases List.mem_cons.mp hi with rfl | hi
    · exact hlt
    · exact co.bound i (List.mem_of_mem_erase (List.mem_of_mem_erase hi))
  · rw [PagePool.replaced, List.length_set]
    exact co.size
  · intro e he
    rcases List.mem_append.mp he with he | he
    · rcases List.mem_or_eq_of_mem_set he with he | rfl
      · exact .inr (List.mem_append_left _ he)
      · exact .inl rfl
    · exact .inr (List.mem_append_right _ he)
  · intro e he
    by_cases heq : e = old
    · subst heq
      right
      intro page h
      exact (co.current _ page h).stored_writeBack_self hmem
        (fun e' he' hkey => co.once he' hmem hkey) (co.home hmem) hwrite
    · left
      rcases List.mem_append.mp he with he | he
      · obtain ⟨j, hj⟩ := List.mem_iff_getElem?.mp he
        have hne : victim ≠ j := by
          rintro rfl
          exact heq (Option.some.inj (hj.symm.trans hold))
        apply List.mem_append_left
        apply List.mem_of_getElem? (i := j)
        rw [PagePool.replaced, List.getElem?_set_ne hne]
        exact hj
      · exact List.mem_append_right _ he

/-- Giving a page a frame. -/
theorem addToBuffer (co : Coherent dbOf latest σ) (home : entry.dbOid = dbOf entry.tableOid)
    (place : σ.Placeable flushLog entry.dbOid entry.key)
    (brings : Brings dbOf latest σ.disk entry) :
    (∃ frame σ', PagePool.addToBuffer flushLog entry σ = .ok frame σ' ∧
      Coherent dbOf latest σ') ∨
    ∃ e vec, PagePool.addToBuffer flushLog entry σ =
      .error e { σ with pool := { σ.pool with bufferVec := vec } } ∧ ∀ i ∈ vec, i < bufferSize := by
  unfold Placeable at place
  rcases addToBuffer_cases flushLog entry co.bound with ⟨hdb, hrun⟩ | ⟨hdb, hfree, hrun⟩ |
    ⟨hdb, hfull, hvec, hrun⟩ | ⟨victim, old, hdb, hfull, hvec, hold, hrun⟩
  · rw [if_pos hdb] at place
    exact .inl ⟨_, _, hrun, co.addSystem place home hdb brings⟩
  · rw [if_neg hdb, if_neg hfree] at place
    exact .inl ⟨_, _, hrun, co.addFrame place home hdb hfree brings⟩
  · rw [if_neg hdb, if_pos hfull] at place
    obtain ⟨victim, hvictim, -⟩ := place
    rw [hvec] at hvictim
    cases hvictim
  · rw [if_neg hdb, if_pos hfull] at place
    obtain ⟨victim', hvictim, place⟩ := place
    cases hvec.symm.trans hvictim
    rcases hrun with ⟨e, -, hrun⟩ | ⟨disk', hwrite, hrun⟩
    · refine .inr ⟨e, _, hrun, fun i hi => ?_⟩
      exact co.bound i (List.mem_of_mem_erase hi)
    · have hnew : ∀ i, σ.pool.hashmap entry.key = some i → i = victim := by
        rcases place with ⟨old', hold', hthrows⟩ | hnew
        · cases hold.symm.trans hold'
          rw [hwrite] at hthrows
          cases hthrows
        · exact hnew
      exact .inl ⟨_, _, hrun, co.replaced hold hnew home hdb hwrite brings⟩

/-- `hashmap_` leads to the frame of the page. -/
theorem mapped (co : Coherent dbOf latest σ) {dbOid : Nat}
    (h : σ.hashmap dbOid key = some frame) :
    ∃ e, (σ.frames dbOid)[frame]? = some e ∧ e.key = key := by
  by_cases hdb : dbOid = systemDatabaseOid
  · rw [PagePool.hashmap, if_pos hdb] at h
    rw [frames, if_pos hdb]
    exact co.system.exists_of_some h
  · rw [PagePool.hashmap, if_neg hdb] at h
    rw [frames, if_neg hdb]
    exact co.user.exists_of_some h

theorem mem_frames {e : BufferPoolEntry} {dbOid : Nat} (h : e ∈ σ.frames dbOid) :
    e ∈ σ.pool.buffers ++ σ.systableBuffers := by
  unfold frames at h
  by_cases hdb : dbOid = systemDatabaseOid
  · rw [if_pos hdb] at h
    exact List.mem_append_right _ h
  · rw [if_neg hdb] at h
    exact List.mem_append_left _ h

/-- A page without a frame is in the files. -/
theorem stored_of_unmapped (co : Coherent dbOf latest σ)
    (h : σ.hashmap (dbOf key.tableOid) key = none) (hlatest : latest key = some page) :
    StoredAt dbOf σ.disk key page := by
  rcases (co.current key page hlatest).stored with ⟨e, he, rfl, -⟩ | hstored
  · exfalso
    rcases List.mem_append.mp he with he | he
    · obtain ⟨i, hi⟩ := List.mem_iff_getElem?.mp he
      have hmapped := co.user.some_of_getElem? hi
      change (σ.hashmap (dbOf e.tableOid) e.key) = none at h
      rw [PagePool.hashmap, if_neg (co.userHome e he).2, hmapped] at h
      cases h
    · obtain ⟨i, hi⟩ := List.mem_iff_getElem?.mp he
      have hmapped := co.system.some_of_getElem? hi
      change (σ.hashmap (dbOf e.tableOid) e.key) = none at h
      rw [PagePool.hashmap, if_pos (co.systemHome e he).2, hmapped] at h
      cases h
  · exact hstored

theorem touched (co : Coherent dbOf latest σ) {dbOid : Nat}
    (h : σ.hashmap dbOid key = some frame) : Coherent dbOf latest (σ.touched dbOid frame) := by
  obtain ⟨e, he, -⟩ := co.mapped h
  unfold PagePool.touched
  by_cases hdb : dbOid = systemDatabaseOid
  · rw [if_pos hdb]
    exact co
  · rw [if_neg hdb]
    rw [frames, if_neg hdb] at he
    exact co.access (Nat.lt_of_lt_of_le (List.getElem?_eq_some_iff.mp he).1 co.size)

@[simp] theorem frames_touched (σ : PagePool) (dbOid frame : Nat) :
    (σ.touched dbOid frame).frames dbOid = σ.frames dbOid := by
  by_cases hdb : dbOid = systemDatabaseOid
  · simp only [PagePool.touched, frames, hdb, ↓reduceIte]
  · simp only [PagePool.touched, frames, hdb, ↓reduceIte, BufferPool.access]

/-- `GetPage`. -/
theorem getPage (co : Coherent dbOf latest σ)
    (place : σ.hashmap (dbOf key.tableOid) key = none →
      (∃ page, σ.Readable (key.path dbOf) key.pageId page) →
      σ.Placeable flushLog (dbOf key.tableOid) key) :
    (∃ frame σ' e, PagePool.getPage flushLog (dbOf key.tableOid) key.tableOid key.pageId σ =
        .ok frame σ' ∧ Coherent dbOf latest σ' ∧
        (σ'.frames (dbOf key.tableOid))[frame]? = some e ∧ e.key = key) ∨
    ∃ e σ', PagePool.getPage flushLog (dbOf key.tableOid) key.tableOid key.pageId σ =
      .error e σ' ∧ Coherent dbOf latest σ' := by
  cases hmap : σ.hashmap (dbOf key.tableOid) key with
  | some frame =>
      obtain ⟨e, he, hkey⟩ := co.mapped hmap
      refine .inl ⟨frame, _, e, getPage_hit hmap, co.touched hmap, ?_, hkey⟩
      rw [frames_touched]
      exact he
  | none =>
      by_cases hread : ∃ page, σ.Readable (key.path dbOf) key.pageId page
      · have hplace := place hmap hread
        obtain ⟨page, hread⟩ := hread
        rw [getPage_miss hmap hread]
        have hbrings : Brings dbOf latest σ.disk
            ⟨dbOf key.tableOid, key.tableOid, key.pageId, page, false⟩ := by
          intro page' hlatest
          have hstored := co.stored_of_unmapped hmap hlatest
          refine ⟨?_, hstored⟩
          rcases hstored with himage | hgone
          · exact Option.some.inj (hread.2.symm.trans himage)
          · have himage := hread.2
            rw [TableFiles.image?, hgone] at himage
            cases himage
        rcases co.addToBuffer rfl hplace hbrings with ⟨frame, σ', hrun, co'⟩ | ⟨e, vec, hrun, hvec⟩
        · exact .inl ⟨frame, σ', _, hrun, co', addToBuffer_installs co.bound hrun, rfl⟩
        · exact .inr ⟨e, _, hrun, co.setVec hvec⟩
      · obtain ⟨e, failed, hrun⟩ := getPage_fails flushLog hmap
          (fun page h => hread ⟨page, h⟩)
        exact .inr ⟨e, _, hrun, co.setFailed failed⟩

/-- Nothing is known of the content of a page any more. -/
theorem forget (co : Coherent dbOf latest σ) (key : TablePageid) :
    Coherent dbOf (fun k => if k = key then none else latest k) σ where
  user := co.user
  system := co.system
  userHome := co.userHome
  systemHome := co.systemHome
  bound := co.bound
  size := co.size
  current k page h := by
    by_cases hk : k = key
    · rw [if_pos hk] at h
      cases h
    · rw [if_neg hk] at h
      exact co.current k page h

/-- `NewPage`. -/
theorem newPage (co : Coherent dbOf latest σ)
    (place : σ.Placeable flushLog (dbOf key.tableOid) key) :
    (∃ frame σ' e, PagePool.newPage flushLog (dbOf key.tableOid) key.tableOid key.pageId σ =
        .ok frame σ' ∧ Coherent dbOf (fun k => if k = key then none else latest k) σ' ∧
        (σ'.frames (dbOf key.tableOid))[frame]? = some e ∧ e.key = key) ∨
    ∃ e σ', PagePool.newPage flushLog (dbOf key.tableOid) key.tableOid key.pageId σ =
      .error e σ' ∧ Coherent dbOf latest σ' := by
  have hbrings : Brings dbOf (fun k => if k = key then none else latest k) σ.disk
      ⟨dbOf key.tableOid, key.tableOid, key.pageId, .zero, false⟩ := by
    intro page h
    change (if key = key then none else latest key) = some page at h
    rw [if_pos rfl] at h
    cases h
  rcases (co.forget key).addToBuffer rfl place hbrings with ⟨frame, σ', hrun, co'⟩ |
    ⟨e, vec, hrun, hvec⟩
  · exact .inl ⟨frame, σ', _, hrun, co', addToBuffer_installs co.bound hrun, rfl⟩
  · exact .inr ⟨e, _, hrun, co.setVec hvec⟩

/-- The write that `modifyPage` makes. -/
def write (f : TablePage → TablePage) (e : BufferPoolEntry) : BufferPoolEntry :=
  { e with page := f e.page, isDirty := true }

/-- What is current after an entry was written to. -/
theorem current_write (co : Coherent dbOf latest σ) {σ' : PagePool} {e : BufferPoolEntry}
    {f : TablePage → TablePage} (shape : Coherent dbOf (fun _ => none) σ')
    (hdisk : σ'.disk = σ.disk)
    (hmem : write f e ∈ σ'.pool.buffers ++ σ'.systableBuffers)
    (hsub : ∀ e' ∈ σ'.pool.buffers ++ σ'.systableBuffers,
      e' = write f e ∨ e' ∈ σ.pool.buffers ++ σ.systableBuffers)
    (hsup : ∀ e' ∈ σ.pool.buffers ++ σ.systableBuffers,
      e' = e ∨ e' ∈ σ'.pool.buffers ++ σ'.systableBuffers)
    (key : TablePageid) (page : TablePage)
    (h : (if key = e.key then some (f e.page) else latest key) = some page) :
    Current dbOf (σ'.pool.buffers ++ σ'.systableBuffers) σ'.disk key page := by
  by_cases hkey : key = e.key
  · rw [if_pos hkey] at h
    cases h
    refine ⟨fun e' he' hk => ?_, .inl ⟨write f e, hmem, hkey.symm, rfl⟩⟩
    rw [shape.once he' hmem (hk.trans hkey)]
    rfl
  · rw [if_neg hkey] at h
    apply (co.current key page h).of_frames
    · intro e' he' hk
      rcases hsub e' he' with rfl | he'
      · exact (hkey hk.symm).elim
      · exact he'
    · intro e' he' hk
      rcases hsup e' he' with rfl | he'
      · exact (hkey hk.symm).elim
      · exact .inl he'
    · rw [hdisk]
      exact id

/-- Writing to the page in a frame. -/
theorem modifyPage (co : Coherent dbOf latest σ) {e : BufferPoolEntry}
    (he : (σ.frames (dbOf e.tableOid))[frame]? = some e) (f : TablePage → TablePage) :
    ∃ σ', PagePool.modifyPage (dbOf e.tableOid) frame f σ = .ok () σ' ∧
      Coherent dbOf (fun k => if k = e.key then some (f e.page) else latest k) σ' ∧
      (σ'.frames (dbOf e.tableOid))[frame]? = some (write f e) := by
  by_cases hdb : dbOf e.tableOid = systemDatabaseOid
  · rw [frames, if_pos hdb] at he
    let σ' : PagePool := { σ with systableBuffers := σ.systableBuffers.modify frame (write f) }
    have hnew : σ'.systableBuffers[frame]? = some (write f e) :=
      List.getElem?_modify_self he (write f)
    have hrun : PagePool.modifyPage (dbOf e.tableOid) frame f σ = .ok () σ' := by
      rw [PagePool.modifyPage, hdb]
      rfl
    have shape : Coherent dbOf (fun _ => none) σ' := by
      refine ⟨co.user, co.system.modify (g := write f) (fun _ => rfl) frame, co.userHome, fun e' he' => ?_,
        co.bound, co.size, fun _ _ h => absurd h.symm (Option.some_ne_none _)⟩
      rcases List.mem_modify he' with ⟨b, hb, rfl⟩ | he'
      · exact co.systemHome b (List.mem_of_getElem? hb)
      · exact co.systemHome e' he'
    refine ⟨σ', hrun, { shape with current := ?_ }, by rwa [frames, if_pos hdb]⟩
    apply co.current_write shape rfl (List.mem_append_right _ (List.mem_of_getElem? hnew))
    · intro e' he'
      rcases List.mem_append.mp he' with he' | he'
      · exact .inr (List.mem_append_left _ he')
      rcases List.mem_modify he' with ⟨b, hb, rfl⟩ | he'
      · cases he.symm.trans hb
        exact .inl rfl
      · exact .inr (List.mem_append_right _ he')
    · intro e' he'
      rcases List.mem_append.mp he' with he' | he'
      · exact .inr (List.mem_append_left _ he')
      rcases List.mem_modify_of_mem (write f) frame he' with hb | he'
      · exact .inl (Option.some.inj (hb.symm.trans he))
      · exact .inr (List.mem_append_right _ he')
  · rw [frames, if_neg hdb] at he
    let σ' : PagePool :=
      { σ with pool := { σ.pool with buffers := σ.pool.buffers.modify frame (write f) } }
    have hnew : σ'.pool.buffers[frame]? = some (write f e) :=
      List.getElem?_modify_self he (write f)
    have hrun : PagePool.modifyPage (dbOf e.tableOid) frame f σ = .ok () σ' := by
      change EStateM.Result.ok () (if dbOf e.tableOid = systemDatabaseOid then _ else _) = _
      rw [if_neg hdb]
      rfl
    have shape : Coherent dbOf (fun _ => none) σ' := by
      refine ⟨co.user.modify (g := write f) (fun _ => rfl) frame, co.system, fun e' he' => ?_, co.systemHome,
        co.bound, ?_, fun _ _ h => absurd h.symm (Option.some_ne_none _)⟩
      · rcases List.mem_modify he' with ⟨b, hb, rfl⟩ | he'
        · exact co.userHome b (List.mem_of_getElem? hb)
        · exact co.userHome e' he'
      · rw [List.length_modify]
        exact co.size
    refine ⟨σ', hrun, { shape with current := ?_ }, by rwa [frames, if_neg hdb]⟩
    apply co.current_write shape rfl (List.mem_append_left _ (List.mem_of_getElem? hnew))
    · intro e' he'
      rcases List.mem_append.mp he' with he' | he'
      · rcases List.mem_modify he' with ⟨b, hb, rfl⟩ | he'
        · cases he.symm.trans hb
          exact .inl rfl
        · exact .inr (List.mem_append_left _ he')
      · exact .inr (List.mem_append_right _ he')
    · intro e' he'
      rcases List.mem_append.mp he' with he' | he'
      · rcases List.mem_modify_of_mem (write f) frame he' with hb | he'
        · exact .inl (Option.some.inj (hb.symm.trans he))
        · exact .inr (List.mem_append_left _ he')
      · exact .inr (List.mem_append_right _ he')

end Coherent


/-! ## Flushing -/

/-- Entries are written back one after the other. -/
inductive WritesBack (flushLog : FlushLog) : List BufferPoolEntry → TableFiles → TableFiles → Prop
  | nil (d : TableFiles) : WritesBack flushLog [] d d
  | concat {es : List BufferPoolEntry} {e : BufferPoolEntry} {d d' d'' : TableFiles} :
      WritesBack flushLog es d d' → writeBack flushLog e d' = .ok d'' →
      WritesBack flushLog (es ++ [e]) d d''

namespace WritesBack

theorem sameStreams (h : WritesBack flushLog entries disk disk') : disk.SameStreams disk' := by
  induction h with
  | nil => exact .refl _
  | concat _ hwrite ih => exact ih.trans (writeBack_sameStreams hwrite)

theorem isOk (h : WritesBack flushLog entries disk disk') :
    ∀ e ∈ entries, (writeBack flushLog e disk).isOk = true := by
  induction h with
  | nil => exact fun e he => (List.not_mem_nil he).elim
  | @concat es entry d d' d'' hprev hwrite ih =>
      intro e he
      rcases List.mem_append.mp he with he | he
      · exact ih e he
      · obtain rfl := List.mem_singleton.mp he
        rw [← writeBack_isOk_congr hprev.sameStreams, hwrite]
        rfl

/-- Pages that are current stay so, and those written back are stored. -/
theorem current (h : WritesBack flushLog entries disk disk') {all : List BufferPoolEntry}
    (hsub : ∀ e ∈ entries, e ∈ all) (honce : ∀ e ∈ all, ∀ e' ∈ all, e.key = e'.key → e = e')
    (home : ∀ e ∈ all, e.dbOid = dbOf e.tableOid) (cur : Current dbOf all disk key page) :
    Current dbOf all disk' key page ∧ (StoredAt dbOf disk key page → StoredAt dbOf disk' key page) ∧
      ∀ e ∈ entries, e.key = key → StoredAt dbOf disk' key page := by
  induction h with
  | nil => exact ⟨cur, id, fun e he => (List.not_mem_nil he).elim⟩
  | @concat es entry d d' d'' _ hwrite ih =>
      obtain ⟨cur', hstored, hflushed⟩ :=
        ih (fun e he => hsub e (List.mem_append_left _ he)) cur
      have hentry := hsub entry (List.mem_append_right _ List.mem_cons_self)
      have hkeep : StoredAt dbOf d' key page → StoredAt dbOf d'' key page :=
        fun hst => stored_writeBack hst (cur'.frames entry hentry) hwrite
      refine ⟨cur'.of_frames (fun _ he _ => he) (fun _ he _ => .inl he) hkeep,
        fun hst => hkeep (hstored hst), fun e he hkey => ?_⟩
      rcases List.mem_append.mp he with he | he
      · exact hkeep (hflushed e he hkey)
      · obtain rfl := List.mem_singleton.mp he
        subst hkey
        exact cur'.stored_writeBack_self hentry (fun e' he' hk => honce e' he' e hentry hk)
          (home e hentry) hwrite

end WritesBack

/-- `Flush` changes the frames and the map together, or it throws at the first
frame. -/
def Flushable (flushLog : FlushLog) (entries : List BufferPoolEntry) (disk : TableFiles) : Prop :=
  (∃ e, entries.head? = some e ∧ (writeBack flushLog e disk).isOk = false) ∨
    ∀ e ∈ entries, (writeBack flushLog e disk).isOk = true

/-- The loop of `Flush` over the frames: each is written back and its page unmapped,
until one throws. -/
theorem forFrames_flush {f : Nat → PoolM Unit} {index : TablePageid → Option Nat}
    {g : TableFiles → (TablePageid → Option Nat) → PagePool}
    (hf : ∀ i disk m e, entries[i]? = some e → f i (g disk m) =
      match writeBack flushLog e disk with
      | .error er => .error er (g disk m)
      | .ok disk' => .ok () (g disk' (unmap m e.key)))
    (ix : Indexed BufferPoolEntry.key entries index) (n : Nat) (hn : n ≤ entries.length) :
    (∃ disk' m, forFrames f n (g disk index) = .ok () (g disk' m) ∧
      WritesBack flushLog (entries.take n) disk disk' ∧
      ∀ k i, m k = some i ↔ index k = some i ∧ n ≤ i) ∨
    ∃ i e er disk' m, entries[i]? = some e ∧ (writeBack flushLog e disk).isOk = false ∧
      (∀ j < i, ∀ e', entries[j]? = some e' → (writeBack flushLog e' disk).isOk = true) ∧
      forFrames f n (g disk index) = .error er (g disk' m) ∧
      (i = 0 → disk' = disk ∧ m = index) := by
  induction n with
  | zero => exact .inl ⟨disk, index, rfl, .nil disk, fun k i => by simp⟩
  | succ n ih =>
      rcases ih (Nat.le_of_succ_le hn) with ⟨disk', m, hrun, hback, hm⟩ |
        ⟨i, e, er, disk', m, he, hthrows, hbefore, hrun, hzero⟩
      · have hn' : entries[n]? = some entries[n] := List.getElem?_eq_getElem hn
        have hbind : forFrames f (n + 1) (g disk index) = f n (g disk' m) :=
          EStateM.bind_of_ok hrun
        have hlast := hf n disk' m _ hn'
        cases hwrite : writeBack flushLog entries[n] disk' with
        | ok disk'' =>
            rw [hwrite] at hlast
            refine .inl ⟨disk'', _, hbind.trans hlast, ?_, fun k i => ?_⟩
            · rw [List.take_succ_eq_append_getElem hn]
              exact hback.concat hwrite
            · unfold unmap
              by_cases hk : k = entries[n].key
              · rw [if_pos hk, hk, ix.some_of_getElem? hn']
                constructor
                · intro hnone
                  cases hnone
                · rintro ⟨hi, hle⟩
                  cases hi
                  omega
              · rw [if_neg hk, hm k i]
                refine ⟨fun ⟨hi, hle⟩ => ⟨hi, ?_⟩, fun ⟨hi, hle⟩ => ⟨hi, by omega⟩⟩
                apply Nat.lt_of_le_of_ne hle
                rintro rfl
                obtain ⟨e, he, rfl⟩ := ix.exists_of_some hi
                exact hk (by rw [Option.some.inj (hn'.symm.trans he)])
        | error er =>
            rw [hwrite] at hlast
            have hthrows : (writeBack flushLog entries[n] disk).isOk = false := by
              rw [← writeBack_isOk_congr hback.sameStreams, hwrite]
              rfl
            refine .inr ⟨n, _, er, disk', m, hn', hthrows, fun j hj e' he' => ?_,
              hbind.trans hlast, ?_⟩
            · apply hback.isOk e'
              apply List.mem_of_getElem? (i := j)
              rw [List.getElem?_take, if_pos hj, he']
            · rintro rfl
              constructor
              · generalize hes : entries.take 0 = es at hback
                cases hback with
                | nil => rfl
                | concat => simp at hes
              · funext k
                apply Option.ext
                intro i
                rw [hm k i]
                simp
      · exact .inr ⟨i, e, er, disk', m, he, hthrows, hbefore, EStateM.bind_of_error hrun, hzero⟩

/-- The loop goes through, or throws at the first frame and changes nothing. -/
theorem forFrames_flushable {f : Nat → PoolM Unit} {index : TablePageid → Option Nat}
    {g : TableFiles → (TablePageid → Option Nat) → PagePool}
    (hf : ∀ i disk m e, entries[i]? = some e → f i (g disk m) =
      match writeBack flushLog e disk with
      | .error er => .error er (g disk m)
      | .ok disk' => .ok () (g disk' (unmap m e.key)))
    (ix : Indexed BufferPoolEntry.key entries index) (hflush : Flushable flushLog entries disk) :
    (∃ disk', forFrames f entries.length (g disk index) = .ok () (g disk' fun _ => none) ∧
      WritesBack flushLog entries disk disk') ∨
    ∃ er, forFrames f entries.length (g disk index) = .error er (g disk index) ∧
      ∃ e ∈ entries, (writeBack flushLog e disk).isOk = false := by
  rcases forFrames_flush hf ix entries.length (Nat.le_refl _) with ⟨disk', m, hrun, hback, hm⟩ |
    ⟨i, e, er, disk', m, he, hthrows, hbefore, hrun, hzero⟩
  · have hnone : m = fun _ => none := by
      funext k
      apply Option.eq_none_iff_forall_ne_some.mpr
      intro i hi
      obtain ⟨hk, hle⟩ := (hm k i).mp hi
      obtain ⟨e, he, -⟩ := ix.exists_of_some hk
      exact Nat.not_lt.mpr hle (List.getElem?_eq_some_iff.mp he).1
    subst hnone
    rw [List.take_length] at hback
    exact .inl ⟨disk', hrun, hback⟩
  · rcases hflush with ⟨e₀, hhead, hthrows₀⟩ | hall
    · have hi : i = 0 := by
        rcases Nat.eq_zero_or_pos i with hi | hi
        · exact hi
        · rw [List.head?_eq_getElem?] at hhead
          rw [hbefore 0 hi e₀ hhead] at hthrows₀
          cases hthrows₀
      obtain ⟨rfl, rfl⟩ := hzero hi
      exact .inr ⟨er, hrun, e, List.mem_of_getElem? he, hthrows⟩
    · rw [hall e (List.mem_of_getElem? he)] at hthrows
      cases hthrows

/-- No write-back of a `Flush` throws after an earlier one unmapped its frame. -/
def FlushSafe (σ : PagePool) (flushLog : FlushLog) (regularOnly : Bool) : Prop :=
  (∃ e, σ.pool.buffers.head? = some e ∧ (writeBack flushLog e σ.disk).isOk = false) ∨
    (∀ e ∈ σ.pool.buffers, (writeBack flushLog e σ.disk).isOk = true) ∧
      (regularOnly = false → Flushable (fun _ _ => .ok ()) σ.systableBuffers σ.disk)

/-- The pool after the user pages were flushed. -/
def flushed (σ : PagePool) (disk : TableFiles) : PagePool :=
  { σ with disk := disk, pool := { σ.pool with buffers := [], hashmap := fun _ => none } }

/-- The pool after the system pages were flushed. -/
def sysFlushed (σ : PagePool) (disk : TableFiles) : PagePool :=
  { σ with disk := disk, systableBuffers := [], systableHashmap := fun _ => none }

theorem flushPage_put {i : Nat} {m : TablePageid → Option Nat} {e : BufferPoolEntry}
    (σ : PagePool) (disk : TableFiles) (he : σ.pool.buffers[i]? = some e) :
    flushPage flushLog i { σ with disk := disk, pool := { σ.pool with hashmap := m } } =
      match writeBack flushLog e disk with
      | .error er => .error er { σ with disk := disk, pool := { σ.pool with hashmap := m } }
      | .ok disk' =>
          .ok () { σ with disk := disk', pool := { σ.pool with hashmap := unmap m e.key } } := by
  rw [flushPage, get_bind]
  simp only [he]
  cases writeBack flushLog e disk <;> rfl

theorem flushSysTablePage_put {i : Nat} {m : TablePageid → Option Nat} {e : BufferPoolEntry}
    (σ : PagePool) (disk : TableFiles) (he : σ.systableBuffers[i]? = some e) :
    flushSysTablePage i { σ with disk := disk, systableHashmap := m } =
      match writeBack (fun _ _ => .ok ()) e disk with
      | .error er => .error er { σ with disk := disk, systableHashmap := m }
      | .ok disk' => .ok () { σ with disk := disk', systableHashmap := unmap m e.key } := by
  rw [flushSysTablePage, get_bind]
  simp only [he]
  cases writeBack (fun _ _ => .ok ()) e disk <;> rfl

namespace Coherent

/-- Frames that were written back may go. -/
theorem current_flush (co : Coherent dbOf latest σ) {entries' : List BufferPoolEntry}
    (hback : WritesBack flushLog entries σ.disk disk')
    (hsub : ∀ e ∈ entries, e ∈ σ.pool.buffers ++ σ.systableBuffers)
    (hrest : ∀ e ∈ entries', e ∈ σ.pool.buffers ++ σ.systableBuffers)
    (hall : ∀ e ∈ σ.pool.buffers ++ σ.systableBuffers, e ∈ entries' ∨ e ∈ entries)
    (key : TablePageid) (page : TablePage) (h : latest key = some page) :
    Current dbOf entries' disk' key page := by
  have cur := co.current key page h
  obtain ⟨-, hstored, hflushed⟩ :=
    hback.current hsub (fun e he e' he' => co.once he he') (fun e he => co.home he) cur
  apply cur.of_frames
  · exact fun e he _ => hrest e he
  · intro e he hkey
    rcases hall e he with he' | he'
    · exact .inl he'
    · exact .inr (hflushed e he' hkey)
  · exact hstored

theorem flushed (co : Coherent dbOf latest σ)
    (hback : WritesBack flushLog σ.pool.buffers σ.disk disk') :
    Coherent dbOf latest (σ.flushed disk') where
  user := .nil fun _ => rfl
  system := co.system
  userHome e he := (List.not_mem_nil he).elim
  systemHome := co.systemHome
  bound := co.bound
  size := Nat.zero_le _
  current := by
    apply co.current_flush hback
    · exact fun e he => List.mem_append_left _ he
    · exact fun e he => List.mem_append_right _ he
    · exact fun e he => (List.mem_append.mp he).symm

theorem sysFlushed (co : Coherent dbOf latest σ)
    (hback : WritesBack flushLog σ.systableBuffers σ.disk disk') :
    Coherent dbOf latest (σ.sysFlushed disk') where
  user := co.user
  system := .nil fun _ => rfl
  userHome := co.userHome
  systemHome e he := (List.not_mem_nil he).elim
  bound := co.bound
  size := co.size
  current := by
    apply co.current_flush hback
    · exact fun e he => List.mem_append_right _ he
    · intro e he
      rw [PagePool.sysFlushed, List.append_nil] at he
      exact List.mem_append_left _ he
    · intro e he
      rw [PagePool.sysFlushed, List.append_nil]
      exact List.mem_append.mp he

/-- `Flush` of the system pages. -/
theorem flushSystem (co : Coherent dbOf latest σ)
    (hflush : Flushable (fun _ _ => .ok ()) σ.systableBuffers σ.disk) :
    (∃ disk', forFrames flushSysTablePage σ.systableBuffers.length σ =
        .ok () { σ with disk := disk', systableHashmap := fun _ => none } ∧
        Coherent dbOf latest (σ.sysFlushed disk')) ∨
      ∃ er, forFrames flushSysTablePage σ.systableBuffers.length σ = .error er σ ∧
        ∃ e ∈ σ.systableBuffers, (writeBack (fun _ _ => .ok ()) e σ.disk).isOk = false := by
  rcases forFrames_flushable (g := fun disk m => { σ with disk := disk, systableHashmap := m })
    (fun i disk m e he => flushSysTablePage_put σ disk he) co.system hflush with
    ⟨disk', hrun, hback⟩ | hthrows
  · exact .inl ⟨disk', hrun, co.sysFlushed hback⟩
  · exact .inr hthrows

/-- `Flush`: the user frames are empty, or a write-back throws. -/
theorem flush (co : Coherent dbOf latest σ) {regularOnly : Bool}
    (safe : σ.FlushSafe flushLog regularOnly) :
    (∃ σ', PagePool.flush flushLog regularOnly σ = .ok () σ' ∧ Coherent dbOf latest σ' ∧
      σ'.pool.buffers = [] ∧ σ'.pool.bufferVec = σ.pool.bufferVec) ∨
    ∃ er σ', PagePool.flush flushLog regularOnly σ = .error er σ' ∧ Coherent dbOf latest σ' ∧
      ((∃ e ∈ σ.pool.buffers, (writeBack flushLog e σ.disk).isOk = false) ∨
        regularOnly = false ∧
          ∃ e ∈ σ.systableBuffers, (writeBack (fun _ _ => .ok ()) e σ.disk).isOk = false) := by
  have hflush : Flushable flushLog σ.pool.buffers σ.disk := by
    rcases safe with hhead | ⟨hall, -⟩
    · exact .inl hhead
    · exact .inr hall
  rcases forFrames_flushable
    (g := fun disk m => { σ with disk := disk, pool := { σ.pool with hashmap := m } })
    (fun i disk m e he => flushPage_put σ disk he) co.user hflush with
    ⟨disk', hrun, hback⟩ | ⟨er, hrun, hthrows⟩
  · have co' := co.flushed hback
    have same := hback.sameStreams
    have hbind : PagePool.flush flushLog regularOnly σ =
        (if !regularOnly then do
          forFrames flushSysTablePage (← get).systableBuffers.length
          modify fun σ => { σ with systableBuffers := [] }
        else pure () : PoolM Unit) (σ.flushed disk') := by
      rw [PagePool.flush, get_bind]
      exact EStateM.bind_of_ok hrun
    rw [hbind]
    cases regularOnly with
    | true => exact .inl ⟨_, rfl, co', rfl, rfl⟩
    | false =>
        rcases safe with ⟨e, hhead, hthrows⟩ | ⟨hall, hsystem⟩
        · rw [hback.isOk e (List.mem_of_head? hhead)] at hthrows
          cases hthrows
        have hsystem' : Flushable (fun _ _ => .ok ()) (σ.flushed disk').systableBuffers
            (σ.flushed disk').disk := by
          rcases hsystem rfl with ⟨e, hhead, hthrows⟩ | hall'
          · exact .inl ⟨e, hhead, (writeBack_isOk_congr same).trans hthrows⟩
          · exact .inr fun e he => (writeBack_isOk_congr same).trans (hall' e he)
        change (∃ σ', (forFrames flushSysTablePage (σ.flushed disk').systableBuffers.length >>=
              fun _ => modify fun σ => { σ with systableBuffers := [] } : PoolM Unit)
              (σ.flushed disk') = .ok () σ' ∧ _) ∨
            ∃ e σ', (forFrames flushSysTablePage (σ.flushed disk').systableBuffers.length >>=
              fun _ => modify fun σ => { σ with systableBuffers := [] } : PoolM Unit)
              (σ.flushed disk') = .error e σ' ∧ _
        rcases co'.flushSystem hsystem' with ⟨disk'', hrun', co''⟩ | ⟨er, hrun', e, he, hthrows⟩
        · exact .inl ⟨_, EStateM.bind_of_ok hrun', co'', rfl, rfl⟩
        · exact .inr ⟨er, _, EStateM.bind_of_error hrun', co', .inr ⟨rfl, e, he,
            (writeBack_isOk_congr same).symm.trans hthrows⟩⟩
  · refine .inr ⟨er, σ, ?_, co, .inl hthrows⟩
    rw [PagePool.flush, get_bind]
    exact EStateM.bind_of_error hrun

/-- `Clear`: the files are what is left. -/
theorem clear (co : Coherent dbOf latest σ) :
    ∃ σ', PagePool.clear σ = .ok () σ' ∧ Coherent dbOf (σ'.disk.images dbOf) σ' := by
  refine ⟨_, rfl, .nil fun _ => rfl, .nil fun _ => rfl, fun e he => (List.not_mem_nil he).elim,
    fun e he => (List.not_mem_nil he).elim, co.bound, Nat.zero_le _, fun key page h => ?_⟩
  exact ⟨fun e he => (List.not_mem_nil he).elim, .inr (.inl h)⟩

end Coherent

end PagePool

/-! ## Runs -/

open PagePool

/-- The call gives a page a frame only where that leaves it in one frame, and no
`Flush` throws halfway. -/
def PoolOp.Sound (dbOf : Nat → Nat) (flushLog : FlushLog) (σ : PagePool) : PoolOp → Prop
  | .getPage key | .modifyPage key _ =>
      σ.hashmap (dbOf key.tableOid) key = none →
        (∃ page, σ.Readable (key.path dbOf) key.pageId page) →
        σ.Placeable flushLog (dbOf key.tableOid) key
  | .newPage key _ => σ.Placeable flushLog (dbOf key.tableOid) key
  | .flush regularOnly => σ.FlushSafe flushLog regularOnly
  | .clear => True

namespace PagePool.Coherent

variable {dbOf : Nat → Nat} {latest : TablePageid → Option TablePage} {σ : PagePool}
  {flushLog : FlushLog} {key : TablePageid}

theorem run_getPage (co : Coherent dbOf latest σ)
    (sound : (PoolOp.getPage key).Sound dbOf flushLog σ) :
    (∃ frame σ' content,
      PagePool.getPage flushLog (dbOf key.tableOid) key.tableOid key.pageId σ = .ok frame σ' ∧
        Coherent dbOf latest σ' ∧
        (PoolOp.getPage key).run dbOf flushLog σ = .ok (some content) σ') ∨
    ∃ e σ', PagePool.getPage flushLog (dbOf key.tableOid) key.tableOid key.pageId σ = .error e σ' ∧
      Coherent dbOf latest σ' ∧ (PoolOp.getPage key).run dbOf flushLog σ = .error e σ' := by
  rcases co.getPage sound with ⟨frame, σ', e, hrun, co', he, -⟩ | ⟨e, σ', hrun, co'⟩
  · have hpage : page (dbOf key.tableOid) frame σ' = .ok e.page σ' := by
      rw [page, get_bind, he]
      rfl
    exact .inl ⟨frame, σ', e.page, hrun, co',
      (EStateM.bind_of_ok hrun).trans (EStateM.bind_of_ok hpage)⟩
  · exact .inr ⟨e, σ', hrun, co', EStateM.bind_of_error hrun⟩

theorem run_newPage (co : Coherent dbOf latest σ) {content : TablePage}
    (sound : (PoolOp.newPage key content).Sound dbOf flushLog σ) :
    (∃ frame σ' σ'',
      PagePool.newPage flushLog (dbOf key.tableOid) key.tableOid key.pageId σ = .ok frame σ' ∧
        PagePool.modifyPage (dbOf key.tableOid) frame (fun _ => content) σ' = .ok () σ'' ∧
        Coherent dbOf (fun k => if k = key then some content else latest k) σ'' ∧
        (PoolOp.newPage key content).run dbOf flushLog σ = .ok (some content) σ'') ∨
    ∃ e σ', PagePool.newPage flushLog (dbOf key.tableOid) key.tableOid key.pageId σ = .error e σ' ∧
      Coherent dbOf latest σ' ∧ (PoolOp.newPage key content).run dbOf flushLog σ = .error e σ' := by
  rcases co.newPage sound with ⟨frame, σ', e, hrun, co', he, rfl⟩ | ⟨e, σ', hrun, co'⟩
  · obtain ⟨σ'', hmodify, co'', -⟩ := co'.modifyPage he fun _ => content
    refine .inl ⟨frame, σ', σ'', hrun, hmodify, ?_,
      (EStateM.bind_of_ok hrun).trans (EStateM.bind_of_ok hmodify)⟩
    have hlatest : (fun k => if k = e.key then some content else
        if k = e.key then none else latest k) =
        fun k => if k = e.key then some content else latest k := by
      funext k
      by_cases hk : k = e.key
      · rw [if_pos hk, if_pos hk]
      · rw [if_neg hk, if_neg hk, if_neg hk]
    rw [hlatest] at co''
    exact co''
  · exact .inr ⟨e, σ', hrun, co', EStateM.bind_of_error hrun⟩

theorem run_modifyPage (co : Coherent dbOf latest σ) {f : TablePage → TablePage}
    (sound : (PoolOp.modifyPage key f).Sound dbOf flushLog σ) :
    (∃ frame σ' σ'' content,
      PagePool.getPage flushLog (dbOf key.tableOid) key.tableOid key.pageId σ = .ok frame σ' ∧
        PagePool.modifyPage (dbOf key.tableOid) frame f σ' = .ok () σ'' ∧
        Coherent dbOf (fun k => if k = key then some content else latest k) σ'' ∧
        (PoolOp.modifyPage key f).run dbOf flushLog σ = .ok (some content) σ'') ∨
    ∃ e σ', PagePool.getPage flushLog (dbOf key.tableOid) key.tableOid key.pageId σ = .error e σ' ∧
      Coherent dbOf latest σ' ∧ (PoolOp.modifyPage key f).run dbOf flushLog σ = .error e σ' := by
  rcases co.getPage sound with ⟨frame, σ', e, hrun, co', he, rfl⟩ | ⟨e, σ', hrun, co'⟩
  · obtain ⟨σ'', hmodify, co'', he''⟩ := co'.modifyPage he f
    have hpage : page (dbOf e.tableOid) frame σ'' = .ok (f e.page) σ'' := by
      rw [page, get_bind, he'']
      rfl
    exact .inl ⟨frame, σ', σ'', f e.page, hrun, hmodify, co'', (EStateM.bind_of_ok hrun).trans
      ((EStateM.bind_of_ok hmodify).trans (EStateM.bind_of_ok hpage))⟩
  · exact .inr ⟨e, σ', hrun, co', EStateM.bind_of_error hrun⟩

end PagePool.Coherent

/-- A call keeps the pool a page store. -/
theorem coherent_step {dbOf : Nat → Nat} {h : PoolHistory} {flushLog : FlushLog} {op : PoolOp}
    (co : Coherent dbOf h.latest h.σ) (sound : op.Sound dbOf flushLog h.σ) :
    Coherent dbOf (h.step dbOf flushLog op).latest (h.step dbOf flushLog op).σ := by
  unfold PoolHistory.step
  cases op with
  | getPage key =>
      rcases co.run_getPage sound with ⟨_, _, _, -, co', hop⟩ | ⟨_, _, -, co', hop⟩
      · rw [hop]
        exact co'
      · rw [hop]
        exact co'
  | newPage key content =>
      rcases co.run_newPage sound with ⟨_, _, _, -, -, co', hop⟩ | ⟨_, _, -, co', hop⟩
      · rw [hop]
        exact co'
      · rw [hop]
        exact co'
  | modifyPage key f =>
      rcases co.run_modifyPage sound with ⟨_, _, _, _, -, -, co', hop⟩ | ⟨_, _, -, co', hop⟩
      · rw [hop]
        exact co'
      · rw [hop]
        exact co'
  | flush regularOnly =>
      rcases co.flush sound with ⟨σ', hrun, co', -⟩ | ⟨e, σ', hrun, co', -⟩
      · rw [show (PoolOp.flush regularOnly).run dbOf flushLog h.σ = .ok none σ' from
          EStateM.bind_of_ok hrun]
        exact co'
      · rw [show (PoolOp.flush regularOnly).run dbOf flushLog h.σ = .error e σ' from
          EStateM.bind_of_error hrun]
        exact co'
  | clear =>
      obtain ⟨σ', hrun, co'⟩ := co.clear
      rw [show PoolOp.clear.run dbOf flushLog h.σ = .ok none σ' from EStateM.bind_of_ok hrun]
      exact co'

theorem coherent_start (dbOf : Nat → Nat) (files : FilePath → Option DataFile) :
    Coherent dbOf (PoolHistory.start dbOf files).latest (PoolHistory.start dbOf files).σ where
  user := .nil fun _ => rfl
  system := .nil fun _ => rfl
  userHome _ he := (List.not_mem_nil he).elim
  systemHome _ he := (List.not_mem_nil he).elim
  bound _ hi := (List.not_mem_nil hi).elim
  size := Nat.zero_le _
  current _ _ h := ⟨fun _ he => (List.not_mem_nil he).elim, .inr (.inl h)⟩

theorem PoolRun.coherent {dbOf : Nat → Nat} {h : PoolHistory}
    (run : PoolRun dbOf (fun flushLog op h => op.Sound dbOf flushLog h.σ) h) :
    Coherent dbOf h.latest h.σ := by
  induction run with
  | start files => exact coherent_start dbOf files
  | step flushLog op _ sound ih => exact coherent_step ih sound

/-- The content `GetPage` hands out. -/
theorem PagePool.Coherent.getPage_content {dbOf : Nat → Nat}
    {latest : TablePageid → Option TablePage} {σ σ' : PagePool} {flushLog : FlushLog}
    {key : TablePageid} {frame : Nat} {entry : BufferPoolEntry} {written : TablePage}
    (co : Coherent dbOf latest σ)
    (run : PagePool.getPage flushLog (dbOf key.tableOid) key.tableOid key.pageId σ = .ok frame σ')
    (hentry : (σ'.frames (dbOf key.tableOid))[frame]? = some entry)
    (hwritten : latest key = some written) : entry.page = written := by
  cases hmap : σ.hashmap (dbOf key.tableOid) key with
  | some i =>
      obtain ⟨e, he, hkey⟩ := co.mapped hmap
      cases (getPage_hit hmap).symm.trans run
      rw [Coherent.frames_touched] at hentry
      cases he.symm.trans hentry
      exact (co.current key written hwritten).frames _
        (Coherent.mem_frames (List.mem_of_getElem? he)) hkey
  | none =>
      by_cases hread : ∃ page, σ.Readable (key.path dbOf) key.pageId page
      · obtain ⟨page, hread⟩ := hread
        rw [getPage_miss hmap hread] at run
        cases (addToBuffer_installs co.bound run).symm.trans hentry
        rcases co.stored_of_unmapped hmap hwritten with himage | hgone
        · exact Option.some.inj (hread.2.symm.trans himage)
        · have himage := hread.2
          rw [TableFiles.image?, hgone] at himage
          cases himage
      · obtain ⟨e, failed, hrun⟩ := getPage_fails flushLog hmap
          (fun page h => hread ⟨page, h⟩)
        cases hrun.symm.trans run

/-- Each page is in one frame, `hashmap_` leads to the frames of exactly the pages
that have one, and `GetPage` hands out the content last written. -/
structure PageStore (dbOf : Nat → Nat) (h : PoolHistory) : Prop where
  once : ((h.σ.pool.buffers ++ h.σ.systableBuffers).map BufferPoolEntry.key).Nodup
  mapped : ∀ dbOid key frame, h.σ.hashmap dbOid key = some frame ↔
    ∃ entry, (h.σ.frames dbOid)[frame]? = some entry ∧ entry.key = key
  latest : ∀ flushLog key frame σ' content σ'' written,
    getPage flushLog (dbOf key.tableOid) key.tableOid key.pageId h.σ = .ok frame σ' →
    page (dbOf key.tableOid) frame σ' = .ok content σ'' →
    h.latest key = some written → content = written

theorem PagePool.Coherent.pageStore {dbOf : Nat → Nat} {h : PoolHistory}
    (co : Coherent dbOf h.latest h.σ) : PageStore dbOf h where
  once := by
    rw [List.map_append]
    apply List.Nodup.append co.user.nodup co.system.nodup
    intro key huser hsystem
    obtain ⟨e, he, rfl⟩ := List.mem_map.mp huser
    obtain ⟨e', he', hkey⟩ := List.mem_map.mp hsystem
    have htable : e'.tableOid = e.tableOid := congrArg TablePageid.tableOid hkey
    exact (co.userHome e he).2 (htable ▸ (co.systemHome e' he').2)
  mapped dbOid key frame := by
    rw [← Option.map_eq_some_iff, PagePool.hashmap, frames]
    by_cases hdb : dbOid = systemDatabaseOid
    · rw [if_pos hdb, if_pos hdb]
      exact co.system key frame
    · rw [if_neg hdb, if_neg hdb]
      exact co.user key frame
  latest flushLog key frame σ' content σ'' written hget hpage hwritten := by
    cases hentry : (σ'.frames (dbOf key.tableOid))[frame]? with
    | none =>
        rw [page, get_bind, hentry] at hpage
        cases hpage
    | some entry =>
        rw [page, get_bind, hentry] at hpage
        cases hpage
        exact co.getPage_content hget hentry hwritten

/-- The pages of a table whose second page is created, unlinked by the rollback of
the insertion that created it, and created again by the next insertion. -/
def recreatedPage : PoolHistory :=
  (PoolHistory.start (fun _ => preservedOid) fun _ => some .empty).calls (fun _ => preservedOid)
    [.newPage ⟨preservedOid + 1, 0⟩ TablePage.zero.init,
      .modifyPage ⟨preservedOid + 1, 0⟩ fun page => page.setNextPageId 1,
      .newPage ⟨preservedOid + 1, 1⟩ TablePage.zero.init,
      .getPage ⟨preservedOid + 1, 0⟩,
      .getPage ⟨preservedOid + 1, 1⟩,
      .modifyPage ⟨preservedOid + 1, 0⟩ fun page => page.setNextPageId nullPageId,
      .modifyPage ⟨preservedOid + 1, 0⟩ fun page => page.setNextPageId 1,
      .newPage ⟨preservedOid + 1, 1⟩ TablePage.zero.init]

end HuaDB
