import HuaDB.LogFile
import HuaDB.Catalog

/-!
`storage/disk.cpp` with its streams.

A table file is read and written through a stream that is kept under the file's path, the log
through one that is opened once. A stream that reaches the end of its file in a read sets its
failure flag and keeps it: every later read of that file throws, in every run of calls
(`reads_fail_after_shortRead`).
-/

namespace HuaDB

/-- An `std::fstream`: on a file it has opened, or with its failure flag set. -/
inductive FileStream where
  | good (inode : Nat)
  | failed
deriving DecidableEq, Repr

/-- `Disk`, with the files. A stream keeps the file it has opened when the path is removed. -/
structure DiskStreams where
  paths : FilePath → Option Nat
  inodes : Nat → ByteFile
  hashmap : FilePath → Option FileStream := fun _ => none
  log : LogFile
  logFailed : Bool := false
  accessCount : Nat := 0

abbrev DiskOp := EStateM DbError DiskStreams

namespace DiskStreams

/-- `Disk::GetFilePath`. -/
def getFilePath (path : FilePath) : String := s!"{path.dbOid}/{path.tableOid}"

def setStream (disk : DiskStreams) (path : FilePath) (stream : FileStream) : DiskStreams :=
  { disk with hashmap := fun p => if p = path then some stream else disk.hashmap p }

/-- `Disk::OpenFile`: a stream that could not open its file stays in the map too. -/
def openFile (path : FilePath) : DiskOp FileStream := do
  match (← get).paths path with
  | some inode =>
      modify (·.setStream path (.good inode))
      return .good inode
  | none =>
      modify (·.setStream path .failed)
      throw (.dbException s!"file {getFilePath path} does not exist")

/-- The stream of a path, opened where there is none. -/
def stream (path : FilePath) : DiskOp FileStream := do
  match (← get).hashmap path with
  | some stream => return stream
  | none => openFile path

def countAccess (path : FilePath) : DiskOp Unit :=
  modify fun disk =>
    if path.dbOid = systemDatabaseOid then disk
    else { disk with accessCount := (disk.accessCount + 1) % 2 ^ 32 }

/-- The message of a page that ends too soon. -/
def shortPage (path : FilePath) (pageId count : Nat) : DbError :=
  .dbException s!"{getFilePath path} read page {pageId} failed: read {count} bytes, expected {
    dbPageSize} bytes"

/-- `Disk::ReadPage`. -/
def readPage (path : FilePath) (pageId : Nat) : DiskOp (List UInt8) := do
  countAccess path
  match ← stream path with
  | .good inode =>
      match ((← get).inodes inode).read (pageId * dbPageSize) dbPageSize with
      | some bytes => return bytes
      | none =>
          modify (·.setStream path .failed)
          throw (shortPage path pageId (((← get).inodes inode).size - pageId * dbPageSize))
  | .failed => throw (.dbException "fstream failed in Disk::ReadPage")

/-- `Disk::WritePage`. -/
def writePage (path : FilePath) (pageId : Nat) (data : List UInt8) : DiskOp Unit := do
  if (← get).paths path = none then
    return
  else
    let opened ← stream path
    countAccess path
    match opened with
    | .good inode =>
        modify fun disk => { disk with
          inodes := Function.update disk.inodes inode
            ((disk.inodes inode).write (pageId * dbPageSize) (data.take dbPageSize)) }
    | .failed => throw (.dbException "fstream failed in Disk::WritePage")

/-- `Disk::ReadLog`. -/
def readLog (offset count : Nat) : DiskOp (List UInt8) := do
  if (← get).logFailed then
    throw (.dbException "fstream failed in Disk::ReadLog")
  else
    match (← get).log.readLog offset count with
    | .ok bytes => return bytes
    | .error e =>
        modify fun disk => { disk with logFailed := true }
        throw e

/-- `Disk::WriteLog`. -/
def writeLog (offset count : Nat) (data : List UInt8) : DiskOp Unit := do
  if (← get).logFailed then
    throw (.dbException "fstream failed in Disk::WriteLog")
  else
    modify fun disk => { disk with log := disk.log.writeLog offset count data }

/-! ## Calls -/

/-- A call on a file. -/
inductive Call where
  | readPage (path : FilePath) (pageId : Nat)
  | writePage (path : FilePath) (pageId : Nat) (data : List UInt8)
  | readLog (offset count : Nat)
  | writeLog (offset count : Nat) (data : List UInt8)

namespace Call

/-- What a call gives: the bytes it has read. -/
def exec : Call → DiskOp (List UInt8)
  | .readPage path pageId => DiskStreams.readPage path pageId
  | .writePage path pageId data => do
      DiskStreams.writePage path pageId data
      return []
  | .readLog offset count => DiskStreams.readLog offset count
  | .writeLog offset count data => do
      DiskStreams.writeLog offset count data
      return []

/-- The table file that a call is on, or the log. -/
def file : Call → Option FilePath
  | .readPage path _ | .writePage path _ _ => some path
  | .readLog .. | .writeLog .. => none

/-- What a call gives or throws. -/
def outcome (call : Call) (disk : DiskStreams) : Except DbError (List UInt8) :=
  match call.exec disk with
  | .ok bytes _ => .ok bytes
  | .error e _ => .error e

/-- The disk after a call. -/
def after (call : Call) (disk : DiskStreams) : DiskStreams :=
  match call.exec disk with
  | .ok _ disk' | .error _ disk' => disk'

/-- The call is a read that throws because there are fewer bytes than it asks for. -/
def FailsShort : Call → DiskStreams → Prop
  | .readPage path pageId, disk =>
      ∃ count < dbPageSize, (Call.readPage path pageId).outcome disk =
        .error (shortPage path pageId count)
  | .readLog offset count, disk =>
      ∃ read < count, (Call.readLog offset count).outcome disk =
        .error (.dbException s!"read log failed (offset: {offset}, count: {count}, read: {read})")
  | _, _ => False

/-- Every later call on the same file gives what it would give without this one. -/
def Unaffecting (call : Call) (disk : DiskStreams) : Prop :=
  ∀ later : Call, later.file = call.file →
    later.outcome (call.after disk) = later.outcome disk

end Call

/-! ## Failure flags stay set -/

/-- The stream of a table file, or that of the log, has failed. -/
def Stuck (disk : DiskStreams) : Option FilePath → Prop
  | some path => disk.hashmap path = some .failed
  | none => disk.logFailed = true

/-- Whatever has failed stays so. -/
def Keeps (disk disk' : DiskStreams) : Prop := ∀ file, disk.Stuck file → disk'.Stuck file

namespace Keeps

theorem refl (disk : DiskStreams) : Keeps disk disk := fun _ h => h

theorem trans {disk₁ disk₂ disk₃ : DiskStreams} (h : Keeps disk₁ disk₂) (h' : Keeps disk₂ disk₃) :
    Keeps disk₁ disk₃ := fun file hstuck => h' file (h file hstuck)

theorem of_eq {disk disk' : DiskStreams} (hmap : disk'.hashmap = disk.hashmap)
    (hlog : disk'.logFailed = disk.logFailed) : Keeps disk disk' := by
  rintro (_ | path) h
  · exact hlog.trans h
  · exact (congrFun hmap path).trans h

/-- A new stream, or one that has failed. -/
theorem setStream {disk : DiskStreams} {path : FilePath} {stream : FileStream}
    (h : disk.hashmap path = none ∨ stream = .failed) : Keeps disk (disk.setStream path stream) := by
  rintro (_ | p) hstuck
  · exact hstuck
  · by_cases hp : p = path
    · subst hp
      have hfailed : stream = .failed := h.resolve_left fun hnone => by cases hstuck.symm.trans hnone
      exact (if_pos rfl).trans (congrArg some hfailed)
    · exact (if_neg hp).trans hstuck

end Keeps

open EStateM (Ends)

theorem stream_ends (path : FilePath) (disk : DiskStreams) :
    Ends disk (stream path)
      (fun opened disk' => Keeps disk disk' ∧ disk'.hashmap path = some opened)
      (fun _ disk' => Keeps disk disk' ∧ disk'.Stuck (some path)) := by
  refine .get_bind ?_
  rcases hmap : disk.hashmap path with _ | opened
  · refine .get_bind ?_
    rcases disk.paths path with _ | inode
    · exact .bind_of_ok rfl (.throw ⟨.setStream (.inl hmap), if_pos rfl⟩)
    · exact .bind_of_ok rfl (.pure ⟨.setStream (.inl hmap), if_pos rfl⟩)
  · exact .pure ⟨.refl disk, hmap⟩

theorem countAccess_keeps (path : FilePath) (disk : DiskStreams) :
    Keeps disk (if path.dbOid = systemDatabaseOid then disk
      else { disk with accessCount := (disk.accessCount + 1) % 2 ^ 32 }) := by
  split
  · exact .refl disk
  · exact .of_eq rfl rfl

/-- A read that throws leaves its stream failed. -/
theorem readPage_ends (path : FilePath) (pageId : Nat) (disk : DiskStreams) :
    Ends disk (readPage path pageId) (fun _ => Keeps disk)
      (fun _ disk' => Keeps disk disk' ∧ disk'.Stuck (some path)) := by
  have hcount := countAccess_keeps path disk
  refine .bind_of_ok rfl (.bind ((stream_ends path _).mono (fun _ _ h => h)
    fun _ _ h => ⟨hcount.trans h.1, h.2⟩) ?_)
  rintro (inode | _) disk' ⟨hkeeps, hopened⟩
  · refine .get_bind ?_
    rcases (disk'.inodes inode).read (pageId * dbPageSize) dbPageSize with _ | bytes
    · exact .bind_of_ok rfl (.get_bind
        (.throw ⟨(hcount.trans hkeeps).trans (.setStream (.inr rfl)), if_pos rfl⟩))
    · exact .pure (hcount.trans hkeeps)
  · exact .throw ⟨hcount.trans hkeeps, hopened⟩

theorem writePage_ends (path : FilePath) (pageId : Nat) (data : List UInt8) (disk : DiskStreams) :
    Ends disk (writePage path pageId data) (fun _ => Keeps disk) (fun _ => Keeps disk) := by
  refine .get_bind ?_
  split
  · exact .pure (.refl disk)
  · refine .bind ((stream_ends path disk).mono (fun _ _ h => h) fun _ _ h => h.1) ?_
    rintro (inode | _) disk' ⟨hkeeps, -⟩
    · exact .bind_of_ok rfl
        (.modify ((hkeeps.trans (countAccess_keeps path disk')).trans (.of_eq rfl rfl)))
    · exact .bind_of_ok rfl (.throw (hkeeps.trans (countAccess_keeps path disk')))

theorem readLog_ends (offset count : Nat) (disk : DiskStreams) :
    Ends disk (readLog offset count) (fun _ => Keeps disk)
      (fun _ disk' => Keeps disk disk' ∧ disk'.Stuck none) := by
  refine .get_bind ?_
  split
  · rename_i hfailed
    exact .throw ⟨.refl disk, hfailed⟩
  · refine .get_bind ?_
    split
    · exact .pure (.refl disk)
    · refine .bind_of_ok rfl (.throw ⟨?_, rfl⟩)
      rintro (_ | path) hstuck
      · rfl
      · exact hstuck

theorem writeLog_ends (offset count : Nat) (data : List UInt8) (disk : DiskStreams) :
    Ends disk (writeLog offset count data) (fun _ => Keeps disk) (fun _ => Keeps disk) := by
  refine .get_bind ?_
  split
  · exact .throw (.refl disk)
  · exact .modify (.of_eq rfl rfl)

namespace Call

theorem exec_ends (call : Call) (disk : DiskStreams) :
    Ends disk call.exec (fun _ => Keeps disk) (fun _ => Keeps disk) := by
  rcases call with ⟨path, pageId⟩ | ⟨path, pageId, data⟩ | ⟨offset, count⟩ | ⟨offset, count, data⟩
  · exact (readPage_ends path pageId disk).mono (fun _ _ h => h) fun _ _ h => h.1
  · exact .bind (writePage_ends path pageId data disk) fun _ _ h => .pure h
  · exact (readLog_ends offset count disk).mono (fun _ _ h => h) fun _ _ h => h.1
  · exact .bind (writeLog_ends offset count data disk) fun _ _ h => .pure h

theorem after_keeps (call : Call) (disk : DiskStreams) : Keeps disk (call.after disk) := by
  have hends := call.exec_ends disk
  rw [after]
  rcases hrun : call.exec disk with ⟨bytes, disk'⟩ | ⟨e, disk'⟩
  · exact hends.ok_of hrun
  · exact hends.error_of hrun

/-- The disk after a sequence of calls, whether they throw or not. -/
def run (calls : List Call) (disk : DiskStreams) : DiskStreams :=
  calls.foldl (fun disk call => call.after disk) disk

theorem run_keeps (calls : List Call) (disk : DiskStreams) : Keeps disk (run calls disk) := by
  induction calls generalizing disk with
  | nil => exact .refl disk
  | cons call calls ih => exact (call.after_keeps disk).trans (ih (call.after disk))

/-- What a call throws once its stream has failed. -/
def stuckError : Call → DbError
  | .readPage .. => .dbException "fstream failed in Disk::ReadPage"
  | .writePage .. => .dbException "fstream failed in Disk::WritePage"
  | .readLog .. => .dbException "fstream failed in Disk::ReadLog"
  | .writeLog .. => .dbException "fstream failed in Disk::WriteLog"

/-- The call is not a write to a page of a file that is no longer there. -/
def Reaches (disk : DiskStreams) : Call → Prop
  | .writePage path _ _ => disk.paths path ≠ none
  | _ => True

theorem stream_of_stuck {path : FilePath} {disk : DiskStreams} (h : disk.Stuck (some path)) :
    stream path disk = .ok .failed disk := by
  have hmap : disk.hashmap path = some .failed := h
  simp only [stream, EStateM.bind_apply, EStateM.get_apply, hmap]
  rfl

theorem exec_of_stuck {call : Call} {disk : DiskStreams} (h : disk.Stuck call.file)
    (hreaches : call.Reaches disk) :
    Ends disk call.exec (fun _ _ => False) (fun e _ => e = call.stuckError) := by
  rcases call with ⟨path, pageId⟩ | ⟨path, pageId, data⟩ | ⟨offset, count⟩ | ⟨offset, count, data⟩
  · have hcounted := countAccess_keeps path disk (some path) h
    exact .bind_of_ok rfl (.bind_of_ok (stream_of_stuck hcounted) (.throw rfl))
  · have hwrite : Ends disk (DiskStreams.writePage path pageId data) (fun _ _ => False)
        (fun e _ => e = (Call.writePage path pageId data).stuckError) := by
      refine .get_bind ?_
      rw [if_neg hreaches]
      exact .bind_of_ok (stream_of_stuck h) (.bind_of_ok rfl (.throw rfl))
    exact .bind hwrite fun _ _ hfalse => hfalse.elim
  · refine .get_bind ?_
    rw [if_pos (show disk.logFailed = true from h)]
    exact .throw rfl
  · have hwrite : Ends disk (DiskStreams.writeLog offset count data) (fun _ _ => False)
        (fun e _ => e = (Call.writeLog offset count data).stuckError) := by
      refine .get_bind ?_
      rw [if_pos (show disk.logFailed = true from h)]
      exact .throw rfl
    exact .bind hwrite fun _ _ hfalse => hfalse.elim

/-- On a file whose stream has failed, every call throws that. -/
theorem outcome_of_stuck {call : Call} {disk : DiskStreams} (h : disk.Stuck call.file)
    (hreaches : call.Reaches disk) : call.outcome disk = .error call.stuckError := by
  have hends := exec_of_stuck h hreaches
  rw [outcome]
  rcases hrun : call.exec disk with ⟨bytes, disk'⟩ | ⟨e, disk'⟩
  · exact (hends.ok_of hrun).elim
  · exact congrArg Except.error (hends.error_of hrun)

/-- A read that throws leaves its stream failed. -/
theorem stuck_of_failsShort {call : Call} {disk : DiskStreams} (h : call.FailsShort disk) :
    (call.after disk).Stuck call.file := by
  rcases call with ⟨path, pageId⟩ | _ | ⟨offset, count⟩ | _
  · rcases h with ⟨read, -, hread⟩
    rw [outcome] at hread
    rw [after]
    rcases hrun : (Call.readPage path pageId).exec disk with ⟨bytes, disk'⟩ | ⟨e, disk'⟩
    · rw [hrun] at hread
      cases hread
    · exact ((readPage_ends path pageId disk).error_of hrun).2
  · exact h.elim
  · rcases h with ⟨read, -, hread⟩
    rw [outcome] at hread
    rw [after]
    rcases hrun : (Call.readLog offset count).exec disk with ⟨bytes, disk'⟩ | ⟨e, disk'⟩
    · rw [hrun] at hread
      cases hread
    · exact ((readLog_ends offset count disk).error_of hrun).2
  · exact h.elim

theorem isRead_of_failsShort {call : Call} {disk : DiskStreams} (h : call.FailsShort disk)
    (disk' : DiskStreams) : call.Reaches disk' := by
  rcases call with _ | _ | _ | _
  · trivial
  · exact h.elim
  · trivial
  · trivial

/-- After a read that found too few bytes, every later read on the same file throws, whatever
calls come between. -/
theorem reads_fail_after_shortRead {call : Call} {disk : DiskStreams} (h : call.FailsShort disk)
    (between : List Call) {later : Call} (hfile : later.file = call.file)
    (hreaches : later.Reaches (run between (call.after disk))) :
    later.outcome (run between (call.after disk)) = .error later.stuckError := by
  apply outcome_of_stuck _ hreaches
  rw [hfile]
  exact run_keeps between _ _ (stuck_of_failsShort h)

/-! ## The messages differ -/

theorem shortPage_ne_stuck (path : FilePath) (pageId count : Nat) :
    shortPage path pageId count ≠ .dbException "fstream failed in Disk::ReadPage" := by
  intro h
  have hchars := congrArg String.toList (DbError.dbException.inj h)
  simp only [getFilePath, toString, String.toList_append, Nat.toList_repr, List.append_assoc]
    at hchars
  -- the first character is a digit
  rcases hdigits : Nat.toDigits 10 path.dbOid with _ | ⟨c, digits⟩
  · exact Nat.toDigits_ne_nil hdigits
  · rw [hdigits] at hchars
    have hc : c = 'f' := (List.cons.inj hchars).1
    have hdigit := Nat.isDigit_of_mem_toDigits (by decide) (by decide)
      (hdigits ▸ List.mem_cons_self : c ∈ Nat.toDigits 10 path.dbOid)
    rw [hc] at hdigit
    cases hdigit

theorem shortLog_ne_stuck (offset count read : Nat) :
    DbError.dbException s!"read log failed (offset: {offset}, count: {count}, read: {read})" ≠
      .dbException "fstream failed in Disk::ReadLog" := by
  intro h
  have hchars := congrArg String.toList (DbError.dbException.inj h)
  simp only [toString, String.toList_append, List.append_assoc] at hchars
  have hhead : 'r' = 'f' := (List.cons.inj hchars).1
  cases hhead

/-- A read that throws because fewer bytes than requested exist always has a lasting effect:
the same read, for one, throws something else from then on. -/
theorem not_unaffecting_of_failsShort {call : Call} {disk : DiskStreams}
    (h : call.FailsShort disk) : ¬ call.Unaffecting disk := by
  intro hsame
  have hlater := outcome_of_stuck (stuck_of_failsShort h) (isRead_of_failsShort h _)
  rw [hsame call rfl] at hlater
  rcases call with ⟨path, pageId⟩ | _ | ⟨offset, count⟩ | _
  · rcases h with ⟨read, -, hread⟩
    exact shortPage_ne_stuck path pageId read (Except.error.inj (hread.symm.trans hlater))
  · exact h.elim
  · rcases h with ⟨read, -, hread⟩
    exact shortLog_ne_stuck offset count read (Except.error.inj (hread.symm.trans hlater))
  · exact h.elim

/-- A table of one page, and a log of one segment. -/
def onePage : DiskStreams where
  paths path := if path = ⟨10000, 10001⟩ then some 0 else none
  inodes _ := .zeros dbPageSize
  log := ⟨1, .zeros logSegmentSize⟩

theorem onePage_failsShort : (Call.readPage ⟨10000, 10001⟩ 1).FailsShort onePage :=
  ⟨0, by decide, rfl⟩

theorem not_unaffecting_onePage : ¬ (Call.readPage ⟨10000, 10001⟩ 1).Unaffecting onePage :=
  not_unaffecting_of_failsShort onePage_failsShort

/-- After the read of a second page that is not there, the first one cannot be read. -/
theorem onePage_lost :
    (Call.readPage ⟨10000, 10001⟩ 1).FailsShort onePage ∧
      (∃ bytes, (Call.readPage ⟨10000, 10001⟩ 0).outcome onePage = .ok bytes) ∧
      (Call.readPage ⟨10000, 10001⟩ 0).outcome
          ((Call.readPage ⟨10000, 10001⟩ 1).after onePage) =
        .error (.dbException "fstream failed in Disk::ReadPage") :=
  ⟨onePage_failsShort, ⟨_, rfl⟩,
    outcome_of_stuck (stuck_of_failsShort onePage_failsShort) trivial⟩

end Call

end DiskStreams

end HuaDB
