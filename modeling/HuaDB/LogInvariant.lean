import HuaDB.Lib.Tiling
import HuaDB.LogManager
import Mathlib.Data.List.Find

/-!
What holds of the log in every state of a run.

The records on disk fill the log file from zero to the position the file
`next_lsn` holds, and the buffered records continue from there to `next_lsn_`
(`LogOk`). Appending and flushing keep this, flushing moves a prefix of the
buffer to disk, and reading at the position of a flushed record gives that
record back (`readRecord_of_mem`).
-/

namespace HuaDB

/-- Consecutive log records. -/
abbrev LogTiles := Tiles LogRecord.lsn LogRecord.getSize

/-- The position of the file `next_lsn`: the end of the flushed log. -/
def Disk.logEnd (disk : Disk) : Nat := disk.nextLsnFile.getD firstLsn

/-! ## What a flush changes -/

/-- The log file after a record is written at `offset`: its segments and its
length. -/
def Disk.logFileAfter (disk : Disk) (offset size : Nat) : Nat × Nat :=
  if (offset + size) % 2 ^ 32 > disk.logSegments * logSegmentSize then
    (disk.logSegments + 1, max ((disk.logSegments + 1) * logSegmentSize) (offset + size))
  else
    (disk.logSegments, max disk.logFileSize (offset + size))

theorem Disk.writeLog_eq (disk : Disk) (r : LogRecord) :
    disk.writeLog r =
      { disk with
        log := disk.log ++ [r]
        logSegments := (disk.logFileAfter (logOffset r.lsn) r.getSize).1
        logFileSize := (disk.logFileAfter (logOffset r.lsn) r.getSize).2 } := by
  unfold writeLog logFileAfter
  by_cases h : (logOffset r.lsn + r.getSize) % 2 ^ 32 > disk.logSegments * logSegmentSize
  · simp only [if_pos h]
  · simp only [if_neg h]

/-- Writing records extends the log file and nothing else. -/
theorem Disk.foldl_writeLog_eq (l : List LogRecord) (disk : Disk) :
    ∃ segments size,
      l.foldl Disk.writeLog disk =
        { disk with log := disk.log ++ l, logSegments := segments, logFileSize := size } := by
  induction l generalizing disk with
  | nil => exact ⟨disk.logSegments, disk.logFileSize, by simp⟩
  | cons r l ih =>
      obtain ⟨segments, size, heq⟩ := ih (disk.writeLog r)
      refine ⟨segments, size, ?_⟩
      rw [List.foldl_cons, heq, disk.writeLog_eq r, List.append_assoc]
      rfl

/-- The log file covers its records, in whole segments. -/
def Disk.LogFileCovers (disk : Disk) (lsn : Nat) : Prop :=
  disk.logFileSize = disk.logSegments * logSegmentSize ∧ lsn ≤ disk.logFileSize

/-- Writing a record that fits a segment where the log ends. -/
theorem Disk.LogFileCovers.writeLog {disk : Disk} {r : LogRecord}
    (covers : disk.LogFileCovers r.lsn) (fits : r.getSize ≤ logSegmentSize)
    (small : r.endLsn < 2 ^ 32) : (disk.writeLog r).LogFileCovers r.endLsn := by
  obtain ⟨hsize, hcov⟩ := covers
  rw [LogRecord.endLsn] at small ⊢
  have hoffset : logOffset r.lsn = r.lsn := by
    rw [logOffset, Nat.mod_eq_of_lt (by omega)]
  rw [writeLog_eq, hoffset, LogFileCovers, logFileAfter, Nat.mod_eq_of_lt small]
  by_cases h : r.lsn + r.getSize > disk.logSegments * logSegmentSize
  · rw [if_pos h]
    dsimp only
    rw [Nat.add_one_mul]
    constructor <;> omega
  · rw [if_neg h]
    dsimp only
    constructor <;> omega

/-- Writing consecutive records that each fit a segment keeps the log file
covering them. -/
theorem Disk.LogFileCovers.foldl_writeLog {l : List LogRecord} {disk : Disk} {lo hi : Nat}
    (covers : disk.LogFileCovers lo) (tiles : LogTiles lo l hi)
    (fits : ∀ r ∈ l, r.getSize ≤ logSegmentSize) (small : hi < 2 ^ 32) :
    (l.foldl Disk.writeLog disk).LogFileCovers hi := by
  induction l generalizing disk lo with
  | nil => exact tiles ▸ covers
  | cons r l ih =>
      obtain ⟨hlsn, tiles⟩ := tiles
      cases hlsn
      exact ih (covers.writeLog (fits r List.mem_cons_self) (Nat.lt_of_le_of_lt tiles.le small))
        tiles fun r' hr' => fits r' (List.mem_cons_of_mem _ hr')

/-- `LogManager::Flush` moves the due records of the buffer to disk and touches
nothing but the log. -/
theorem Engine.flushLog_eq (σ : Engine) (lsn : Nat) :
    ∃ segments size next flushed,
      σ.flushLog lsn =
        { σ with
          disk := { σ.disk with
            log := σ.disk.log ++ σ.log.logBuffer.filter (LogRecord.isDue lsn)
            logSegments := segments
            logFileSize := size
            nextLsnFile := next }
          log := { σ.log with
            logBuffer := σ.log.logBuffer.filter fun r => !r.isDue lsn
            flushedLsn := flushed } } := by
  obtain ⟨segments, size, heq⟩ :=
    Disk.foldl_writeLog_eq (σ.log.logBuffer.filter (LogRecord.isDue lsn)) σ.disk
  simp only [flushLog, heq]
  split
  · exact ⟨segments, size, σ.disk.nextLsnFile, σ.log.flushedLsn, rfl⟩
  · split
    · exact ⟨segments, size, _, _, rfl⟩
    · exact ⟨segments, size, σ.disk.nextLsnFile, σ.log.flushedLsn, rfl⟩

section FlushLog

variable (σ : Engine) (lsn : Nat)

@[simp] theorem Engine.flushLog_disk_log :
    (σ.flushLog lsn).disk.log = σ.disk.log ++ σ.log.logBuffer.filter (LogRecord.isDue lsn) := by
  obtain ⟨_, _, _, _, heq⟩ := σ.flushLog_eq lsn
  rw [heq]

@[simp] theorem Engine.flushLog_logBuffer :
    (σ.flushLog lsn).log.logBuffer = σ.log.logBuffer.filter fun r => !r.isDue lsn := by
  obtain ⟨_, _, _, _, heq⟩ := σ.flushLog_eq lsn
  rw [heq]

@[simp] theorem Engine.flushLog_att : (σ.flushLog lsn).log.att = σ.log.att := by
  obtain ⟨_, _, _, _, heq⟩ := σ.flushLog_eq lsn
  rw [heq]

@[simp] theorem Engine.flushLog_dpt : (σ.flushLog lsn).log.dpt = σ.log.dpt := by
  obtain ⟨_, _, _, _, heq⟩ := σ.flushLog_eq lsn
  rw [heq]

@[simp] theorem Engine.flushLog_nextLsn : (σ.flushLog lsn).log.nextLsn = σ.log.nextLsn := by
  obtain ⟨_, _, _, _, heq⟩ := σ.flushLog_eq lsn
  rw [heq]

@[simp] theorem Engine.flushLog_masterRecord :
    (σ.flushLog lsn).disk.masterRecord = σ.disk.masterRecord := by
  obtain ⟨_, _, _, _, heq⟩ := σ.flushLog_eq lsn
  rw [heq]

@[simp] theorem Engine.flushLog_files : (σ.flushLog lsn).disk.files = σ.disk.files := by
  obtain ⟨_, _, _, _, heq⟩ := σ.flushLog_eq lsn
  rw [heq]

@[simp] theorem Engine.flushLog_systemRows :
    (σ.flushLog lsn).disk.systemRows = σ.disk.systemRows := by
  obtain ⟨_, _, _, _, heq⟩ := σ.flushLog_eq lsn
  rw [heq]

@[simp] theorem Engine.flushLog_control : (σ.flushLog lsn).disk.control = σ.disk.control := by
  obtain ⟨_, _, _, _, heq⟩ := σ.flushLog_eq lsn
  rw [heq]

@[simp] theorem Engine.flushLog_init : (σ.flushLog lsn).disk.init = σ.disk.init := by
  obtain ⟨_, _, _, _, heq⟩ := σ.flushLog_eq lsn
  rw [heq]

@[simp] theorem Engine.flushLog_pool : (σ.flushLog lsn).pool = σ.pool := by
  obtain ⟨_, _, _, _, heq⟩ := σ.flushLog_eq lsn
  rw [heq]

@[simp] theorem Engine.flushLog_txn : (σ.flushLog lsn).txn = σ.txn := by
  obtain ⟨_, _, _, _, heq⟩ := σ.flushLog_eq lsn
  rw [heq]

@[simp] theorem Engine.flushLog_catalog : (σ.flushLog lsn).catalog = σ.catalog := by
  obtain ⟨_, _, _, _, heq⟩ := σ.flushLog_eq lsn
  rw [heq]

@[simp] theorem Engine.flushLog_pageWrites : (σ.flushLog lsn).pageWrites = σ.pageWrites := by
  obtain ⟨_, _, _, _, heq⟩ := σ.flushLog_eq lsn
  rw [heq]

theorem Engine.flushLog_logFileCovers (hi : Nat) :
    (σ.flushLog lsn).disk.LogFileCovers hi ↔
      ((σ.log.logBuffer.filter (LogRecord.isDue lsn)).foldl Disk.writeLog
        σ.disk).LogFileCovers hi := by
  simp only [flushLog]
  split
  · exact Iff.rfl
  · split <;> exact Iff.rfl

end FlushLog

/-! ## The invariant -/

/-- The log of a state: what is on disk, what is buffered, and the counters. -/
structure LogOk (σ : Engine) : Prop where
  disk : LogTiles 0 σ.disk.log σ.disk.logEnd
  buffer : LogTiles σ.disk.logEnd σ.log.logBuffer σ.log.nextLsn
  flushed : (σ.log.flushedLsn = nullLsn ∧ σ.disk.log = []) ∨
    (σ.log.flushedLsn < σ.disk.logEnd ∧ ∀ r ∈ σ.disk.log, r.lsn ≤ σ.log.flushedLsn)
  covers : (∀ r ∈ σ.disk.log, r.getSize ≤ logSegmentSize) → σ.disk.logEnd < 2 ^ 32 →
    σ.disk.LogFileCovers σ.disk.logEnd

/-- The last of consecutive records is the one `LogManager::Flush` keeps. -/
theorem foldl_maxRecord {l : List LogRecord} {lo hi : Nat} (tiles : LogTiles lo l hi)
    {m : LogRecord} (hm : m.endLsn = lo) :
    ∃ m', l.foldl maxRecord (some m) = some m' ∧ m'.endLsn = hi ∧ m.lsn ≤ m'.lsn ∧
      ∀ r ∈ l, r.lsn ≤ m'.lsn := by
  induction l generalizing lo m with
  | nil => exact ⟨m, rfl, hm.trans tiles, Nat.le_refl _, by simp⟩
  | cons r l ih =>
      obtain ⟨hlsn, tiles⟩ := tiles
      have hlt : m.lsn < r.lsn := by
        have := m.lsn_lt_endLsn
        omega
      obtain ⟨m', hfold, hend, hle, hall⟩ := ih tiles (m := r) (by rw [LogRecord.endLsn, hlsn])
      refine ⟨m', ?_, hend, by omega, ?_⟩
      · simpa [maxRecord, hlt] using hfold
      · rintro r' (_ | ⟨_, hr'⟩)
        · exact hle
        · exact hall r' hr'

/-- The records appended since the log stood at `start`: those on disk, up to
`mid`, and those in the buffer, from `mid` on. -/
structure LogSplit (start : Nat) (done : List LogRecord) (mid : Nat) (σ : Engine) : Prop where
  doneTiles : LogTiles start done mid
  bufferTiles : LogTiles mid σ.log.logBuffer σ.log.nextLsn
  le_flushed : ∀ r ∈ done, r.lsn ≤ σ.log.flushedLsn
  flushed_lt : σ.log.flushedLsn < mid ∨ σ.log.flushedLsn = nullLsn ∧ mid = 0
  end_le : done = [] → σ.disk.logEnd ≤ mid
  end_eq : done ≠ [] → σ.disk.nextLsnFile = some mid

namespace LogSplit

variable {start mid : Nat} {done : List LogRecord} {σ : Engine}

/-- The due records are the ones before a position. -/
theorem due (split : LogSplit start done mid σ) (lsn : Nat) :
    σ.log.logBuffer =
        σ.log.logBuffer.filter (LogRecord.isDue lsn) ++
          σ.log.logBuffer.filter (fun r => !r.isDue lsn) ∧
      ∃ mid', LogTiles mid (σ.log.logBuffer.filter (LogRecord.isDue lsn)) mid' ∧
        LogTiles mid' (σ.log.logBuffer.filter fun r => !r.isDue lsn) σ.log.nextLsn := by
  refine split.bufferTiles.split_filter LogRecord.getSize_pos fun a b hab hb => ?_
  simp only [LogRecord.isDue, decide_eq_true_eq] at hb ⊢
  omega

/-- A new log manager takes the whole log for flushed. -/
theorem of_new (doneTiles : LogTiles start done mid) (end_le : done = [] → σ.disk.logEnd ≤ mid)
    (end_eq : done ≠ [] → σ.disk.nextLsnFile = some mid) (hlog : σ.log = .new mid) :
    LogSplit start done mid σ where
  doneTiles := doneTiles
  bufferTiles := by
    rw [hlog]
    rfl
  le_flushed r hr := by
    have hlt := doneTiles.pos_lt LogRecord.getSize_pos hr
    rw [hlog]
    unfold LogManager.new
    dsimp only
    rw [if_neg (by omega)]
    omega
  flushed_lt := by
    rw [hlog]
    unfold LogManager.new
    dsimp only
    split
    · exact .inr ⟨rfl, ‹_›⟩
    · exact .inl (by omega)
  end_le := end_le
  end_eq := end_eq

/-- The split reads the counters, the buffer and the file `next_lsn`. -/
theorem congr (split : LogSplit start done mid σ) {σ' : Engine}
    (hfile : σ'.disk.nextLsnFile = σ.disk.nextLsnFile)
    (hbuffer : σ'.log.logBuffer = σ.log.logBuffer) (hnext : σ'.log.nextLsn = σ.log.nextLsn)
    (hflushed : σ'.log.flushedLsn = σ.log.flushedLsn) : LogSplit start done mid σ' where
  doneTiles := split.doneTiles
  bufferTiles := by
    rw [hbuffer, hnext]
    exact split.bufferTiles
  le_flushed := by
    rw [hflushed]
    exact split.le_flushed
  flushed_lt := by
    rw [hflushed]
    exact split.flushed_lt
  end_le h := by
    rw [Disk.logEnd, hfile]
    exact split.end_le h
  end_eq h := hfile.trans (split.end_eq h)

theorem logEnd_le (split : LogSplit start done mid σ) : σ.disk.logEnd ≤ mid := by
  by_cases hnil : done = []
  · exact split.end_le hnil
  · rw [Disk.logEnd, split.end_eq hnil]
    exact Nat.le_refl _

/-- The record `LogManager::Flush` keeps ends where the due records end. -/
theorem foldl_maxRecord_due {l : List LogRecord} {lo hi : Nat} (tiles : LogTiles lo l hi)
    (hne : l ≠ []) :
    ∃ m, l.foldl maxRecord none = some m ∧ m.endLsn = hi ∧ lo ≤ m.lsn ∧ ∀ r ∈ l, r.lsn ≤ m.lsn := by
  cases l with
  | nil => exact absurd rfl hne
  | cons r l =>
      obtain ⟨hlsn, tiles⟩ := tiles
      obtain ⟨m, hfold, hend, hle, hall⟩ :=
        foldl_maxRecord tiles (m := r) (by rw [LogRecord.endLsn, hlsn])
      refine ⟨m, hfold, hend, by omega, fun r' hr' => ?_⟩
      rcases List.mem_cons.mp hr' with rfl | hr'
      · exact hle
      · exact hall r' hr'

/-- A flush moves the split behind the due records. -/
theorem flushLog (split : LogSplit start done mid σ) (lsn : Nat) :
    ∃ mid', LogSplit start (done ++ σ.log.logBuffer.filter (LogRecord.isDue lsn)) mid'
      (σ.flushLog lsn) := by
  obtain ⟨-, mid', hdue, hrest⟩ := split.due lsn
  by_cases hnil : σ.log.logBuffer.filter (LogRecord.isDue lsn) = []
  · have heq : σ.flushLog lsn =
        { σ with log := { σ.log with
          logBuffer := σ.log.logBuffer.filter fun r => !r.isDue lsn } } := by
      simp only [Engine.flushLog, hnil, List.foldl_nil]
    rw [hnil] at hdue
    cases Tiles.nil_iff.mp hdue
    rw [hnil, List.append_nil, heq]
    exact ⟨mid, { split with bufferTiles := hrest }⟩
  · obtain ⟨m, hfold, hend, hle, hall⟩ := foldl_maxRecord_due hdue hnil
    have hflushed : σ.log.flushedLsn = nullLsn ∨ m.lsn > σ.log.flushedLsn := by
      rcases split.flushed_lt with hlt | ⟨hnull, -⟩
      · exact .inr (Nat.lt_of_lt_of_le hlt hle)
      · exact .inl hnull
    obtain ⟨segments, size, hwrite⟩ :=
      Disk.foldl_writeLog_eq (σ.log.logBuffer.filter (LogRecord.isDue lsn)) σ.disk
    have hnext : m.endLsn > σ.disk.nextLsnFile.getD firstLsn :=
      Nat.lt_of_le_of_lt (Nat.le_trans split.logEnd_le hle) m.lsn_lt_endLsn
    have heq : σ.flushLog lsn =
        { σ with
          disk := { σ.disk with
            log := σ.disk.log ++ σ.log.logBuffer.filter (LogRecord.isDue lsn)
            logSegments := segments
            logFileSize := size
            nextLsnFile := some m.endLsn }
          log := { σ.log with
            logBuffer := σ.log.logBuffer.filter fun r => !r.isDue lsn
            flushedLsn := m.lsn } } := by
      simp only [Engine.flushLog, hfold, if_pos hflushed, hwrite, if_pos hnext]
    rw [heq]
    refine ⟨mid', { doneTiles := split.doneTiles.append hdue, bufferTiles := hrest,
                    le_flushed := ?_, flushed_lt := ?_, end_le := ?_,
                    end_eq := fun _ => congrArg some hend }⟩
    · intro r hr
      rcases List.mem_append.mp hr with hr | hr
      · exact Nat.le_trans (Nat.le_of_lt (split.doneTiles.pos_lt LogRecord.getSize_pos hr)) hle
      · exact hall r hr
    · exact .inl (hend ▸ m.lsn_lt_endLsn)
    · exact fun h => absurd (List.append_eq_nil_iff.mp h).2 hnil

end LogSplit

namespace LogOk

variable {σ : Engine}

theorem logEnd_le_nextLsn (ok : LogOk σ) : σ.disk.logEnd ≤ σ.log.nextLsn :=
  ok.buffer.le

/-- The invariant reads the log only. -/
theorem of_log_eq (ok : LogOk σ) {σ' : Engine} (hlog : σ'.disk.log = σ.disk.log)
    (hnext : σ'.disk.nextLsnFile = σ.disk.nextLsnFile)
    (hsegments : σ'.disk.logSegments = σ.disk.logSegments)
    (hsize : σ'.disk.logFileSize = σ.disk.logFileSize)
    (hbuffer : σ'.log.logBuffer = σ.log.logBuffer) (hlsn : σ'.log.nextLsn = σ.log.nextLsn)
    (hflushed : σ'.log.flushedLsn = σ.log.flushedLsn) : LogOk σ' := by
  have hend : σ'.disk.logEnd = σ.disk.logEnd := by rw [Disk.logEnd, Disk.logEnd, hnext]
  refine ⟨?_, ?_, ?_, ?_⟩
  · rw [hlog, hend]
    exact ok.disk
  · rw [hend, hbuffer, hlsn]
    exact ok.buffer
  · rw [hflushed, hlog, hend]
    exact ok.flushed
  · rw [hlog, hend, Disk.LogFileCovers, hsize, hsegments]
    exact ok.covers

/-- Appending a record. -/
theorem push (ok : LogOk σ) (xid : Nat) (prevLsn : Nat) (body : LogBody) (att : Att) (dpt : Dpt) :
    LogOk { σ with log := { (σ.log.push xid prevLsn body).2 with att := att, dpt := dpt } } where
  disk := ok.disk
  buffer := ok.buffer.concat rfl
  flushed := ok.flushed
  covers := ok.covers

/-- The records on disk and those in the buffer, apart. -/
theorem split (ok : LogOk σ) : LogSplit 0 σ.disk.log σ.disk.logEnd σ where
  doneTiles := ok.disk
  bufferTiles := ok.buffer
  le_flushed r hr := by
    rcases ok.flushed with ⟨-, hnil⟩ | ⟨-, hle⟩
    · rw [hnil] at hr
      cases hr
    · exact hle r hr
  flushed_lt := by
    rcases ok.flushed with ⟨hnull, hnil⟩ | ⟨hlt, -⟩
    · have hdisk := ok.disk
      rw [hnil] at hdisk
      exact .inr ⟨hnull, (Tiles.nil_iff.mp hdisk).symm⟩
    · exact .inl hlt
  end_le _ := Nat.le_refl _
  end_eq hne := by
    have hlt : firstLsn < σ.disk.logEnd := by
      obtain ⟨r, hr⟩ := List.exists_mem_of_ne_nil _ hne
      exact Nat.lt_of_le_of_lt (Nat.zero_le _) (ok.disk.pos_lt LogRecord.getSize_pos hr)
    unfold Disk.logEnd at hlt ⊢
    cases hnext : σ.disk.nextLsnFile with
    | none =>
        rw [hnext] at hlt
        exact absurd hlt (Nat.lt_irrefl _)
    | some next => rfl

theorem appended_flushLog (ok : LogOk σ) (lsn : Nat) :
    (σ.flushLog lsn).appended = σ.appended := by
  rw [Engine.appended, Engine.appended, Engine.flushLog_disk_log, Engine.flushLog_logBuffer,
    List.append_assoc, ← (ok.split.due lsn).1]

/-- Flushing the log. -/
theorem flushLog (ok : LogOk σ) (lsn : Nat) : LogOk (σ.flushLog lsn) := by
  obtain ⟨mid, flushed⟩ := ok.split.flushLog lsn
  have hlog := σ.flushLog_disk_log lsn
  have hend : (σ.flushLog lsn).disk.logEnd = mid := by
    by_cases hnil : σ.disk.log ++ σ.log.logBuffer.filter (LogRecord.isDue lsn) = []
    · have hmid := flushed.doneTiles
      have hle := flushed.end_le hnil
      rw [hnil] at hmid
      have hzero := Tiles.nil_iff.mp hmid
      omega
    · rw [Disk.logEnd, flushed.end_eq hnil]
      rfl
  refine { disk := ?_, buffer := ?_, flushed := ?_, covers := ?_ }
  · rw [hlog, hend]
    exact flushed.doneTiles
  · rw [hend]
    exact flushed.bufferTiles
  · rw [hlog, hend]
    rcases flushed.flushed_lt with hlt | ⟨hnull, hzero⟩
    · exact .inr ⟨hlt, flushed.le_flushed⟩
    · refine .inl ⟨hnull, List.eq_nil_iff_forall_not_mem.mpr fun r hr => ?_⟩
      have := flushed.doneTiles.pos_lt LogRecord.getSize_pos hr
      omega
  · -- the file as the due records leave it
    rw [hlog, hend, Engine.flushLog_logFileCovers]
    intro fits small
    obtain ⟨_, hdisk, hdue⟩ := Tiles.append_iff.mp flushed.doneTiles
    cases hdisk.end_unique ok.disk
    exact (ok.covers (fun r hr => fits r (List.mem_append_left _ hr))
      (Nat.lt_of_le_of_lt hdue.le small)).foldl_writeLog hdue
      (fun r hr => fits r (List.mem_append_right _ hr)) small

end LogOk

/-! ## Reading records back -/

/-- A record the loops of `LogManager` can read: it fits `MAX_LOG_SIZE`, and that
many bytes from its position on lie within the log file. -/
def Disk.Readable (disk : Disk) (r : LogRecord) : Prop :=
  r.getSize ≤ maxLogSize ∧ r.lsn + maxLogSize ≤ disk.logFileSize

instance (disk : Disk) (r : LogRecord) : Decidable (disk.Readable r) :=
  inferInstanceAs (Decidable (_ ∧ _))

theorem logOffset_of_lt {lsn : Nat} (h : lsn < 2 ^ 32) : Disk.logOffset lsn = lsn := by
  rw [Disk.logOffset, Nat.mod_eq_of_lt h]

/-- Below 4 GiB the bytes at the position of a flushed record are that record. -/
theorem Disk.find?_logOffset {disk : Disk} {lo hi : Nat} (tiles : LogTiles lo disk.log hi)
    (small : hi < 2 ^ 32) {r : LogRecord} (hr : r ∈ disk.log) :
    disk.log.reverse.find? (fun r' => logOffset r'.lsn = logOffset r.lsn) = some r := by
  have hlt : ∀ r' ∈ disk.log, r'.lsn < 2 ^ 32 := fun r' hr' =>
    Nat.lt_trans (tiles.pos_lt LogRecord.getSize_pos hr') small
  rw [← tiles.find?_reverse_pos LogRecord.getSize_pos hr]
  refine List.find?_congr fun r' hr' => ?_
  rw [logOffset_of_lt (hlt r' (List.mem_reverse.mp hr')), logOffset_of_lt (hlt r hr)]

/-- Reading `count` bytes where a flushed record starts. -/
theorem Disk.readLog_of_mem {disk : Disk} {lo hi : Nat} (tiles : LogTiles lo disk.log hi)
    (small : hi < 2 ^ 32) {r : LogRecord} (hr : r ∈ disk.log) {count : Nat}
    (hcount : count < 2 ^ 32) (h : r.lsn + count ≤ disk.logFileSize) :
    disk.readLog r.lsn count = .ok (some r) := by
  have hlsn : r.lsn < 2 ^ 32 := Nat.lt_trans (tiles.pos_lt LogRecord.getSize_pos hr) small
  have hfind := find?_logOffset tiles small hr
  rw [logOffset_of_lt hlsn] at hfind
  rw [readLog, logOffset_of_lt hlsn, Nat.mod_eq_of_lt hcount, if_neg (Nat.not_lt.mpr h), hfind]

/-- Whatever a read returns was written. -/
theorem Disk.mem_of_readLog {disk : Disk} {lsn count : Nat} {r : LogRecord}
    (h : disk.readLog lsn count = .ok (some r)) : r ∈ disk.log ∧ logOffset r.lsn = logOffset lsn := by
  unfold readLog at h
  dsimp only at h
  split at h
  · cases h
  · have hfind := Except.ok.inj h
    exact ⟨List.mem_reverse.mp (List.mem_of_find?_eq_some hfind),
      of_decide_eq_true (List.find?_some hfind :)⟩

theorem LogRecord.deserializeFrom_eq_ok {lsn count : Nat} {bytes : Option LogRecord}
    {r : LogRecord} (h : deserializeFrom lsn count bytes = .ok r) :
    ∃ r', bytes = some r' ∧ r = { r' with lsn := lsn } := by
  cases bytes with
  | none => cases h
  | some r' =>
      rw [deserializeFrom] at h
      split at h
      · cases h
        exact ⟨r', rfl, rfl⟩
      · cases h

namespace LogManager

theorem readRecord_eq (lsn : Nat) (σ : Engine) :
    readRecord lsn σ =
      match σ.disk.readLog lsn maxLogSize with
      | .error e => .error e σ
      | .ok bytes =>
          match LogRecord.deserializeFrom lsn maxLogSize bytes with
          | .error e => .error e σ
          | .ok r => .ok r σ := by
  simp only [readRecord]
  rw [EStateM.bind_of_ok (EStateM.get_eq_ok_iff.mpr ⟨rfl, rfl⟩)]
  cases hread : σ.disk.readLog lsn maxLogSize with
  | error e => exact EStateM.bind_of_error rfl
  | ok bytes =>
      rw [Db.ofExcept_ok, pure_bind]
      dsimp only
      cases LogRecord.deserializeFrom lsn maxLogSize bytes <;> rfl

/-- What a read returns is a flushed record, under the LSN it was read at. -/
theorem readRecord_eq_ok {lsn : Nat} {σ σ' : Engine} {r : LogRecord}
    (run : readRecord lsn σ = .ok r σ') :
    σ' = σ ∧ ∃ r' ∈ σ.disk.log, r = { r' with lsn := lsn } := by
  rw [readRecord_eq] at run
  cases hread : σ.disk.readLog lsn maxLogSize with
  | error e =>
      rw [hread] at run
      cases run
  | ok bytes =>
      simp only [hread] at run
      cases hdecode : LogRecord.deserializeFrom lsn maxLogSize bytes with
      | error e =>
          rw [hdecode] at run
          cases run
      | ok r' =>
          rw [hdecode] at run
          cases run
          obtain ⟨r', rfl, rfl⟩ := LogRecord.deserializeFrom_eq_ok hdecode
          exact ⟨rfl, r', (Disk.mem_of_readLog hread).1, rfl⟩

/-- A readable record is read back. -/
theorem readRecord_of_mem {σ : Engine} {lo hi : Nat} (tiles : LogTiles lo σ.disk.log hi)
    (small : hi < 2 ^ 32) {r : LogRecord} (hr : r ∈ σ.disk.log) (h : σ.disk.Readable r) :
    readRecord r.lsn σ = .ok r σ := by
  rw [readRecord_eq, Disk.readLog_of_mem tiles small hr (by decide) h.2]
  simp only [LogRecord.deserializeFrom, if_pos h.1]

/-- Any other flushed record stops the loop that reads it. -/
theorem readRecord_of_not_readable {σ : Engine} {lo hi : Nat} (tiles : LogTiles lo σ.disk.log hi)
    (small : hi < 2 ^ 32) {r : LogRecord} (hr : r ∈ σ.disk.log) (h : ¬ σ.disk.Readable r) :
    ∃ e, readRecord r.lsn σ = .error e σ := by
  by_cases hwindow : r.lsn + maxLogSize ≤ σ.disk.logFileSize
  · have hsize : ¬ r.getSize ≤ maxLogSize := fun hle => h ⟨hle, hwindow⟩
    refine ⟨.decodeOverrun, ?_⟩
    rw [readRecord_eq, Disk.readLog_of_mem tiles small hr (by decide) hwindow]
    simp only [LogRecord.deserializeFrom, if_neg hsize]
  · have hlsn : r.lsn < 2 ^ 32 := Nat.lt_trans (tiles.pos_lt LogRecord.getSize_pos hr) small
    have hlt : σ.disk.logFileSize < Disk.logOffset r.lsn + maxLogSize % 2 ^ 32 := by
      rw [logOffset_of_lt hlsn, Nat.mod_eq_of_lt (by decide)]
      exact Nat.lt_of_not_le hwindow
    rw [readRecord_eq, Disk.readLog, if_pos hlt]
    exact ⟨_, rfl⟩

/-! ## The scan of `LogManager::Analyze` -/

/-- Over consecutive readable records the scan is a fold. -/
theorem analyzeLoop_of_readable {σ : Engine} {lo hi : Nat} (tiles : LogTiles lo σ.disk.log hi)
    (small : hi < 2 ^ 32) {l : List LogRecord} {lo : Nat} (mem : ∀ r ∈ l, r ∈ σ.disk.log)
    (readable : ∀ r ∈ l, σ.disk.Readable r) (range : LogTiles lo l σ.log.nextLsn) {fuel : Nat}
    (hfuel : σ.log.nextLsn ≤ lo + fuel) (s : AnalyzeState) :
    analyzeLoop fuel lo s σ = .ok (l.foldl AnalyzeState.step s) σ := by
  induction l generalizing lo fuel s with
  | nil =>
      have hge : ¬ lo < σ.log.nextLsn := by
        have : lo = σ.log.nextLsn := range
        omega
      cases fuel <;>
      · simp only [analyzeLoop]
        rw [EStateM.bind_of_ok (EStateM.get_eq_ok_iff.mpr ⟨rfl, rfl⟩), if_neg hge]
        rfl
  | cons r l ih =>
      obtain ⟨hlsn, range⟩ := range
      cases hlsn
      have hpos := r.getSize_pos
      have hlt : r.lsn < σ.log.nextLsn := Nat.lt_of_lt_of_le (by omega) range.le
      cases fuel with
      | zero => omega
      | succ fuel =>
          simp only [analyzeLoop]
          rw [EStateM.bind_of_ok (EStateM.get_eq_ok_iff.mpr ⟨rfl, rfl⟩), if_pos hlt,
            EStateM.bind_of_ok (readRecord_of_mem tiles small (mem r List.mem_cons_self)
              (readable r List.mem_cons_self))]
          exact ih (fun r' hr' => mem r' (List.mem_cons_of_mem _ hr'))
            (fun r' hr' => readable r' (List.mem_cons_of_mem _ hr')) range
            (by omega) _

/-- What every record keeps holds of what the scan accumulates, wherever it reads. -/
theorem analyzeLoop_induct {σ σ' : Engine} {P : AnalyzeState → Prop}
    (step : ∀ r ∈ σ.disk.log, ∀ lsn < σ.log.nextLsn, ∀ s, P s → P (s.step { r with lsn := lsn }))
    {fuel lsn : Nat} {s s' : AnalyzeState} (hs : P s)
    (run : analyzeLoop fuel lsn s σ = .ok s' σ') : σ' = σ ∧ P s' := by
  induction fuel generalizing lsn s with
  | zero =>
      simp only [analyzeLoop] at run
      rw [EStateM.bind_of_ok (EStateM.get_eq_ok_iff.mpr ⟨rfl, rfl⟩)] at run
      split at run
      · cases run
      · cases run
        exact ⟨rfl, hs⟩
  | succ fuel ih =>
      simp only [analyzeLoop] at run
      rw [EStateM.bind_of_ok (EStateM.get_eq_ok_iff.mpr ⟨rfl, rfl⟩)] at run
      split at run
      · rename_i hlt
        obtain ⟨_, _, hread, run⟩ := EStateM.bind_eq_ok_iff.mp run
        obtain ⟨rfl, r, hr, rfl⟩ := readRecord_eq_ok hread
        exact ih (step r hr lsn hlt s hs) run
      · cases run
        exact ⟨rfl, hs⟩

/-- A scan that returns has read every record. -/
theorem readable_of_analyzeLoop {σ : Engine} {lo hi : Nat} (tiles : LogTiles lo σ.disk.log hi)
    (small : hi < 2 ^ 32) {l : List LogRecord} {lo : Nat} (mem : ∀ r ∈ l, r ∈ σ.disk.log)
    (range : LogTiles lo l σ.log.nextLsn) {fuel : Nat} {s s' : AnalyzeState} {σ' : Engine}
    (run : analyzeLoop fuel lo s σ = .ok s' σ') : ∀ r ∈ l, σ.disk.Readable r := by
  induction l generalizing lo fuel s with
  | nil => simp
  | cons r l ih =>
      obtain ⟨hlsn, range⟩ := range
      cases hlsn
      have hpos := r.getSize_pos
      have hlt : r.lsn < σ.log.nextLsn := Nat.lt_of_lt_of_le (by omega) range.le
      cases fuel with
      | zero =>
          simp only [analyzeLoop] at run
          rw [EStateM.bind_of_ok (EStateM.get_eq_ok_iff.mpr ⟨rfl, rfl⟩), if_pos hlt] at run
          cases run
      | succ fuel =>
          simp only [analyzeLoop] at run
          rw [EStateM.bind_of_ok (EStateM.get_eq_ok_iff.mpr ⟨rfl, rfl⟩), if_pos hlt] at run
          by_cases hr : σ.disk.Readable r
          · rw [EStateM.bind_of_ok (readRecord_of_mem tiles small (mem r List.mem_cons_self) hr)]
              at run
            exact List.forall_mem_cons.mpr
              ⟨hr, ih (fun r' hr' => mem r' (List.mem_cons_of_mem _ hr')) range run⟩
          · obtain ⟨e, he⟩ :=
              readRecord_of_not_readable tiles small (mem r List.mem_cons_self) hr
            rw [EStateM.bind_of_error he] at run
            cases run

end LogManager

end HuaDB
