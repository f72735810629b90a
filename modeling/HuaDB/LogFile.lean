import HuaDB.Lib.ByteFile
import HuaDB.LogCodec
import HuaDB.LogInvariant

/-!
The bytes of the log file: `Disk::WriteLog` and `Disk::ReadLog` of
`storage/disk.cpp` on a file that grows by segments.

Records written at consecutive LSNs extend the file one segment at a time
(`LogFile.Growing`), so what a read of `MAX_LOG_SIZE` bytes at the LSN of a record
gives is known from the records alone (`LogFile.readLog_flush_iff`). Below 4 GiB
it is what `Disk.readLog` says (`LogFile.readLog_eq`).
-/

namespace HuaDB

/-- The log file, with `log_segments`. -/
structure LogFile where
  segments : Nat
  file : ByteFile

namespace LogFile

/-- `Disk::WriteLog`; the two numbers are `uint32_t`, and so is their sum. -/
def writeLog (log : LogFile) (offset count : Nat) (data : List UInt8) : LogFile :=
  let log :=
    if (offset + count) % 2 ^ 32 > log.segments * logSegmentSize then
      { segments := log.segments + 1
        file := log.file.resize ((log.segments + 1) * logSegmentSize) }
    else
      log
  { log with file := log.file.write offset (data.take count) }

/-- `Disk::ReadLog`. -/
def readLog (log : LogFile) (offset count : Nat) : Except DbError (List UInt8) :=
  match log.file.read offset count with
  | none =>
      .error (.dbException s!"read log failed (offset: {offset}, count: {count}, read: {
        log.file.size - offset})")
  | some bytes => .ok bytes

/-- What `LogManager::Flush` does with a record. -/
def flush (log : LogFile) (r : LogRecord) : LogFile :=
  log.writeLog (Disk.logOffset r.lsn) (r.getSize % 2 ^ 32) r.serializeTo

/-! ## How the file grows -/

/-- A size in whole segments. -/
def segmentAlign (n : Nat) : Nat := (n + logSegmentSize - 1) / logSegmentSize * logSegmentSize

/-- Where the file has to end for a record: at the end of a segment, or past 4 GiB,
where segments are no longer added, at the end of the record. -/
def requiredSize (r : LogRecord) : Nat :=
  if Disk.logOffset r.lsn + r.getSize ≤ 2 ^ 32 then
    segmentAlign (Disk.logOffset r.lsn + r.getSize)
  else
    Disk.logOffset r.lsn + r.getSize

theorem segmentAlign_spec (n : Nat) :
    ∃ k, segmentAlign n = k * logSegmentSize ∧ n ≤ k * logSegmentSize ∧
      k * logSegmentSize < n + logSegmentSize := by
  refine ⟨(n + logSegmentSize - 1) / logSegmentSize, rfl, ?_⟩
  have hseg : logSegmentSize = 1048576 := rfl
  rw [hseg]
  omega

theorem logOffset_lt (lsn : Nat) : Disk.logOffset lsn < 2 ^ 32 := Nat.mod_lt _ (by decide)

theorem logOffset_endLsn (r : LogRecord) :
    Disk.logOffset r.endLsn = (Disk.logOffset r.lsn + r.getSize) % 2 ^ 32 := by
  unfold Disk.logOffset LogRecord.endLsn
  omega

/-- A log file as `Disk::Disk` opens it, with the log so far inside. -/
structure Opened (log : LogFile) (lsn : Nat) : Prop where
  segments : 1 ≤ log.segments
  size : log.file.size = log.segments * logSegmentSize
  covers : Disk.logOffset lsn ≤ log.file.size

/-- A log file to which records are written, the next one at `lsn`. -/
structure Growing (log : LogFile) (lsn : Nat) : Prop where
  segments : 1 ≤ log.segments
  covers : Disk.logOffset lsn ≤ log.segments * logSegmentSize
  size : log.file.size = log.segments * logSegmentSize ∨
    2 ^ 32 ≤ log.segments * logSegmentSize ∧ log.segments * logSegmentSize ≤ log.file.size

theorem Opened.growing {log : LogFile} {lsn : Nat} (opened : log.Opened lsn) : log.Growing lsn where
  segments := opened.segments
  covers := opened.size ▸ opened.covers
  size := .inl opened.size

section Growth

variable {log : LogFile} {r : LogRecord}

/-- Where the offset of the next record does not wrap around, and a segment is added. -/
theorem flush_of_lt (h : (Disk.logOffset r.lsn + r.getSize) % 2 ^ 32 > log.segments * logSegmentSize)
    (fits : r.getSize ≤ maxLogSize) (hlength : r.serializeTo.length = r.getSize) :
    log.flush r =
      { segments := log.segments + 1
        file := (log.file.resize ((log.segments + 1) * logSegmentSize)).write
          (Disk.logOffset r.lsn) r.serializeTo } := by
  have hmax : maxLogSize = 269 := rfl
  have hcount : r.getSize % 2 ^ 32 = r.getSize := Nat.mod_eq_of_lt (by omega)
  unfold flush writeLog
  rw [hcount, if_pos h, ← hlength, List.take_length]

theorem flush_of_not_lt
    (h : ¬ (Disk.logOffset r.lsn + r.getSize) % 2 ^ 32 > log.segments * logSegmentSize)
    (fits : r.getSize ≤ maxLogSize) (hlength : r.serializeTo.length = r.getSize) :
    log.flush r = { log with file := log.file.write (Disk.logOffset r.lsn) r.serializeTo } := by
  have hmax : maxLogSize = 269 := rfl
  have hcount : r.getSize % 2 ^ 32 = r.getSize := Nat.mod_eq_of_lt (by omega)
  unfold flush writeLog
  rw [hcount, if_neg h, ← hlength, List.take_length]

/-- A record that ends below 4 GiB and in a new segment. -/
theorem Growing.grow (growing : log.Growing r.lsn) (fits : r.getSize ≤ maxLogSize)
    (h : (Disk.logOffset r.lsn + r.getSize) % 2 ^ 32 > log.segments * logSegmentSize) :
    (log.segments + 1) * logSegmentSize = requiredSize r ∧
      log.file.size ≤ requiredSize r ∧
      Disk.logOffset r.endLsn ≤ requiredSize r ∧
      Disk.logOffset r.lsn + r.getSize ≤ requiredSize r := by
  obtain ⟨hsegments, hcovers, hsize⟩ := growing
  have hmax : maxLogSize = 269 := rfl
  have hoffset := logOffset_lt r.lsn
  have hseg : logSegmentSize = 1048576 := rfl
  have hend := logOffset_endLsn r
  obtain ⟨k, halign, hle, hlt⟩ := segmentAlign_spec (Disk.logOffset r.lsn + r.getSize)
  have hsmall : Disk.logOffset r.lsn + r.getSize < 2 ^ 32 := by
    simp only [hseg] at h hcovers
    omega
  rw [Nat.mod_eq_of_lt hsmall] at h hend
  rw [requiredSize, if_pos (Nat.le_of_lt hsmall), halign]
  simp only [hseg] at hcovers hsize h hle hlt ⊢
  omega

/-- Any other record. -/
theorem Growing.keep (growing : log.Growing r.lsn) (fits : r.getSize ≤ maxLogSize)
    (h : ¬ (Disk.logOffset r.lsn + r.getSize) % 2 ^ 32 > log.segments * logSegmentSize) :
    max log.file.size (Disk.logOffset r.lsn + r.getSize) =
        max log.file.size (requiredSize r) ∧
      Disk.logOffset r.endLsn ≤ log.segments * logSegmentSize ∧
      (max log.file.size (requiredSize r) = log.segments * logSegmentSize ∨
        2 ^ 32 ≤ log.segments * logSegmentSize ∧
          log.segments * logSegmentSize ≤ max log.file.size (requiredSize r)) := by
  obtain ⟨hsegments, hcovers, hsize⟩ := growing
  have hmax : maxLogSize = 269 := rfl
  have hoffset := logOffset_lt r.lsn
  have hseg : logSegmentSize = 1048576 := rfl
  obtain ⟨k, halign, hle, hlt⟩ := segmentAlign_spec (Disk.logOffset r.lsn + r.getSize)
  have hend := logOffset_endLsn r
  unfold requiredSize
  simp only [hseg] at hcovers hsize halign hle hlt h ⊢
  rcases Nat.lt_trichotomy (Disk.logOffset r.lsn + r.getSize) (2 ^ 32) with hsmall | heq | hlarge
  · rw [Nat.mod_eq_of_lt hsmall] at h hend
    rw [if_pos (Nat.le_of_lt hsmall), halign]
    omega
  · -- the file has 4096 segments: the record starts in it and ends at 4 GiB
    rw [heq] at hle hlt hend ⊢
    rw [if_pos (Nat.le_refl _), ← heq, halign]
    omega
  · rw [if_neg (Nat.not_le.mpr hlarge)]
    omega

/-- The file after a record is written. -/
theorem Growing.flush (growing : log.Growing r.lsn) (fits : r.getSize ≤ maxLogSize)
    (hlength : r.serializeTo.length = r.getSize) :
    (log.flush r).Growing r.endLsn ∧
      (log.flush r).file.size = max log.file.size (requiredSize r) ∧
      ∀ p, (log.flush r).file.content p =
        (placed (Disk.logOffset r.lsn) r.serializeTo p).getD (log.file.content p) := by
  have hne : r.serializeTo ≠ [] := by
    have := r.getSize_pos
    rw [← List.length_pos_iff]
    omega
  by_cases h : (Disk.logOffset r.lsn + r.getSize) % 2 ^ 32 > log.segments * logSegmentSize
  · obtain ⟨hrequired, hfile, hend, hplace⟩ := growing.grow fits h
    have hsize : (log.flush r).file.size = requiredSize r := by
      rw [flush_of_lt h fits hlength, ByteFile.size_write _ hne, hlength, ByteFile.size_resize,
        hrequired]
      exact Nat.max_eq_left hplace
    refine ⟨⟨?_, ?_, ?_⟩, ?_, fun p => ?_⟩
    · rw [flush_of_lt h fits hlength]
      exact Nat.le_add_left 1 _
    · rw [flush_of_lt h fits hlength]
      exact hrequired ▸ hend
    · rw [hsize, flush_of_lt h fits hlength]
      exact .inl hrequired.symm
    · omega
    · rw [flush_of_lt h fits hlength]
      change (placed _ _ p).getD ((log.file.resize _).content p) = _
      rw [ByteFile.content_resize _ (by omega)]
  · obtain ⟨hrequired, hend, hsegments⟩ := growing.keep fits h
    have hsize : (log.flush r).file.size = max log.file.size (requiredSize r) := by
      rw [flush_of_not_lt h fits hlength, ByteFile.size_write _ hne, hlength]
      exact hrequired
    refine ⟨⟨?_, ?_, ?_⟩, hsize, fun p => ?_⟩
    · rw [flush_of_not_lt h fits hlength]
      exact growing.segments
    · rw [flush_of_not_lt h fits hlength]
      exact hend
    · rw [hsize, flush_of_not_lt h fits hlength]
      exact hsegments
    · rw [flush_of_not_lt h fits hlength]
      rfl

end Growth

/-! ## Reading back what was written -/

/-- Where the bytes of a record go. -/
def place (r : LogRecord) : Nat × List UInt8 := (Disk.logOffset r.lsn, r.serializeTo)

/-- The records of a log, written one after the other. -/
theorem Growing.foldl_flush {log : LogFile} {lo hi : Nat} {l : List LogRecord}
    (growing : log.Growing lo) (tiles : LogTiles lo l hi)
    (hsize : ∀ r ∈ l, r.getSize ≤ maxLogSize) (hfits : ∀ r ∈ l, r.Fits) :
    (l.foldl LogFile.flush log).Growing hi ∧
      (∀ x, x ≤ (l.foldl LogFile.flush log).file.size ↔
        x ≤ log.file.size ∨ ∃ r ∈ l, x ≤ requiredSize r) ∧
      ∀ p, (l.foldl LogFile.flush log).file.content p =
        (lastPlaced (l.map place) p).getD (log.file.content p) := by
  induction l using List.reverseRecOn generalizing hi with
  | nil =>
      cases Tiles.nil_iff.mp tiles
      exact ⟨growing, fun x => by simp, fun p => rfl⟩
  | append_singleton l r ih =>
      obtain ⟨mid, htiles, hlsn, rfl⟩ := Tiles.append_iff.mp tiles
      have hr : r ∈ l ++ [r] := List.mem_append_right _ (List.mem_singleton_self r)
      obtain ⟨grown, hgrown, hcontent⟩ := ih htiles
        (fun r' hr' => hsize r' (List.mem_append_left _ hr'))
        (fun r' hr' => hfits r' (List.mem_append_left _ hr'))
      subst hlsn
      obtain ⟨hnext, hmax, hplaced⟩ :=
        grown.flush (hsize r hr) (LogRecord.length_serializeTo (hfits r hr))
      rw [List.foldl_concat]
      refine ⟨hnext, fun x => ?_, fun p => ?_⟩
      · rw [hmax, le_max_iff, hgrown, or_assoc]
        simp only [List.mem_append, List.mem_singleton, or_and_right, exists_or, exists_eq_left]
      · rw [hplaced, hcontent, List.map_append, List.map_singleton, place, lastPlaced_concat]
        cases placed (Disk.logOffset r.lsn) r.serializeTo p <;> rfl

/-- A read gives the bytes asked for. -/
theorem readLog_eq_ok_iff {log : LogFile} {offset count : Nat} {window : List UInt8} :
    log.readLog offset count = .ok window ↔
      offset + count ≤ log.file.size ∧
        window = (List.range count).map fun i => log.file.content (offset + i) := by
  rw [← ByteFile.read_eq_some_iff, readLog]
  cases log.file.read offset count with
  | none => simp
  | some bytes => simp

/-- **The log store.** Where records are written at consecutive LSNs, whatever LSN
they start at and however many segments the file has, each of them is read back in
the `MAX_LOG_SIZE` bytes at its LSN if and only if each fits that window, the window
ends inside the file, as long as it was or as some record requires, and the last
record written over each of its bytes left that byte as it was. -/
theorem readLog_flush_iff {log : LogFile} {lo hi : Nat} {l : List LogRecord}
    (opened : log.Opened lo) (tiles : LogTiles lo l hi) (fits : ∀ r ∈ l, r.Fits) :
    (∀ r ∈ l, ∃ window,
      (l.foldl LogFile.flush log).readLog (Disk.logOffset r.lsn) maxLogSize = .ok window ∧
        r.serializeTo <+: window) ↔
    ∀ r ∈ l, r.getSize ≤ maxLogSize ∧
      (Disk.logOffset r.lsn + maxLogSize ≤ log.file.size ∨
        ∃ r' ∈ l, Disk.logOffset r.lsn + maxLogSize ≤ requiredSize r') ∧
      ∀ i < r.getSize,
        lastPlaced (l.map place) (Disk.logOffset r.lsn + i) = r.serializeTo[i]? := by
  simp only [readLog_eq_ok_iff, and_assoc, exists_and_left, exists_eq_left,
    ByteFile.prefix_window_iff]
  have hlength (r : LogRecord) (hr : r ∈ l) : r.serializeTo.length = r.getSize :=
    LogRecord.length_serializeTo (fits r hr)
  -- a byte of a record is what was last placed there
  have hlast (r : LogRecord) (hr : r ∈ l) (i : Nat) (hi : i < r.getSize) :
      ∃ b, lastPlaced (l.map place) (Disk.logOffset r.lsn + i) = some b := by
    have hmem : (Disk.logOffset r.lsn, r.serializeTo) ∈ l.map place :=
      List.mem_map_of_mem (f := place) hr
    exact Option.isSome_iff_exists.mp (lastPlaced_isSome hmem (hlength r hr ▸ hi))
  constructor
  · intro h
    have hsize (r : LogRecord) (hr : r ∈ l) : r.getSize ≤ maxLogSize := hlength r hr ▸ (h r hr).2.1
    obtain ⟨-, hgrown, hcontent⟩ := opened.growing.foldl_flush tiles hsize fits
    intro r hr
    obtain ⟨hwindow, -, hbytes⟩ := h r hr
    refine ⟨hsize r hr, (hgrown _).mp hwindow, fun i hi => ?_⟩
    obtain ⟨b, hb⟩ := hlast r hr i hi
    rw [hbytes i (hlength r hr ▸ hi), hcontent, hb]
    rfl
  · intro h
    obtain ⟨-, hgrown, hcontent⟩ :=
      opened.growing.foldl_flush tiles (fun r hr => (h r hr).1) fits
    intro r hr
    obtain ⟨hsize, hwindow, hbytes⟩ := h r hr
    refine ⟨(hgrown _).mpr hwindow, hlength r hr ▸ hsize, fun i hi => ?_⟩
    rw [hlength r hr] at hi
    obtain ⟨b, hb⟩ := hlast r hr i hi
    rw [← hbytes i hi, hcontent, hb]
    rfl

/-- In a log below 4 GiB no record is written over another. -/
theorem lastPlaced_place {lo hi : Nat} {l : List LogRecord} (tiles : LogTiles lo l hi)
    (small : hi < 2 ^ 32) (fits : ∀ r ∈ l, r.Fits) {r : LogRecord} (hr : r ∈ l) {i : Nat}
    (hi' : i < r.getSize) :
    lastPlaced (l.map place) (Disk.logOffset r.lsn + i) = r.serializeTo[i]? := by
  obtain ⟨before, after, rfl, -, hafter⟩ := tiles.exists_split_of_mem hr
  have hend : r.endLsn ≤ hi := tiles.end_le hr
  have hlt : r.lsn < r.endLsn := r.lsn_lt_endLsn
  have hlater : ∀ w ∈ after.map place, placed w.1 w.2 (Disk.logOffset r.lsn + i) = none := by
    intro w hw
    obtain ⟨r', hr', rfl⟩ := List.mem_map.mp hw
    have hle : r.endLsn ≤ r'.lsn := hafter.le_pos hr'
    have hsmall : r'.lsn < 2 ^ 32 := Nat.lt_trans (hafter.pos_lt LogRecord.getSize_pos hr') small
    unfold place placed
    rw [logOffset_of_lt hsmall, logOffset_of_lt (by omega), if_neg]
    rw [LogRecord.endLsn] at hle
    omega
  rw [List.map_append, List.map_cons, ← List.singleton_append, ← List.append_assoc,
    lastPlaced_append_of_forall_none hlater, place, lastPlaced_concat, placed_add]
  rw [List.getElem?_eq_getElem (by rw [LogRecord.length_serializeTo (fits r hr)]; exact hi')]
  rfl

/-- The log file that `Disk::Disk` creates. -/
def created : LogFile := ⟨1, .zeros logSegmentSize⟩

theorem created_opened {lsn : Nat} (h : Disk.logOffset lsn ≤ logSegmentSize) :
    created.Opened lsn := ⟨Nat.le_refl 1, by decide, h⟩

theorem begin_fits {lsn : Nat} : LogRecord.Fits ⟨lsn, 1, nullLsn, .begin⟩ :=
  ⟨show 1 < 2 ^ 32 by decide, show nullLsn < 2 ^ 64 by decide, trivial⟩

/-- A transaction that does nothing, in a new log. -/
theorem readLog_flush_iff_emptyTransaction :
    ∃ window,
      ([⟨0, 1, nullLsn, .begin⟩, ⟨13, 1, 0, .commit⟩].foldl LogFile.flush created).readLog 13
          maxLogSize = .ok window ∧
        LogRecord.serializeTo ⟨13, 1, 0, .commit⟩ <+: window := by
  have tiles : LogTiles 0 [⟨0, 1, nullLsn, .begin⟩, ⟨13, 1, 0, .commit⟩] 26 := ⟨rfl, rfl, rfl⟩
  have fits : ∀ r ∈ ([⟨0, 1, nullLsn, .begin⟩, ⟨13, 1, 0, .commit⟩] : List LogRecord), r.Fits := by
    simp only [List.forall_mem_cons]
    exact ⟨begin_fits, ⟨by decide, by decide, trivial⟩, fun _ h => nomatch h⟩
  refine (readLog_flush_iff (created_opened (by decide)) tiles fits).mpr (fun r hr => ?_)
    ⟨13, 1, 0, .commit⟩ (by decide)
  refine ⟨?_, .inl ?_, fun i hi => lastPlaced_place tiles (by decide) fits hr hi⟩
  · revert r
    decide
  · revert r
    decide

/-- A record that ends where the last segment does: the window passes the end. -/
theorem not_readLog_flush_endOfSegment :
    ¬ ∀ (log : LogFile) (lo hi : Nat) (l : List LogRecord), log.Opened lo → LogTiles lo l hi →
      (∀ r ∈ l, r.Fits) → ∀ r ∈ l, ∃ window,
        (l.foldl LogFile.flush log).readLog (Disk.logOffset r.lsn) maxLogSize = .ok window ∧
          r.serializeTo <+: window := by
  intro h
  obtain ⟨window, hread, -⟩ := h created (2 ^ 20 - 13) (2 ^ 20)
    [⟨2 ^ 20 - 13, 1, nullLsn, .begin⟩] (created_opened (by decide))
    ⟨rfl, Tiles.nil_iff.mpr (by decide)⟩
    (List.forall_mem_singleton.mpr begin_fits) _ (List.mem_singleton_self _)
  have hend := (readLog_eq_ok_iff.mp hread).1
  revert hend
  decide

/-! ## The log file of the engine -/

/-- The bytes of the log of a disk. -/
structure Represents (log : LogFile) (disk : Disk) : Prop where
  segments : log.segments = disk.logSegments
  size : log.file.size = disk.logFileSize
  content : ∀ r ∈ disk.log, ∀ i < r.getSize,
    r.serializeTo[i]? = some (log.file.content (Disk.logOffset r.lsn + i))

namespace Represents

variable {log : LogFile} {disk : Disk}

/-- Writing a record that fits a segment behind the others. -/
theorem writeLog (rep : log.Represents disk) {r : LogRecord} (fits : r.Fits)
    (covers : disk.LogFileCovers r.lsn) (hsize : r.getSize ≤ logSegmentSize)
    (small : r.endLsn < 2 ^ 32) (behind : ∀ r' ∈ disk.log, r'.endLsn ≤ r.lsn) :
    (log.flush r).Represents (disk.writeLog r) := by
  obtain ⟨hsegments, hfile, hcontent⟩ := rep
  obtain ⟨hcovers, hle⟩ := covers
  have hlength := LogRecord.length_serializeTo fits
  have hpos := r.getSize_pos
  have hseg : logSegmentSize = 1048576 := rfl
  have hcount : r.getSize % 2 ^ 32 = r.getSize := Nat.mod_eq_of_lt (by omega)
  have hne : r.serializeTo ≠ [] := by
    rw [← List.length_pos_iff]
    omega
  -- the bytes of a file that was not cut
  have hbytes (file : ByteFile) (hcut : file.content = log.file.content) :
      ∀ r' ∈ disk.log ++ [r], ∀ i < r'.getSize, r'.serializeTo[i]? =
        some ((file.write (Disk.logOffset r.lsn) r.serializeTo).content
          (Disk.logOffset r'.lsn + i)) := by
    intro r' hr' i hi
    change _ = some ((placed _ _ _).getD (file.content _))
    rcases List.mem_append.mp hr' with hr' | hr'
    · have hbehind := behind r' hr'
      rw [LogRecord.endLsn] at hbehind small
      rw [logOffset_of_lt (by omega), logOffset_of_lt (by omega), placed, if_neg (by omega), hcut,
        hcontent r' hr' i hi, logOffset_of_lt (by omega)]
      rfl
    · cases List.mem_singleton.mp hr'
      rw [placed_add, List.getElem?_eq_getElem (by omega)]
      rfl
  unfold flush LogFile.writeLog
  rw [Disk.writeLog_eq, Disk.logFileAfter, hcount, hsegments, ← hlength, List.take_length, hlength]
  by_cases h : (Disk.logOffset r.lsn + r.getSize) % 2 ^ 32 > disk.logSegments * logSegmentSize
  · rw [if_pos h, if_pos h]
    refine ⟨rfl, ?_, hbytes _ (log.file.content_resize ?_)⟩
    · rw [ByteFile.size_write _ hne, hlength]
      rfl
    · rw [hfile, hcovers]
      exact Nat.mul_le_mul_right _ (Nat.le_succ _)
  · rw [if_neg h, if_neg h]
    refine ⟨hsegments, ?_, hbytes _ rfl⟩
    rw [ByteFile.size_write _ hne, hlength, hfile]

/-- What a record of the log decodes to, from the bytes and from the record. -/
theorem readLog_eq (rep : log.Represents disk) {lo hi : Nat} (tiles : LogTiles lo disk.log hi)
    (small : hi < 2 ^ 32) {r : LogRecord} (hr : r ∈ disk.log) (fits : r.Fits) {count : Nat}
    (hcount : count < 2 ^ 32) :
    ((log.readLog (Disk.logOffset r.lsn) count).toOption.bind fun window =>
        (LogRecord.decode r.lsn window).map Prod.fst) =
      (disk.readLog r.lsn count).toOption.bind fun bytes =>
        (LogRecord.deserializeFrom r.lsn count bytes).toOption := by
  have hlsn : r.lsn < 2 ^ 32 := Nat.lt_trans (tiles.pos_lt LogRecord.getSize_pos hr) small
  have hoffset : Disk.logOffset r.lsn = r.lsn := logOffset_of_lt hlsn
  by_cases hend : r.lsn + count ≤ disk.logFileSize
  · have hbytes := rep.content r hr
    rw [hoffset, ← LogRecord.length_serializeTo fits] at hbytes
    have hread : log.readLog (Disk.logOffset r.lsn) count =
        .ok ((List.range count).map fun i => log.file.content (r.lsn + i)) := by
      rw [readLog_eq_ok_iff, hoffset, rep.size]
      exact ⟨hend, rfl⟩
    rw [Disk.readLog_of_mem tiles small hr hcount hend, hread]
    change (LogRecord.decode r.lsn _).map Prod.fst = _
    rw [log.file.window_eq_take count hbytes, LogRecord.decode_window fits]
    rfl
  · have hread : (log.readLog (Disk.logOffset r.lsn) count).toOption = none := by
      cases hwindow : log.readLog (Disk.logOffset r.lsn) count with
      | error e => rfl
      | ok window =>
          have := (readLog_eq_ok_iff.mp hwindow).1
          rw [hoffset, rep.size] at this
          exact absurd this hend
    have hdisk : (disk.readLog r.lsn count).toOption = none := by
      unfold Disk.readLog
      rw [hoffset, Nat.mod_eq_of_lt hcount, if_pos (Nat.lt_of_not_le hend)]
      rfl
    rw [hread, hdisk]
    rfl

/-- Writing consecutive records, on both sides. -/
theorem foldl_writeLog (rep : log.Represents disk) {l : List LogRecord} {start lo hi : Nat}
    (done : LogTiles start disk.log lo) (tiles : LogTiles lo l hi) (small : hi < 2 ^ 32)
    (covers : disk.LogFileCovers lo) (hsize : ∀ r ∈ l, r.getSize ≤ logSegmentSize)
    (hfits : ∀ r ∈ l, r.Fits) :
    (l.foldl LogFile.flush log).Represents (l.foldl Disk.writeLog disk) := by
  induction l generalizing log disk lo with
  | nil => exact rep
  | cons r l ih =>
      obtain ⟨hlsn, tiles⟩ := tiles
      subst hlsn
      have hr := hsize r List.mem_cons_self
      have hend : r.endLsn < 2 ^ 32 := Nat.lt_of_le_of_lt tiles.le small
      have hdone : LogTiles start (disk.writeLog r).log r.endLsn := by
        rw [Disk.writeLog_eq]
        exact done.concat rfl
      exact ih (rep.writeLog (hfits r List.mem_cons_self) covers hr hend fun r' hr' =>
          done.end_le hr') hdone tiles (covers.writeLog hr hend)
        (fun r' hr' => hsize r' (List.mem_cons_of_mem _ hr'))
        fun r' hr' => hfits r' (List.mem_cons_of_mem _ hr')

end Represents

end LogFile

end HuaDB
