import HuaDB.PageInvariant
import HuaDB.TableSpec

/-!
Which transactions the records of a page name.

Between operations every `xmin` and `xmax` on disk belongs to a flushed log
record, and every one in the pool to a record that writing the page back flushes
first (`flushedXids`). Rolling back breaks the second half for a while, since it
changes pages without raising their LSN; what holds throughout is that the ids
are those of records not lost (`appendedXids`).
-/

namespace HuaDB

open EStateM (RunsFrom)

/-- Every record header on a page satisfies `p`. -/
def TablePage.Headers (p : RecordHeader → Prop) (page : TablePage) : Prop :=
  ∀ slotId stored, page.slots slotId = some stored → p stored.record.header

namespace TablePage.Headers

variable {p : RecordHeader → Prop} {page page' : TablePage}

theorem of_slots_eq (h : page.Headers p) (heq : page'.slots = page.slots) : page'.Headers p :=
  fun slotId stored hslot => h slotId stored (heq ▸ hslot)

theorem zero : TablePage.zero.Headers p := fun _ _ hslot => nomatch hslot

theorem mono {q : RecordHeader → Prop} (h : page.Headers p) (hpq : ∀ header, p header → q header) :
    page.Headers q :=
  fun slotId stored hslot => hpq _ (h slotId stored hslot)

theorem setSlot (h : page.Headers p) (slotId : Nat) {stored : StoredRecord}
    (hstored : p stored.record.header) : (page.setSlot slotId stored).Headers p := by
  intro i stored' hslot
  dsimp only [TablePage.setSlot] at hslot
  split at hslot
  · cases hslot
    exact hstored
  · exact h i stored' hslot

theorem insertRecord (h : page.Headers p) (record : Record) (xid cid : Nat)
    (hrecord : p { record.header with cid := cid, xmin := xid }) :
    (page.insertRecord record xid cid).2.2.Headers p := by
  refine setSlot ?_ _ hrecord
  exact h.of_slots_eq rfl

theorem modifyHeader (h : page.Headers p) {slotId : Nat} {f : RecordHeader → RecordHeader}
    (run : page.modifyHeader slotId f = some page') (hf : ∀ header, p header → p (f header)) :
    page'.Headers p := by
  obtain ⟨stored, hslot, rfl⟩ := Option.map_eq_some_iff.mp run
  exact h.setSlot slotId (hf _ (h slotId stored hslot))

theorem redoInsertRecord (h : page.Headers p) {slotId recordSize : Nat} {record : Record}
    (hrecord : p record.header) (run : page.redoInsertRecord slotId record recordSize = some page') :
    page'.Headers p := by
  unfold TablePage.redoInsertRecord at run
  split at run
  · cases run
    refine setSlot ?_ _ hrecord
    exact h.of_slots_eq rfl
  · cases run

end TablePage.Headers

/-- A transaction id that is null or that a record of a log carries. -/
def XidIn (log : List LogRecord) (xid : Nat) : Prop := xid = nullXid ∨ ∃ r ∈ log, r.xid = xid

theorem XidIn.mono {log log' : List LogRecord} {xid : Nat} (h : XidIn log xid) (hsub : log ⊆ log') :
    XidIn log' xid :=
  h.imp_right fun ⟨r, hr, hxid⟩ => ⟨r, hsub hr, hxid⟩

theorem XidIn.null (log : List LogRecord) : XidIn log nullXid := .inl rfl

theorem XidIn.of_mem {log : List LogRecord} {r : LogRecord} (hr : r ∈ log) : XidIn log r.xid :=
  .inr ⟨r, hr, rfl⟩

/-- The records of a page name transactions of a log only. -/
def TablePage.XidsIn (log : List LogRecord) (page : TablePage) : Prop :=
  page.Headers fun header => XidIn log header.xmin ∧ XidIn log header.xmax

namespace TablePage.XidsIn

variable {log : List LogRecord} {page page' : TablePage}

theorem mono {log' : List LogRecord} (h : page.XidsIn log) (hsub : log ⊆ log') :
    page.XidsIn log' :=
  Headers.mono h fun _ ⟨hmin, hmax⟩ => ⟨hmin.mono hsub, hmax.mono hsub⟩

/-- `TablePage::Init` leaves the slots. -/
theorem init (h : page.XidsIn log) : page.init.XidsIn log :=
  Headers.of_slots_eq h rfl

theorem insertRecord (h : page.XidsIn log) {data : List UInt8} {xid cid : Nat}
    (hxid : XidIn log xid) : (page.insertRecord { data := data } xid cid).2.2.XidsIn log :=
  Headers.insertRecord h _ _ _ ⟨hxid, .null _⟩

theorem deleteRecord (h : page.XidsIn log) {slotId xid : Nat} (hxid : XidIn log xid)
    (run : page.deleteRecord slotId xid = some page') : page'.XidsIn log :=
  Headers.modifyHeader h run fun _ hheader => ⟨hheader.1, hxid⟩

theorem undoDeleteRecord (h : page.XidsIn log) {slotId : Nat}
    (run : page.undoDeleteRecord slotId = some page') : page'.XidsIn log :=
  Headers.modifyHeader h run fun _ hheader => ⟨hheader.1, .null _⟩

end TablePage.XidsIn

/-- The records on disk once the log is flushed up to an LSN. -/
def Engine.flushedUpTo (σ : Engine) (lsn : Nat) : List LogRecord :=
  σ.disk.log ++ σ.log.logBuffer.filter fun r => r.lsn ≤ lsn

theorem Engine.mem_flushedUpTo {σ : Engine} {lsn : Nat} {r : LogRecord} :
    r ∈ σ.flushedUpTo lsn ↔ r ∈ σ.disk.log ∨ r ∈ σ.log.logBuffer ∧ r.lsn ≤ lsn := by
  simp [flushedUpTo]

theorem Engine.mem_appended {σ : Engine} {r : LogRecord} :
    r ∈ σ.appended ↔ r ∈ σ.disk.log ∨ r ∈ σ.log.logBuffer := List.mem_append

theorem Engine.flushedUpTo_subset_appended (σ : Engine) (lsn : Nat) :
    σ.flushedUpTo lsn ⊆ σ.appended := by
  intro r hr
  rcases mem_flushedUpTo.mp hr with hr | ⟨hr, -⟩
  · exact List.mem_append_left _ hr
  · exact List.mem_append_right _ hr

theorem Engine.mem_flushLog_disk_log {σ : Engine} {lsn : Nat} {r : LogRecord} :
    r ∈ (σ.flushLog lsn).disk.log ↔ r ∈ σ.disk.log ∨ r ∈ σ.log.logBuffer ∧ r.isDue lsn := by
  simp [List.mem_filter]

theorem Engine.mem_flushLog_logBuffer {σ : Engine} {lsn : Nat} {r : LogRecord} :
    r ∈ (σ.flushLog lsn).log.logBuffer ↔ r ∈ σ.log.logBuffer ∧ ¬ r.isDue lsn := by
  simp [List.mem_filter]

theorem LogRecord.isDue_of_le {r : LogRecord} {lsn : Nat} (h : r.lsn ≤ lsn) : r.isDue lsn := by
  simp [isDue, h]

/-- A flush keeps every record. -/
theorem Engine.mem_appended_flushLog {σ : Engine} {lsn : Nat} {r : LogRecord} :
    r ∈ (σ.flushLog lsn).appended ↔ r ∈ σ.appended := by
  rw [mem_appended, mem_appended, mem_flushLog_disk_log, mem_flushLog_logBuffer]
  tauto

theorem Engine.flushedUpTo_subset_flushLog (σ : Engine) (lsn lsn' : Nat) :
    σ.flushedUpTo lsn ⊆ (σ.flushLog lsn').flushedUpTo lsn := by
  intro r hr
  rw [mem_flushedUpTo] at hr ⊢
  rw [mem_flushLog_disk_log, mem_flushLog_logBuffer]
  tauto

/-- Between operations: an id in the pool is that of a record which the page's
own LSN covers. -/
theorem flushedXids :
    PageInvariant (fun σ entry => entry.page.XidsIn (σ.flushedUpTo entry.page.pageLsn))
      (fun σ _ _ page => page.XidsIn σ.disk.log) where
  frame_congr {σ σ' entry} hlog hbuffer h := by
    rw [Engine.flushedUpTo, hlog, hbuffer]
    exact h
  image_congr {σ σ' path pageId page} hlog _ h := by
    rw [hlog]
    exact h
  frame_flushLog {σ} lsn {entry} h := h.mono (σ.flushedUpTo_subset_flushLog _ lsn)
  image_flushLog {σ} lsn {path pageId page} h := h.mono fun r hr =>
    Engine.mem_flushLog_disk_log.mpr (.inl hr)
  written {σ entry} h _ := h.mono fun r hr =>
    Engine.mem_flushLog_disk_log.mpr ((Engine.mem_flushedUpTo.mp hr).imp_right fun ⟨hbuf, hle⟩ =>
      ⟨hbuf, LogRecord.isDue_of_le hle⟩)
  loaded {σ path pageId page} h := h.mono fun r hr => List.mem_append_left _ hr
  blank := .zero
  hole := .zero

/-- At all times: an id on a page is that of a record which is not lost. -/
theorem appendedXids :
    PageInvariant (fun σ entry => entry.page.XidsIn σ.appended)
      (fun σ _ _ page => page.XidsIn σ.appended) where
  frame_congr {σ σ' entry} hlog hbuffer h := by
    rw [Engine.appended, hlog, hbuffer]
    exact h
  image_congr {σ σ' path pageId page} hlog hbuffer h := by
    rw [Engine.appended, hlog, hbuffer]
    exact h
  frame_flushLog {σ} lsn {entry} h := h.mono fun r hr => Engine.mem_appended_flushLog.mpr hr
  image_flushLog {σ} lsn {path pageId page} h := h.mono fun r hr =>
    Engine.mem_appended_flushLog.mpr hr
  written {σ entry} h _ := h.mono fun r hr => Engine.mem_appended_flushLog.mpr hr
  loaded h := h
  blank := .zero
  hole := .zero

end HuaDB
