import HuaDB.PageCoherence
import HuaDB.PageView

/-!
The buffer pool as an LRU cache of user pages.

`LRUBufferStrategy` orders frame numbers and is never reset: after a `Flush` or a
`Clear` it still holds the numbers of frames that are gone. Those that are in use come
in the order in which their pages were used last (`Ordered`), and a frame number can
be a victim only when all frames are in use.
-/

namespace HuaDB

open PagePool

/-- The key of the page in a frame. -/
def BufferPool.keyAt (pool : BufferPool) (frame : Nat) : Option TablePageid :=
  pool.buffers[frame]?.map BufferPoolEntry.key

/-- The frames in use, the most recently used first. -/
def BufferPool.live (pool : BufferPool) : List Nat :=
  pool.bufferVec.filter fun i => i < pool.buffers.length

/-- The frames in use hold the first pages of `recent`, in this order. -/
def Ordered (recent : List TablePageid) (pool : BufferPool) : Prop :=
  pool.live.map pool.keyAt = (recent.take bufferSize).map some

namespace Ordered

variable {recent : List TablePageid} {pool : BufferPool} {key : TablePageid} {frame : Nat}

theorem mem_live (shape : PoolShape pool) {i : Nat} :
    i ∈ pool.live ↔ i < pool.buffers.length := by
  rw [BufferPool.live, List.mem_filter, decide_eq_true_iff]
  exact ⟨And.right, fun h => ⟨shape.accessed i h, h⟩⟩

theorem nodup_live (shape : PoolShape pool) : pool.live.Nodup := shape.nodup.filter _

theorem length_live (shape : PoolShape pool) : pool.live.length = pool.buffers.length := by
  have hperm : pool.live.Perm (List.range pool.buffers.length) := by
    apply (List.perm_ext_iff_of_nodup (nodup_live shape) List.nodup_range).mpr
    intro i
    rw [mem_live shape, List.mem_range]
  rw [hperm.length_eq, List.length_range]

/-- A page is in use if and only if it is among the first of `recent`. -/
theorem mem_take_iff (ord : Ordered recent pool) (shape : PoolShape pool) :
    key ∈ recent.take bufferSize ↔ ∃ i, pool.keyAt i = some key := by
  have hmem : key ∈ recent.take bufferSize ↔ some key ∈ pool.live.map pool.keyAt := by
    rw [ord, List.mem_map_of_injective fun _ _ => Option.some.inj]
  rw [hmem, List.mem_map]
  constructor
  · rintro ⟨i, -, hi⟩
    exact ⟨i, hi⟩
  · rintro ⟨i, hi⟩
    refine ⟨i, (mem_live shape).mpr ?_, hi⟩
    obtain ⟨e, he, -⟩ := Option.map_eq_some_iff.mp hi
    exact (List.getElem?_eq_some_iff.mp he).1

theorem length_take (ord : Ordered recent pool) (shape : PoolShape pool) :
    (recent.take bufferSize).length = pool.buffers.length := by
  rw [← List.length_map (f := some), ← ord, List.length_map, length_live shape]

/-- Only the keys in the frames count. -/
theorem of_keys {pool' : BufferPool} (ord : Ordered recent pool) (shape : PoolShape pool)
    (hvec : pool'.bufferVec = pool.bufferVec)
    (hkeys : pool'.buffers.map BufferPoolEntry.key = pool.buffers.map BufferPoolEntry.key) :
    PoolShape pool' ∧ Ordered recent pool' := by
  have hlength : pool'.buffers.length = pool.buffers.length := by
    rw [← List.length_map (f := BufferPoolEntry.key), hkeys, List.length_map]
  have hkeyAt : pool'.keyAt = pool.keyAt := by
    funext i
    rw [BufferPool.keyAt, BufferPool.keyAt, ← List.getElem?_map, ← List.getElem?_map, hkeys]
  constructor
  · exact ⟨hvec ▸ shape.nodup, hvec ▸ shape.bound, hvec ▸ hlength ▸ shape.accessed,
      hlength ▸ shape.size⟩
  · rw [Ordered, BufferPool.live, hvec, hlength, hkeyAt]
    exact ord

/-- A frame in use is used again. -/
theorem access (ord : Ordered recent pool) (shape : PoolShape pool)
    (once : ∀ i j k, pool.keyAt i = some k → pool.keyAt j = some k → i = j)
    (hframe : pool.keyAt frame = some key) :
    Ordered (Recency.access key recent) (pool.access frame) := by
  have hlt : frame < pool.buffers.length := by
    obtain ⟨e, he, -⟩ := Option.map_eq_some_iff.mp hframe
    exact (List.getElem?_eq_some_iff.mp he).1
  have hlive : (pool.access frame).live = Recency.access frame pool.live :=
    Recency.filter_access shape.nodup (decide_eq_true hlt)
  have hmem : key ∈ recent.take bufferSize := (ord.mem_take_iff shape).mpr ⟨frame, hframe⟩
  calc (pool.access frame).live.map pool.keyAt
      = (Recency.access frame pool.live).map pool.keyAt := by rw [hlive]
    _ = Recency.access (some key) (pool.live.map pool.keyAt) := by
        rw [Recency.map_access, hframe]
        intro i hi heq
        exact once i frame key (heq.trans hframe) hframe
    _ = Recency.access (some key) ((recent.take bufferSize).map some) := by rw [ord]
    _ = (Recency.access key (recent.take bufferSize)).map some := by
        rw [Recency.map_access]
        exact fun _ _ heq => Option.some.inj heq
    _ = ((Recency.access key recent).take bufferSize).map some := by
        rw [Recency.take_access_of_mem hmem]

theorem map_keyAt_live {pool' : BufferPool} {l : List Nat}
    (h : ∀ i ∈ l, pool'.keyAt i = pool.keyAt i) : l.map pool'.keyAt = l.map pool.keyAt :=
  List.map_congr_left h

/-- A free frame is taken. -/
theorem addFrame {entry : BufferPoolEntry} (ord : Ordered recent pool) (shape : PoolShape pool)
    (hfree : pool.buffers.length ≠ bufferSize) (hnew : ∀ i, pool.keyAt i ≠ some entry.key)
    {hashmap : TablePageid → Option Nat} :
    Ordered (Recency.access entry.key recent)
      { buffers := pool.buffers ++ [entry]
        hashmap := hashmap
        bufferVec := (pool.access pool.buffers.length).bufferVec } := by
  have hlt : pool.buffers.length < bufferSize := Nat.lt_of_le_of_ne shape.size hfree
  have hlength := ord.length_take shape
  have htake : recent.take bufferSize = recent.take 4 := by
    rw [List.length_take] at hlength
    rw [List.take_of_length_le (by omega), List.take_of_length_le (by change _ < 5 at hlt; omega)]
  have hmem : entry.key ∉ recent.take 4 := by
    rw [← htake, ord.mem_take_iff shape]
    rintro ⟨i, hi⟩
    exact hnew i hi
  generalize hpool : ({ buffers := pool.buffers ++ [entry]
                        hashmap := hashmap
                        bufferVec := (pool.access pool.buffers.length).bufferVec } : BufferPool) =
    pool'
  have hbuffers : pool'.buffers = pool.buffers ++ [entry] := by rw [← hpool]
  have hkey : pool'.keyAt pool.buffers.length = some entry.key := by
    rw [BufferPool.keyAt, hbuffers, List.getElem?_concat_length]
    rfl
  have hlive : pool'.live = pool.buffers.length :: pool.live := by
    rw [BufferPool.live, ← hpool]
    change List.filter _ (pool.buffers.length :: pool.bufferVec.erase pool.buffers.length) = _
    rw [List.filter_cons_of_pos (by simp), BufferPool.live, shape.nodup.erase_eq_filter,
      List.filter_filter]
    congr 1
    apply List.filter_congr
    intro i _
    rw [List.length_append, List.length_singleton]
    grind
  have hold : pool.live.map pool'.keyAt = pool.live.map pool.keyAt := by
    apply map_keyAt_live
    intro i hi
    rw [BufferPool.keyAt, hbuffers, List.getElem?_append_left ((mem_live shape).mp hi)]
    rfl
  calc pool'.live.map pool'.keyAt
      = some entry.key :: pool.live.map pool.keyAt := by rw [hlive, List.map_cons, hkey, hold]
    _ = (entry.key :: recent.take 4).map some := by rw [ord, htake, List.map_cons]
    _ = ((Recency.access entry.key recent).take bufferSize).map some := by
        rw [← Recency.take_access_of_not_mem hmem]
        rfl

/-- A full pool reuses the frame of its last page. -/
theorem replace {entry : BufferPoolEntry} {victim : Nat} (ord : Ordered recent pool)
    (shape : PoolShape pool) (hfull : pool.buffers.length = bufferSize)
    (hvec : pool.bufferVec.getLast? = some victim) (hnew : ∀ i, pool.keyAt i ≠ some entry.key)
    {hashmap : TablePageid → Option Nat} :
    Ordered (Recency.access entry.key recent)
      { buffers := pool.buffers.set victim entry
        hashmap := hashmap
        bufferVec := victim :: (pool.bufferVec.erase victim).erase victim } := by
  have hlength := ord.length_take shape
  have hbound : victim < pool.buffers.length := hfull ▸ shape.bound victim (List.mem_of_getLast? hvec)
  have hmem : entry.key ∉ recent.take 4 := by
    intro h
    have h' : entry.key ∈ recent.take bufferSize := List.take_subset_take_left recent (by decide) h
    obtain ⟨i, hi⟩ := (ord.mem_take_iff shape).mp h'
    exact hnew i hi
  generalize hpool : ({ buffers := pool.buffers.set victim entry
                        hashmap := hashmap
                        bufferVec := victim :: (pool.bufferVec.erase victim).erase victim } :
    BufferPool) = pool'
  have hbuffers : pool'.buffers = pool.buffers.set victim entry := by rw [← hpool]
  have hkey : pool'.keyAt victim = some entry.key := by
    rw [BufferPool.keyAt, hbuffers, List.getElem?_set_self hbound]
    rfl
  have hall : pool.live = pool.bufferVec := by
    apply List.filter_eq_self.mpr
    intro i hi
    rw [hfull]
    exact decide_eq_true (shape.bound i hi)
  have herase : (pool.bufferVec.erase victim).erase victim = pool.bufferVec.dropLast := by
    rw [List.erase_of_not_mem shape.nodup.not_mem_erase, Recency.erase_getLast shape.nodup hvec]
  have hlive : pool'.live = victim :: pool.bufferVec.dropLast := by
    rw [BufferPool.live, ← hpool, herase, List.length_set, hfull]
    apply List.filter_eq_self.mpr
    intro i hi
    rcases List.mem_cons.mp hi with rfl | hi
    · exact decide_eq_true (hfull ▸ hbound)
    · exact decide_eq_true (shape.bound i (List.dropLast_subset _ hi))
  have hold : pool.bufferVec.dropLast.map pool'.keyAt = pool.bufferVec.dropLast.map pool.keyAt := by
    apply map_keyAt_live
    intro i hi
    have hne : victim ≠ i := by
      rintro rfl
      rw [← Recency.erase_getLast shape.nodup hvec] at hi
      exact shape.nodup.not_mem_erase hi
    rw [BufferPool.keyAt, hbuffers, List.getElem?_set_ne hne]
    rfl
  have hdrop : (recent.take bufferSize).dropLast = recent.take 4 := by
    rw [List.dropLast_eq_take, hlength, hfull, List.take_take]
    rfl
  calc pool'.live.map pool'.keyAt
      = some entry.key :: (pool.live.map pool.keyAt).dropLast := by
        rw [hlive, List.map_cons, hkey, hold, hall, List.map_dropLast]
    _ = (entry.key :: recent.take 4).map some := by
        rw [ord, ← List.map_dropLast, hdrop, List.map_cons]
    _ = ((Recency.access entry.key recent).take bufferSize).map some := by
        rw [← Recency.take_access_of_not_mem hmem]
        rfl

end Ordered

/-! ## The invariant -/

/-- The frames in use hold the pages used last. -/
structure Lru (dbOf : Nat → Nat) (h : PoolHistory) : Prop where
  coherent : Coherent dbOf h.latest h.σ
  shape : PoolShape h.σ.pool
  nodup : h.recent.Nodup
  ordered : Ordered h.recent h.σ.pool

/-- The victim of the next eviction can be written back. -/
def PagePool.EvictsQuietly (σ : PagePool) (flushLog : FlushLog) (dbOid : Nat) : Prop :=
  ∀ victim old, dbOid ≠ systemDatabaseOid → σ.pool.buffers.length = bufferSize →
    σ.pool.bufferVec.getLast? = some victim → σ.pool.buffers[victim]? = some old →
    (writeBack flushLog old σ.disk).isOk = true

/-- No page that the call writes back fails to be written. -/
def PoolOp.Quiet (dbOf : Nat → Nat) (flushLog : FlushLog) (σ : PagePool) : PoolOp → Prop
  | .getPage key | .modifyPage key _ =>
      σ.hashmap (dbOf key.tableOid) key = none →
        (∃ page, σ.Readable (key.path dbOf) key.pageId page) →
        σ.EvictsQuietly flushLog (dbOf key.tableOid)
  | .newPage key _ => σ.EvictsQuietly flushLog (dbOf key.tableOid)
  | .flush regularOnly =>
      (∀ e ∈ σ.pool.buffers, (writeBack flushLog e σ.disk).isOk = true) ∧
        (regularOnly = false →
          ∀ e ∈ σ.systableBuffers, (writeBack (fun _ _ => .ok ()) e σ.disk).isOk = true)
  | .clear => True

/-- `NewPage` is called for pages without a frame only. -/
def PoolOp.Fresh (dbOf : Nat → Nat) (σ : PagePool) : PoolOp → Prop
  | .newPage key _ => σ.hashmap (dbOf key.tableOid) key = none
  | .getPage _ | .modifyPage _ _ | .flush _ | .clear => True

theorem placeable_of_quiet {dbOf : Nat → Nat} {σ : PagePool} {flushLog : FlushLog}
    {key : TablePageid} (shape : PoolShape σ.pool)
    (hnew : σ.hashmap (dbOf key.tableOid) key = none) :
    σ.Placeable flushLog (dbOf key.tableOid) key := by
  unfold Placeable
  unfold PagePool.hashmap at hnew
  by_cases hdb : dbOf key.tableOid = systemDatabaseOid
  · rw [if_pos hdb] at hnew
    rw [if_pos hdb]
    exact hnew
  · rw [if_neg hdb] at hnew
    rw [if_neg hdb]
    by_cases hfull : σ.pool.buffers.length = bufferSize
    · rw [if_pos hfull]
      have hmem : 0 ∈ σ.pool.bufferVec := shape.accessed 0 (by rw [hfull]; decide)
      refine ⟨_, List.getLast?_eq_some_getLast (List.ne_nil_of_mem hmem), .inr fun i hi => ?_⟩
      rw [hnew] at hi
      cases hi
    · rw [if_neg hfull]
      exact hnew

/-- A quiet call leaves each page in one frame. -/
theorem PoolOp.Quiet.sound {dbOf : Nat → Nat} {σ : PagePool} {flushLog : FlushLog} {op : PoolOp}
    (quiet : op.Quiet dbOf flushLog σ) (fresh : op.Fresh dbOf σ) (shape : PoolShape σ.pool) :
    op.Sound dbOf flushLog σ := by
  cases op with
  | getPage key => exact fun hnew _ => placeable_of_quiet shape hnew
  | newPage key content => exact placeable_of_quiet shape fresh
  | modifyPage key f => exact fun hnew _ => placeable_of_quiet shape hnew
  | flush regularOnly => exact .inr ⟨quiet.1, fun h => .inr (quiet.2 h)⟩
  | clear => trivial

namespace PagePool

variable {dbOf : Nat → Nat} {latest : TablePageid → Option TablePage} {σ : PagePool}
  {flushLog : FlushLog} {key : TablePageid} {recent : List TablePageid} {frame : Nat}

/-- Giving a page a frame makes it the most recent one. -/
theorem addToBuffer_recent (entry : BufferPoolEntry) (co : Coherent dbOf latest σ) (shape : PoolShape σ.pool)
    (ord : Ordered recent σ.pool) (home : entry.dbOid = dbOf entry.tableOid)
    (hnew : σ.hashmap entry.dbOid entry.key = none)
    (quiet : σ.EvictsQuietly flushLog entry.dbOid) :
    ∃ frame σ', addToBuffer flushLog entry σ = .ok frame σ' ∧ PoolShape σ'.pool ∧
      Ordered (PoolHistory.accessed dbOf entry.key recent) σ'.pool := by
  have hkeys (hdb : entry.dbOid ≠ systemDatabaseOid) (i : Nat) :
      σ.pool.keyAt i ≠ some entry.key := by
    intro hi
    rw [PagePool.hashmap, if_neg hdb, (co.user entry.key i).mpr hi] at hnew
    cases hnew
  have haccessed (hdb : entry.dbOid ≠ systemDatabaseOid) :
      PoolHistory.accessed dbOf entry.key recent = Recency.access entry.key recent :=
    if_neg (home ▸ hdb)
  rcases addToBuffer_cases flushLog entry co.bound with ⟨hdb, hrun⟩ | ⟨hdb, hfree, hrun⟩ |
    ⟨hdb, hfull, hvec, hrun⟩ | ⟨victim, old, hdb, hfull, hvec, hold, hrun⟩
  · have hsame : PoolHistory.accessed dbOf entry.key recent = recent := if_pos (home ▸ hdb)
    rw [hsame]
    exact ⟨_, _, hrun, shape, ord⟩
  · rw [haccessed hdb]
    exact ⟨_, _, hrun, shape.addFrame hfree rfl List.length_append,
      ord.addFrame shape hfree (hkeys hdb)⟩
  · have hmem : 0 ∈ σ.pool.bufferVec := shape.accessed 0 (by rw [hfull]; decide)
    rw [List.getLast?_eq_none_iff.mp hvec] at hmem
    exact (List.not_mem_nil hmem).elim
  · rcases hrun with ⟨e, hthrows, -⟩ | ⟨disk, -, hrun⟩
    · have hok := quiet victim old hdb hfull hvec hold
      rw [hthrows] at hok
      cases hok
    · rw [haccessed hdb]
      have hbound := shape.bound victim (List.mem_of_getLast? hvec)
      exact ⟨_, _, hrun, shape.replaceFrame hbound rfl List.length_set,
        ord.replace shape hfull hvec (hkeys hdb)⟩

/-- `GetPage` makes its page the most recent one, or it throws and leaves the frames
alone. -/
theorem getPage_recent (co : Coherent dbOf latest σ) (shape : PoolShape σ.pool)
    (ord : Ordered recent σ.pool)
    (quiet : σ.hashmap (dbOf key.tableOid) key = none →
      (∃ page, σ.Readable (key.path dbOf) key.pageId page) →
      σ.EvictsQuietly flushLog (dbOf key.tableOid)) :
    (∃ frame σ', getPage flushLog (dbOf key.tableOid) key.tableOid key.pageId σ = .ok frame σ' ∧
      PoolShape σ'.pool ∧ Ordered (PoolHistory.accessed dbOf key recent) σ'.pool) ∨
    ∃ e σ', getPage flushLog (dbOf key.tableOid) key.tableOid key.pageId σ = .error e σ' ∧
      σ'.pool = σ.pool := by
  cases hmap : σ.hashmap (dbOf key.tableOid) key with
  | some frame =>
      refine .inl ⟨frame, _, getPage_hit hmap, ?_⟩
      unfold touched PoolHistory.accessed
      by_cases hdb : dbOf key.tableOid = systemDatabaseOid
      · rw [if_pos hdb, if_pos hdb]
        exact ⟨shape, ord⟩
      · rw [if_neg hdb, if_neg hdb]
        rw [PagePool.hashmap, if_neg hdb] at hmap
        have hframe : σ.pool.keyAt frame = some key := (co.user key frame).mp hmap
        obtain ⟨e, he, -⟩ := co.user.exists_of_some hmap
        have hlt := Nat.lt_of_lt_of_le (List.getElem?_eq_some_iff.mp he).1 co.size
        exact ⟨shape.access hlt, ord.access shape (fun _ _ _ => co.user.inj) hframe⟩
  | none =>
      by_cases hread : ∃ page, σ.Readable (key.path dbOf) key.pageId page
      · have hquiet := quiet hmap hread
        obtain ⟨page, hread⟩ := hread
        rw [getPage_miss hmap hread]
        exact .inl (addToBuffer_recent ⟨_, _, _, page, false⟩ co shape ord rfl hmap hquiet)
      · obtain ⟨e, failed, hrun⟩ := getPage_fails flushLog hmap
          (fun page h => hread ⟨page, h⟩)
        exact .inr ⟨e, _, hrun, rfl⟩

/-- Writing to a page does not change the order. -/
theorem modifyPage_recent (shape : PoolShape σ.pool) (ord : Ordered recent σ.pool) (dbOid : Nat)
    (f : TablePage → TablePage) :
    ∃ σ', modifyPage dbOid frame f σ = .ok () σ' ∧ PoolShape σ'.pool ∧ Ordered recent σ'.pool := by
  refine ⟨_, rfl, ?_⟩
  dsimp only
  by_cases hdb : dbOid = systemDatabaseOid
  · rw [if_pos hdb]
    exact ⟨shape, ord⟩
  · rw [if_neg hdb]
    refine ord.of_keys shape ?_ ?_
    · rfl
    apply List.ext_getElem?
    intro i
    rw [List.getElem?_map, List.getElem?_map, List.getElem?_modify]
    cases σ.pool.buffers[i]? with
    | none => rfl
    | some e =>
        by_cases hi : frame = i
        · simp only [hi, ↓reduceIte]
          rfl
        · simp only [hi, ↓reduceIte]
          rfl

end PagePool

/-! ## Runs -/

theorem nodup_accessed {dbOf : Nat → Nat} {key : TablePageid} {recent : List TablePageid}
    (nd : recent.Nodup) : (PoolHistory.accessed dbOf key recent).Nodup := by
  unfold PoolHistory.accessed
  by_cases hdb : dbOf key.tableOid = systemDatabaseOid
  · rw [if_pos hdb]
    exact nd
  · rw [if_neg hdb]
    exact Recency.nodup_access nd

/-- An emptied pool, with whatever is left in `buffer_vec`. -/
theorem Ordered.empty {pool : BufferPool} (hempty : pool.buffers = []) : Ordered [] pool := by
  rw [Ordered, BufferPool.live, hempty]
  simp

/-- A quiet call keeps the order. -/
theorem lru_step {dbOf : Nat → Nat} {h : PoolHistory} {flushLog : FlushLog} {op : PoolOp}
    (lru : Lru dbOf h) (quiet : op.Quiet dbOf flushLog h.σ) (fresh : op.Fresh dbOf h.σ) :
    Lru dbOf (h.step dbOf flushLog op) := by
  have sound := quiet.sound fresh lru.shape
  have co := coherent_step lru.coherent sound
  suffices hrest : PoolShape (h.step dbOf flushLog op).σ.pool ∧
      (h.step dbOf flushLog op).recent.Nodup ∧
      Ordered (h.step dbOf flushLog op).recent (h.step dbOf flushLog op).σ.pool from
    ⟨co, hrest.1, hrest.2.1, hrest.2.2⟩
  unfold PoolHistory.step
  cases op with
  | getPage key =>
      rcases lru.coherent.run_getPage sound with ⟨frame, σ', content, hget, -, hop⟩ |
        ⟨e, σ', hget, -, hop⟩
      · rw [hop]
        rcases getPage_recent lru.coherent lru.shape lru.ordered quiet with
          ⟨_, _, hrun, shape, ord⟩ | ⟨_, _, hrun, -⟩
        · cases hrun.symm.trans hget
          exact ⟨shape, nodup_accessed lru.nodup, ord⟩
        · cases hrun.symm.trans hget
      · rw [hop]
        rcases getPage_recent lru.coherent lru.shape lru.ordered quiet with
          ⟨_, _, hrun, -⟩ | ⟨_, _, hrun, hpool⟩
        · cases hrun.symm.trans hget
        · cases hrun.symm.trans hget
          dsimp only
          rw [hpool]
          exact ⟨lru.shape, lru.nodup, lru.ordered⟩
  | newPage key content =>
      obtain ⟨frame, σ', hrun, shape, ord⟩ := addToBuffer_recent
        ⟨dbOf key.tableOid, key.tableOid, key.pageId, .zero, false⟩
        lru.coherent lru.shape lru.ordered rfl fresh quiet
      rcases lru.coherent.run_newPage sound with ⟨_, _, _, hnew, hmodify, -, hop⟩ |
        ⟨_, _, hnew, -, -⟩
      · rw [hop]
        cases hrun.symm.trans hnew
        obtain ⟨_, hmodify', shape', ord'⟩ := modifyPage_recent (f := fun _ => content) shape ord _
        cases hmodify'.symm.trans hmodify
        exact ⟨shape', nodup_accessed lru.nodup, ord'⟩
      · cases hrun.symm.trans hnew
  | modifyPage key f =>
      rcases lru.coherent.run_modifyPage sound with ⟨_, _, _, _, hget, hmodify, -, hop⟩ |
        ⟨_, _, hget, -, hop⟩
      · rw [hop]
        rcases getPage_recent lru.coherent lru.shape lru.ordered quiet with
          ⟨_, _, hrun, shape, ord⟩ | ⟨_, _, hrun, -⟩
        · cases hrun.symm.trans hget
          obtain ⟨_, hmodify', shape', ord'⟩ := modifyPage_recent (f := f) shape ord _
          cases hmodify'.symm.trans hmodify
          exact ⟨shape', nodup_accessed lru.nodup, ord'⟩
        · cases hrun.symm.trans hget
      · rw [hop]
        rcases getPage_recent lru.coherent lru.shape lru.ordered quiet with
          ⟨_, _, hrun, -⟩ | ⟨_, _, hrun, hpool⟩
        · cases hrun.symm.trans hget
        · cases hrun.symm.trans hget
          dsimp only
          rw [hpool]
          exact ⟨lru.shape, lru.nodup, lru.ordered⟩
  | flush regularOnly =>
      rcases lru.coherent.flush sound with ⟨σ', hrun, -, hempty, hvec⟩ | ⟨er, σ', -, -, hthrows⟩
      · rw [show (PoolOp.flush regularOnly).run dbOf flushLog h.σ = .ok none σ' from
          EStateM.bind_of_ok hrun]
        refine ⟨⟨hvec ▸ lru.shape.nodup, hvec ▸ lru.shape.bound, fun i hi => ?_, ?_⟩,
          List.nodup_nil, Ordered.empty hempty⟩
        · rw [hempty] at hi
          exact (Nat.not_lt_zero i hi).elim
        · rw [hempty]
          exact Nat.zero_le _
      · exfalso
        rcases hthrows with ⟨e, he, hthrows⟩ | ⟨hregular, e, he, hthrows⟩
        · rw [quiet.1 e he] at hthrows
          cases hthrows
        · rw [quiet.2 hregular e he] at hthrows
          cases hthrows
  | clear =>
      refine ⟨⟨lru.shape.nodup, lru.shape.bound, fun i hi => ?_, Nat.zero_le _⟩, List.nodup_nil,
        Ordered.empty rfl⟩
      exact (Nat.not_lt_zero i hi).elim

theorem lru_start (dbOf : Nat → Nat) (files : FilePath → Option DataFile) :
    Lru dbOf (.start dbOf files) where
  coherent := coherent_start dbOf files
  shape := ⟨List.nodup_nil, fun _ hi => (List.not_mem_nil hi).elim,
    fun i hi => (Nat.not_lt_zero i hi).elim, Nat.zero_le _⟩
  nodup := List.nodup_nil
  ordered := Ordered.empty rfl

/-- `NewPage` is for new pages, and no page that is written back fails to be. -/
def LruCall (dbOf : Nat → Nat) (flushLog : FlushLog) (op : PoolOp) (h : PoolHistory) : Prop :=
  op.Quiet dbOf flushLog h.σ ∧ op.Fresh dbOf h.σ

theorem PoolRun.lru {dbOf : Nat → Nat} {h : PoolHistory} (run : PoolRun dbOf (LruCall dbOf) h) :
    Lru dbOf h := by
  induction run with
  | start files => exact lru_start dbOf files
  | step flushLog op _ call ih => exact lru_step ih call.1 call.2

/-- The user pages that have a frame are the `bufferSize` ones used last. -/
structure HoldsRecent (h : PoolHistory) : Prop where
  distinct : h.recent.Nodup
  once : (h.σ.pool.buffers.map BufferPoolEntry.key).Nodup
  resident : ∀ key, key ∈ h.σ.pool.buffers.map BufferPoolEntry.key ↔
    key ∈ h.recent.take bufferSize
  count : h.σ.pool.buffers.length = min bufferSize h.recent.length

theorem Lru.holdsRecent {dbOf : Nat → Nat} {h : PoolHistory} (lru : Lru dbOf h) :
    HoldsRecent h where
  distinct := lru.nodup
  once := lru.coherent.user.nodup
  resident key := by
    rw [lru.ordered.mem_take_iff lru.shape, List.mem_iff_getElem?]
    simp only [BufferPool.keyAt, List.getElem?_map]
  count := by
    rw [← lru.ordered.length_take lru.shape, List.length_take]

/-- A page that a page access drives out is the one used least recently. -/
theorem evicted_last {dbOf : Nat → Nat} {h : PoolHistory} {flushLog : FlushLog} {op : PoolOp}
    {key k : TablePageid} (lru : Lru dbOf h) (lru' : Lru dbOf (h.step dbOf flushLog op))
    (hop : op.key? = some key) (hmem : k ∈ h.σ.pool.buffers.map BufferPoolEntry.key)
    (hgone : k ∉ (h.step dbOf flushLog op).σ.pool.buffers.map BufferPoolEntry.key) :
    (h.recent.take bufferSize).getLast? = some k := by
  have hrecent : (h.step dbOf flushLog op).recent = h.recent ∨
      (h.step dbOf flushLog op).recent = Recency.access key h.recent := by
    unfold PoolHistory.step
    cases op.run dbOf flushLog h.σ with
    | error e σ' => exact .inl rfl
    | ok result σ' =>
        dsimp only
        rw [PoolHistory.recentAfter, hop]
        dsimp only
        unfold PoolHistory.accessed
        by_cases hdb : dbOf key.tableOid = systemDatabaseOid
        · exact .inl (if_pos hdb)
        · exact .inr (if_neg hdb)
  rw [lru.holdsRecent.resident] at hmem
  rw [lru'.holdsRecent.resident] at hgone
  rcases hrecent with hsame | haccess
  · rw [hsame] at hgone
    exact (hgone hmem).elim
  · rw [haccess] at hgone
    exact Recency.getLast?_of_driven_out hmem hgone

/-- The pool is an LRU cache: it holds the pages used last, and a page access drives
out the one used least recently. -/
def ImplementsLru (dbOf : Nat → Nat) (h : PoolHistory) : Prop :=
  HoldsRecent h ∧ ∀ flushLog op key k, LruCall dbOf flushLog op h → op.key? = some key →
    k ∈ h.σ.pool.buffers.map BufferPoolEntry.key →
    k ∉ (h.step dbOf flushLog op).σ.pool.buffers.map BufferPoolEntry.key →
    (h.recent.take bufferSize).getLast? = some k

/-- A table whose first insertion is rolled back while five pages are in the pool: the
undo of the page creation reads page `nullPageId`, which fails. The next page that
needs a frame finds the stream of the table failed, the one after that another
victim. -/
def failedStream : PoolHistory :=
  (PoolHistory.start (fun _ => preservedOid) fun _ => some .empty).calls (fun _ => preservedOid)
    [.newPage ⟨preservedOid + 1, 0⟩ TablePage.zero.init,
      .newPage ⟨preservedOid + 2, 0⟩ TablePage.zero.init,
      .newPage ⟨preservedOid + 2, 1⟩ TablePage.zero.init,
      .newPage ⟨preservedOid + 2, 2⟩ TablePage.zero.init,
      .newPage ⟨preservedOid + 2, 3⟩ TablePage.zero.init,
      .getPage ⟨preservedOid + 1, nullPageId⟩,
      .newPage ⟨preservedOid + 2, 4⟩ TablePage.zero.init,
      .newPage ⟨preservedOid + 2, 4⟩ TablePage.zero.init]

end HuaDB
