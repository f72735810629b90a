import HuaDB.Lib.Locking
import HuaDB.LockManager

/-!
What the lock manager guarantees over a run of `LockTable`, `LockRow` and
`ReleaseLocks` calls.

Modes are ordered by strength (`LockType.le`). `Upgrade` never weakens a mode,
and its result covers the requested mode except that `S` upgraded by `SIX` stays
`S` (`LockManager.le_upgrade_right`). Runs refine the lock tables of
`HuaDB.Lib.Locking` (`LockRun.lockStep`), which gives mutual exclusion as long as
no transaction that has recorded `S` on a table asks for `SIX`.
-/

namespace HuaDB

/-! ## Modes -/

/-- The strength of lock modes: every lock a weaker mode excludes, a stronger
one excludes too. -/
def LockType.le : LockType → LockType → Bool
  | .is, _ => true
  | .ix, b => b = .ix ∨ b = .six ∨ b = .x
  | .s, b => b = .s ∨ b = .six ∨ b = .x
  | .six, b => b = .six ∨ b = .x
  | .x, b => b = .x

instance : PartialOrder LockType where
  le a b := a.le b = true
  le_refl a := by cases a <;> rfl
  le_trans a b c := by cases a <;> cases b <;> cases c <;> decide
  le_antisymm a b := by cases a <;> cases b <;> decide

instance (a b : LockType) : Decidable (a ≤ b) := inferInstanceAs (Decidable (a.le b = true))

namespace LockManager

theorem compatible_symm (a b : LockType) : compatible a b = true → compatible b a = true := by
  cases a <;> cases b <;> decide

/-- What a mode is compatible with, every weaker mode is. -/
theorem compatible_anti (a a' b : LockType) :
    a' ≤ a → compatible a b = true → compatible a' b = true := by
  cases a <;> cases a' <;> cases b <;> decide

theorem le_upgrade_left (a b : LockType) : a ≤ upgrade a b := by
  cases a <;> cases b <;> decide

/-- The one upgrade that loses the requested mode is from `S` by `SIX`. -/
theorem le_upgrade_right {a b : LockType} (h : ¬ (a = .s ∧ b = .six)) : b ≤ upgrade a b := by
  revert h
  cases a <;> cases b <;> decide

/-! ## Recording a lock -/

theorem mem_record {locks : List Lock} {new it : Lock} (h : it ∈ record locks new) :
    (it.object ≠ new.object ∧ it ∈ locks) ∨
      (it.object = new.object ∧ ∃ old ∈ locks, old.object = new.object ∧
        it.lockType = upgrade old.lockType new.lockType) ∨
      (it = new ∧ ∀ old ∈ locks, old.object ≠ new.object) := by
  unfold record at h
  split at h
  · obtain ⟨old, hold, rfl⟩ := List.mem_map.mp h
    by_cases hobject : old.object = new.object
    · rw [if_pos hobject]
      exact .inr (.inl ⟨hobject, old, hold, hobject, rfl⟩)
    · rw [if_neg hobject]
      exact .inl ⟨hobject, hold⟩
  · rename_i hnone
    have none : ∀ old ∈ locks, old.object ≠ new.object := by simpa using hnone
    rcases List.mem_append.mp h with hold | hnew
    · exact .inl ⟨none it hold, hold⟩
    · exact .inr (.inr ⟨List.mem_singleton.mp hnew, none⟩)

/-- The locks already recorded stay, at least as strong. -/
theorem exists_mem_record {locks : List Lock} {it : Lock} (new : Lock) (h : it ∈ locks) :
    ∃ it' ∈ record locks new, it'.object = it.object ∧ it.lockType ≤ it'.lockType := by
  unfold record
  split
  · refine ⟨_, List.mem_map_of_mem h, ?_⟩
    split
    · exact ⟨rfl, le_upgrade_left _ _⟩
    · exact ⟨rfl, le_refl _⟩
  · exact ⟨it, List.mem_append_left _ h, rfl, le_refl _⟩

/-- After recording, there is a lock on the requested object. -/
theorem exists_mem_record_self (locks : List Lock) (new : Lock) :
    ∃ it ∈ record locks new, it.object = new.object := by
  unfold record
  split
  · rename_i hany
    obtain ⟨old, hold, hobject⟩ := List.any_eq_true.mp hany
    obtain ⟨it, hit, heq, -⟩ := exists_mem_record new hold
    refine ⟨it, ?_, heq.trans (by simpa using hobject)⟩
    unfold record at hit
    rwa [if_pos hany] at hit
  · exact ⟨new, by simp, rfl⟩

/-- Locks on other objects are left as they are. -/
theorem mem_of_mem_foldl_record {news locks : List Lock} {it : Lock}
    (h : it ∈ news.foldl record locks) (hne : ∀ new ∈ news, it.object ≠ new.object) :
    it ∈ locks := by
  induction news generalizing locks with
  | nil => exact h
  | cons new news ih =>
      have hrecord := ih h fun n hn => hne n (List.mem_cons_of_mem _ hn)
      rcases mem_record hrecord with ⟨-, hold⟩ | ⟨hobject, -⟩ | ⟨rfl, -⟩
      · exact hold
      · exact absurd hobject (hne new List.mem_cons_self)
      · exact absurd rfl (hne it List.mem_cons_self)

theorem exists_mem_foldl_record {locks : List Lock} {it : Lock} (news : List Lock)
    (h : it ∈ locks) :
    ∃ it' ∈ news.foldl record locks, it'.object = it.object ∧ it.lockType ≤ it'.lockType := by
  induction news generalizing locks it with
  | nil => exact ⟨it, h, rfl, le_refl _⟩
  | cons new news ih =>
      obtain ⟨it₁, hit₁, hobject₁, hle₁⟩ := exists_mem_record new h
      obtain ⟨it₂, hit₂, hobject₂, hle₂⟩ := ih hit₁
      exact ⟨it₂, hit₂, hobject₂.trans hobject₁, hle₁.trans hle₂⟩

theorem exists_mem_foldl_record_self {news : List Lock} {new : Lock} (locks : List Lock)
    (h : new ∈ news) : ∃ it ∈ news.foldl record locks, it.object = new.object := by
  induction news generalizing locks with
  | nil => cases h
  | cons n news ih =>
      rcases List.mem_cons.mp h with rfl | h
      · obtain ⟨it, hit, hobject⟩ := exists_mem_record_self locks new
        obtain ⟨it', hit', hobject', -⟩ := exists_mem_foldl_record news hit
        exact ⟨it', hit', hobject'.trans hobject⟩
      · exact ih (record locks n) h

/-- The locks recorded on a requested object cover the requested mode, unless the
upgrade was from `S` by `SIX`. -/
theorem le_of_mem_foldl_record {news locks : List Lock} {new it : Lock}
    (distinct : news.Pairwise fun a b => a.object ≠ b.object)
    (upgrades : ∀ n ∈ news, ∀ old ∈ locks, old.object = n.object →
      ¬ (old.lockType = .s ∧ n.lockType = .six))
    (hnew : new ∈ news) (hit : it ∈ news.foldl record locks) (hobject : it.object = new.object) :
    new.lockType ≤ it.lockType := by
  induction news generalizing locks with
  | nil => cases hnew
  | cons n news ih =>
      obtain ⟨hdistinct, distinct⟩ := List.pairwise_cons.mp distinct
      rcases List.mem_cons.mp hnew with rfl | hmem
      · have hrecord : it ∈ record locks new :=
          mem_of_mem_foldl_record hit fun m hm => hobject ▸ hdistinct m hm
        rcases mem_record hrecord with ⟨hne, -⟩ | ⟨-, old, hold, heq, htype⟩ | ⟨rfl, -⟩
        · exact absurd hobject hne
        · rw [htype]
          exact le_upgrade_right (upgrades new List.mem_cons_self old hold heq)
        · exact le_refl _
      · refine ih distinct (fun m hm old hold heq => ?_) hmem hit
        rcases mem_record hold with ⟨-, hold⟩ | ⟨hobj, -⟩ | ⟨rfl, -⟩
        · exact upgrades m (List.mem_cons_of_mem _ hm) old hold heq
        · exact absurd (hobj.symm.trans heq) (hdistinct m hm)
        · exact absurd heq (hdistinct m hm)

/-! ## The check -/

theorem lockTypeNow_of_mem {locks : List Lock} {object : LockObject}
    (h : ∃ it ∈ locks, it.object = object) :
    ∃ it ∈ locks, it.object = object ∧ lockTypeNow locks object = some it.lockType := by
  unfold lockTypeNow
  cases hfind : locks.reverse.find? fun it => it.object = object with
  | none =>
      obtain ⟨it, hit, hobject⟩ := h
      have hnot := List.find?_eq_none.mp hfind it (List.mem_reverse.mpr hit)
      simp [hobject] at hnot
  | some it =>
      refine ⟨it, List.mem_reverse.mp (List.mem_of_find?_eq_some hfind), ?_, rfl⟩
      simpa using List.find?_some hfind

theorem compatible_of_admits {m : LockManager} {xid xid' : Nat} {object : LockObject} {it : Lock}
    {typeNow : LockType} (h : m.admits xid object = true) (hne : xid' ≠ xid)
    (hit : it ∈ m.locks xid') (hobject : it.object = object)
    (hnow : lockTypeNow (m.locks xid) object = some typeNow) :
    compatible it.lockType typeNow = true := by
  unfold locks at hit
  cases hfind : m.lockMap.find? xid' with
  | none =>
      rw [hfind] at hit
      cases hit
  | some ls =>
      rw [hfind] at hit
      have hentry := List.all_eq_true.mp h (xid', ls) (Assoc.mem_of_find? hfind)
      have hlocks := (of_decide_eq_true hentry).resolve_left hne
      have hlock := (of_decide_eq_true (List.all_eq_true.mp hlocks it hit)).resolve_left
        (not_not_intro hobject)
      rw [hnow] at hlock
      exact hlock

section Request

variable (m : LockManager) (xid : Nat) (news : List Lock)

theorem request_locks_self :
    (m.request xid news).2.locks xid = news.foldl record (m.locks xid) := by
  simp [request, locks]

theorem request_locks_ne {xid' : Nat} (h : xid' ≠ xid) :
    (m.request xid news).2.locks xid' = m.locks xid' := by
  simp [request, locks, Assoc.find?_insert_ne (Ne.symm h)]

theorem releaseLocks_locks_ne {xid' : Nat} (h : xid' ≠ xid) :
    (m.releaseLocks xid).locks xid' = m.locks xid' := by
  simp [releaseLocks, locks, Assoc.find?_insert_ne (Ne.symm h)]

end Request

end LockManager

/-! ## Runs -/

/-- The locks a request stands for: a row lock comes with its table lock. -/
def Lock.withIntention (lock : Lock) : List Lock :=
  match lock.lockGranularity with
  | .table => [lock]
  | .row => [lock, .ofTable lock.oid (LockManager.intention lock.lockType)]

theorem Lock.mem_withIntention (lock : Lock) : lock ∈ lock.withIntention := by
  unfold withIntention
  split <;> exact List.mem_cons_self

theorem Lock.withIntention_distinct (lock : Lock) :
    lock.withIntention.Pairwise fun a b => a.object ≠ b.object := by
  unfold withIntention
  cases hg : lock.lockGranularity with
  | table => exact List.pairwise_singleton _ _
  | row => simp [object, hg, ofTable]

/-- A call of the lock manager. -/
inductive LockCall where
  | lockTable (xid : Nat) (lockType : LockType) (oid : Nat)
  | lockRow (xid : Nat) (lockType : LockType) (oid : Nat) (rid : Rid)
  | releaseLocks (xid : Nat)
deriving DecidableEq, Repr

/-- The lock manager, with the requests that returned true and whose transaction
has not released since. -/
structure LockRun where
  manager : LockManager := {}
  granted : List (Nat × Lock) := []
deriving DecidableEq, Repr

namespace LockRun

/-- The run after a request that returned `result`. -/
def requested (run : LockRun) (xid : Nat) (lock : Lock) (result : Bool × LockManager) : LockRun where
  manager := result.2
  granted := if result.1 then (xid, lock) :: run.granted else run.granted

def step (run : LockRun) : LockCall → LockRun
  | .lockTable xid lockType oid =>
      run.requested xid (.ofTable oid lockType) (run.manager.lockTable xid lockType oid)
  | .lockRow xid lockType oid rid =>
      run.requested xid (.ofRow oid rid lockType) (run.manager.lockRow xid lockType oid rid)
  | .releaseLocks xid =>
      { manager := run.manager.releaseLocks xid
        granted := run.granted.filter fun e => e.1 ≠ xid }

/-- The states of the runs from the empty lock table whose calls are all
`allowed` in the state they are made in. -/
inductive Reaches (allowed : LockManager → LockCall → Prop) : LockRun → Prop
  | init : Reaches allowed {}
  | step {run : LockRun} (reach : Reaches allowed run) {call : LockCall}
      (hallowed : allowed run.manager call) : Reaches allowed (run.step call)

theorem Reaches.mono {allowed allowed' : LockManager → LockCall → Prop} {run : LockRun}
    (reach : Reaches allowed run) (h : ∀ m call, allowed m call → allowed' m call) :
    Reaches allowed' run := by
  induction reach with
  | init => exact .init
  | step _ hallowed ih => exact ih.step (h _ _ hallowed)

/-- The lock table of a run: modes by transaction and object. -/
def table (run : LockRun) : LockState Nat LockObject LockType where
  recorded xid object lockType :=
    ∃ it ∈ run.manager.locks xid, it.object = object ∧ it.lockType = lockType
  granted xid object lockType :=
    ∃ lock, (xid, lock) ∈ run.granted ∧
      ∃ it ∈ lock.withIntention, it.object = object ∧ it.lockType = lockType

/-- Modes as the lock manager compares them. -/
abbrev Compat (a b : LockType) : Prop := LockManager.compatible a b = true

/-- A request is a step of the lock table. -/
theorem requested_lockStep (run : LockRun) {xid : Nat} (lock : Lock)
    (upgrades : ∀ n ∈ lock.withIntention, ∀ old ∈ run.manager.locks xid, old.object = n.object →
      ¬ (old.lockType = .s ∧ n.lockType = .six)) :
    LockStep Compat run.table
      (run.requested xid lock (run.manager.request xid lock.withIntention)).table := by
  have hself := run.manager.request_locks_self xid lock.withIntention
  have raised : run.table.Raised xid
      (run.requested xid lock (run.manager.request xid lock.withIntention)).table := by
    refine ⟨?_, fun xid' hne => ?_⟩
    · intro object lockType h
      obtain ⟨it, hit, hobject, htype⟩ := h
      obtain ⟨it', hit', hobject', hle⟩ :=
        LockManager.exists_mem_foldl_record lock.withIntention hit
      exact ⟨it'.lockType, ⟨it', hself ▸ hit', hobject'.trans hobject, rfl⟩, htype ▸ hle⟩
    · have hne' := run.manager.request_locks_ne xid lock.withIntention hne
      simp only [table, requested, hne']
  cases hresult : (run.manager.request xid lock.withIntention).1 with
  | false =>
      refine .refuse raised ?_
      simp only [table, requested, hresult]
      rfl
  | true =>
      refine .grant (fun object lockType =>
        ∃ it ∈ lock.withIntention, it.object = object ∧ it.lockType = lockType) raised ?_ ?_
      · intro object lockType h
        obtain ⟨new, hnew, hobject, htype⟩ := h
        obtain ⟨it, hit, hit', hnow⟩ := LockManager.lockTypeNow_of_mem
          (LockManager.exists_mem_foldl_record_self (run.manager.locks xid) hnew)
        have hle := LockManager.le_of_mem_foldl_record lock.withIntention_distinct upgrades
          hnew hit hit'
        refine ⟨it.lockType, ⟨it, hself ▸ hit, hit'.trans hobject, rfl⟩, htype ▸ hle, ?_⟩
        intro xid' _ hne h
        obtain ⟨other, hother, hsame, rfl⟩ := h
        have hadmits := List.all_eq_true.mp hresult new hnew
        rw [← hself] at hnow
        exact LockManager.compatible_of_admits hadmits hne hother (hsame.trans hobject.symm) hnow
      · intro xid' object lockType h
        obtain ⟨l, hl, h⟩ := h
        simp only [requested, hresult, if_true] at hl
        rcases List.mem_cons.mp hl with heq | hold
        · cases heq
          exact .inr ⟨rfl, h⟩
        · exact .inl ⟨l, hold, h⟩

end LockRun

/-- Row locks are taken in mode `S` or `X`. -/
def LockCall.RowMode : LockCall → Prop
  | .lockRow _ lockType _ _ => lockType = .s ∨ lockType = .x
  | _ => True

/-- The call does not ask for `SIX` on a table where the transaction has recorded
`S`. -/
def LockCall.KeepsMode (m : LockManager) : LockCall → Prop
  | .lockTable xid lockType oid =>
      lockType = .six → ∀ it ∈ m.locks xid, it.object = .table oid → it.lockType ≠ .s
  | _ => True

namespace LockRun

theorem lockStep (run : LockRun) {call : LockCall} (rowMode : call.RowMode)
    (keeps : call.KeepsMode run.manager) :
    LockStep Compat run.table (run.step call).table := by
  cases call with
  | lockTable xid lockType oid =>
      refine run.requested_lockStep (.ofTable oid lockType) fun n hn old hold heq h => ?_
      cases List.mem_singleton.mp hn
      exact keeps h.2 old hold heq h.1
  | lockRow xid lockType oid rid =>
      refine run.requested_lockStep (.ofRow oid rid lockType) fun n hn old _ _ h => ?_
      rcases List.mem_cons.mp hn with rfl | hn
      · rcases rowMode with rfl | rfl
        · cases h.2
        · cases h.2
      · cases List.mem_singleton.mp hn
        have hne : ∀ t, LockManager.intention t ≠ .six := fun t => by cases t <;> decide
        exact hne lockType h.2
  | releaseLocks xid =>
      refine .release xid (fun xid' hne => ?_) fun xid' object lockType h => ?_
      · simp only [table, step, run.manager.releaseLocks_locks_ne xid hne]
      · obtain ⟨lock, hlock, h⟩ := h
        obtain ⟨hmem, hne⟩ := List.mem_filter.mp hlock
        exact ⟨⟨lock, hmem, h⟩, by simpa using hne⟩

/-- A run refines a run of the lock table. -/
theorem Reaches.table {run : LockRun}
    (reach : Reaches (fun m call => call.RowMode ∧ call.KeepsMode m) run) :
    Relation.ReflTransGen (LockStep Compat) (LockRun.table {}) run.table := by
  induction reach with
  | init => exact .refl
  | step _ hallowed ih => exact ih.tail (lockStep _ hallowed.1 hallowed.2)

/-- Mutual exclusion between the granted requests of different transactions: modes
on one table and on one row are compatible, a table lock `S` excludes row locks
`X` in the table, and a table lock `X` excludes every row lock in it. -/
def Exclusive (run : LockRun) : Prop :=
  ∀ xid lock xid' lock', (xid, lock) ∈ run.granted → (xid', lock') ∈ run.granted → xid ≠ xid' →
    (lock.object = lock'.object →
      LockManager.compatible lock.lockType lock'.lockType = true) ∧
    ∀ oid rid, lock.object = .table oid → lock'.object = .row oid rid →
      (lock.lockType = .s → lock'.lockType ≠ .x) ∧ lock.lockType ≠ .x

/-- In every run in which no transaction that has recorded `S` on a table asks
for `SIX` on it, granted locks exclude each other. -/
theorem exclusive_of_reaches {run : LockRun}
    (reach : Reaches (fun m call => call.RowMode ∧ call.KeepsMode m) run) : run.Exclusive := by
  have safe : run.table.Safe Compat := by
    refine .of_run LockManager.compatible_symm LockManager.compatible_anti reach.table ⟨?_, ?_⟩
    · intro xid object lockType h
      obtain ⟨lock, hlock, -⟩ := h
      cases hlock
    · intro xid xid' object m m' hne h
      obtain ⟨lock, hlock, -⟩ := h
      cases hlock
  intro xid lock xid' lock' hlock hlock' hne
  have hown := Lock.mem_withIntention lock
  refine ⟨fun hobject => ?_, fun oid rid htable hrow => ?_⟩
  · exact safe.exclusive xid xid' lock.object _ _ hne ⟨lock, hlock, lock, hown, rfl, rfl⟩
      ⟨lock', hlock', lock', Lock.mem_withIntention lock', hobject.symm, rfl⟩
  · -- the row lock came with an intention lock on the table
    have hintention : .ofTable oid (LockManager.intention lock'.lockType) ∈
        lock'.withIntention := by
      unfold Lock.object at hrow
      cases hg : lock'.lockGranularity with
      | table =>
          rw [hg] at hrow
          cases hrow
      | row =>
          rw [hg] at hrow
          cases hrow
          simp [Lock.withIntention, hg]
    have hcompat : LockManager.compatible lock.lockType
        (LockManager.intention lock'.lockType) = true :=
      safe.exclusive xid xid' (.table oid) _ _ hne ⟨lock, hlock, lock, hown, htable, rfl⟩
        ⟨lock', hlock', _, hintention, rfl, rfl⟩
    refine ⟨fun hs hx => ?_, fun hx => ?_⟩
    · rw [hs, hx] at hcompat
      cases hcompat
    · rw [hx] at hcompat
      cases hcompat

/-- Two transactions that take row locks in one table, and a table lock. -/
theorem exclusive_twoRows :
    ((({} : LockRun).step (.lockRow 1 .x 7 ⟨0, 0⟩)).step (.lockRow 2 .s 7 ⟨0, 1⟩)).Exclusive :=
  exclusive_of_reaches (.step (.step .init ⟨.inr rfl, trivial⟩) ⟨.inl rfl, trivial⟩)

/-- A transaction that holds `S` is granted `SIX` and keeps `S` recorded, so
another one is granted `S`. -/
theorem not_exclusive_sharedThenSix :
    ¬ ∀ run, Reaches (fun _ call => call.RowMode) run → run.Exclusive := by
  intro h
  have reach : Reaches (fun _ call => call.RowMode)
      (((({} : LockRun).step (.lockTable 1 .s 7)).step (.lockTable 1 .six 7)).step
        (.lockTable 2 .s 7)) :=
    .step (.step (.step .init trivial) trivial) trivial
  have hcompat := (h _ reach 1 (.ofTable 7 .six) 2 (.ofTable 7 .s) (by decide) (by decide)
    (by decide)).1 rfl
  exact absurd hcompat (by decide)

end LockRun

end HuaDB
