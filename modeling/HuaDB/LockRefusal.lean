import HuaDB.LockSafety

/-!
What a request of the lock manager leaves recorded.

The locks of one transaction are on distinct objects (`LockManager.Distinct`), so
after a request each requested object has exactly one recorded lock, of the mode
`LockManager.joined` computes beforehand. A refused request therefore leaves
`lock_map` alone only where it had nothing to record
(`LockManager.call_eq_self_iff`), and recorded locks of different transactions
stay compatible exactly as long as no request meets an incompatible one
(`LockManager.Clear`).
-/

namespace HuaDB

namespace LockManager

/-- The locks of one transaction are on distinct objects. -/
def Distinct (m : LockManager) : Prop := ∀ xid, ((m.locks xid).map Lock.object).Nodup

theorem record_objects (locks : List Lock) (new : Lock) :
    (record locks new).map Lock.object =
      if new.object ∈ locks.map Lock.object then
        locks.map Lock.object
      else
        locks.map Lock.object ++ [new.object] := by
  have hany : (locks.any fun it => it.object = new.object) = true ↔
      new.object ∈ locks.map Lock.object := by
    rw [List.any_eq_true, List.mem_map]
    exact exists_congr fun it => and_congr_right fun _ => decide_eq_true_iff
  unfold record
  by_cases h : new.object ∈ locks.map Lock.object
  · rw [if_pos (hany.mpr h), if_pos h, List.map_map]
    refine List.map_congr_left fun it _ => ?_
    simp only [Function.comp_apply]
    split <;> rfl
  · rw [if_neg (mt hany.mp h), if_neg h, List.map_append]
    rfl

theorem nodup_record {locks : List Lock} (nd : (locks.map Lock.object).Nodup) (new : Lock) :
    ((record locks new).map Lock.object).Nodup := by
  rw [record_objects]
  split
  · exact nd
  · rename_i hnew
    exact List.nodup_append.mpr ⟨nd, List.nodup_singleton _, fun o ho o' ho' heq =>
      hnew (List.mem_singleton.mp ho' ▸ heq ▸ ho)⟩

theorem nodup_foldl_record {news locks : List Lock} (nd : (locks.map Lock.object).Nodup) :
    ((news.foldl record locks).map Lock.object).Nodup := by
  induction news generalizing locks with
  | nil => exact nd
  | cons new news ih => exact ih (nodup_record nd new)

/-- Locks on distinct objects are told apart by their objects. -/
theorem eq_of_object_eq {locks : List Lock} (nd : (locks.map Lock.object).Nodup) {a b : Lock}
    (ha : a ∈ locks) (hb : b ∈ locks) (h : a.object = b.object) : a = b :=
  List.inj_on_of_nodup_map nd ha hb h

theorem lockTypeNow_eq_some_iff {locks : List Lock} (nd : (locks.map Lock.object).Nodup)
    {object : LockObject} {lockType : LockType} :
    lockTypeNow locks object = some lockType ↔
      ∃ it ∈ locks, it.object = object ∧ it.lockType = lockType := by
  constructor
  · intro h
    obtain ⟨it, hfind, htype⟩ := Option.map_eq_some_iff.mp h
    have hit := List.mem_reverse.mp (List.mem_of_find?_eq_some hfind)
    exact ⟨it, hit, by simpa using List.find?_some hfind, htype⟩
  · intro h
    obtain ⟨it, hit, hobject, htype⟩ := h
    obtain ⟨last, hlast, hsame, hnow⟩ := lockTypeNow_of_mem ⟨it, hit, hobject⟩
    cases eq_of_object_eq nd hlast hit (hsame.trans hobject.symm)
    rw [hnow, htype]

/-- The mode a request leaves recorded on an object. -/
def joined (locks : List Lock) (new : Lock) : LockType :=
  match lockTypeNow locks new.object with
  | none => new.lockType
  | some held => upgrade held new.lockType

theorem lockType_of_mem_record {locks : List Lock} (nd : (locks.map Lock.object).Nodup)
    {new it : Lock} (hit : it ∈ record locks new) (hobject : it.object = new.object) :
    it.lockType = joined locks new := by
  unfold joined
  rcases mem_record hit with ⟨hne, -⟩ | ⟨-, old, hold, heq, htype⟩ | ⟨rfl, hnone⟩
  · exact absurd hobject hne
  · rw [(lockTypeNow_eq_some_iff nd).mpr ⟨old, hold, heq, rfl⟩, htype]
  · cases hnow : lockTypeNow locks it.object with
    | none => rfl
    | some held =>
        obtain ⟨old, hold, hsame, -⟩ := (lockTypeNow_eq_some_iff nd).mp hnow
        exact absurd hsame (hnone old hold)

theorem mem_record_of_ne {locks : List Lock} {new it : Lock} (hit : it ∈ locks)
    (hne : it.object ≠ new.object) : it ∈ record locks new := by
  unfold record
  split
  · exact List.mem_map.mpr ⟨it, hit, if_neg hne⟩
  · exact List.mem_append_left _ hit

/-- Recording a lock leaves the locks on other objects alone. -/
theorem mem_record_ne_iff {locks : List Lock} {new it : Lock} (hne : it.object ≠ new.object) :
    it ∈ record locks new ↔ it ∈ locks := by
  constructor
  · intro h
    have hfold : it ∈ [new].foldl record locks := h
    exact mem_of_mem_foldl_record hfold fun n hn => List.mem_singleton.mp hn ▸ hne
  · exact fun h => mem_record_of_ne h hne

/-- Recording a lock on another object does not change the joined mode. -/
theorem joined_record_ne {locks : List Lock} (nd : (locks.map Lock.object).Nodup)
    {new other : Lock} (hne : new.object ≠ other.object) :
    joined (record locks other) new = joined locks new := by
  have hnow : lockTypeNow (record locks other) new.object = lockTypeNow locks new.object := by
    refine Option.ext fun t => ?_
    rw [lockTypeNow_eq_some_iff (nodup_record nd other), lockTypeNow_eq_some_iff nd]
    refine exists_congr fun it => ?_
    constructor
    · intro h
      exact ⟨(mem_record_ne_iff (h.2.1 ▸ hne)).mp h.1, h.2⟩
    · intro h
      exact ⟨(mem_record_ne_iff (h.2.1 ▸ hne)).mpr h.1, h.2⟩
  unfold joined
  rw [hnow]

/-- After a request, the locks recorded on the objects it names have the joined
modes. -/
theorem lockType_of_mem_foldl_record {news locks : List Lock}
    (nd : (locks.map Lock.object).Nodup)
    (distinct : news.Pairwise fun a b => a.object ≠ b.object) {new it : Lock} (hnew : new ∈ news)
    (hit : it ∈ news.foldl record locks) (hobject : it.object = new.object) :
    it.lockType = joined locks new := by
  induction news generalizing locks with
  | nil => cases hnew
  | cons n news ih =>
      obtain ⟨hdistinct, distinct⟩ := List.pairwise_cons.mp distinct
      rcases List.mem_cons.mp hnew with rfl | hmem
      · have hrecord : it ∈ record locks new :=
          mem_of_mem_foldl_record hit fun m hm => hobject ▸ hdistinct m hm
        exact lockType_of_mem_record nd hrecord hobject
      · rw [ih (nodup_record nd n) distinct hmem hit]
        exact joined_record_ne nd (Ne.symm (hdistinct new hmem))

/-- Recording locks that are there already, strong enough, changes nothing. -/
theorem foldl_record_eq_self {news locks : List Lock}
    (held : ∀ new ∈ news, (∃ it ∈ locks, it.object = new.object) ∧
      ∀ it ∈ locks, it.object = new.object → upgrade it.lockType new.lockType = it.lockType) :
    news.foldl record locks = locks := by
  induction news with
  | nil => rfl
  | cons new news ih =>
      obtain ⟨⟨it, hit, hobject⟩, hupgrade⟩ := held new List.mem_cons_self
      have hrecord : record locks new = locks := by
        unfold record
        rw [if_pos (List.any_eq_true.mpr ⟨it, hit, decide_eq_true hobject⟩)]
        refine (List.map_congr_left fun old hold => ?_).trans (List.map_id locks)
        split
        · rename_i hsame
          rw [hupgrade old hold hsame]
          rfl
        · rfl
      rw [List.foldl_cons, hrecord]
      exact ih fun n hn => held n (List.mem_cons_of_mem _ hn)

end LockManager

/-! ## Calls -/

namespace LockCall

def xid : LockCall → Nat
  | .lockTable xid _ _ => xid
  | .lockRow xid _ _ _ => xid
  | .releaseLocks xid => xid

/-- The locks a call records. -/
def requested : LockCall → List Lock
  | .lockTable _ lockType oid => (Lock.ofTable oid lockType).withIntention
  | .lockRow _ lockType oid rid => (Lock.ofRow oid rid lockType).withIntention
  | .releaseLocks _ => []

theorem requested_distinct (call : LockCall) :
    call.requested.Pairwise fun a b => a.object ≠ b.object := by
  cases call with
  | lockTable xid lockType oid => exact (Lock.ofTable oid lockType).withIntention_distinct
  | lockRow xid lockType oid rid => exact (Lock.ofRow oid rid lockType).withIntention_distinct
  | releaseLocks xid => exact .nil

/-- The transaction has a lock on every requested object already, of a mode that
`Upgrade` leaves as it is. -/
def Held (m : LockManager) (call : LockCall) : Prop :=
  ∀ new ∈ call.requested, (∃ it ∈ m.locks call.xid, it.object = new.object) ∧
    ∀ it ∈ m.locks call.xid, it.object = new.object →
      LockManager.upgrade it.lockType new.lockType = it.lockType

/-- Every lock that other transactions have recorded on a requested object is
compatible with the mode the request leaves there. -/
def Clear (m : LockManager) (call : LockCall) : Prop :=
  ∀ new ∈ call.requested, ∀ xid', xid' ≠ call.xid → ∀ it ∈ m.locks xid',
    it.object = new.object →
      LockManager.compatible it.lockType (LockManager.joined (m.locks call.xid) new) = true

end LockCall

namespace LockManager

/-- One call: what it returns, and the lock table after it. -/
def call (m : LockManager) : LockCall → Bool × LockManager
  | .lockTable xid lockType oid => m.lockTable xid lockType oid
  | .lockRow xid lockType oid rid => m.lockRow xid lockType oid rid
  | .releaseLocks xid => (true, m.releaseLocks xid)

theorem call_locks_ne (m : LockManager) (c : LockCall) {xid' : Nat} (hne : xid' ≠ c.xid) :
    (m.call c).2.locks xid' = m.locks xid' := by
  cases c with
  | lockTable xid lockType oid => exact m.request_locks_ne xid _ hne
  | lockRow xid lockType oid rid => exact m.request_locks_ne xid _ hne
  | releaseLocks xid => exact m.releaseLocks_locks_ne xid hne

theorem call_locks_self (m : LockManager) (c : LockCall) :
    (m.call c).2.locks c.xid = c.requested.foldl record (m.locks c.xid) ∨
      (m.call c).2.locks c.xid = [] ∧ c.requested = [] := by
  cases c with
  | lockTable xid lockType oid => exact .inl (m.request_locks_self xid _)
  | lockRow xid lockType oid rid => exact .inl (m.request_locks_self xid _)
  | releaseLocks xid =>
      refine .inr ⟨?_, rfl⟩
      simp [call, releaseLocks, locks, LockCall.xid]

theorem Distinct.call {m : LockManager} (distinct : m.Distinct) (c : LockCall) :
    (m.call c).2.Distinct := by
  intro xid'
  by_cases hxid : xid' = c.xid
  · subst hxid
    rcases m.call_locks_self c with hself | ⟨hself, -⟩
    · rw [hself]
      exact nodup_foldl_record (distinct c.xid)
    · rw [hself]
      exact .nil
  · rw [m.call_locks_ne c hxid]
    exact distinct xid'

/-- A refused request changes nothing exactly where it had nothing to record. -/
theorem call_eq_self_iff {m : LockManager} (distinct : m.Distinct) {c : LockCall}
    (refused : (m.call c).1 = false) : (m.call c).2 = m ↔ c.Held m := by
  have hcall : (m.call c).2 =
      { lockMap := m.lockMap.insert c.xid (c.requested.foldl record (m.locks c.xid)) } := by
    cases c with
    | lockTable xid lockType oid => rfl
    | lockRow xid lockType oid rid => rfl
    | releaseLocks xid => cases refused
  have hne : c.requested ≠ [] := by
    cases c with
    | lockTable xid lockType oid => exact List.cons_ne_nil _ _
    | lockRow xid lockType oid rid => exact List.cons_ne_nil _ _
    | releaseLocks xid => cases refused
  have hiff : (m.call c).2 = m ↔
      m.lockMap.find? c.xid = some (c.requested.foldl record (m.locks c.xid)) := by
    rw [hcall, ← Assoc.insert_eq_self_iff]
    constructor
    · exact fun h => congrArg LockManager.lockMap h
    · intro h
      rw [h]
  rw [hiff]
  constructor
  · intro hfind new hnew
    have hlocks : m.locks c.xid = c.requested.foldl record (m.locks c.xid) := by
      conv_lhs => rw [locks, hfind, Option.getD_some]
    obtain ⟨it, hit, hobject⟩ := exists_mem_foldl_record_self (m.locks c.xid) hnew
    rw [← hlocks] at hit
    refine ⟨⟨it, hit, hobject⟩, fun old hold hsame => ?_⟩
    -- the lock recorded afterwards is the old one
    have htype := lockType_of_mem_foldl_record (distinct c.xid) c.requested_distinct hnew
      (hlocks ▸ hold) hsame
    have hnow := (lockTypeNow_eq_some_iff (distinct c.xid)).mpr ⟨old, hold, hsame, rfl⟩
    rw [joined, hnow] at htype
    exact htype.symm
  · intro held
    rw [foldl_record_eq_self held]
    obtain ⟨new, hnew⟩ := List.exists_mem_of_ne_nil _ hne
    obtain ⟨⟨it, hit, -⟩, -⟩ := held new hnew
    unfold locks at hit ⊢
    cases hfind : m.lockMap.find? c.xid with
    | none =>
        rw [hfind] at hit
        cases hit
    | some ls => rfl

/-- Every two locks recorded for different transactions on one object are
compatible. -/
def AllCompatible (m : LockManager) : Prop :=
  ∀ xid xid' it it', xid ≠ xid' → it ∈ m.locks xid → it' ∈ m.locks xid' →
    it.object = it'.object → compatible it.lockType it'.lockType = true

/-- From a compatible lock table, a call leads to a compatible one exactly when it
meets no incompatible lock. -/
theorem AllCompatible.call_iff {m : LockManager} (ok : m.AllCompatible) (distinct : m.Distinct)
    (c : LockCall) : (m.call c).2.AllCompatible ↔ c.Clear m := by
  constructor
  · intro after new hnew xid' hne it' hit' hobject
    rcases m.call_locks_self c with hself | ⟨-, hnil⟩
    · obtain ⟨it, hit, hsame⟩ := exists_mem_foldl_record_self (m.locks c.xid) hnew
      rw [← lockType_of_mem_foldl_record (distinct c.xid) c.requested_distinct hnew hit hsame]
      refine after xid' c.xid it' it hne ?_ (hself ▸ hit) (hobject.trans hsame.symm)
      rwa [m.call_locks_ne c hne]
    · rw [hnil] at hnew
      cases hnew
  · intro clear
    -- a lock of another transaction and one that the calling transaction has afterwards
    have own : ∀ xid' it it', xid' ≠ c.xid → it ∈ m.locks xid' →
        it' ∈ (m.call c).2.locks c.xid → it.object = it'.object →
        compatible it.lockType it'.lockType = true := by
      intro xid' it it' hne hit hit' hobject
      rcases m.call_locks_self c with hself | ⟨hself, -⟩
      · rw [hself] at hit'
        by_cases hnamed : ∃ new ∈ c.requested, it'.object = new.object
        · obtain ⟨new, hnew, hsame⟩ := hnamed
          rw [lockType_of_mem_foldl_record (distinct c.xid) c.requested_distinct hnew hit' hsame]
          exact clear new hnew xid' hne it hit (hobject.trans hsame)
        · have hold := mem_of_mem_foldl_record hit' fun new hnew h => hnamed ⟨new, hnew, h⟩
          exact ok xid' c.xid it it' hne hit hold hobject
      · rw [hself] at hit'
        cases hit'
    intro xid xid' it it' hne hit hit' hobject
    by_cases hxid : xid = c.xid
    · subst hxid
      rw [m.call_locks_ne c (Ne.symm hne)] at hit'
      exact compatible_symm _ _ (own xid' it' it (Ne.symm hne) hit' hit hobject.symm)
    · rw [m.call_locks_ne c hxid] at hit
      by_cases hxid' : xid' = c.xid
      · subst hxid'
        exact own xid it it' hxid hit hit' hobject
      · rw [m.call_locks_ne c hxid'] at hit'
        exact ok xid xid' it it' hne hit hit' hobject

end LockManager

namespace LockRun

theorem step_manager (run : LockRun) (c : LockCall) :
    (run.step c).manager = (run.manager.call c).2 := by
  cases c <;> rfl

theorem Reaches.distinct {allowed : LockManager → LockCall → Prop} {run : LockRun}
    (reach : Reaches allowed run) : run.manager.Distinct := by
  induction reach with
  | init => exact fun _ => .nil
  | @step run reach call hallowed ih =>
      rw [step_manager]
      exact ih.call call

theorem Reaches.allCompatible {run : LockRun}
    (reach : Reaches (fun m call => call.Clear m) run) : run.manager.AllCompatible := by
  induction reach with
  | init => exact fun _ _ _ _ _ hit => nomatch hit
  | @step run reach call clear ih =>
      rw [step_manager]
      exact (ih.call_iff reach.distinct call).mpr clear

/-- A refused request leaves `lock_map` as it was exactly where the transaction
already had every requested lock; and recorded locks of different transactions
are compatible in every state as long as no request meets an incompatible lock,
the first one that does ending it. -/
theorem refused_eq_iff_and_allCompatible (run : LockRun) (c : LockCall) :
    (Reaches (fun _ _ => True) run → (run.manager.call c).1 = false →
      ((run.manager.call c).2 = run.manager ↔ c.Held run.manager)) ∧
    (Reaches (fun m call => call.Clear m) run → run.manager.AllCompatible ∧
      ((run.step c).manager.AllCompatible ↔ c.Clear run.manager)) := by
  refine ⟨fun reach refused => ?_, fun reach => ⟨reach.allCompatible, ?_⟩⟩
  · exact LockManager.call_eq_self_iff reach.distinct refused
  · rw [step_manager]
    exact reach.allCompatible.call_iff reach.distinct c

/-- A refused request made once more: it is refused again and has nothing left to
record. -/
theorem refused_eq_sharedTwice :
    let run := (({} : LockRun).step (.lockTable 1 .x 7)).step (.lockTable 2 .s 7)
    (run.manager.call (.lockTable 2 .s 7)).2 = run.manager := by
  have reach : Reaches (fun _ _ => True)
      ((({} : LockRun).step (.lockTable 1 .x 7)).step (.lockTable 2 .s 7)) :=
    .step (.step .init trivial) trivial
  refine ((refused_eq_iff_and_allCompatible _ (.lockTable 2 .s 7)).1 reach (by decide)).mpr ?_
  intro new hnew
  cases List.mem_singleton.mp hnew
  decide

/-- A table lock `S` refused because of another transaction's `X` stays recorded. -/
theorem not_refused_eq_sharedAfterExclusive :
    ¬ ∀ run c, Reaches (fun _ _ => True) run → (run.manager.call c).1 = false →
      (run.manager.call c).2 = run.manager := by
  intro h
  have reach : Reaches (fun _ _ => True) (({} : LockRun).step (.lockTable 1 .x 7)) :=
    .step .init trivial
  exact absurd (h _ (.lockTable 2 .s 7) reach (by decide)) (by decide)

end LockRun

end HuaDB
