import HuaDB.LockRefusal
import Mathlib.Data.List.Induction
import Mathlib.Order.Bounds.Basic

/-!
Which mode is recorded for a lock.

As long as `SIX` is not asked for, `Upgrade` computes the least upper bound of the
recorded and the requested mode (`LockManager.upgrade_le_iff`). One transaction
has then exactly one lock recorded on each object it has asked for since its last
release, of the least mode that covers all those requests (`LockManager.Joins`),
and a row request counts on the table with its intention mode.
-/

namespace HuaDB

namespace LockManager

/-! ## Upgrades as least upper bounds -/

/-- Except for `S` upgraded by `SIX`, the result is the weakest mode that covers
both. -/
theorem upgrade_le_iff {a b c : LockType} (h : b ≠ .six) : upgrade a b ≤ c ↔ a ≤ c ∧ b ≤ c := by
  revert h
  cases a <;> cases b <;> cases c <;> decide

theorem isLUB_upgrade {modes : List LockType} {a b : LockType} (lub : IsLUB {t | t ∈ modes} a)
    (h : b ≠ .six) : IsLUB {t | t ∈ modes ++ [b]} (upgrade a b) := by
  refine isLUB_iff_le_iff.mpr fun c => ?_
  rw [upgrade_le_iff h, isLUB_iff_le_iff.mp lub c]
  simp only [mem_upperBounds, Set.mem_ofPred_eq, List.mem_append, List.mem_singleton]
  constructor
  · intro hc t ht
    rcases ht with ht | rfl
    · exact hc.1 t ht
    · exact hc.2
  · intro hc
    exact ⟨fun t ht => hc t (.inl ht), hc b (.inr rfl)⟩

/-! ## One request -/

/-- The modes asked for on an object. -/
def modesOn (news : List Lock) (object : LockObject) : List LockType :=
  (news.filter fun it => it.object = object).map Lock.lockType

theorem modesOn_cons (new : Lock) (news : List Lock) (object : LockObject) :
    modesOn (new :: news) object = modesOn [new] object ++ modesOn news object := by
  unfold modesOn
  rw [← List.map_append, ← List.filter_append]
  rfl

theorem modesOn_self (new : Lock) : modesOn [new] new.object = [new.lockType] := by
  simp [modesOn]

theorem modesOn_ne {new : Lock} {object : LockObject} (h : new.object ≠ object) :
    modesOn [new] object = [] := by
  simp [modesOn, h]

theorem mem_modesOn {news : List Lock} {object : LockObject} {t : LockType} :
    t ∈ modesOn news object ↔ ∃ it ∈ news, it.object = object ∧ it.lockType = t := by
  simp [modesOn, and_assoc]

/-- The locks recorded for one transaction that has asked for the modes `asked`. -/
structure Joins (locks : List Lock) (asked : LockObject → List LockType) : Prop where
  nodup : (locks.map Lock.object).Nodup
  held : ∀ object, (∃ it ∈ locks, it.object = object) ↔ asked object ≠ []
  mode : ∀ it ∈ locks, IsLUB {t | t ∈ asked it.object} it.lockType

namespace Joins

variable {locks : List Lock} {asked : LockObject → List LockType}

theorem nil : Joins [] fun _ => [] where
  nodup := .nil
  held object := by simp
  mode it hit := nomatch hit

/-- Recording one lock. -/
theorem record (joins : Joins locks asked) {new : Lock} (h : new.lockType ≠ .six) :
    Joins (record locks new) fun object => asked object ++ modesOn [new] object := by
  refine ⟨nodup_record joins.nodup new, fun object => ?_, fun it hit => ?_⟩
  · by_cases hobject : new.object = object
    · subst hobject
      simp [modesOn_self, exists_mem_record_self]
    · rw [modesOn_ne hobject, List.append_nil, ← joins.held object]
      refine exists_congr fun it => and_congr_left fun hsame => ?_
      exact mem_record_ne_iff (hsame ▸ Ne.symm hobject)
  · rcases mem_record hit with ⟨hne, hold⟩ | ⟨hobject, old, hold, hsame, htype⟩ | ⟨rfl, hnone⟩
    · rw [modesOn_ne (Ne.symm hne), List.append_nil]
      exact joins.mode it hold
    · have lub := joins.mode old hold
      rw [hobject, modesOn_self, htype]
      rw [hsame] at lub
      exact isLUB_upgrade lub h
    · -- the first lock on the object
      have hasked : asked it.object = [] := by
        by_contra hne
        obtain ⟨old, hold, hsame⟩ := (joins.held it.object).mpr hne
        exact hnone old hold hsame
      rw [hasked, modesOn_self, List.nil_append]
      simp only [List.mem_singleton]
      exact isLUB_singleton

theorem foldl_record (joins : Joins locks asked) {news : List Lock}
    (h : ∀ new ∈ news, new.lockType ≠ .six) :
    Joins (news.foldl LockManager.record locks) fun object =>
      asked object ++ modesOn news object := by
  induction news generalizing locks asked with
  | nil =>
      have hasked : (fun object => asked object ++ modesOn [] object) = asked :=
        funext fun object => List.append_nil _
      rw [hasked]
      exact joins
  | cons new news ih =>
      have hrest := ih (joins.record (h new List.mem_cons_self)) fun n hn =>
        h n (List.mem_cons_of_mem _ hn)
      have hasked : (fun object => asked object ++ modesOn (new :: news) object) =
          fun object => asked object ++ modesOn [new] object ++ modesOn news object :=
        funext fun object => by rw [modesOn_cons, List.append_assoc]
      rw [hasked]
      exact hrest

section Same

variable {locks' : List Lock} {asked' : LockObject → List LockType} {object : LockObject}

/-- Where the same modes were asked for, the same mode is recorded. -/
theorem exists_mem (joins : Joins locks asked) (joins' : Joins locks' asked')
    (same : ∀ t, t ∈ asked object ↔ t ∈ asked' object) {it : Lock} (hit : it ∈ locks)
    (hobject : it.object = object) :
    ∃ it' ∈ locks', it'.object = object ∧ it'.lockType = it.lockType := by
  have hset : {t | t ∈ asked object} = {t | t ∈ asked' object} := Set.ext same
  have hasked : asked' object ≠ [] := by
    obtain ⟨t, ht⟩ := List.exists_mem_of_ne_nil _ ((joins.held object).mp ⟨it, hit, hobject⟩)
    exact List.ne_nil_of_mem ((same t).mp ht)
  obtain ⟨it', hit', hobject'⟩ := (joins'.held object).mpr hasked
  have lub := joins.mode it hit
  have lub' := joins'.mode it' hit'
  rw [hobject, hset] at lub
  rw [hobject'] at lub'
  exact ⟨it', hit', hobject', lub'.unique lub⟩

/-- The recorded mode depends only on which modes were asked for. -/
theorem lockTypeNow_eq (joins : Joins locks asked) (joins' : Joins locks' asked')
    (same : ∀ t, t ∈ asked object ↔ t ∈ asked' object) :
    lockTypeNow locks object = lockTypeNow locks' object := by
  refine Option.ext fun t => ?_
  rw [lockTypeNow_eq_some_iff joins.nodup, lockTypeNow_eq_some_iff joins'.nodup]
  constructor
  · intro h
    obtain ⟨it, hit, hobject, rfl⟩ := h
    exact joins.exists_mem joins' same hit hobject
  · intro h
    obtain ⟨it, hit, hobject, rfl⟩ := h
    exact joins'.exists_mem joins (fun t => (same t).symm) hit hobject

end Same

end Joins

end LockManager

/-! ## Runs -/

namespace LockCall

/-- The modes of the requests: `IS`, `IX`, `S` or `X` on a table, `S` or `X` on a
row. -/
def Plain : LockCall → Prop
  | .lockTable _ lockType _ => lockType ≠ .six
  | .lockRow _ lockType _ _ => lockType = .s ∨ lockType = .x
  | .releaseLocks _ => True

instance : DecidablePred Plain := fun c => by
  cases c <;> unfold Plain <;> infer_instance

theorem Plain.requested_ne {c : LockCall} (plain : c.Plain) :
    ∀ new ∈ c.requested, new.lockType ≠ .six := by
  intro new hnew
  cases c with
  | lockTable xid lockType oid =>
      cases List.mem_singleton.mp hnew
      exact plain
  | lockRow xid lockType oid rid =>
      rcases List.mem_cons.mp hnew with rfl | hnew
      · rcases plain with rfl | rfl <;> exact LockType.noConfusion
      · cases List.mem_singleton.mp hnew
        rcases plain with rfl | rfl <;> exact LockType.noConfusion
  | releaseLocks xid => cases hnew

/-- What a call adds to the modes that a transaction has asked for on an object:
a row request counts on the table with its intention mode, and a release starts
over. -/
def ask (xid : Nat) (object : LockObject) (asked : List LockType) (c : LockCall) :
    List LockType :=
  if c.xid = xid then
    match c with
    | .releaseLocks _ => []
    | c => asked ++ LockManager.modesOn c.requested object
  else
    asked

end LockCall

namespace LockManager

/-- The lock table after the calls. -/
def run (calls : List LockCall) : LockManager := calls.foldl (fun m c => (m.call c).2) {}

/-- The modes a transaction has asked for on an object since its last release. -/
def asked (xid : Nat) (calls : List LockCall) (object : LockObject) : List LockType :=
  calls.foldl (LockCall.ask xid object) []

theorem run_snoc (calls : List LockCall) (c : LockCall) :
    run (calls ++ [c]) = ((run calls).call c).2 :=
  List.foldl_concat _ _ _ _

theorem asked_snoc (xid : Nat) (calls : List LockCall) (c : LockCall) (object : LockObject) :
    asked xid (calls ++ [c]) object = LockCall.ask xid object (asked xid calls object) c :=
  List.foldl_concat _ _ _ _

/-- In every run, what is recorded joins what was asked for. -/
theorem run_joins {calls : List LockCall} (plain : ∀ c ∈ calls, c.Plain) (xid : Nat) :
    Joins ((run calls).locks xid) (asked xid calls) := by
  induction calls using List.reverseRecOn with
  | nil => exact .nil
  | append_singleton calls c ih =>
      have joins := ih fun c' hc' => plain c' (List.mem_append_left _ hc')
      have hplain := plain c (by simp)
      have hasked : asked xid (calls ++ [c]) =
          fun object => LockCall.ask xid object (asked xid calls object) c :=
        funext (asked_snoc xid calls c)
      rw [run_snoc, hasked]
      unfold LockCall.ask
      by_cases hxid : c.xid = xid
      · subst hxid
        simp only [if_true]
        have hself := (run calls).call_locks_self c
        cases c with
        | lockTable xid lockType oid =>
            rw [hself.resolve_right fun h => nomatch h.2]
            exact joins.foldl_record hplain.requested_ne
        | lockRow xid lockType oid rid =>
            rw [hself.resolve_right fun h => nomatch h.2]
            exact joins.foldl_record hplain.requested_ne
        | releaseLocks xid =>
            have hnil : ((run calls).releaseLocks xid).locks xid = [] := by
              simp [releaseLocks, locks]
            exact hnil ▸ Joins.nil
      · simp only [if_neg hxid]
        rw [(run calls).call_locks_ne c (Ne.symm hxid)]
        exact joins

/-- A transaction that asked for a row asked for the intention lock on its table. -/
theorem asked_row {calls : List LockCall} (plain : ∀ c ∈ calls, c.Plain) {xid oid : Nat} {rid : Rid}
    {t : LockType} (ht : t ∈ asked xid calls (.row oid rid)) :
    (t = .s ∨ t = .x) ∧ intention t ∈ asked xid calls (.table oid) := by
  induction calls using List.reverseRecOn with
  | nil => cases ht
  | append_singleton calls c ih =>
      have ih := ih fun c' hc' => plain c' (List.mem_append_left _ hc')
      have hplain := plain c (by simp)
      rw [asked_snoc] at ht ⊢
      unfold LockCall.ask at ht ⊢
      by_cases hxid : c.xid = xid
      · rw [if_pos hxid] at ht ⊢
        cases c with
        | lockTable xid lockType oid' =>
            have hrow : modesOn (LockCall.lockTable xid lockType oid').requested (.row oid rid) = [] :=
              modesOn_ne LockObject.noConfusion
            simp only [hrow, List.append_nil] at ht
            exact ⟨(ih ht).1, List.mem_append_left _ (ih ht).2⟩
        | lockRow xid lockType oid' rid' =>
            rcases List.mem_append.mp ht with hold | hnew
            · exact ⟨(ih hold).1, List.mem_append_left _ (ih hold).2⟩
            · obtain ⟨it, hit, hobject, rfl⟩ := mem_modesOn.mp hnew
              rcases List.mem_cons.mp hit with rfl | hit
              · cases hobject
                refine ⟨hplain, List.mem_append_right _ (mem_modesOn.mpr ?_)⟩
                have hrequested : Lock.ofTable oid' (intention lockType) ∈
                    (LockCall.lockRow xid lockType oid' rid').requested :=
                  List.mem_cons_of_mem _ List.mem_cons_self
                exact ⟨_, hrequested, rfl, rfl⟩
              · cases List.mem_singleton.mp hit
                cases hobject
        | releaseLocks xid => cases ht
      · rw [if_neg hxid] at ht ⊢
        exact ih ht

/-- The intention mode of a join of row modes. -/
theorem intention_le {modes : List LockType} {t c : LockType} (lub : IsLUB {t | t ∈ modes} t)
    (hne : modes ≠ []) (h : ∀ m ∈ modes, (m = .s ∨ m = .x) ∧ intention m ≤ c) :
    intention t ≤ c := by
  -- one of the modes is the least upper bound, the other one being weaker
  have hmem : t ∈ modes := by
    by_cases hx : .x ∈ modes
    · have hle : .x ≤ t := lub.1 hx
      have ht : t = .x := by
        revert hle
        cases t <;> decide
      exact ht ▸ hx
    · have hs : ∀ m ∈ modes, m = .s := fun m hm =>
        (h m hm).1.resolve_right fun heq => hx (heq ▸ hm)
      obtain ⟨m, hm⟩ := List.exists_mem_of_ne_nil _ hne
      cases hs m hm
      have ht : t = .s := le_antisymm (lub.2 fun m' hm' => le_of_eq (hs m' hm')) (lub.1 hm)
      exact ht ▸ hm
  exact (h t hmem).2

/-- In every run of requests for `IS`, `IX`, `S` and `X` on tables and `S` and `X`
on rows, a transaction has one lock recorded on each object that it has asked for
since its last release; the recorded mode is the least upper bound of the modes
it asked for, whatever their order, and a row lock is covered by the intention
lock on the table. -/
theorem recorded_isLUB {calls : List LockCall} (plain : ∀ c ∈ calls, c.Plain) (xid : Nat) :
    (((run calls).locks xid).map Lock.object).Nodup ∧
    (∀ object, (∃ it ∈ (run calls).locks xid, it.object = object) ↔ asked xid calls object ≠ []) ∧
    (∀ it ∈ (run calls).locks xid, IsLUB {t | t ∈ asked xid calls it.object} it.lockType) ∧
    (∀ calls', (∀ c ∈ calls', c.Plain) → ∀ object,
      (∀ t, t ∈ asked xid calls object ↔ t ∈ asked xid calls' object) →
      lockTypeNow ((run calls).locks xid) object = lockTypeNow ((run calls').locks xid) object) ∧
    ∀ it ∈ (run calls).locks xid, ∀ oid rid, it.object = .row oid rid →
      ∃ cover ∈ (run calls).locks xid, cover.object = .table oid ∧
        intention it.lockType ≤ cover.lockType := by
  have joins := run_joins plain xid
  refine ⟨joins.nodup, joins.held, joins.mode, ?_, ?_⟩
  · intro calls' plain' object same
    exact joins.lockTypeNow_eq (run_joins plain' xid) same
  · intro it hit oid rid hobject
    have lub := joins.mode it hit
    have hrow := (joins.held _).mp ⟨it, hit, hobject⟩
    rw [hobject] at lub
    obtain ⟨t, ht⟩ := List.exists_mem_of_ne_nil _ hrow
    have htable := List.ne_nil_of_mem (asked_row plain ht).2
    obtain ⟨cover, hcover, hsame⟩ := (joins.held (.table oid)).mpr htable
    have upper := (joins.mode cover hcover).1
    rw [hsame] at upper
    refine ⟨cover, hcover, hsame, intention_le lub hrow fun m hm => ?_⟩
    have hasked := asked_row plain hm
    exact ⟨hasked.1, upper hasked.2⟩

/-- A row read and written under a table lock `S`: the table is locked in mode
`SIX`, the row in mode `X`. -/
theorem recorded_isLUB_sharedThenWritten :
    let calls : List LockCall :=
      [.lockTable 1 .s 7, .lockRow 1 .s 7 ⟨0, 0⟩, .lockRow 2 .s 7 ⟨0, 1⟩, .lockRow 1 .x 7 ⟨0, 0⟩]
    IsLUB {t | t ∈ asked 1 calls (.table 7)} .six ∧
      IsLUB {t | t ∈ asked 1 calls (.row 7 ⟨0, 0⟩)} .x := by
  have h := @recorded_isLUB [.lockTable 1 .s 7, .lockRow 1 .s 7 ⟨0, 0⟩, .lockRow 2 .s 7 ⟨0, 1⟩,
    .lockRow 1 .x 7 ⟨0, 0⟩] (by decide) 1
  exact ⟨h.2.2.1 (.ofTable 7 .six) (by decide), h.2.2.1 (.ofRow 7 ⟨0, 0⟩ .x) (by decide)⟩

end LockManager

end HuaDB
