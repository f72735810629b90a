import HuaDB.Sql.Executors
import HuaDB.Sql.Sound

/-!
What the executors do that read.

Reading changes locks and events only, by steps of any policy (`Reads`). A scan of a
table goes through the versions that the statement sees (`seqScanNext_ends`), and
every plan hands on its items in their order (`next_ends`).
-/

namespace HuaDB

namespace Sql

open EStateM

variable {σ σ' σ'' : Database}

/-- What reading does. -/
structure Reads (σ σ' : Database) : Prop where
  frame : σ' = { σ with locks := σ'.locks, events := σ'.events }
  steps : ∀ P : Mvcc.Policy Nat Rid Row, Mvcc.Steps P σ.mvcc σ'.mvcc
  clean : .undoneNewPage ∈ σ'.events → .undoneNewPage ∈ σ.events

namespace Reads

theorem refl (σ : Database) : Reads σ σ where
  frame := rfl
  steps _ := .refl
  clean := id

theorem trans (h : Reads σ σ') (h' : Reads σ' σ'') : Reads σ σ'' where
  frame := by rw [h'.frame, h.frame]
  steps P := (h.steps P).trans (h'.steps P)
  clean := h.clean ∘ h'.clean

theorem heap (h : Reads σ σ') (oid : Nat) : σ'.heap oid = σ.heap oid := by
  rw [h.frame]
  rfl

theorem txn (h : Reads σ σ') : σ'.txn = σ.txn := by rw [h.frame]

theorem att (h : Reads σ σ') : σ'.att = σ.att := by rw [h.frame]

theorem active (h : Reads σ σ') : σ'.mvcc.active = σ.mvcc.active := by
  simp only [Database.mvcc, h.txn]

theorem sound (h : Reads σ σ') (sound : Sound σ) : Sound σ' := by
  rw [h.frame]
  exact ⟨sound.pages.congr rfl rfl, sound.txn.congr rfl (fun _ => Iff.rfl) rfl,
    fun x chain hchain body hbody => (sound.logged x chain hchain body hbody).mono fun _ => id⟩

end Reads

/-! ## Locks -/

/-- More locks. -/
theorem reads_locks {locks : HuaDB.LockManager}
    (h : ∀ y object, (∃ lock ∈ σ.locks.locks y, lock.object = object) →
      ∃ lock ∈ locks.locks y, lock.object = object) : Reads σ { σ with locks := locks } where
  frame := rfl
  steps P := by
    have hlock : Mvcc.Step P σ.mvcc { σ.mvcc with
        locked := fun x oid rid => ∃ lock ∈ locks.locks x, lock.object = .row oid rid } :=
      .lock fun x oid rid => h x (.row oid rid)
    exact .single hlock
  clean := id

theorem lockTable_ends (x : Nat) (lockType : LockType) (oid : Nat) (message : String) :
    Ends σ (orThrow (LockManager.lockTable x lockType oid) message)
      (fun _ σ' => Reads σ σ' ∧ σ'.events = σ.events)
      fun e σ' => Reads σ σ' ∧ e = .thrown (.dbException message) := by
  have reads : Reads σ { σ with locks := (σ.locks.lockTable x lockType oid).2 } :=
    reads_locks fun _ _ => locked_request
  have hrun : LockManager.lockTable x lockType oid σ = .ok (σ.locks.lockTable x lockType oid).1
      { σ with locks := (σ.locks.lockTable x lockType oid).2 } := rfl
  apply Ends.bind_of_ok hrun
  split
  · exact .pure ⟨reads, rfl⟩
  · exact .throw ⟨reads, rfl⟩

theorem lockRow_ends (x : Nat) (lockType : LockType) (oid : Nat) (rid : Rid) (message : String) :
    Ends σ (orThrow (LockManager.lockRow x lockType oid rid) message)
      (fun _ σ' => Reads σ σ' ∧ σ'.events = σ.events ∧
        (lockType = .x → σ'.mvcc.locked x oid rid ∧ ∀ y, y ≠ x → ¬ σ'.mvcc.locked y oid rid))
      fun e σ' => Reads σ σ' ∧ e = .thrown (.dbException message) := by
  have reads : Reads σ { σ with locks := (σ.locks.lockRow x lockType oid rid).2 } :=
    reads_locks fun _ _ => locked_request
  have hrun : LockManager.lockRow x lockType oid rid σ =
      .ok (σ.locks.lockRow x lockType oid rid).1
        { σ with locks := (σ.locks.lockRow x lockType oid rid).2 } := rfl
  apply Ends.bind_of_ok hrun
  split
  · refine .pure ⟨reads, rfl, ?_⟩
    rintro rfl
    exact alone_of_lockRow ‹_›
  · exact .throw ⟨reads, rfl⟩

/-! ## Scans of a table -/

section SeqScan

variable {context : ExecutorContext} {oid : Nat} {rid : Rid}

theorem activeXids_eq (sound : Sound σ) (active : context.xid ∈ σ.mvcc.active) :
    ∃ activeXids, ActiveXids σ context.xid context.isolationLevel activeXids ∧
      TransactionManager.activeXids context.xid context.isolationLevel σ = .ok activeXids σ := by
  rcases context with ⟨x, level, cid⟩
  cases level with
  | readCommitted | serializable => exact ⟨_, rfl, rfl⟩
  | repeatableRead =>
      rcases Option.isSome_iff_exists.mp ((sound.txn.snapshot x).mpr active) with ⟨set, hset⟩
      refine ⟨set, hset, ?_⟩
      have hsnapshot : σ.txn.getSnapshot x = .ok set := by
        simp only [HuaDB.TransactionManager.getSnapshot, hset]
      simp only [TransactionManager.activeXids, bind_apply, get_apply, hsnapshot, ofExcept,
        pure_apply]

/-- The version is visible to the statement. -/
def Visible (σ : Database) (context : ExecutorContext) (tuple : Tuple) : Prop :=
  σ.mvcc.Visible context.isolationLevel.mode context.xid context.cid (versionOf tuple)

/-- What is visible is read off the transaction manager. -/
theorem visible_congr (h : σ'.txn = σ.txn) : Visible σ' context = Visible σ context := by
  funext tuple
  simp only [Visible, Mvcc.State.Visible, Mvcc.State.Sees, Database.mvcc, h]

theorem Reads.visible (h : Reads σ σ') : Visible σ' context = Visible σ context :=
  visible_congr h.txn

/-- A read of a row that is seen. -/
theorem reads_read (active : context.xid ∈ σ.mvcc.active) {tuple : Tuple}
    (hmem : tuple ∈ σ.rows oid) (visible : Visible σ context tuple) :
    Reads σ { σ with
      events := .read context.xid oid tuple.rid tuple.record.header.xmin :: σ.events } where
  frame := rfl
  steps P := by
    have hversion : versionOf tuple ∈ σ.mvcc.versions oid := List.mem_map_of_mem hmem
    exact .single (.read active hversion visible)
  clean h := by
    rcases List.mem_cons.mp h with heq | hold
    · cases heq
    · exact hold

theorem seqScanNext_ends (sound : Sound σ) (active : context.xid ∈ σ.mvcc.active) (fuel : Nat)
    (place : (σ.heap oid).Place rid) :
    Ends σ (seqScanNext context fuel oid rid)
      (fun next σ' => Reads σ σ' ∧ (σ.heap oid).Place next.2 ∧
        Scans (Visible σ context) ((σ.heap oid).rest rid) ((σ.heap oid).rest next.2) next.1)
      fun e σ' => Reads σ σ' ∧ Stops fuel ((σ.heap oid).rest rid).length False e := by
  rcases activeXids_eq sound active with ⟨activeXids, hactive, hrun⟩
  have hvisible : (fun t : Tuple => canGet t.record.header context.xid context.cid
      context.isolationLevel activeXids = false) = Visible σ context := by
    funext t
    exact propext (canGet_eq_false_iff (sound.txn.lt_nullXid active) hactive
      (sound.txn.seen _ active) t)
  rw [seqScanNext]
  apply Ends.bind_of_ok hrun
  apply Ends.bind ((lockTable_ends context.xid .is oid _).mono (fun _ _ => id) _)
  · rintro _ σ₁ ⟨reads, -⟩
    have hheap := reads.heap oid
    have ends := getNextRecord_ends (reads.sound sound).pages (fun header =>
      canGet header context.xid context.cid context.isolationLevel activeXids) fuel
      (hheap ▸ place)
    rw [hheap, hvisible] at ends
    apply Ends.bind (ends.mono (fun _ _ => id) _)
    · rintro ⟨tuple?, rid'⟩ σ₂ ⟨rfl, place', scans⟩
      cases tuple? with
      | none => exact .pure ⟨reads, place', scans⟩
      | some tuple =>
          have hsuffix := (sound.pages.heap oid).rest_suffix place
          have hmem : tuple ∈ σ.rows oid ∧ Visible σ context tuple := by
            cases scans with
            | found skipped hsplit _ hfound =>
                refine ⟨hsuffix.mem ?_, hfound⟩
                rw [hsplit]
                exact List.mem_append_right _ List.mem_cons_self
          have hread := reads_read (σ := σ₂) (reads.active ▸ active) (rows_congr hheap ▸ hmem.1)
            (reads.visible ▸ hmem.2)
          exact .bind_of_ok rfl (.pure ⟨reads.trans hread, place', scans⟩)
    · rintro e _ ⟨rfl, rfl, hfuel⟩
      exact ⟨reads, hfuel⟩
  · rintro e σ' ⟨reads, rfl⟩
    exact ⟨reads, trivial⟩

end SeqScan

/-! ## Plans -/

/-- The scans of a plan stand at rows that are there. -/
def Placed (σ : Database) : (plan : Plan) → Plan.State plan → Prop
  | .values _, _ => True
  | .seqScan oid, rid => (σ.heap oid).Place rid
  | .filter _ child, s | .projection _ child, s | .lockRows _ _ child, s => Placed σ child s

theorem Placed.mono (h : ∀ oid rid, (σ.heap oid).Place rid → (σ'.heap oid).Place rid) {plan : Plan}
    {s : Plan.State plan} (placed : Placed σ plan s) : Placed σ' plan s := by
  induction plan with
  | values => trivial
  | seqScan oid => exact h oid s placed
  | filter _ _ ih | projection _ _ ih | lockRows _ _ _ ih => exact ih placed

theorem Reads.placed (h : Reads σ σ') {plan : Plan} {s : Plan.State plan}
    (placed : Placed σ plan s) : Placed σ' plan s :=
  placed.mono fun oid _ place => (h.heap oid).symm ▸ place

/-- An executor hands on a row, or throws. -/
abbrev Item := Except Exception Tuple

/-- What a filter makes of an item. -/
def accept (predicate : Expression Bool) : Item → List Item
  | .error e => [.error e]
  | .ok tuple => match predicate tuple.record.data with
    | .error e => [.error e]
    | .ok true => [.ok tuple]
    | .ok false => []

/-- What a projection makes of an item. -/
def project (exprs : Expression Row) : Item → Item
  | .error e => .error e
  | .ok tuple => (exprs tuple.record.data).map fun data => ⟨{ data := data }, tuple.rid⟩

open Classical in
/-- What the calls of `Next` come to, up to the first that throws, unless a lock is
refused. -/
noncomputable def ahead (σ : Database) (context : ExecutorContext) :
    (plan : Plan) → Plan.State plan → List Item
  | .values _, rows => List.map (Except.map fun data => { record := { data := data } }) rows
  | .seqScan oid, rid =>
      (((σ.heap oid).rest rid).filter fun t => Visible σ context t).map Except.ok
  | .filter predicate child, s => (ahead σ context child s).flatMap (accept predicate)
  | .projection exprs child, s => (ahead σ context child s).map (project exprs)
  | .lockRows _ _ child, s => ahead σ context child s

/-- How many rows a plan has yet to go through. -/
def rounds (σ : Database) : (plan : Plan) → Plan.State plan → Nat
  | .values _, rows => List.length rows
  | .seqScan oid, rid => ((σ.heap oid).rest rid).length
  | .filter _ child, s | .projection _ child, s | .lockRows _ _ child, s => rounds σ child s

section Frame

variable (h : Reads σ σ')
include h

theorem Reads.ahead (context : ExecutorContext) (plan : Plan) (s : Plan.State plan) :
    Sql.ahead σ' context plan s = Sql.ahead σ context plan s := by
  induction plan with
  | values => rfl
  | seqScan oid => rw [Sql.ahead, h.heap, h.visible, Sql.ahead]
  | filter predicate _ ih => exact congrArg (List.flatMap (accept predicate)) (ih s)
  | projection exprs _ ih => exact congrArg (List.map (project exprs)) (ih s)
  | lockRows _ _ _ ih => exact ih s

theorem Reads.rounds (plan : Plan) (s : Plan.State plan) :
    Sql.rounds σ' plan s = Sql.rounds σ plan s := by
  induction plan with
  | values => rfl
  | seqScan oid => rw [Sql.rounds, h.heap, Sql.rounds]
  | filter _ _ ih | projection _ _ ih | lockRows _ _ _ ih => exact ih s

end Frame

/-- What a call of `Next` returns that does not throw. -/
inductive Hands (items : List Item) (bound : Nat) (items' : List Item) (bound' : Nat) :
    Option Tuple → Prop
  | row {tuple : Tuple} (hitems : items = .ok tuple :: items') (hbound : bound' < bound) :
      Hands items bound items' bound' (some tuple)
  | past (hitems : items = []) : Hands items bound items' bound' none

/-- `Init` of a scan stands at the first row. -/
theorem scanInit_eq {oid : Nat} (h : (σ.tables.find? oid).isSome) :
    Plan.init (.seqScan oid) σ = .ok (⟨(σ.heap oid).first, 0⟩ : Rid) σ := by
  rcases Option.isSome_iff_exists.mp h with ⟨table, htable⟩
  rw [Plan.init, bind_of_ok (getTable_eq htable)]
  simp only [Database.heap, htable]
  rfl

/-- Where the scan of a plan starts. -/
def start (σ : Database) : (plan : Plan) → Plan.State plan
  | .values rows => rows
  | .seqScan oid => (⟨(σ.heap oid).first, 0⟩ : Rid)
  | .filter _ child | .projection _ child | .lockRows _ _ child => start σ child

theorem placed_start (sound : Sound σ) (plan : Plan) : Placed σ plan (start σ plan) := by
  induction plan with
  | values => trivial
  | seqScan oid => exact (sound.pages.heap oid).place_first
  | filter _ _ ih | projection _ _ ih | lockRows _ _ _ ih => exact ih

theorem init_ends (σ : Database) (plan : Plan) :
    Ends σ (Plan.init plan) (fun s σ' => s = start σ plan ∧ σ' = σ)
      fun e σ' => (∃ ex, e = .thrown ex) ∧ σ' = σ := by
  induction plan with
  | values rows => exact .pure ⟨rfl, rfl⟩
  | seqScan oid =>
      cases htable : σ.tables.find? oid with
      | none =>
          rcases getTable_error htable with ⟨message, herror⟩
          exact .bind_of_error herror ⟨⟨_, rfl⟩, rfl⟩
      | some table => exact .of_eq_ok (scanInit_eq (htable ▸ rfl)) ⟨rfl, rfl⟩
  | filter _ _ ih | projection _ _ ih | lockRows _ _ _ ih => exact ih

section Next

variable {context : ExecutorContext} (fuel : Nat)

/-- What a call of `Next` does. -/
def NextEnds (context : ExecutorContext) (fuel : Nat) (plan : Plan) (s : Plan.State plan)
    (σ : Database) (next : Sql (Option Tuple × Plan.State plan)) : Prop :=
  Ends σ next
    (fun r σ' => Reads σ σ' ∧ Placed σ plan r.2 ∧
      Hands (ahead σ context plan s) (rounds σ plan s) (ahead σ context plan r.2)
        (rounds σ plan r.2) r.1)
    fun e σ' => Reads σ σ' ∧ Stops fuel (rounds σ plan s) False e

theorem seqScan_next (oid : Nat) (rid : Rid) (sound : Sound σ) (active : context.xid ∈ σ.mvcc.active)
    (placed : (σ.heap oid).Place rid) :
    NextEnds context fuel (.seqScan oid) rid σ (seqScanNext context fuel oid rid) := by
  classical
  apply (seqScanNext_ends sound active fuel placed).mono
  · rintro ⟨tuple?, rid'⟩ σ' ⟨reads, place', scans⟩
    refine ⟨reads, place', ?_⟩
    simp only [ahead, rounds]
    cases scans with
    | found skipped hsplit hskipped hfound =>
        rw [hsplit]
        apply Hands.row
        · have hnone : skipped.filter (fun t => decide (Visible σ context t)) = [] :=
            List.filter_eq_nil_iff.mpr fun t ht h => hskipped t ht (of_decide_eq_true h)
          have hsome : decide (Visible σ context _) = true := decide_eq_true hfound
          rw [List.filter_append, hnone, List.filter_cons, if_pos hsome]
          rfl
        · rw [List.length_append, List.length_cons]
          exact Nat.lt_add_left _ (Nat.lt_succ_self _)
    | past hskipped hrest =>
        apply Hands.past
        have hnone : ((σ.heap oid).rest rid).filter (fun t => decide (Visible σ context t)) = [] :=
          List.filter_eq_nil_iff.mpr fun t ht h => hskipped t ht (of_decide_eq_true h)
        rw [hnone]
        rfl
  · exact fun e σ' h => h

/-- A filter goes through the rows of its child. -/
theorem filter_next {child : Plan} (predicate : Expression Bool)
    (hchild : ∀ σ s, Sound σ → context.xid ∈ σ.mvcc.active → Placed σ child s →
      NextEnds context fuel child s σ (Plan.next context fuel child s))
    (loopFuel : Nat) (s : Plan.State child) (sound : Sound σ)
    (active : context.xid ∈ σ.mvcc.active) (placed : Placed σ child s) :
    NextEnds context (min fuel loopFuel) (.filter predicate child) s σ
      (filterLoop predicate (Plan.next context fuel child) loopFuel s) := by
  induction loopFuel generalizing σ s with
  | zero => exact .throw ⟨.refl σ, Nat.le_trans (Nat.min_le_right _ _) (Nat.zero_le _)⟩
  | succ loopFuel ih =>
      apply Ends.bind ((hchild σ s sound active placed).mono (fun _ _ => id) _)
      · rintro ⟨tuple?, s'⟩ σ₁ ⟨reads, placed', hands⟩
        cases hands with
        | past hitems =>
            refine .pure ⟨reads, placed', .past ?_⟩
            simp only [ahead, hitems, List.flatMap_nil]
        | @row tuple hitems hbound =>
            have hahead : ahead σ context (.filter predicate child) s =
                accept predicate (.ok tuple) ++ ahead σ context (.filter predicate child) s' := by
              simp only [ahead, hitems, List.flatMap_cons]
            dsimp only
            cases hpredicate : predicate tuple.record.data with
            | error e => exact .bind_of_error rfl ⟨reads, trivial⟩
            | ok accepted =>
                apply Ends.bind_of_ok rfl
                rw [accept, hpredicate] at hahead
                cases accepted with
                | true => exact .pure ⟨reads, placed', .row hahead hbound⟩
                | false =>
                    rw [if_neg Bool.false_ne_true]
                    have hsame := reads.ahead context (.filter predicate child)
                    have hrounds := reads.rounds (.filter predicate child)
                    apply (ih s' (reads.sound sound) (reads.active ▸ active)
                      (reads.placed placed')).mono
                    · rintro ⟨tuple?, s''⟩ σ' ⟨reads', placed'', hands⟩
                      have placed₀ : Placed σ (.filter predicate child) s'' :=
                        placed''.mono fun o r place => reads.heap o ▸ place
                      refine ⟨reads.trans reads', placed₀, ?_⟩
                      cases hands with
                      | row hitems' hbound' =>
                          apply Hands.row
                          · exact hahead.trans ((hsame s').symm.trans
                              (hitems'.trans (congrArg _ (hsame s''))))
                          · have hlt := (hrounds s'').symm.trans_lt (hbound'.trans_eq (hrounds s'))
                            exact Nat.lt_trans hlt hbound
                      | past hitems' => exact .past (hahead.trans ((hsame s').symm.trans hitems'))
                    · rintro e σ' ⟨reads', stops⟩
                      refine ⟨reads.trans reads', ?_⟩
                      refine stops.mono (fun hfuel => ?_) id
                      have hle := hfuel.trans_eq (hrounds s')
                      simp only [rounds] at hle hbound ⊢
                      omega
      · rintro e σ' ⟨reads, stops⟩
        exact ⟨reads, stops.mono (Nat.le_trans (Nat.min_le_left _ _)) id⟩

/-- `Next` reads, and hands on the items of its plan one by one. -/
theorem next_ends (plan : Plan) (s : Plan.State plan) (sound : Sound σ)
    (active : context.xid ∈ σ.mvcc.active) (placed : Placed σ plan s) :
    NextEnds context fuel plan s σ (Plan.next context fuel plan s) := by
  induction plan generalizing σ with
  | values rows =>
      cases s with
      | nil => exact .pure ⟨.refl σ, trivial, .past rfl⟩
      | cons row rest =>
          rw [Plan.next]
          cases row with
          | error e => exact .bind_of_error rfl ⟨.refl σ, trivial⟩
          | ok data =>
              exact .bind_of_ok rfl (.pure ⟨.refl σ, trivial, .row rfl (Nat.lt_succ_self _)⟩)
  | seqScan oid => exact seqScan_next fuel oid s sound active placed
  | filter predicate child ih =>
      have hfilter := filter_next fuel predicate (fun σ s => ih s) fuel s sound active placed
      rwa [Nat.min_self] at hfilter
  | projection exprs child ih =>
      rw [Plan.next]
      apply Ends.bind ((ih s sound active placed).mono (fun _ _ => id) fun e σ' h => h)
      rintro ⟨tuple?, s'⟩ σ₁ ⟨reads, placed', hands⟩
      cases hands with
      | past hitems => exact .pure ⟨reads, placed', .past (by simp only [ahead, hitems, List.map_nil])⟩
      | @row tuple hitems hbound =>
          have hahead : ahead σ context (.projection exprs child) s =
              project exprs (.ok tuple) :: ahead σ context (.projection exprs child) s' := by
            simp only [ahead, hitems, List.map_cons]
          dsimp only
          cases hexprs : exprs tuple.record.data with
          | error e => exact .bind_of_error rfl ⟨reads, trivial⟩
          | ok data =>
              rw [project, hexprs] at hahead
              exact .bind_of_ok rfl (.pure ⟨reads, placed', .row hahead hbound⟩)
  | lockRows lockType oid child ih =>
      rw [Plan.next]
      apply Ends.bind ((ih s sound active placed).mono (fun _ _ => id) fun e σ' h => h)
      rintro ⟨tuple?, s'⟩ σ₁ ⟨reads, placed', hands⟩
      cases hands with
      | past hitems => exact .pure ⟨reads, placed', .past hitems⟩
      | @row tuple hitems hbound =>
          dsimp only
          apply Ends.bind ((lockRow_ends context.xid lockType oid tuple.rid _).mono (fun _ _ => id) _)
          · rintro _ σ₂ ⟨reads', -⟩
            exact .pure ⟨reads.trans reads', placed', .row hitems hbound⟩
          · rintro e σ₂ ⟨reads', rfl⟩
            exact ⟨reads.trans reads', trivial⟩

end Next

end Sql

end HuaDB
