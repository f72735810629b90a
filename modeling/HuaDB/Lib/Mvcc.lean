import Mathlib.Data.Set.Insert
import Mathlib.Data.List.Nodup
import Mathlib.Logic.Function.Basic
import Mathlib.Logic.Relation

/-!
Tables of row versions under concurrent transactions.

A version is stamped by the transaction that inserted it and, once deleted, by the
one that deleted it. Transactions are numbered as they begin; each takes a snapshot,
the transactions active at that moment. A reader sees by its snapshot or by the
transactions active now. Undo runs through the entries of a transaction, newest
first: an insertion is undone by stamping the version deleted by its own inserter, a
deletion by clearing the stamp. A version is deleted only by a transaction that sees
it and alone has it locked.

`Inv` is the invariant of these steps under any policy. From it: a version that is
seen was inserted by its reader or by a committed transaction
(`Inv.committed_of_visible`); a deletion whose policy spares versions that a committed
transaction deleted hits a version without a deleter (`Inv.xmax_eq_none`).
-/

namespace Mvcc

variable {ι ρ δ : Type}

structure Version (ρ δ : Type) where
  id : ρ
  xmin : Nat
  xmax : Option Nat
  cid : Nat
  data : δ

/-- What a reader goes by. -/
inductive Mode where
  | snapshot
  | current

inductive Entry (ι ρ : Type) where
  | insert (i : ι) (r : ρ)
  | delete (i : ι) (r : ρ)

inductive Event (ι ρ : Type) where
  | read (x : Nat) (i : ι) (r : ρ) (xmin : Nat)
  | deleted (x : Nat) (i : ι) (r : ρ)
  | committed (x : Nat)
  | rolledBack (x : Nat)

@[ext]
structure State (ι ρ δ : Type) where
  versions : ι → List (Version ρ δ)
  next : Nat
  active : Set Nat
  snapshot : Nat → Set Nat
  /-- The number of the next statement of a transaction. -/
  cid : Nat → Nat
  undo : Nat → List (Entry ι ρ)
  locked : Nat → ι → ρ → Prop
  /-- What happened, latest first. -/
  events : List (Event ι ρ)

/-- What `x` saw the end of when it took the snapshot `S`, and itself. -/
def Seen (S : Set Nat) (x y : Nat) : Prop := y ∉ S ∧ y ≤ x

/-- Transaction `x` sees a version, as far as earlier statements go. -/
def State.Sees (s : State ι ρ δ) (mode : Mode) (x : Nat) (v : Version ρ δ) : Prop :=
  match mode with
  | .snapshot => Seen (s.snapshot x) x v.xmin ∧ ∀ d, v.xmax = some d → ¬ Seen (s.snapshot x) x d
  | .current =>
      (v.xmin = x ∨ v.xmin ∉ s.active) ∧ ∀ d, v.xmax = some d → d ∈ s.active ∧ d ≠ x

/-- Statement `c` of transaction `x` sees a version: not one it inserted itself. -/
def State.Visible (s : State ι ρ δ) (mode : Mode) (x c : Nat) (v : Version ρ δ) : Prop :=
  (v.cid = c → v.xmin ≠ x) ∧ s.Sees mode x v

/-! ## Steps -/

section Steps

variable [DecidableEq ι] [DecidableEq ρ]

/-- Stamp one version. -/
def stamp (i : ι) (r : ρ) (xmax : Option Nat) (j : ι) (v : Version ρ δ) : Version ρ δ :=
  if j = i ∧ v.id = r then { v with xmax := xmax } else v

/-- What undoing an entry of `x` does to a version. -/
def Entry.undo (x : Nat) (j : ι) (v : Version ρ δ) : Entry ι ρ → Version ρ δ
  | .insert i r => stamp i r (some x) j v
  | .delete i r => stamp i r none j v

def undoAll (x : Nat) (entries : List (Entry ι ρ)) (j : ι) (v : Version ρ δ) : Version ρ δ :=
  entries.foldl (fun v e => e.undo x j v) v

@[simp] theorem stamp_id (i : ι) (r : ρ) (m : Option Nat) (j : ι) (v : Version ρ δ) :
    (stamp i r m j v).id = v.id := by
  unfold stamp
  split <;> rfl

@[simp] theorem stamp_xmin (i : ι) (r : ρ) (m : Option Nat) (j : ι) (v : Version ρ δ) :
    (stamp i r m j v).xmin = v.xmin := by
  unfold stamp
  split <;> rfl

@[simp] theorem stamp_cid (i : ι) (r : ρ) (m : Option Nat) (j : ι) (v : Version ρ δ) :
    (stamp i r m j v).cid = v.cid := by
  unfold stamp
  split <;> rfl

@[simp] theorem stamp_data (i : ι) (r : ρ) (m : Option Nat) (j : ι) (v : Version ρ δ) :
    (stamp i r m j v).data = v.data := by
  unfold stamp
  split <;> rfl

theorem stamp_xmax (i : ι) (r : ρ) (m : Option Nat) (j : ι) (v : Version ρ δ) :
    (stamp i r m j v).xmax = if j = i ∧ v.id = r then m else v.xmax := by
  unfold stamp
  split <;> rfl

section Undo

variable {x : Nat} {j : ι} {v : Version ρ δ} {e : Entry ι ρ} {entries : List (Entry ι ρ)}

/-- The transaction deletes what it inserted after it inserted it. -/
def Ordered : List (Entry ι ρ) → Prop
  | [] => True
  | .insert i r :: earlier => .delete i r ∉ earlier ∧ Ordered earlier
  | .delete _ _ :: earlier => Ordered earlier

@[simp] theorem Entry.undo_id : (e.undo x j v).id = v.id := by
  cases e <;> exact stamp_id _ _ _ _ _

@[simp] theorem undoAll_id : (undoAll x entries j v).id = v.id := by
  induction entries generalizing v with
  | nil => rfl
  | cons e entries ih => exact ih.trans Entry.undo_id

@[simp] theorem Entry.undo_xmin : (e.undo x j v).xmin = v.xmin := by
  cases e <;> exact stamp_xmin _ _ _ _ _

@[simp] theorem undoAll_xmin : (undoAll x entries j v).xmin = v.xmin := by
  induction entries generalizing v with
  | nil => rfl
  | cons e entries ih => exact ih.trans Entry.undo_xmin

@[simp] theorem Entry.undo_cid : (e.undo x j v).cid = v.cid := by
  cases e <;> exact stamp_cid _ _ _ _ _

@[simp] theorem undoAll_cid : (undoAll x entries j v).cid = v.cid := by
  induction entries generalizing v with
  | nil => rfl
  | cons e entries ih => exact ih.trans Entry.undo_cid

@[simp] theorem Entry.undo_data : (e.undo x j v).data = v.data := by
  cases e <;> exact stamp_data _ _ _ _ _

@[simp] theorem undoAll_data : (undoAll x entries j v).data = v.data := by
  induction entries generalizing v with
  | nil => rfl
  | cons e entries ih => exact ih.trans Entry.undo_data

/-- A version without entries. -/
theorem undoAll_eq_self (hinsert : .insert j v.id ∉ entries) (hdelete : .delete j v.id ∉ entries) :
    undoAll x entries j v = v := by
  induction entries with
  | nil => rfl
  | cons e entries ih =>
      have hself : e.undo x j v = v := by
        cases e with
        | insert i r => exact if_neg fun h => hinsert (by simp [h.1, h.2])
        | delete i r => exact if_neg fun h => hdelete (by simp [h.1, h.2])
      rw [undoAll, List.foldl_cons, hself]
      exact ih (List.not_mem_of_not_mem_cons hinsert) (List.not_mem_of_not_mem_cons hdelete)

theorem undoAll_cons :
    undoAll x (e :: entries) j v = undoAll x entries j (e.undo x j v) := rfl

/-- A version that was deleted only. -/
theorem undoAll_of_delete (hinsert : .insert j v.id ∉ entries) (hdelete : .delete j v.id ∈ entries) :
    (undoAll x entries j v).xmax = none := by
  induction entries generalizing v with
  | nil => cases hdelete
  | cons e entries ih =>
      have hid : (e.undo x j v).id = v.id := Entry.undo_id
      have hinsert' : .insert j (e.undo x j v).id ∉ entries := by
        rw [hid]
        exact List.not_mem_of_not_mem_cons hinsert
      rw [undoAll_cons]
      by_cases hlater : .delete j (e.undo x j v).id ∈ entries
      · exact ih hinsert' hlater
      · rw [undoAll_eq_self hinsert' hlater]
        rw [hid] at hlater
        rcases List.mem_cons.mp hdelete with rfl | hmem
        · rw [Entry.undo, stamp_xmax, if_pos ⟨rfl, rfl⟩]
        · exact absurd hmem hlater

/-- A version that was inserted. -/
theorem undoAll_of_insert (ordered : Ordered entries) (hinsert : .insert j v.id ∈ entries) :
    (undoAll x entries j v).xmax = some x := by
  induction entries generalizing v with
  | nil => cases hinsert
  | cons e entries ih =>
      have hid : (e.undo x j v).id = v.id := Entry.undo_id
      have ordered' : Ordered entries := by
        cases e with
        | insert i r => exact ordered.2
        | delete i r => exact ordered
      rw [undoAll_cons]
      by_cases hlater : .insert j (e.undo x j v).id ∈ entries
      · exact ih ordered' hlater
      · rw [hid] at hlater
        rcases List.mem_cons.mp hinsert with rfl | hmem
        · have hdelete : .delete j (Entry.undo x j v (.insert j v.id)).id ∉ entries := by
            rw [hid]
            exact ordered.1
          rw [undoAll_eq_self (hid.symm ▸ hlater) hdelete, Entry.undo, stamp_xmax,
            if_pos ⟨rfl, rfl⟩]
        · exact absurd hmem hlater

end Undo

namespace State

variable (s : State ι ρ δ)

def begin : State ι ρ δ :=
  { s with
    next := s.next + 1
    active := insert s.next s.active
    snapshot := Function.update s.snapshot s.next s.active
    cid := Function.update s.cid s.next 1
    undo := Function.update s.undo s.next [] }

def push (x : Nat) (e : Entry ι ρ) : State ι ρ δ :=
  { s with undo := Function.update s.undo x (e :: s.undo x) }

def setVersions (i : ι) (l : List (Version ρ δ)) : State ι ρ δ :=
  { s with versions := Function.update s.versions i l }

def map (f : ι → Version ρ δ → Version ρ δ) : State ι ρ δ :=
  { s with versions := fun i => (s.versions i).map (f i) }

def record (e : Event ι ρ) : State ι ρ δ := { s with events := e :: s.events }

def delete (x : Nat) (i : ι) (r : ρ) : State ι ρ δ :=
  (((s.map (stamp i r (some x))).push x (.delete i r)).record (.deleted x i r))

/-- End a transaction. -/
def finish (x : Nat) (e : Event ι ρ) : State ι ρ δ :=
  { s with
    active := s.active \ {x}
    snapshot := Function.update s.snapshot x ∅
    cid := Function.update s.cid x 0
    undo := Function.update s.undo x []
    locked := fun y i r => y ≠ x ∧ s.locked y i r
    events := e :: s.events }

end State

/-- What the steps of a history have to respect. -/
structure Policy (ι ρ δ : Type) where
  /-- The versions that may be deleted, given how they are seen and who is active. -/
  delete : Mode → Set Nat → Version ρ δ → Prop
  /-- The transactions that may commit, given their entries. -/
  commit : Nat → List (Entry ι ρ) → Prop
  /-- The transactions whose statement numbers go up, and are those of earlier
  statements on their versions. -/
  counts : Nat → Prop

inductive Step (P : Policy ι ρ δ) : State ι ρ δ → State ι ρ δ → Prop
  | begin (s : State ι ρ δ) : Step P s s.begin
  | count {s : State ι ρ δ} {x c : Nat} (active : x ∈ s.active) (up : P.counts x → s.cid x < c) :
      Step P s { s with cid := Function.update s.cid x c }
  | lock {s : State ι ρ δ} {locked : Nat → ι → ρ → Prop}
      (more : ∀ x i r, s.locked x i r → locked x i r) : Step P s { s with locked := locked }
  | read {s : State ι ρ δ} {mode : Mode} {x c : Nat} {i : ι} {v : Version ρ δ}
      (active : x ∈ s.active) (mem : v ∈ s.versions i) (visible : s.Visible mode x c v) :
      Step P s (s.record (.read x i v.id v.xmin))
  | insert {s : State ι ρ δ} {i : ι} {v : Version ρ δ} {pre post : List (Version ρ δ)}
      (active : v.xmin ∈ s.active) (xmax : v.xmax = none)
      (counted : P.counts v.xmin → v.cid < s.cid v.xmin) (split : s.versions i = pre ++ post)
      (fresh : ∀ u ∈ s.versions i, u.id ≠ v.id) :
      Step P s ((s.setVersions i (pre ++ v :: post)).push v.xmin (.insert i v.id))
  | delete {s : State ι ρ δ} {mode : Mode} {x c : Nat} {i : ι} {v : Version ρ δ}
      (active : x ∈ s.active) (mem : v ∈ s.versions i)
      (visible : s.Visible mode x c v) (policy : P.delete mode s.active v)
      (own : s.locked x i v.id) (alone : ∀ y, y ≠ x → ¬ s.locked y i v.id) :
      Step P s (s.delete x i v.id)
  | commit {s : State ι ρ δ} {x : Nat} (active : x ∈ s.active) (policy : P.commit x (s.undo x)) :
      Step P s (s.finish x (.committed x))
  | rollback {s : State ι ρ δ} {x : Nat} (active : x ∈ s.active) :
      Step P s ((s.map (undoAll x (s.undo x))).finish x (.rolledBack x))

/-- Histories. -/
abbrev Steps (P : Policy ι ρ δ) : State ι ρ δ → State ι ρ δ → Prop :=
  Relation.ReflTransGen (Step P)

end Steps

/-! ## The invariant -/

structure Inv (s : State ι ρ δ) : Prop where
  nodup : ∀ i, ((s.versions i).map Version.id).Nodup
  active_lt : ∀ x ∈ s.active, x < s.next
  snapshot_lt : ∀ x ∈ s.active, ∀ y ∈ s.snapshot x, y < x
  /-- Who is active beside a later transaction is in its snapshot. -/
  snapshot_active : ∀ x ∈ s.active, ∀ y ∈ s.active, y < x → y ∈ s.snapshot x
  xmin_lt : ∀ i, ∀ v ∈ s.versions i, v.xmin < s.next
  xmax_lt : ∀ i, ∀ v ∈ s.versions i, ∀ d, v.xmax = some d → d < s.next
  /-- The versions of a transaction that was rolled back have it as their deleter. -/
  status : ∀ i, ∀ v ∈ s.versions i,
    v.xmin ∈ s.active ∨ .committed v.xmin ∈ s.events ∨ v.xmax = some v.xmin
  own : ∀ i, ∀ v ∈ s.versions i, v.xmin ∈ s.active → ∀ d, v.xmax = some d → d = v.xmin
  locked : ∀ i, ∀ v ∈ s.versions i, ∀ d ∈ s.active, v.xmax = some d → s.locked d i v.id
  undo_of_xmin : ∀ i, ∀ v ∈ s.versions i, v.xmin ∈ s.active → .insert i v.id ∈ s.undo v.xmin
  xmin_of_undo : ∀ x i r, .insert i r ∈ s.undo x → ∃ v ∈ s.versions i, v.id = r ∧ v.xmin = x
  undo_of_xmax : ∀ i, ∀ v ∈ s.versions i, ∀ d ∈ s.active, v.xmax = some d →
    .delete i v.id ∈ s.undo d
  xmax_of_undo : ∀ x i r, .delete i r ∈ s.undo x → ∃ v ∈ s.versions i,
    v.id = r ∧ v.xmax = some x ∧ (v.xmin = x ∨ .committed v.xmin ∈ s.events)
  ordered : ∀ x, Ordered (s.undo x)
  undo_nil : ∀ x, x ∉ s.active → s.undo x = []
  committed : ∀ x, .committed x ∈ s.events → x ∉ s.active ∧ x < s.next
  rolledBack : ∀ x, .rolledBack x ∈ s.events → x ∉ s.active ∧ x < s.next
  decided : ∀ x, .committed x ∈ s.events → .rolledBack x ∉ s.events

namespace Inv

variable {s : State ι ρ δ} {mode : Mode} {x c : Nat} {i : ι} {v : Version ρ δ}

/-- One version stands at a place. -/
theorem eq_of_id (inv : Inv s) {u : Version ρ δ} (hu : u ∈ s.versions i) (hv : v ∈ s.versions i)
    (h : u.id = v.id) : u = v := List.inj_on_of_nodup_map (inv.nodup i) hu hv h

/-- A transaction sees no version of another that is active. -/
theorem xmin_eq_of_visible (inv : Inv s) (active : x ∈ s.active) (visible : s.Visible mode x c v)
    (hxmin : v.xmin ∈ s.active) : v.xmin = x := by
  cases mode with
  | snapshot =>
      rcases visible with ⟨-, ⟨hnot, hle⟩, -⟩
      rcases Nat.lt_or_eq_of_le hle with hlt | heq
      · exact absurd (inv.snapshot_active x active _ hxmin hlt) hnot
      · exact heq
  | current =>
      rcases visible with ⟨-, hself | hnot, -⟩
      · exact hself
      · exact absurd hxmin hnot

/-- What is seen was inserted by its reader or by a committed transaction. -/
theorem committed_of_visible (inv : Inv s) (active : x ∈ s.active) (hv : v ∈ s.versions i)
    (visible : s.Visible mode x c v) : v.xmin = x ∨ .committed v.xmin ∈ s.events := by
  rcases inv.status i v hv with hactive | hcommitted | hdead
  · exact .inl (inv.xmin_eq_of_visible active visible hactive)
  · exact .inr hcommitted
  · -- the deleter is the inserter, which is seen
    cases mode with
    | snapshot =>
        rcases visible with ⟨-, hseen, hdeleter⟩
        exact absurd hseen (hdeleter _ hdead)
    | current =>
        rcases visible with ⟨-, hself | hnot, hdeleter⟩
        · exact .inl hself
        · exact absurd (hdeleter _ hdead).1 hnot

/-- What is seen was not deleted by its reader. -/
theorem xmax_ne_of_visible (inv : Inv s) (active : x ∈ s.active) (visible : s.Visible mode x c v) :
    v.xmax ≠ some x := by
  intro hxmax
  cases mode with
  | snapshot =>
      rcases visible with ⟨-, -, hdeleter⟩
      apply hdeleter x hxmax
      exact ⟨fun hmem => Nat.lt_irrefl x (inv.snapshot_lt x active x hmem), Nat.le_refl x⟩
  | current =>
      rcases visible with ⟨-, -, hdeleter⟩
      exact (hdeleter x hxmax).2 rfl

/-- A version whose deleter, if any, is active has none when another transaction that
sees it alone has it locked. -/
theorem xmax_eq_none (inv : Inv s) (active : x ∈ s.active) (hv : v ∈ s.versions i)
    (visible : s.Visible mode x c v) (alone : ∀ y, y ≠ x → ¬ s.locked y i v.id)
    (clean : ∀ d, v.xmax = some d → d ∈ s.active) : v.xmax = none := by
  cases hxmax : v.xmax with
  | none => rfl
  | some d =>
      have hne : d ≠ x := by
        rintro rfl
        exact inv.xmax_ne_of_visible active visible hxmax
      exact absurd (inv.locked i v hv d (clean d hxmax) hxmax) (alone d hne)

/-! ### Preservation -/

theorem begin (inv : Inv s) : Inv s.begin := by
  have active_lt := inv.active_lt
  have xmin_lt := inv.xmin_lt
  have xmax_lt := inv.xmax_lt
  constructor <;> simp only [State.begin, Function.update_apply, Set.mem_insert_iff]
  · exact inv.nodup
  · grind
  · have := inv.snapshot_lt
    grind
  · have := inv.snapshot_active
    grind
  · grind
  · grind
  · have := inv.status
    grind
  · have := inv.own
    grind
  · have := inv.locked
    grind
  · have := inv.undo_of_xmin
    grind
  · have := inv.xmin_of_undo
    grind
  · have := inv.undo_of_xmax
    grind
  · have := inv.xmax_of_undo
    grind
  · intro y
    split
    · trivial
    · exact inv.ordered y
  · have := inv.undo_nil
    grind
  · have := inv.committed
    grind
  · have := inv.rolledBack
    grind
  · exact inv.decided

/-- What reads, locks and statement numbers change matters to nothing else. -/
theorem quiet (inv : Inv s) {s' : State ι ρ δ} (versions : s'.versions = s.versions)
    (next : s'.next = s.next) (active : s'.active = s.active) (snapshot : s'.snapshot = s.snapshot)
    (undo : s'.undo = s.undo) (locked : ∀ y j r, s.locked y j r → s'.locked y j r)
    (committed : ∀ y, .committed y ∈ s'.events ↔ .committed y ∈ s.events)
    (rolledBack : ∀ y, .rolledBack y ∈ s'.events ↔ .rolledBack y ∈ s.events) : Inv s' := by
  constructor <;> simp only [versions, next, active, snapshot, undo, committed, rolledBack]
  · exact inv.nodup
  · exact inv.active_lt
  · exact inv.snapshot_lt
  · exact inv.snapshot_active
  · exact inv.xmin_lt
  · exact inv.xmax_lt
  · exact inv.status
  · exact inv.own
  · exact fun j u hu d hd hxmax => locked d j u.id (inv.locked j u hu d hd hxmax)
  · exact inv.undo_of_xmin
  · exact inv.xmin_of_undo
  · exact inv.undo_of_xmax
  · exact inv.xmax_of_undo
  · exact inv.ordered
  · exact inv.undo_nil
  · exact inv.committed
  · exact inv.rolledBack
  · exact inv.decided

section Writes

variable [DecidableEq ι] [DecidableEq ρ]

theorem mem_update {β : Type} {f : ι → List β} {pre post : List β} {u w : β} {j : ι}
    (split : f i = pre ++ post) :
    u ∈ Function.update f i (pre ++ w :: post) j ↔ u ∈ f j ∨ j = i ∧ u = w := by
  rw [Function.update_apply]
  by_cases hj : j = i
  · rw [if_pos hj, hj, split]
    simp only [List.mem_append, List.mem_cons]
    tauto
  · simp [hj]

omit [DecidableEq ρ] in
/-- A new version. -/
theorem insert {pre post : List (Version ρ δ)} (inv : Inv s) (active : v.xmin ∈ s.active)
    (xmax : v.xmax = none) (split : s.versions i = pre ++ post)
    (fresh : ∀ u ∈ s.versions i, u.id ≠ v.id) :
    Inv ((s.setVersions i (pre ++ v :: post)).push v.xmin (.insert i v.id)) := by
  have hundo : ∀ y e, e ∈ s.undo y →
      e ∈ Function.update s.undo v.xmin (.insert i v.id :: s.undo v.xmin) y := by
    intro y e he
    rw [Function.update_apply (β := List (Entry ι ρ))]
    split <;> simp_all
  constructor <;> simp only [State.push, State.setVersions, mem_update split]
  · intro j
    rw [Function.update_apply]
    by_cases hj : j = i
    · have nodup := inv.nodup i
      rw [split] at nodup fresh
      rw [if_pos hj, List.map_append, List.map_cons, List.nodup_middle, List.nodup_cons,
        ← List.map_append]
      refine ⟨?_, nodup⟩
      rw [List.mem_map]
      rintro ⟨u, hu, hid⟩
      exact fresh u hu hid
    · rw [if_neg hj]
      exact inv.nodup j
  · exact inv.active_lt
  · exact inv.snapshot_lt
  · exact inv.snapshot_active
  · rintro j u (hu | ⟨rfl, rfl⟩)
    · exact inv.xmin_lt j u hu
    · exact inv.active_lt _ active
  · rintro j u (hu | ⟨rfl, rfl⟩)
    · exact inv.xmax_lt j u hu
    · simp [xmax]
  · rintro j u (hu | ⟨rfl, rfl⟩)
    · exact inv.status j u hu
    · exact .inl active
  · rintro j u (hu | ⟨rfl, rfl⟩)
    · exact inv.own j u hu
    · simp [xmax]
  · rintro j u (hu | ⟨rfl, rfl⟩)
    · exact inv.locked j u hu
    · simp [xmax]
  · rintro j u (hu | ⟨rfl, rfl⟩) hactive
    · exact hundo _ _ (inv.undo_of_xmin j u hu hactive)
    · rw [Function.update_self]
      exact List.mem_cons_self
  · intro y j r h
    rw [Function.update_apply (β := List (Entry ι ρ))] at h
    have hold := inv.xmin_of_undo y j r
    grind
  · rintro j u (hu | ⟨rfl, rfl⟩) d hd hxmax
    · exact hundo _ _ (inv.undo_of_xmax j u hu d hd hxmax)
    · rw [xmax] at hxmax
      cases hxmax
  · intro y j r h
    rw [Function.update_apply (β := List (Entry ι ρ))] at h
    have hold := inv.xmax_of_undo y j r
    grind
  · intro y
    rw [Function.update_apply (β := List (Entry ι ρ))]
    split
    · refine ⟨fun hdelete => ?_, inv.ordered _⟩
      -- the place is new, so nothing was deleted there
      rcases inv.xmax_of_undo _ _ _ hdelete with ⟨u, hu, hid, -⟩
      exact fresh u hu hid
    · exact inv.ordered y
  · intro y hy
    have hne : y ≠ v.xmin := fun h => hy (h ▸ active)
    rw [Function.update_of_ne hne]
    exact inv.undo_nil y hy
  · exact inv.committed
  · exact inv.rolledBack
  · exact inv.decided

/-- A deletion of a version that is seen and that no other transaction has locked. -/
theorem delete (inv : Inv s) (active : x ∈ s.active) (mem : v ∈ s.versions i)
    (visible : s.Visible mode x c v) (own : s.locked x i v.id)
    (alone : ∀ y, y ≠ x → ¬ s.locked y i v.id) : Inv (s.delete x i v.id) := by
  have hinserter : v.xmin = x ∨ .committed v.xmin ∈ s.events :=
    inv.committed_of_visible active mem visible
  -- the one version that is stamped
  have hstamped : ∀ j w, w ∈ s.versions j → (stamp i v.id (some x) j w).xmax = w.xmax ∧
      ¬ (j = i ∧ w.id = v.id) ∨ j = i ∧ w = v ∧ (stamp i v.id (some x) j w).xmax = some x := by
    intro j w hw
    by_cases hj : j = i ∧ w.id = v.id
    · rcases hj with ⟨rfl, hid⟩
      exact .inr ⟨rfl, inv.eq_of_id hw mem hid, by rw [stamp_xmax, if_pos ⟨rfl, hid⟩]⟩
    · exact .inl ⟨by rw [stamp_xmax, if_neg hj], hj⟩
  have hundo : ∀ y e, e ∈ s.undo y →
      e ∈ Function.update s.undo x (.delete i v.id :: s.undo x) y := by
    intro y e he
    rw [Function.update_apply (β := List (Entry ι ρ))]
    split <;> simp_all
  have hcommitted : ∀ y, .committed y ∈ (.deleted x i v.id :: s.events : List (Event ι ρ)) ↔
      .committed y ∈ s.events := by simp
  have hrolledBack : ∀ y, .rolledBack y ∈ (.deleted x i v.id :: s.events : List (Event ι ρ)) ↔
      .rolledBack y ∈ s.events := by simp
  constructor <;>
    simp only [State.delete, State.record, State.push, State.map, List.forall_mem_map, stamp_id,
      stamp_xmin, hcommitted, hrolledBack]
  · intro j
    simpa [Function.comp_def] using inv.nodup j
  · exact inv.active_lt
  · exact inv.snapshot_lt
  · exact inv.snapshot_active
  · exact inv.xmin_lt
  · intro j w hw d hd
    rcases hstamped j w hw with ⟨hsame, -⟩ | ⟨-, -, hnew⟩
    · exact inv.xmax_lt j w hw d (hsame ▸ hd)
    · cases hnew.symm.trans hd
      exact inv.active_lt x active
  · intro j w hw
    rcases hstamped j w hw with ⟨hsame, -⟩ | ⟨-, rfl, -⟩
    · rw [hsame]
      exact inv.status j w hw
    · rcases hinserter with hself | hcommitted
      · exact .inl (hself ▸ active)
      · exact .inr (.inl hcommitted)
  · intro j w hw hactive d hd
    rcases hstamped j w hw with ⟨hsame, -⟩ | ⟨-, rfl, hnew⟩
    · exact inv.own j w hw hactive d (hsame ▸ hd)
    · cases hnew.symm.trans hd
      exact (inv.xmin_eq_of_visible active visible hactive).symm
  · intro j w hw d hactive hd
    rcases hstamped j w hw with ⟨hsame, -⟩ | ⟨rfl, rfl, hnew⟩
    · exact inv.locked j w hw d hactive (hsame ▸ hd)
    · cases hnew.symm.trans hd
      exact own
  · exact fun j w hw hactive => hundo _ _ (inv.undo_of_xmin j w hw hactive)
  · intro y j r h
    have hold : .insert j r ∈ s.undo y := by
      rw [Function.update_apply (β := List (Entry ι ρ))] at h
      split at h <;> simp_all
    rcases inv.xmin_of_undo y j r hold with ⟨w, hw, rfl, hxmin⟩
    exact ⟨_, List.mem_map_of_mem hw, stamp_id _ _ _ _ _, (stamp_xmin _ _ _ _ _).trans hxmin⟩
  · intro j w hw d hactive hd
    rcases hstamped j w hw with ⟨hsame, -⟩ | ⟨rfl, rfl, hnew⟩
    · exact hundo _ _ (inv.undo_of_xmax j w hw d hactive (hsame ▸ hd))
    · cases hnew.symm.trans hd
      rw [Function.update_self]
      exact List.mem_cons_self
  · intro y j r h
    by_cases hold : .delete j r ∈ s.undo y
    · rcases inv.xmax_of_undo y j r hold with ⟨w, hw, rfl, hxmax, hxmin⟩
      refine ⟨_, List.mem_map_of_mem hw, stamp_id _ _ _ _ _, ?_, by rwa [stamp_xmin]⟩
      rcases hstamped j w hw with ⟨hsame, -⟩ | ⟨rfl, rfl, hnew⟩
      · exact hsame.trans hxmax
      · -- its deleter has it locked, so is the one who deletes it now
        by_cases hy : y = x
        · rw [hnew, hy]
        · have hactive : y ∈ s.active := by
            by_contra hnot
            rw [inv.undo_nil y hnot] at hold
            cases hold
          exact absurd (inv.locked j w hw y hactive hxmax) (alone y hy)
    · have hnew : y = x ∧ j = i ∧ r = v.id := by
        rw [Function.update_apply (β := List (Entry ι ρ))] at h
        split at h <;> simp_all
      rcases hnew with ⟨rfl, rfl, rfl⟩
      refine ⟨_, List.mem_map_of_mem mem, stamp_id _ _ _ _ _, ?_, by rwa [stamp_xmin]⟩
      rw [stamp_xmax, if_pos ⟨rfl, rfl⟩]
  · intro y
    rw [Function.update_apply (β := List (Entry ι ρ))]
    split
    · exact inv.ordered x
    · exact inv.ordered y
  · intro y hy
    have hne : y ≠ x := fun h => hy (h ▸ active)
    rw [Function.update_of_ne hne]
    exact inv.undo_nil y hy
  · exact inv.committed
  · exact inv.rolledBack
  · exact inv.decided

omit [DecidableEq ι] [DecidableEq ρ] in
/-- The entries of the transactions that go on. -/
theorem mem_undo_finish {y : Nat} {e : Entry ι ρ}
    (h : e ∈ Function.update s.undo x [] y) : y ≠ x ∧ e ∈ s.undo y := by
  rw [Function.update_apply (β := List (Entry ι ρ))] at h
  split at h
  · cases h
  · exact ⟨‹_›, h⟩

omit [DecidableEq ι] [DecidableEq ρ] in
theorem commit (inv : Inv s) (active : x ∈ s.active) : Inv (s.finish x (.committed x)) := by
  have hother : ∀ y, y ≠ x → Function.update s.undo x [] y = s.undo y :=
    fun y hy => Function.update_of_ne hy _ _
  constructor <;> simp only [State.finish]
  · exact inv.nodup
  · exact fun y hy => inv.active_lt y hy.1
  · intro y hy z hz
    rw [Function.update_of_ne hy.2] at hz
    exact inv.snapshot_lt y hy.1 z hz
  · intro y hy z hz hlt
    rw [Function.update_of_ne hy.2]
    exact inv.snapshot_active y hy.1 z hz.1 hlt
  · exact inv.xmin_lt
  · exact inv.xmax_lt
  · intro j w hw
    rcases inv.status j w hw with hactive | hcommitted | hdead
    · by_cases hx : w.xmin = x
      · exact .inr (.inl (hx ▸ List.mem_cons_self))
      · exact .inl ⟨hactive, hx⟩
    · exact .inr (.inl (List.mem_cons_of_mem _ hcommitted))
    · exact .inr (.inr hdead)
  · exact fun j w hw hactive => inv.own j w hw hactive.1
  · exact fun j w hw d hd hxmax => ⟨hd.2, inv.locked j w hw d hd.1 hxmax⟩
  · intro j w hw hactive
    rw [hother _ hactive.2]
    exact inv.undo_of_xmin j w hw hactive.1
  · exact fun y j r h => inv.xmin_of_undo y j r (mem_undo_finish h).2
  · intro j w hw d hd hxmax
    rw [hother d hd.2]
    exact inv.undo_of_xmax j w hw d hd.1 hxmax
  · intro y j r h
    rcases inv.xmax_of_undo y j r (mem_undo_finish h).2 with ⟨w, hw, hid, hxmax, hxmin⟩
    exact ⟨w, hw, hid, hxmax, hxmin.imp_right (List.mem_cons_of_mem _)⟩
  · intro y
    rw [Function.update_apply (β := List (Entry ι ρ))]
    split
    · trivial
    · exact inv.ordered y
  · intro y hy
    rw [Function.update_apply (β := List (Entry ι ρ))]
    split
    · rfl
    · exact inv.undo_nil y fun h => hy ⟨h, ‹_›⟩
  · intro y hy
    rcases List.mem_cons.mp hy with heq | hold
    · cases heq
      exact ⟨fun h => h.2 rfl, inv.active_lt x active⟩
    · exact ⟨fun h => (inv.committed y hold).1 h.1, (inv.committed y hold).2⟩
  · intro y hy
    have hold : .rolledBack y ∈ s.events := by simpa using hy
    exact ⟨fun h => (inv.rolledBack y hold).1 h.1, (inv.rolledBack y hold).2⟩
  · intro y hy hy'
    have hold : .rolledBack y ∈ s.events := by simpa using hy'
    rcases List.mem_cons.mp hy with heq | hcommitted
    · cases heq
      exact (inv.rolledBack x hold).1 active
    · exact inv.decided y hcommitted hold

/-- What a rollback makes of the deleter of a version. -/
theorem undoAll_xmax (inv : Inv s) (active : x ∈ s.active) (hv : v ∈ s.versions i) :
    (undoAll x (s.undo x) i v).xmax =
      if v.xmin = x then some x else if v.xmax = some x then none else v.xmax := by
  by_cases hxmin : v.xmin = x
  · rw [if_pos hxmin]
    exact undoAll_of_insert (inv.ordered x) (hxmin ▸ inv.undo_of_xmin i v hv (hxmin ▸ active))
  · rw [if_neg hxmin]
    have hinsert : .insert i v.id ∉ s.undo x := by
      intro h
      rcases inv.xmin_of_undo x i _ h with ⟨w, hw, hid, hw'⟩
      exact hxmin (inv.eq_of_id hw hv hid ▸ hw')
    by_cases hxmax : v.xmax = some x
    · rw [if_pos hxmax]
      exact undoAll_of_delete hinsert (inv.undo_of_xmax i v hv x active hxmax)
    · rw [if_neg hxmax]
      have hdelete : .delete i v.id ∉ s.undo x := by
        intro h
        rcases inv.xmax_of_undo x i _ h with ⟨w, hw, hid, hw', -⟩
        exact hxmax (inv.eq_of_id hw hv hid ▸ hw')
      rw [undoAll_eq_self hinsert hdelete]

theorem rollback (inv : Inv s) (active : x ∈ s.active) :
    Inv ((s.map (undoAll x (s.undo x))).finish x (.rolledBack x)) := by
  have hother : ∀ y, y ≠ x → Function.update s.undo x [] y = s.undo y :=
    fun y hy => Function.update_of_ne hy _ _
  -- another deleter stays on the versions of other transactions
  have hstay : ∀ j w, w ∈ s.versions j → ∀ d, d ≠ x →
      ((undoAll x (s.undo x) j w).xmax = some d ↔ w.xmin ≠ x ∧ w.xmax = some d) := by
    intro j w hw d hd
    rw [inv.undoAll_xmax active hw]
    split
    · simp_all [Ne.symm hd]
    · split <;> simp_all [Ne.symm hd]
  constructor <;>
    simp only [State.finish, State.map, List.forall_mem_map, undoAll_id, undoAll_xmin]
  · intro j
    simpa [Function.comp_def] using inv.nodup j
  · exact fun y hy => inv.active_lt y hy.1
  · intro y hy z hz
    rw [Function.update_of_ne hy.2] at hz
    exact inv.snapshot_lt y hy.1 z hz
  · intro y hy z hz hlt
    rw [Function.update_of_ne hy.2]
    exact inv.snapshot_active y hy.1 z hz.1 hlt
  · exact inv.xmin_lt
  · intro j w hw d hd
    by_cases hdx : d = x
    · exact hdx ▸ inv.active_lt x active
    · exact inv.xmax_lt j w hw d ((hstay j w hw d hdx).mp hd).2
  · intro j w hw
    by_cases hx : w.xmin = x
    · exact .inr (.inr (by rw [inv.undoAll_xmax active hw, if_pos hx, hx]))
    · rcases inv.status j w hw with hactive | hcommitted | hdead
      · exact .inl ⟨hactive, hx⟩
      · exact .inr (.inl (List.mem_cons_of_mem _ hcommitted))
      · exact .inr (.inr ((hstay j w hw _ hx).mpr ⟨hx, hdead⟩))
  · intro j w hw hactive d hd
    by_cases hdx : d = x
    · have hne : w.xmin ≠ x := hactive.2
      rw [inv.undoAll_xmax active hw, if_neg hne, hdx] at hd
      split at hd
      · cases hd
      · exact absurd hd ‹_›
    · exact inv.own j w hw hactive.1 d ((hstay j w hw d hdx).mp hd).2
  · intro j w hw d hd hxmax
    exact ⟨hd.2, inv.locked j w hw d hd.1 ((hstay j w hw d hd.2).mp hxmax).2⟩
  · intro j w hw hactive
    rw [hother _ hactive.2]
    exact inv.undo_of_xmin j w hw hactive.1
  · intro y j r h
    rcases inv.xmin_of_undo y j r (mem_undo_finish h).2 with ⟨w, hw, rfl, hxmin⟩
    exact ⟨_, List.mem_map_of_mem hw, undoAll_id, undoAll_xmin.trans hxmin⟩
  · intro j w hw d hd hxmax
    rw [hother d hd.2]
    exact inv.undo_of_xmax j w hw d hd.1 ((hstay j w hw d hd.2).mp hxmax).2
  · intro y j r h
    rcases mem_undo_finish h with ⟨hy, hmem⟩
    rcases inv.xmax_of_undo y j r hmem with ⟨w, hw, rfl, hxmax, hxmin⟩
    have hne : w.xmin ≠ x := by
      intro hx
      exact hy (inv.own j w hw (hx ▸ active) y hxmax ▸ hx)
    refine ⟨_, List.mem_map_of_mem hw, undoAll_id, (hstay j w hw y hy).mpr ⟨hne, hxmax⟩, ?_⟩
    rw [undoAll_xmin]
    exact hxmin.imp_right (List.mem_cons_of_mem _)
  · intro y
    rw [Function.update_apply (β := List (Entry ι ρ))]
    split
    · trivial
    · exact inv.ordered y
  · intro y hy
    rw [Function.update_apply (β := List (Entry ι ρ))]
    split
    · rfl
    · exact inv.undo_nil y fun h => hy ⟨h, ‹_›⟩
  · intro y hy
    have hold : .committed y ∈ s.events := by simpa using hy
    exact ⟨fun h => (inv.committed y hold).1 h.1, (inv.committed y hold).2⟩
  · intro y hy
    rcases List.mem_cons.mp hy with heq | hold
    · cases heq
      exact ⟨fun h => h.2 rfl, inv.active_lt x active⟩
    · exact ⟨fun h => (inv.rolledBack y hold).1 h.1, (inv.rolledBack y hold).2⟩
  · intro y hy hy'
    have hold : .committed y ∈ s.events := by simpa using hy
    rcases List.mem_cons.mp hy' with heq | hrolled
    · cases heq
      exact (inv.committed x hold).1 active
    · exact inv.decided y hold hrolled

theorem step {P : Policy ι ρ δ} {s' : State ι ρ δ} (inv : Inv s) (h : Step P s s') : Inv s' := by
  cases h with
  | begin => exact inv.begin
  | count active up =>
      exact inv.quiet rfl rfl rfl rfl rfl (fun _ _ _ => id) (fun _ => Iff.rfl) fun _ => Iff.rfl
  | lock more =>
      exact inv.quiet rfl rfl rfl rfl rfl more (fun _ => Iff.rfl) fun _ => Iff.rfl
  | read active mem visible =>
      exact inv.quiet rfl rfl rfl rfl rfl (fun _ _ _ => id) (fun _ => by simp [State.record])
        fun _ => by simp [State.record]
  | insert active xmax counted split fresh => exact inv.insert active xmax split fresh
  | delete active mem visible policy own alone =>
      exact inv.delete active mem visible own alone
  | commit active policy => exact inv.commit active
  | rollback active => exact inv.rollback active

theorem steps {P : Policy ι ρ δ} {s' : State ι ρ δ} (inv : Inv s) (h : Steps P s s') : Inv s' := by
  induction h with
  | refl => exact inv
  | tail _ step ih => exact ih.step step

end Writes

end Inv

end Mvcc
