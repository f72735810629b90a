import HuaDB.TableRuns

/-!
What a rollback leaves of the rows of other transactions.

`NewPageLog::Undo` takes a page out of the list of a table whatever it holds. So a
rollback keeps the rows of other transactions, with their bytes, if and only if the
pages it takes out hold none (`rollback_keepsOthers_iff`).
-/

namespace HuaDB

variable {dbOid oid xid : Nat} {pages : List Nat} {σ₀ σ σ' : Engine}

/-- Every row that another transaction inserted is still reached from the first page, in
its place and with its bytes, but for the header of a row that `xid` had deleted. -/
def Engine.KeepsOthers (dbOid oid xid : Nat) (σ σ' : Engine) : Prop :=
  ∀ rid stored, σ.HasRow dbOid oid rid stored → stored.record.header.xmin ≠ xid →
    ∃ stored', σ'.HasRow dbOid oid rid stored' ∧ stored'.slot = stored.slot ∧
      stored'.record.data = stored.record.data ∧
        ((∀ r ∈ transactionLog σ.appended xid, ¬ r.body.Deletes oid rid) →
          stored'.record.header = stored.record.header)

/-- A row of another transaction that is not deleted by this one is not named by it. -/
theorem TableOk.not_names (ok : TableOk dbOid oid pages σ) (hactive : (σ.log.att.find? xid).isSome)
    {rid : Rid} {stored : StoredRecord} (hrow : σ.rows dbOid oid pages rid = some stored)
    (hxmin : stored.record.header.xmin ≠ xid) {r : LogRecord}
    (hr : r ∈ transactionLog σ.appended xid) (hdel : ¬ r.body.Deletes oid rid) :
    ¬ r.body.Names oid rid := by
  rintro (hins | hdel')
  · obtain ⟨stored', hrow', hxmin'⟩ := (ok.records xid hactive r hr).inserted rid hins
    cases hrow.symm.trans hrow'
    exact hxmin (hxmin'.trans (xid_of_mem_transactionLog hr))
  · exact hdel hdel'

/-- The rows of other transactions on the pages that stay. -/
theorem Undoes.keeps {σ₁ : Engine} (undoes : Undoes dbOid oid xid pages σ σ₁)
    (ok : TableOk dbOid oid pages σ) (hactive : (σ.log.att.find? xid).isSome)
    (own : OwnPages dbOid oid xid pages σ) : σ.KeepsOthers dbOid oid xid σ₁ := by
  intro rid stored hstored hxmin
  rw [ok.chain.hasRow_iff] at hstored
  have hkept : rid.pageId ∈ σ.pagesLeft oid xid pages := by
    by_contra hnot
    exact hxmin (own rid stored hnot hstored)
  have hrow := undoes.rows rid hkept
  rw [hstored] at hrow
  refine ⟨_, undoes.chain.hasRow_iff.mpr hrow, rfl, rfl, fun hdel => ?_⟩
  exact foldl_undoHeader_of_not_names (fun r hr => by
    have hr := List.mem_reverse.mp hr
    exact ok.not_names hactive hstored hxmin hr (hdel r hr)) _

theorem Ends.hasRow_iff {σ₁ : Engine} (ends : Ends xid σ₁ σ') (h : σ₁.Pages dbOid oid pages)
    {rid : Rid} {stored : StoredRecord} :
    σ'.HasRow dbOid oid rid stored ↔ σ₁.HasRow dbOid oid rid stored := by
  rw [h.hasRow_iff, (ends.pages_of h).hasRow_iff, ends.rows_eq]

/-- Transaction 1 fills the first page but for a few bytes, transaction 2 creates the
second one, and transaction 3 puts its row into the first one. -/
def ownPageOnly : List Op :=
  [.begin, .insert 1 10001 1 (List.replicate 200 7), .commit 1, .begin, .begin,
    .insert 2 10001 1 (List.replicate 100 7), .insert 3 10001 1 (List.replicate 2 7), .commit 3]

/-- The rollback of transaction 2 is a regular step that returns. -/
def canRollback (σ : Engine) : Bool :=
  (Op.rollback 2).checkRegular 10000 10001 2 σ ∧ (DatabaseEngine.rollback 2 σ).okAnd fun _ _ => true

/-- Transaction 1 fills the first page, transaction 2 creates the second one, and
transaction 3 puts a row there and commits. -/
def sharedPage : List Op :=
  [.begin, .insert 1 10001 1 (List.replicate 200 7), .commit 1, .begin, .begin,
    .insert 2 10001 1 (List.replicate 100 7), .insert 3 10001 1 (List.replicate 50 7), .commit 3]

/-- The row of transaction 3 is there, and the rollback of transaction 2 takes its page
out. -/
def losesRow (σ : Engine) : Bool :=
  σ.walkPages 10000 10001 2 = some [0, 1] ∧
    ((σ.view 10000 ⟨10001, 1⟩).bind fun page => page.slots 1).any
      (fun stored => stored.record.header.xmin = 3) ∧
    (DatabaseEngine.rollback 2 σ).okAnd fun _ σ' => σ'.walkPages 10000 10001 2 = some [0]

end HuaDB
