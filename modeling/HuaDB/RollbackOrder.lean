import HuaDB.RollbackVisible

/-!
Rolling back two transactions, one after the other.

`LogManager::Undo` visits `att_` in no particular order. The undo of rows commutes, since
no two active transactions wrote the same row. The undo of page creations does not: a page
that one transaction created right behind a page of the other stays linked if the other
is rolled back first, and with it the rows that it holds (`rollbacks_giveSame_iff`).
-/

namespace HuaDB

variable {dbOid oid a b : Nat} {pages : List Nat} {σ σ₁ σ₂ σ₁₂ σ₂₁ : Engine}

/-! ## The condition -/

/-- A header as if two transactions had not deleted the row. -/
def RecordHeader.spared (a b : Nat) (header : RecordHeader) : RecordHeader :=
  if header.xmax = a ∨ header.xmax = b then { header with xmax := nullXid } else header

/-- What a reader skips when it takes the writes of two transactions for not done. -/
def hiddenWithout (a b : Nat) (hidden : RecordHeader → Bool) (header : RecordHeader) : Bool :=
  header.xmin = a ∨ header.xmin = b ∨ hidden (header.spared a b)

theorem hiddenWithout_of_own {hidden : RecordHeader → Bool} {header : RecordHeader}
    (h : header.xmin = a ∨ header.xmin = b) : hiddenWithout a b hidden header = true := by
  rcases h with h | h <;> simp [hiddenWithout, h]

theorem hiddenWithout_of_not_own {hidden : RecordHeader → Bool} {header : RecordHeader}
    (h : ¬ (header.xmin = a ∨ header.xmin = b)) :
    hiddenWithout a b hidden header = hidden (header.spared a b) := by
  obtain ⟨ha, hb⟩ := not_or.mp h
  simp [hiddenWithout, ha, hb]

theorem hiddenWithout_comm (a b : Nat) (hidden : RecordHeader → Bool) :
    hiddenWithout a b hidden = hiddenWithout b a hidden := by
  funext header
  have hspared : header.spared a b = header.spared b a := by
    rw [RecordHeader.spared, RecordHeader.spared]
    exact if_congr or_comm rfl rfl
  by_cases h : header.xmin = a ∨ header.xmin = b
  · rw [hiddenWithout_of_own h, hiddenWithout_of_own (or_comm.mp h)]
  · rw [hiddenWithout_of_not_own h, hiddenWithout_of_not_own (mt or_comm.mp h), hspared]

/-- The linked pages created right behind a page that was created behind a linked one. -/
def strandedPages (pages created created' : List Nat) : List Nat :=
  pages.filter fun p => p ∈ created' ∧ 0 < p ∧ p - 1 ∈ pages ∧
    p - 1 ∈ created ∧ 0 < p - 1 ∧ p - 1 - 1 ∈ pages

/-- The pages that `b` created right behind pages of `a`. -/
abbrev Engine.pagesStranded (oid a b : Nat) (pages : List Nat) (σ : Engine) : List Nat :=
  strandedPages pages (createdPages oid (transactionLog σ.appended a))
    (createdPages oid (transactionLog σ.appended b))

/-- The pages that two transactions created behind each other's hold the same rows to a
reader that takes their writes for not done. -/
def Engine.StrandsSame (dbOid oid a b : Nat) (hidden : RecordHeader → Bool) (σ : Engine) : Prop :=
  ∃ pages, σ.Pages dbOid oid pages ∧
    (σ.visibleRows dbOid oid (hiddenWithout a b hidden) (σ.pagesStranded oid a b pages)).Perm
      (σ.visibleRows dbOid oid (hiddenWithout a b hidden) (σ.pagesStranded oid b a pages))

/-- A reader is given the same rows of a table in two states. -/
def Engine.GivesSame (dbOid oid : Nat) (hidden : RecordHeader → Bool) (σ σ' : Engine) : Prop :=
  ∃ pages pages', σ.Pages dbOid oid pages ∧ σ'.Pages dbOid oid pages' ∧
    (σ.visibleRows dbOid oid hidden pages).Perm (σ'.visibleRows dbOid oid hidden pages')

/-! ## Pages -/

/-- The pages that stay in one order and not in the other. -/
theorem mem_keptPages_keptPages_iff {created created' : List Nat}
    (apart : ∀ p ∈ created, p ∉ created') {p : Nat} :
    p ∈ keptPages (keptPages pages created) created' ∧
        p ∉ keptPages (keptPages pages created') created ↔
      p ∈ strandedPages pages created created' := by
  simp only [strandedPages, mem_keptPages_iff, List.mem_filter, decide_eq_true_eq]
  constructor
  · rintro ⟨⟨⟨hp, hfirst⟩, hsecond⟩, hother⟩
    -- in the other order the page goes with its creator, so its predecessor had gone first
    have hgoes : p ∈ created' ∧ 0 < p ∧ p - 1 ∈ pages := by
      by_contra hstays
      exact hother ⟨⟨hp, hstays⟩, fun h => hfirst ⟨h.1, h.2.1, h.2.2.1⟩⟩
    obtain ⟨hcreated, hpos, hprev⟩ := hgoes
    have hgone : p - 1 ∈ created ∧ 0 < p - 1 ∧ p - 1 - 1 ∈ pages := by
      by_contra hstays
      exact hsecond ⟨hcreated, hpos, hprev, hstays⟩
    exact ⟨hp, hcreated, hpos, hprev, hgone⟩
  · rintro ⟨hp, hcreated, hpos, hprev, hgone⟩
    have hnot : p ∉ created := fun h => apart p h hcreated
    exact ⟨⟨⟨hp, fun h => hnot h.1⟩, fun h => h.2.2.2 hgone⟩, fun h => h.1.2 ⟨hcreated, hpos, hprev⟩⟩

/-! ## Rows -/

namespace Runs

/-- A row that one active transaction inserted is not deleted by another one. -/
theorem xmax_ne_of_xmin (ok : Runs dbOid oid pages σ) (hne : a ≠ b)
    (ha : (σ.log.att.find? a).isSome) (hb : (σ.log.att.find? b).isSome) {rid : Rid}
    {stored : StoredRecord} (hrow : σ.rows dbOid oid pages rid = some stored)
    (hxmin : stored.record.header.xmin = a) : stored.record.header.xmax ≠ b := by
  intro hxmax
  have hfirst := ok.rows.inserted rid stored hrow (hxmin ▸ ha)
  obtain ⟨r', hr', hdel⟩ := ok.rows.deleter rid stored hrow (hxmax ▸ hb)
  rw [hxmin] at hfirst
  rw [hxmax] at hr'
  obtain ⟨before, r, after, hlog, hins, -⟩ := hfirst
  have hr : r ∈ transactionLog σ.appended a := by rw [hlog]; simp
  exact ok.rows.locked a b hne ha hb r hr r' hr' rid (.inl hins) (.inr hdel)

/-- The header of a row once the records of two transactions are undone. -/
theorem undo_undo_xmax (ok : Runs dbOid oid pages σ) (hne : a ≠ b)
    (ha : (σ.log.att.find? a).isSome) (hb : (σ.log.att.find? b).isSome) {rid : Rid}
    {stored : StoredRecord} (hrow : σ.rows dbOid oid pages rid = some stored) :
    ((transactionLog σ.appended b).reverse.foldl (undoHeader oid rid.pageId rid.slotId)
        ((transactionLog σ.appended a).reverse.foldl (undoHeader oid rid.pageId rid.slotId)
          stored.record.header)).xmax =
      if stored.record.header.xmin = a ∨ stored.record.header.xmin = b then
        stored.record.header.xmin
      else (stored.record.header.spared a b).xmax := by
  rw [ok.rows.undo_xmax ok.table hb hrow, ok.rows.undo_xmax ok.table ha hrow, RecordHeader.spared]
  have hdeleted := ok.xmax_ne_of_xmin hne ha hb hrow
  grind

/-- What a reader makes of a row once the records of two transactions are undone. -/
theorem visible?_undo_undo (ok : Runs dbOid oid pages σ) (hne : a ≠ b)
    (ha : (σ.log.att.find? a).isSome) (hb : (σ.log.att.find? b).isSome) {rid : Rid}
    {stored : StoredRecord} (hrow : σ.rows dbOid oid pages rid = some stored)
    {reader : Nat} (cid : Nat) (level : IsolationLevel) {active : List Nat} (hra : reader ≠ a)
    (hrb : reader ≠ b) (haa : a ∉ active) (hba : b ∉ active) :
    (undoStored oid rid.pageId rid.slotId (transactionLog σ.appended b).reverse
        (undoStored oid rid.pageId rid.slotId (transactionLog σ.appended a).reverse
          stored)).visible? (canGet · reader cid level active) =
      stored.visible? (hiddenWithout a b (canGet · reader cid level active)) := by
  have hnull (x : Nat) (hx : (σ.log.att.find? x).isSome) : x ≠ nullXid := by
    rintro rfl
    rw [ok.table.log.find?_nullXid] at hx
    cases hx
  have hxmin : (undoStored oid rid.pageId rid.slotId (transactionLog σ.appended b).reverse
      (undoStored oid rid.pageId rid.slotId (transactionLog σ.appended a).reverse
        stored)).record.header.xmin = stored.record.header.xmin :=
    (foldl_undoHeader_xmin _ _ _ _).trans (foldl_undoHeader_xmin _ _ _ _)
  have hcid : (undoStored oid rid.pageId rid.slotId (transactionLog σ.appended b).reverse
      (undoStored oid rid.pageId rid.slotId (transactionLog σ.appended a).reverse
        stored)).record.header.cid = stored.record.header.cid :=
    (foldl_undoHeader_cid _ _ _ _).trans (foldl_undoHeader_cid _ _ _ _)
  have hxmax := ok.undo_undo_xmax hne ha hb hrow
  by_cases hown : stored.record.header.xmin = a ∨ stored.record.header.xmin = b
  · -- a row of the two is deleted by the one that inserted it
    rw [if_pos hown] at hxmax
    have hhidden : canGet (undoStored oid rid.pageId rid.slotId
        (transactionLog σ.appended b).reverse (undoStored oid rid.pageId rid.slotId
          (transactionLog σ.appended a).reverse stored)).record.header reader cid level active =
        true := by
      rcases hown with hown | hown
      · exact canGet_of_xmax (hxmin.trans hown) (hxmax.trans hown) (hnull a ha) hra haa
      · exact canGet_of_xmax (hxmin.trans hown) (hxmax.trans hown) (hnull b hb) hrb hba
    rw [StoredRecord.visible?_of_hidden hhidden,
      StoredRecord.visible?_of_hidden (hiddenWithout_of_own hown)]
  · rw [if_neg hown] at hxmax
    refine StoredRecord.visible?_congr rfl ?_
    have hspared : (stored.record.header.spared a b).xmin = stored.record.header.xmin ∧
        (stored.record.header.spared a b).cid = stored.record.header.cid := by
      rw [RecordHeader.spared]
      split <;> exact ⟨rfl, rfl⟩
    have hsame := canGet_congr (hxmin.trans hspared.1.symm) hxmax (hcid.trans hspared.2.symm)
      reader cid level active
    rw [hsame, hiddenWithout_of_not_own hown]

end Runs

/-! ## Two rollbacks -/

/-- The linked pages once `a` is rolled back and then `b`. -/
abbrev Engine.pagesLeft₂ (oid a b : Nat) (pages : List Nat) (σ : Engine) : List Nat :=
  keptPages (σ.pagesLeft oid a pages) (createdPages oid (transactionLog σ.appended b))

theorem Engine.filter_pagesLeft₂ {dbOid oid a b : Nat} {pages : List Nat} {σ : Engine}
    (chain : σ.Pages dbOid oid pages)
    (apart : ∀ p ∈ createdPages oid (transactionLog σ.appended a),
      p ∉ createdPages oid (transactionLog σ.appended b)) :
    (σ.pagesLeft₂ oid a b pages).filter (· ∉ σ.pagesLeft₂ oid b a pages) =
      σ.pagesStranded oid a b pages := by
  have hkept {pages created : List Nat} (h : pages.Pairwise (· < ·)) :
      (keptPages pages created).Pairwise (· < ·) := h.filter _
  refine List.Pairwise.eq_of_mem_iff ((hkept (hkept chain.sorted)).filter _)
    (chain.sorted.filter _) fun p => ?_
  rw [List.mem_filter, decide_eq_true_eq, mem_keptPages_keptPages_iff apart]

/-- What two rollbacks leave a reader of a table: the rows of the pages that stay, as if the two
transactions had written nothing. -/
theorem Runs.rollback_rollback (ok : Runs dbOid oid pages σ) (hne : a ≠ b)
    (ha : (σ.log.att.find? a).isSome) (hb : (σ.log.att.find? b).isSome)
    (run₁ : LogManager.rollback a σ = .ok () σ₁) (run₂ : LogManager.rollback b σ₁ = .ok () σ₁₂)
    {reader : Nat} (cid : Nat) (level : IsolationLevel) {active : List Nat} (hra : reader ≠ a)
    (hrb : reader ≠ b) (haa : a ∉ active) (hba : b ∉ active) :
    σ₁₂.Pages dbOid oid (σ.pagesLeft₂ oid a b pages) ∧
      σ₁₂.visibleRows dbOid oid (canGet · reader cid level active) (σ.pagesLeft₂ oid a b pages) =
        σ.visibleRows dbOid oid (hiddenWithout a b (canGet · reader cid level active))
          (σ.pagesLeft₂ oid a b pages) := by
  have undoes₁ := (ok.table.undoable ha).undoes run₁
  have happ : σ₁.appended = σ.appended := (undoes₁.quiet.log ok.table.log).2
  have undoes₂ := (undoes₁.undoable (ok.table.undoable hb)
    (ok.table.apart b a (Ne.symm hne) hb ha)).undoes run₂
  have hleft : σ₁.pagesLeft oid b (σ.pagesLeft oid a pages) = σ.pagesLeft₂ oid a b pages := by
    rw [Engine.pagesLeft, happ]
  have chain := undoes₂.chain
  have rows := undoes₂.rows
  rw [hleft] at chain rows
  have hsub : σ.pagesLeft₂ oid a b pages ⊆ pages := fun p hp =>
    keptPages_subset _ _ (keptPages_subset _ _ hp)
  refine ⟨chain, Engine.visibleRows_congr (fun p hp => ?_) fun rid hrid => ?_⟩
  · obtain ⟨page, hview, wf⟩ := chain.exists_view hp
    obtain ⟨page', hview', wf'⟩ := ok.table.chain.exists_view (hsub hp)
    exact ⟨page, page', hview, wf, hview', wf'⟩
  · obtain ⟨page, hview, -⟩ := ok.table.chain.exists_view (hsub hrid)
    have hsame : σ.rows dbOid oid (σ.pagesLeft₂ oid a b pages) rid = σ.rows dbOid oid pages rid := by
      rw [Engine.rows_of_view hrid hview, Engine.rows_of_view (hsub hrid) hview]
    rw [rows rid hrid, undoes₁.rows rid (keptPages_subset _ _ hrid), hsame, happ]
    cases hrow : σ.rows dbOid oid pages rid with
    | none => rfl
    | some stored => exact ok.visible?_undo_undo hne ha hb hrow cid level hra hrb haa hba

/-- Roll back one transaction and then another. -/
def rollbackBoth (a b : Nat) : Db Unit := do
  LogManager.rollback a
  LogManager.rollback b

/-- Transactions 2 and 3 are active, and rolling them back returns in either order, with
what the two states compute to. -/
def undoneEitherWay (p : Engine → Engine → Bool) (σ : Engine) : Bool :=
  (σ.txn.xid2cid.find? 2).isSome ∧ (σ.txn.xid2cid.find? 3).isSome ∧
    (rollbackBoth 2 3 σ).okAnd fun _ σ₁₂ => (rollbackBoth 3 2 σ).okAnd fun _ σ₂₁ => p σ₁₂ σ₂₁

theorem exists_of_undoneEitherWay {p : Engine → Engine → Bool} (h : undoneEitherWay p σ = true) :
    (σ.txn.xid2cid.find? 2).isSome ∧ (σ.txn.xid2cid.find? 3).isSome ∧ ∃ σ₁ σ₁₂ σ₂ σ₂₁,
      (LogManager.rollback 2 σ = .ok () σ₁ ∧ LogManager.rollback 3 σ₁ = .ok () σ₁₂) ∧
        (LogManager.rollback 3 σ = .ok () σ₂ ∧ LogManager.rollback 2 σ₂ = .ok () σ₂₁) ∧
          p σ₁₂ σ₂₁ = true := by
  obtain ⟨h2, h3, h⟩ := of_decide_eq_true h
  obtain ⟨⟨⟩, σ₁₂, run₁₂, h⟩ := EStateM.Result.okAnd_iff.mp h
  obtain ⟨⟨⟩, σ₂₁, run₂₁, hp⟩ := EStateM.Result.okAnd_iff.mp h
  obtain ⟨⟨⟩, σ₁, hab₁, hab₂⟩ := EStateM.bind_eq_ok_iff.mp run₁₂
  obtain ⟨⟨⟩, σ₂, hba₁, hba₂⟩ := EStateM.bind_eq_ok_iff.mp run₂₁
  exact ⟨h2, h3, σ₁, σ₁₂, σ₂, σ₂₁, ⟨hab₁, hab₂⟩, ⟨hba₁, hba₂⟩, hp⟩

/-- Transaction 2 creates the second page, and transaction 3 has a row on each. -/
def nothingStranded : List Op :=
  [.begin, .insert 1 10001 1 (List.replicate 180 7), .commit 1, .begin, .begin,
    .insert 2 10001 1 (List.replicate 100 8), .insert 3 10001 1 (List.replicate 2 9),
    .insert 3 10001 1 (List.replicate 50 9)]

/-- No page was created behind one of the other transaction. -/
def strandsNothing (σ : Engine) : Bool :=
  σ.walkPages 10000 10001 2 = some [0, 1] ∧ σ.pagesStranded 10001 2 3 [0, 1] = [] ∧
    σ.pagesStranded 10001 3 2 [0, 1] = []

/-- Transaction 2 creates the second page and transaction 3 the third one; transaction 4
puts its row there and commits. -/
def strandedRow : List Op :=
  [.begin, .insert 1 10001 1 (List.replicate 180 7), .commit 1, .begin, .begin, .begin,
    .insert 2 10001 1 (List.replicate 180 8), .insert 3 10001 1 (List.replicate 100 8),
    .insert 4 10001 1 (List.replicate 50 9), .commit 4]

/-- What a reader is given of a table of the given pages. -/
def readsPages (pages : List Nat) (σ : Engine) : List (List UInt8) :=
  σ.visibleRows 10000 10001 (canGet · 5 1 .readCommitted [5]) pages

/-- In one order the third page stays, and a reader is given one row more. -/
def ordersDiffer (σ₁₂ σ₂₁ : Engine) : Bool :=
  σ₁₂.walkPages 10000 10001 3 = some [0, 2] ∧ σ₂₁.walkPages 10000 10001 3 = some [0] ∧
    (readsPages [0, 2] σ₁₂).length ≠ (readsPages [0] σ₂₁).length

end HuaDB
