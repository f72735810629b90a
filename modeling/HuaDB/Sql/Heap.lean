import HuaDB.Sql.ExecuteSql
import HuaDB.TableView

/-!
The rows of a table as its pages hold them.

`Heap` is what one table stores: its first page and the pages. `Heap.rest` lists the
rows that a scan whose `rid_` stands somewhere has yet to come to, and `Heap.rows`
those of the whole table. The links of a sound heap ascend, so following them ends,
and facts about what is reached from a page go by `Heap.Ok.induct`.
-/

namespace HuaDB

open Sql (Tuple)

/-! ## Pages as lists of records -/

namespace TablePage

/-- The records of a page from a slot on, with their places. -/
def tuples (page : TablePage) (pageId slotId : Nat) : List Tuple :=
  (List.range' slotId (page.getRecordCount - slotId)).filterMap fun s =>
    (page.getRecord s).map fun found => ⟨found, ⟨pageId, s⟩⟩

variable {page : TablePage} {pageId slotId : Nat}

theorem tuples_of_le (h : page.getRecordCount ≤ slotId) : page.tuples pageId slotId = [] := by
  simp [tuples, Nat.sub_eq_zero_of_le h]

theorem tuples_of_lt {found : Record} (h : slotId < page.getRecordCount)
    (hfound : page.getRecord slotId = some found) :
    page.tuples pageId slotId = ⟨found, ⟨pageId, slotId⟩⟩ :: page.tuples pageId (slotId + 1) := by
  have hlen : page.getRecordCount - slotId = page.getRecordCount - (slotId + 1) + 1 := by omega
  rw [tuples, hlen, List.range'_succ, List.filterMap_cons, hfound]
  rfl

/-- A tuple of a page knows its place. -/
theorem tuples_append (pageId : Nat) (h : slotId ≤ page.getRecordCount) :
    ∃ before, page.tuples pageId 0 = before ++ page.tuples pageId slotId := by
  have hrange : List.range' 0 page.getRecordCount =
      List.range' 0 slotId ++ List.range' (0 + slotId) (page.getRecordCount - slotId) := by
    rw [List.range'_append_1, Nat.add_sub_cancel' h]
  rw [tuples, Nat.sub_zero, hrange, List.filterMap_append, Nat.zero_add]
  exact ⟨_, rfl⟩

theorem mem_tuples {tuple : Tuple} (h : tuple ∈ page.tuples pageId slotId) :
    tuple.rid.pageId = pageId ∧ slotId ≤ tuple.rid.slotId ∧
      tuple.rid.slotId < page.getRecordCount ∧
      page.getRecord tuple.rid.slotId = some tuple.record := by
  rcases List.mem_filterMap.mp h with ⟨s, hs, hfound⟩
  rcases Option.map_eq_some_iff.mp hfound with ⟨found, hget, rfl⟩
  rw [List.mem_range'_1] at hs
  exact ⟨rfl, hs.1, by change s < _; omega, hget⟩

theorem tuples_congr {page' : TablePage} (hcount : page'.getRecordCount = page.getRecordCount)
    (hslots : page'.slots = page.slots) : page'.tuples pageId slotId = page.tuples pageId slotId := by
  simp only [tuples, hcount, getRecord, hslots]

theorem nodup_tuples : ((page.tuples pageId slotId).map Tuple.rid).Nodup := by
  rw [tuples, List.map_filterMap]
  apply List.Nodup.filterMap _ List.nodup_range'
  intro s s' rid hs hs'
  simp only [Option.map_map, Option.mem_def, Option.map_eq_some_iff] at hs hs'
  rcases hs with ⟨_, -, rfl⟩
  rcases hs' with ⟨_, -, heq⟩
  exact (congrArg Rid.slotId heq).symm

namespace WellFormed

theorem exists_getRecord (wf : page.WellFormed) (h : slotId < page.getRecordCount) :
    ∃ found, page.getRecord slotId = some found := by
  rcases Option.isSome_iff_exists.mp ((wf.slots slotId).mpr h) with ⟨stored, hstored⟩
  exact ⟨stored.record, by rw [getRecord, hstored]; rfl⟩

theorem length_tuples (wf : page.WellFormed) :
    (page.tuples pageId slotId).length = page.getRecordCount - slotId := by
  generalize hn : page.getRecordCount - slotId = n
  induction n generalizing slotId with
  | zero =>
      rw [tuples_of_le (Nat.sub_eq_zero_iff_le.mp hn)]
      rfl
  | succ n ih =>
      have hlt : slotId < page.getRecordCount := by omega
      rcases wf.exists_getRecord hlt with ⟨found, hfound⟩
      rw [tuples_of_lt hlt hfound, List.length_cons, ih (by omega)]

/-- A record that fits comes after the others. -/
theorem tuples_insertRecord (wf : page.WellFormed) {newRecord : Record}
    (hpos : 0 < newRecord.getSize) (hfree : newRecord.getSize ≤ page.getFreeSpaceSize)
    (xid cid pageId : Nat) {slotId : Nat} (hslot : slotId ≤ page.getRecordCount) :
    (page.insertRecord newRecord xid cid).2.2.tuples pageId slotId =
      page.tuples pageId slotId ++
        [⟨(page.insertRecord newRecord xid cid).2.1, ⟨pageId, page.getRecordCount⟩⟩] := by
  rcases wf.insertRecord hpos hfree xid cid with ⟨-, hslotId, hcount⟩
  rcases wf.slots_insertRecord hpos hfree xid cid with ⟨slot, hslots⟩
  rw [hslotId] at hslots
  generalize (page.insertRecord newRecord xid cid).2.1 = stamped at hslots ⊢
  generalize (page.insertRecord newRecord xid cid).2.2 = page' at hslots hcount ⊢
  have hold : (List.range' slotId (page.getRecordCount - slotId)).filterMap
      (fun s => (page'.getRecord s).map fun found => (⟨found, ⟨pageId, s⟩⟩ : Tuple)) =
        page.tuples pageId slotId := by
    apply List.filterMap_congr
    intro s hs
    rw [List.mem_range'_1] at hs
    rw [getRecord, hslots, if_neg (by omega), getRecord]
  have hnew : page'.getRecord page.getRecordCount = some stamped := by
    rw [getRecord, hslots, if_pos rfl]
    rfl
  have hlen : page.getRecordCount + 1 - slotId = page.getRecordCount - slotId + 1 := by omega
  rw [tuples, hcount, hlen, List.range'_concat, List.filterMap_append, hold, Nat.one_mul,
    Nat.add_sub_cancel' hslot, List.filterMap_cons, hnew]
  rfl

end WellFormed

/-- A page with one record more. -/
structure Takes (page page' : TablePage) (pageId : Nat) (new : Tuple) : Prop where
  wellFormed : page'.WellFormed
  nextPageId : page'.nextPageId = page.nextPageId
  count : page'.getRecordCount = page.getRecordCount + 1
  rid : new.rid = ⟨pageId, page.getRecordCount⟩
  tuples : ∀ slotId ≤ page.getRecordCount,
    page'.tuples pageId slotId = page.tuples pageId slotId ++ [new]

theorem WellFormed.takes (wf : page.WellFormed) {newRecord : Record} (hpos : 0 < newRecord.getSize)
    (hfree : newRecord.getSize ≤ page.getFreeSpaceSize) (xid cid pageId : Nat) :
    Takes page (page.insertRecord newRecord xid cid).2.2 pageId
      ⟨(page.insertRecord newRecord xid cid).2.1, ⟨pageId, page.getRecordCount⟩⟩ where
  wellFormed := (wf.insertRecord hpos hfree xid cid).1
  nextPageId := rfl
  count := (wf.insertRecord hpos hfree xid cid).2.2
  rid := rfl
  tuples _ := wf.tuples_insertRecord hpos hfree xid cid pageId

/-- What a record becomes when its header is rewritten. -/
def rewrite (rid : Rid) (f : RecordHeader → RecordHeader) (tuple : Tuple) : Tuple :=
  if tuple.rid = rid then { tuple with record := { tuple.record with header := f tuple.record.header } }
  else tuple

theorem tuples_modifyHeader {page' : TablePage} {s : Nat} {f : RecordHeader → RecordHeader}
    (run : page.modifyHeader s f = some page') :
    page'.tuples pageId slotId = (page.tuples pageId slotId).map (rewrite ⟨pageId, s⟩ f) := by
  rcases Option.map_eq_some_iff.mp run with ⟨stored, hstored, rfl⟩
  rw [tuples, tuples, List.map_filterMap]
  apply List.filterMap_congr
  intro i _
  simp only [getRecord, setSlot, Option.map_map]
  by_cases hi : i = s
  · rw [if_pos hi, hi, hstored]
    simp [rewrite]
  · rw [if_neg hi]
    cases page.slots i with
    | none => rfl
    | some found => simp [rewrite, hi]

end TablePage

/-! ## Heaps -/

/-- What a table stores. -/
structure Heap where
  first : Nat
  page : Nat → Option TablePage

namespace Heap

/-- The rows from a place on, through at most so many pages. -/
def restFrom (h : Heap) : Nat → Rid → List Tuple
  | 0, _ => []
  | fuel + 1, rid =>
      if rid.pageId = nullPageId then
        []
      else
        match h.page rid.pageId with
        | none => []
        | some page =>
            page.tuples rid.pageId rid.slotId ++ restFrom h fuel ⟨page.nextPageId, 0⟩

/-- The rows from a place on. -/
def rest (h : Heap) (rid : Rid) : List Tuple := h.restFrom (2 ^ 32) rid

/-- The rows of the table, in the order of a scan. -/
def rows (h : Heap) : List Tuple := h.rest ⟨h.first, 0⟩

def setPage (h : Heap) (pageId : Nat) (page : TablePage) : Heap :=
  { h with page := fun p => if p = pageId then some page else h.page p }

/-- Where a link may lead. -/
def Holds (h : Heap) (pageId : Nat) : Prop := pageId = nullPageId ∨ (h.page pageId).isSome

/-- Links ascend and lead to pages that are there; no page is empty. -/
structure Ok (h : Heap) : Prop where
  wellFormed : ∀ p page, h.page p = some page → page.WellFormed
  nonempty : ∀ p page, h.page p = some page → 0 < page.getRecordCount
  bound : ∀ p page, h.page p = some page → p ≤ nullPageId
  link : ∀ p page, h.page p = some page →
    page.nextPageId = nullPageId ∨ p < page.nextPageId ∧ (h.page page.nextPageId).isSome
  first : h.Holds h.first

/-- One page links to another. -/
def Link (h : Heap) (p q : Nat) : Prop :=
  p ≠ nullPageId ∧ ∃ page, h.page p = some page ∧ page.nextPageId = q

def Reaches (h : Heap) : Nat → Nat → Prop := Relation.ReflTransGen h.Link

/-- There is a record. -/
def At (h : Heap) (rid : Rid) : Prop :=
  ∃ page, h.page rid.pageId = some page ∧ rid.slotId < page.getRecordCount

/-- Where a scan may stand: past the end, or at a record of a page of the table. -/
def Place (h : Heap) (rid : Rid) : Prop :=
  rid.pageId = nullPageId ∨ h.Reaches h.first rid.pageId ∧ h.At rid

variable {h : Heap} {p : Nat} {page : TablePage}

theorem Ok.le_of_holds (ok : h.Ok) (holds : h.Holds p) : p ≤ nullPageId := by
  rcases holds with rfl | hsome
  · exact Nat.le_refl _
  · rcases Option.isSome_iff_exists.mp hsome with ⟨page, hpage⟩
    exact ok.bound p page hpage

theorem Ok.holds_next (ok : h.Ok) (hpage : h.page p = some page) : h.Holds page.nextPageId := by
  rcases ok.link p page hpage with hnull | ⟨-, hsome⟩
  · exact .inl hnull
  · exact .inr hsome

theorem Ok.lt_next (ok : h.Ok) (hp : p ≠ nullPageId) (hpage : h.page p = some page) :
    p < page.nextPageId := by
  rcases ok.link p page hpage with hnull | ⟨hlt, -⟩
  · have hle := ok.bound p page hpage
    omega
  · exact hlt

/-- Induction along the links. -/
theorem Ok.induct (ok : h.Ok) {C : Nat → Prop} (null : C nullPageId)
    (stored : ∀ p page, p ≠ nullPageId → h.page p = some page → C page.nextPageId → C p)
    (p : Nat) (holds : h.Holds p) : C p := by
  induction hn : nullPageId - p using Nat.strongRecOn generalizing p with
  | ind n ih =>
      by_cases hp : p = nullPageId
      · exact hp ▸ null
      · rcases holds with hnull | hsome
        · exact absurd hnull hp
        · rcases Option.isSome_iff_exists.mp hsome with ⟨page, hpage⟩
          have hlt := ok.lt_next hp hpage
          have hnext := ok.holds_next hpage
          have hle := ok.le_of_holds hnext
          exact stored p page hp hpage (ih _ (by omega) page.nextPageId hnext rfl)

/-! ## The rest of a scan -/

theorem restFrom_null (fuel slotId : Nat) : h.restFrom fuel ⟨nullPageId, slotId⟩ = [] := by
  cases fuel with
  | zero => rfl
  | succ fuel => exact if_pos rfl

theorem restFrom_succ (fuel slotId : Nat) (hp : p ≠ nullPageId) (hpage : h.page p = some page) :
    h.restFrom (fuel + 1) ⟨p, slotId⟩ =
      page.tuples p slotId ++ h.restFrom fuel ⟨page.nextPageId, 0⟩ := by
  rw [restFrom, if_neg hp]
  simp only [hpage]

/-- More pages than there are do not matter. -/
theorem Ok.restFrom_eq (ok : h.Ok) (holds : h.Holds p) {fuel fuel' : Nat} (slotId : Nat)
    (hfuel : nullPageId - p < fuel) (hfuel' : nullPageId - p < fuel') :
    h.restFrom fuel ⟨p, slotId⟩ = h.restFrom fuel' ⟨p, slotId⟩ := by
  revert fuel fuel' slotId
  apply ok.induct _ _ p holds
  · intro fuel fuel' slotId _ _
    rw [restFrom_null, restFrom_null]
  · intro p page hp hpage ih fuel fuel' slotId hfuel hfuel'
    have hlt := ok.lt_next hp hpage
    have hle := ok.le_of_holds (ok.holds_next hpage)
    rcases Nat.exists_eq_succ_of_ne_zero (Nat.ne_of_gt (Nat.zero_lt_of_lt hfuel)) with ⟨n, rfl⟩
    rcases Nat.exists_eq_succ_of_ne_zero (Nat.ne_of_gt (Nat.zero_lt_of_lt hfuel')) with ⟨m, rfl⟩
    rw [Nat.succ_eq_add_one, Nat.succ_eq_add_one, restFrom_succ n _ hp hpage,
      restFrom_succ m _ hp hpage]
    exact congrArg _ (ih 0 (by omega) (by omega))

@[simp] theorem rest_null (slotId : Nat) : h.rest ⟨nullPageId, slotId⟩ = [] := restFrom_null _ _

theorem rest_of_null {rid : Rid} (hnull : rid.pageId = nullPageId) : h.rest rid = [] := by
  rcases rid with ⟨q, slotId⟩
  rw [show q = nullPageId from hnull, rest_null]

theorem Ok.rest_stored (ok : h.Ok) (hp : p ≠ nullPageId) (hpage : h.page p = some page)
    (slotId : Nat) : h.rest ⟨p, slotId⟩ = page.tuples p slotId ++ h.rest ⟨page.nextPageId, 0⟩ := by
  have hlt := ok.lt_next hp hpage
  have hle := ok.le_of_holds (ok.holds_next hpage)
  have hnull : nullPageId < 2 ^ 32 := by decide
  have hfuel : (2 ^ 32 : Nat) = (2 ^ 32 - 1) + 1 := by decide
  rw [rest, hfuel, restFrom_succ _ _ hp hpage]
  exact congrArg _ (ok.restFrom_eq (ok.holds_next hpage) 0 (by omega) (by omega))

/-- The row a scan comes to next. -/
theorem Ok.rest_cons (ok : h.Ok) {rid : Rid} {found : Record} (hp : rid.pageId ≠ nullPageId)
    (hpage : h.page rid.pageId = some page) (hslot : rid.slotId < page.getRecordCount)
    (hfound : page.getRecord rid.slotId = some found) :
    h.rest rid = ⟨found, rid⟩ :: h.rest (Sql.TableScan.advance page rid) := by
  rcases rid with ⟨p, s⟩
  rw [ok.rest_stored hp hpage, TablePage.tuples_of_lt hslot hfound, List.cons_append]
  congr 1
  rw [Sql.TableScan.advance]
  split
  · exact (ok.rest_stored hp hpage (s + 1)).symm
  · rename_i hlast
    rw [TablePage.tuples_of_le (Nat.le_of_not_lt hlast), List.nil_append]

theorem Ok.place_start (ok : h.Ok) (holds : h.Holds p) (reaches : h.Reaches h.first p) :
    h.Place ⟨p, 0⟩ := by
  rcases holds with hnull | hsome
  · exact .inl hnull
  · rcases Option.isSome_iff_exists.mp hsome with ⟨page, hpage⟩
    exact .inr ⟨reaches, page, hpage, ok.nonempty p page hpage⟩

theorem Ok.place_advance (ok : h.Ok) {rid : Rid} (hp : rid.pageId ≠ nullPageId)
    (reaches : h.Reaches h.first rid.pageId) (hpage : h.page rid.pageId = some page) :
    h.Place (Sql.TableScan.advance page rid) := by
  rw [Sql.TableScan.advance]
  split
  · exact .inr ⟨reaches, page, hpage, ‹_›⟩
  · exact ok.place_start (ok.holds_next hpage) (reaches.tail ⟨hp, page, hpage, rfl⟩)

/-! ## What is reached -/

theorem link_unique : Relator.RightUnique h.Link := by
  rintro a b c ⟨-, page, hpage, rfl⟩ ⟨-, page', hpage', rfl⟩
  cases hpage.symm.trans hpage'
  rfl

theorem Ok.le_of_reaches (ok : h.Ok) {q : Nat} (reaches : h.Reaches p q) : p ≤ q := by
  induction reaches with
  | refl => exact Nat.le_refl p
  | tail _ link ih =>
      rcases link with ⟨hne, page, hpage, rfl⟩
      exact Nat.le_trans ih (Nat.le_of_lt (ok.lt_next hne hpage))

theorem Ok.holds_of_reaches (ok : h.Ok) {q : Nat} (holds : h.Holds p) (reaches : h.Reaches p q) :
    h.Holds q := by
  induction reaches with
  | refl => exact holds
  | tail _ link _ =>
      rcases link with ⟨-, page, hpage, rfl⟩
      exact ok.holds_next hpage

theorem eq_of_reaches_null {q : Nat} (reaches : h.Reaches nullPageId q) : q = nullPageId := by
  rcases reaches.cases_head with heq | ⟨_, ⟨hne, -⟩, -⟩
  · exact heq.symm
  · exact absurd rfl hne

theorem Ok.holds_of_place (ok : h.Ok) {rid : Rid} (place : h.Place rid) : h.Holds rid.pageId := by
  rcases place with hnull | ⟨reaches, -⟩
  · exact .inl hnull
  · exact ok.holds_of_reaches ok.first reaches

/-- Where a scan of the whole table starts. -/
theorem Ok.place_first (ok : h.Ok) : h.Place ⟨h.first, 0⟩ := ok.place_start ok.first .refl

/-- Every page of a chain comes before its last one. -/
theorem reaches_last {q last : Nat} {page : TablePage} (hq : q ≠ nullPageId)
    (reaches : h.Reaches p q) (reaches' : h.Reaches p last) (hpage : h.page last = some page)
    (hnext : page.nextPageId = nullPageId) : h.Reaches q last := by
  rcases Relation.ReflTransGen.total_of_right_unique link_unique reaches reaches' with hto | hfrom
  · exact hto
  · rcases hfrom.cases_head with rfl | ⟨_, ⟨-, page', hpage', rfl⟩, hrest⟩
    · exact .refl
    · cases hpage.symm.trans hpage'
      rw [hnext] at hrest
      exact absurd (eq_of_reaches_null hrest) hq

/-! ## Writes -/

@[simp] theorem setPage_first (page : TablePage) : (h.setPage p page).first = h.first := rfl

@[simp] theorem setPage_page_self (page : TablePage) : (h.setPage p page).page p = some page :=
  if_pos rfl

theorem setPage_page_ne {q : Nat} (hq : q ≠ p) (page : TablePage) :
    (h.setPage p page).page q = h.page q := if_neg hq

theorem holds_setPage {q : Nat} (holds : h.Holds q) : (h.setPage p page).Holds q := by
  rcases holds with hnull | hsome
  · exact .inl hnull
  · apply Or.inr
    by_cases hq : q = p
    · rw [hq, setPage_page_self]
      rfl
    · rwa [setPage_page_ne hq]

/-- Writing a page that is sound by itself and links on. -/
theorem Ok.setPage (ok : h.Ok) (wf : page.WellFormed) (hcount : 0 < page.getRecordCount)
    (hp : p ≤ nullPageId)
    (hlink : page.nextPageId = nullPageId ∨ p < page.nextPageId ∧ (h.page page.nextPageId).isSome) :
    (h.setPage p page).Ok where
  wellFormed q page' hq := by
    by_cases hqp : q = p
    · rw [hqp, setPage_page_self] at hq
      cases hq
      exact wf
    · exact ok.wellFormed q page' (setPage_page_ne hqp page ▸ hq)
  nonempty q page' hq := by
    by_cases hqp : q = p
    · rw [hqp, setPage_page_self] at hq
      cases hq
      exact hcount
    · exact ok.nonempty q page' (setPage_page_ne hqp page ▸ hq)
  bound q page' hq := by
    by_cases hqp : q = p
    · exact hqp ▸ hp
    · exact ok.bound q page' (setPage_page_ne hqp page ▸ hq)
  link q page' hq := by
    have hlinks : page'.nextPageId = nullPageId ∨
        q < page'.nextPageId ∧ (h.page page'.nextPageId).isSome := by
      by_cases hqp : q = p
      · rw [hqp, setPage_page_self] at hq
        cases hq
        exact hqp ▸ hlink
      · exact ok.link q page' (setPage_page_ne hqp page ▸ hq)
    rcases hlinks with hnull | ⟨hlt, hsome⟩
    · exact .inl hnull
    · rcases holds_setPage (.inr hsome) with hnull | hsome'
      · exact .inl hnull
      · exact .inr ⟨hlt, hsome'⟩
  first := holds_setPage ok.first

/-- A page that keeps its link changes no link. -/
theorem reaches_setPage {page' : TablePage} (hpage : h.page p = some page)
    (hnext : page'.nextPageId = page.nextPageId) : (h.setPage p page').Reaches = h.Reaches := by
  have hlink : (h.setPage p page').Link = h.Link := by
    funext a b
    by_cases ha : a = p
    · rw [Link, Link, ha, setPage_page_self, hpage]
      simp [hnext]
    · rw [Link, Link, setPage_page_ne ha]
  rw [Reaches, Reaches, hlink]

/-- The rest of a scan is read off the pages from there on. -/
theorem Ok.rest_congr {h' : Heap} (ok : h.Ok) (ok' : h'.Ok) (holds : h.Holds p)
    (hpages : ∀ q, p ≤ q → h'.page q = h.page q) (slotId : Nat) :
    h'.rest ⟨p, slotId⟩ = h.rest ⟨p, slotId⟩ := by
  revert slotId hpages
  apply ok.induct _ _ p holds
  · intro _ slotId
    rw [rest_null, rest_null]
  · intro p page hp hpage ih hpages slotId
    have hlt := ok.lt_next hp hpage
    rw [ok.rest_stored hp hpage, ok'.rest_stored hp ((hpages p (Nat.le_refl p)).trans hpage),
      ih fun q hq => hpages q (by omega)]

/-! ### Headers -/

section Header

variable {s : Nat} {f : RecordHeader → RecordHeader} {page' : TablePage}

theorem nextPageId_modifyHeader (run : page.modifyHeader s f = some page') :
    page'.nextPageId = page.nextPageId := by
  rcases Option.map_eq_some_iff.mp run with ⟨stored, -, rfl⟩
  rfl

theorem getRecordCount_modifyHeader (run : page.modifyHeader s f = some page') :
    page'.getRecordCount = page.getRecordCount := by
  rcases Option.map_eq_some_iff.mp run with ⟨stored, -, rfl⟩
  rfl

variable (ok : h.Ok) (hpage : h.page p = some page) (run : page.modifyHeader s f = some page')
include ok hpage run

theorem Ok.modifyHeader : (h.setPage p page').Ok := by
  apply ok.setPage ((ok.wellFormed p page hpage).modifyHeader run) _ (ok.bound p page hpage)
  · rw [nextPageId_modifyHeader run]
    exact ok.link p page hpage
  · rw [getRecordCount_modifyHeader run]
    exact ok.nonempty p page hpage

theorem Ok.rest_modifyHeader {q : Nat} (holds : h.Holds q) (slotId : Nat) :
    (h.setPage p page').rest ⟨q, slotId⟩ =
      (h.rest ⟨q, slotId⟩).map (TablePage.rewrite ⟨p, s⟩ f) := by
  have ok' := ok.modifyHeader hpage run
  revert slotId
  apply ok.induct _ _ q holds
  · intro slotId
    rw [rest_null, rest_null, List.map_nil]
  · intro q pageq hq hpageq ih slotId
    rw [ok.rest_stored hq hpageq, List.map_append, ← ih]
    by_cases hqp : q = p
    · cases hqp
      cases hpage.symm.trans hpageq
      rw [ok'.rest_stored hq (setPage_page_self page'), nextPageId_modifyHeader run,
        TablePage.tuples_modifyHeader run]
    · have hother : (pageq.tuples q slotId).map (TablePage.rewrite ⟨p, s⟩ f) =
          pageq.tuples q slotId := by
        rw [List.map_congr_left (g := id), List.map_id]
        intro tuple htuple
        apply if_neg
        rintro heq
        exact hqp ((TablePage.mem_tuples htuple).1.symm.trans (congrArg Rid.pageId heq))
      rw [ok'.rest_stored hq ((setPage_page_ne hqp page').trans hpageq), hother]

omit ok in
theorem at_modifyHeader {rid : Rid} (hat : h.At rid) : (h.setPage p page').At rid := by
  rcases hat with ⟨pageq, hpageq, hslot⟩
  by_cases hq : rid.pageId = p
  · rw [hq, hpage] at hpageq
    cases hpageq
    rw [← getRecordCount_modifyHeader run] at hslot
    exact ⟨page', hq ▸ setPage_page_self page', hslot⟩
  · exact ⟨pageq, (setPage_page_ne hq page').trans hpageq, hslot⟩

omit ok in
theorem place_modifyHeader {rid : Rid} (place : h.Place rid) : (h.setPage p page').Place rid := by
  rcases place with hnull | ⟨reaches, hat⟩
  · exact .inl hnull
  · rw [Place, setPage_first, reaches_setPage hpage (nextPageId_modifyHeader run)]
    exact .inr ⟨reaches, at_modifyHeader hpage run hat⟩

end Header

/-- What stands under the null page number is in no scan. -/
theorem Ok.rest_setPage_null (ok : h.Ok) (ok' : (h.setPage nullPageId page).Ok) {q : Nat}
    (holds : h.Holds q) (slotId : Nat) :
    (h.setPage nullPageId page).rest ⟨q, slotId⟩ = h.rest ⟨q, slotId⟩ := by
  revert slotId
  apply ok.induct _ _ q holds
  · intro slotId
    rw [rest_null, rest_null]
  · intro q pageq hq hpageq ih slotId
    rw [ok.rest_stored hq hpageq, ok'.rest_stored hq ((setPage_page_ne hq page).trans hpageq), ih]

/-! ### New records -/

/-- The rows with a new one somewhere among them. -/
def InsertedIn (new : Tuple) (l l' : List Tuple) : Prop :=
  ∃ pre post, l = pre ++ post ∧ l' = pre ++ new :: post

theorem InsertedIn.append_left {new : Tuple} {l l' : List Tuple} (h : InsertedIn new l l')
    (before : List Tuple) : InsertedIn new (before ++ l) (before ++ l') := by
  rcases h with ⟨pre, post, rfl, rfl⟩
  exact ⟨before ++ pre, post, (List.append_assoc _ _ _).symm, (List.append_assoc _ _ _).symm⟩

/-- What a write does that adds one record: every scan under way goes on, and comes
to the new record or not; a scan of the whole table comes to it. -/
structure Adds (h h' : Heap) (new : Tuple) : Prop where
  ok : h'.Ok
  place : ∀ rid, h.Place rid → h'.Place rid
  rest : ∀ rid, h.Place rid → h'.rest rid = h.rest rid ∨ InsertedIn new (h.rest rid) (h'.rest rid)
  rows : InsertedIn new h.rows h'.rows

/-- A record added in the rest from one page on is added in the rest from every page
before it. -/
theorem Ok.inserted_of_reaches {h' : Heap} {new : Tuple} {target : Nat} (ok : h.Ok) (ok' : h'.Ok)
    (htarget : target ≠ nullPageId)
    (hpages : ∀ q, h.Reaches q target → q ≠ target → h'.page q = h.page q)
    (hnew : ∀ slotId, h.At ⟨target, slotId⟩ →
      InsertedIn new (h.rest ⟨target, slotId⟩) (h'.rest ⟨target, slotId⟩))
    (reaches : h.Reaches p target) {slotId : Nat} (hat : h.At ⟨p, slotId⟩) :
    InsertedIn new (h.rest ⟨p, slotId⟩) (h'.rest ⟨p, slotId⟩) := by
  induction reaches using Relation.ReflTransGen.head_induction_on generalizing slotId with
  | refl => exact hnew slotId hat
  | @head q _ link reaches ih =>
      by_cases hq : q = target
      · exact hq ▸ hnew slotId (hq ▸ hat)
      · rcases link with ⟨hne, page, hpage, rfl⟩
        rw [ok.rest_stored hne hpage, ok'.rest_stored hne
          ((hpages q (.head ⟨hne, page, hpage, rfl⟩ reaches) hq).trans hpage)]
        apply InsertedIn.append_left
        rcases ok.link q page hpage with hnull | ⟨-, hsome⟩
        · rw [hnull] at reaches
          exact absurd (eq_of_reaches_null reaches) htarget
        · rcases Option.isSome_iff_exists.mp hsome with ⟨page', hpage'⟩
          exact ih ⟨page', hpage', ok.nonempty _ page' hpage'⟩

/-- A record in a page with room. -/
theorem Ok.adds_takes {page' : TablePage} {new : Tuple} (ok : h.Ok) (hp : p ≠ nullPageId)
    (reaches : h.Reaches h.first p) (hpage : h.page p = some page) (takes : page.Takes page' p new) :
    h.Adds (h.setPage p page') new := by
  have ok' : (h.setPage p page').Ok := by
    apply ok.setPage takes.wellFormed _ (ok.bound p page hpage)
    · rw [takes.nextPageId]
      exact ok.link p page hpage
    · rw [takes.count]
      exact Nat.succ_pos _
  have hsame : ∀ q, q ≠ p → (h.setPage p page').page q = h.page q :=
    fun q hq => setPage_page_ne hq page'
  have hnew : ∀ slotId, h.At ⟨p, slotId⟩ →
      InsertedIn new (h.rest ⟨p, slotId⟩) ((h.setPage p page').rest ⟨p, slotId⟩) := by
    rintro slotId ⟨_, hpage', hslot⟩
    cases hpage.symm.trans hpage'
    have hlt := ok.lt_next hp hpage
    have hrest : (h.setPage p page').rest ⟨page.nextPageId, 0⟩ = h.rest ⟨page.nextPageId, 0⟩ :=
      ok.rest_congr ok' (ok.holds_next hpage) (fun q hq => hsame q (by omega)) 0
    rw [ok.rest_stored hp hpage, ok'.rest_stored hp (setPage_page_self page'), takes.nextPageId,
      hrest, takes.tuples slotId (Nat.le_of_lt hslot)]
    exact ⟨_, _, rfl, List.append_assoc _ _ _⟩
  have hreaches : ∀ {q}, h.Reaches q p → ∀ {slotId}, h.At ⟨q, slotId⟩ →
      InsertedIn new (h.rest ⟨q, slotId⟩) ((h.setPage p page').rest ⟨q, slotId⟩) :=
    fun reaches _ hat => ok.inserted_of_reaches ok' hp (fun q _ hq => hsame q hq) hnew reaches hat
  -- a scan that is past the page does not come to the record
  have hpast : ∀ q, h.Holds q → ¬ h.Reaches q p → ∀ slotId,
      (h.setPage p page').rest ⟨q, slotId⟩ = h.rest ⟨q, slotId⟩ := by
    intro q holds
    apply ok.induct _ _ q holds
    · intro _ slotId
      rw [rest_null, rest_null]
    · intro q pageq hq hpageq ih hnot slotId
      have hqp : q ≠ p := fun heq => hnot (heq ▸ .refl)
      rw [ok.rest_stored hq hpageq, ok'.rest_stored hq ((hsame q hqp).trans hpageq),
        ih fun hnext => hnot (.head ⟨hq, pageq, hpageq, rfl⟩ hnext)]
  constructor
  · exact ok'
  · rintro rid (hnull | ⟨hfirst, pageq, hpageq, hslot⟩)
    · exact .inl hnull
    · rw [Place, setPage_first, reaches_setPage hpage takes.nextPageId]
      by_cases hq : rid.pageId = p
      · rw [hq, hpage] at hpageq
        cases hpageq
        exact .inr ⟨hfirst, page', hq ▸ setPage_page_self page',
          Nat.lt_trans hslot (takes.count ▸ Nat.lt_succ_self _)⟩
      · exact .inr ⟨hfirst, pageq, (hsame _ hq).trans hpageq, hslot⟩
  · rintro rid (hnull | ⟨hfirst, hat⟩)
    · exact .inl ((rest_of_null hnull).trans (rest_of_null hnull).symm)
    · by_cases hto : h.Reaches rid.pageId p
      · exact .inr (hreaches hto hat)
      · exact .inl (hpast _ (ok.holds_of_reaches ok.first hfirst) hto rid.slotId)
  · have hne : h.first ≠ nullPageId := by
      intro hnull
      rw [hnull] at reaches
      exact hp (eq_of_reaches_null reaches)
    rcases ok.place_first with hnull | ⟨-, hat⟩
    · exact absurd hnull hne
    · exact hreaches reaches hat

/-- The first page. -/
theorem Ok.adds_first {page' : TablePage} {new : Tuple} (ok : h.Ok) (hfirst : h.first = nullPageId)
    (takes : TablePage.zero.init.Takes page' 0 new) :
    Adds h ({ h with first := 0 }.setPage 0 page') new := by
  have hcount : 0 < page'.getRecordCount := takes.count ▸ Nat.succ_pos _
  have hnext : page'.nextPageId = nullPageId := takes.nextPageId
  have ok' : (Heap.setPage { h with first := 0 } 0 page').Ok := by
    have ok₁ : (h.setPage 0 page').Ok :=
      ok.setPage takes.wellFormed hcount (Nat.zero_le _) (.inl hnext)
    exact ⟨ok₁.wellFormed, ok₁.nonempty, ok₁.bound, ok₁.link, .inr rfl⟩
  have hplace : ∀ rid, h.Place rid → rid.pageId = nullPageId := by
    rintro rid (hnull | ⟨reaches, -⟩)
    · exact hnull
    · rw [hfirst] at reaches
      exact eq_of_reaches_null reaches
  constructor
  · exact ok'
  · exact fun rid place => .inl (hplace rid place)
  · intro rid place
    exact .inl ((rest_of_null (hplace rid place)).trans (rest_of_null (hplace rid place)).symm)
  · have hrows : h.rows = [] := rest_of_null hfirst
    rw [hrows]
    exact ⟨[], [], rfl, by
      rw [rows, setPage_first, ok'.rest_stored (by decide) (setPage_page_self page'), hnext,
        rest_null, takes.tuples 0 (Nat.zero_le _)]
      rfl⟩

/-- A new page after the last one. -/
theorem Ok.adds_last {last : Nat} {page' : TablePage} {new : Tuple} (ok : h.Ok)
    (hlast : last + 1 < nullPageId) (reaches : h.Reaches h.first last)
    (hpage : h.page last = some page) (hnext : page.nextPageId = nullPageId)
    (takes : TablePage.zero.init.Takes page' (last + 1) new) :
    h.Adds ((h.setPage last (page.setNextPageId (last + 1))).setPage (last + 1) page') new := by
  have hne : last ≠ nullPageId := by omega
  have hcount : 0 < page'.getRecordCount := takes.count ▸ Nat.succ_pos _
  have hend : page'.nextPageId = nullPageId := takes.nextPageId
  have hlink : (page.setNextPageId (last + 1)).nextPageId = last + 1 := rfl
  have ok₁ : (h.setPage (last + 1) page').Ok :=
    ok.setPage takes.wellFormed hcount (Nat.le_of_lt hlast) (.inl hend)
  have ok₂ : ((h.setPage (last + 1) page').setPage last (page.setNextPageId (last + 1))).Ok := by
    apply ok₁.setPage ((ok.wellFormed last page hpage).setNextPageId (last + 1))
      (ok.nonempty last page hpage) (Nat.le_of_lt (Nat.lt_of_succ_lt hlast))
    exact .inr ⟨Nat.lt_succ_self last, by rw [hlink, setPage_page_self]; rfl⟩
  have hcomm : (h.setPage (last + 1) page').setPage last (page.setNextPageId (last + 1)) =
      (h.setPage last (page.setNextPageId (last + 1))).setPage (last + 1) page' := by
    simp only [Heap.setPage, Heap.mk.injEq, true_and]
    funext q
    by_cases hq : q = last
    · rw [if_pos hq, if_neg (by omega), if_pos hq]
    · rw [if_neg hq, if_neg hq]
  rw [hcomm] at ok₂
  generalize hh' : (h.setPage last (page.setNextPageId (last + 1))).setPage (last + 1) page' = h'
    at ok₂ ⊢
  have hfirst : h'.first = h.first := hh' ▸ rfl
  have hpage₁ : h'.page last = some (page.setNextPageId (last + 1)) := by
    rw [← hh', setPage_page_ne (Nat.ne_of_lt (Nat.lt_succ_self last)), setPage_page_self]
  have hpage₂ : h'.page (last + 1) = some page' := by rw [← hh', setPage_page_self]
  have hsame : ∀ q, h.Reaches q last → q ≠ last → h'.page q = h.page q := by
    intro q hq hne
    have hle := ok.le_of_reaches hq
    rw [← hh', setPage_page_ne (by omega), setPage_page_ne hne]
  -- the pages of the table lead to the last one
  have hto : ∀ q, q ≠ nullPageId → h.Reaches h.first q → h.Reaches q last :=
    fun q hq hfirst => reaches_last hq hfirst reaches hpage hnext
  have hinserted : ∀ {q}, h.Reaches q last → ∀ {slotId}, h.At ⟨q, slotId⟩ →
      InsertedIn new (h.rest ⟨q, slotId⟩) (h'.rest ⟨q, slotId⟩) := by
    intro q hq slotId hat
    apply ok.inserted_of_reaches ok₂ hne hsame _ hq hat
    rintro slotId ⟨_, hpage', hslot⟩
    cases hpage.symm.trans hpage'
    rw [ok.rest_stored hne hpage, hnext, rest_null, ok₂.rest_stored hne hpage₁, hlink,
      ok₂.rest_stored (Nat.ne_of_lt hlast) hpage₂, hend, rest_null, takes.tuples 0 (Nat.zero_le _)]
    exact ⟨page.tuples last slotId, [], rfl, rfl⟩
  have hreaches : ∀ q, q ≠ nullPageId → h.Reaches h.first q → h'.Reaches h'.first q := by
    intro q hq hpath
    rw [hfirst]
    induction hpath with
    | refl => exact .refl
    | @tail a b hpath link ih =>
        rcases link with ⟨ha, pagea, hpagea, rfl⟩
        apply (ih ha).tail ⟨ha, pagea, _, rfl⟩
        apply (hsame a (hto a ha hpath) _).trans hpagea
        rintro rfl
        cases hpage.symm.trans hpagea
        exact hq hnext
  constructor
  · exact ok₂
  · rintro rid (hnull | ⟨hpath, pageq, hpageq, hslot⟩)
    · exact .inl hnull
    · by_cases hq : rid.pageId = nullPageId
      · exact .inl hq
      · have hat : h'.At rid := by
          by_cases hqlast : rid.pageId = last
          · rw [hqlast, hpage] at hpageq
            cases hpageq
            exact ⟨page.setNextPageId (last + 1), (congrArg h'.page hqlast).trans hpage₁, hslot⟩
          · exact ⟨pageq, (hsame _ (hto _ hq hpath) hqlast).trans hpageq, hslot⟩
        exact .inr ⟨hreaches _ hq hpath, hat⟩
  · rintro rid (hnull | ⟨hpath, hat⟩)
    · exact .inl ((rest_of_null hnull).trans (rest_of_null hnull).symm)
    · by_cases hq : rid.pageId = nullPageId
      · exact .inl ((rest_of_null hq).trans (rest_of_null hq).symm)
      · exact .inr (hinserted (hto _ hq hpath) hat)
  · have hstart : h.first ≠ nullPageId := by
      intro hnull
      rw [hnull] at reaches
      exact hne (eq_of_reaches_null reaches)
    rcases ok.place_first with hnull | ⟨-, hat⟩
    · exact absurd hnull hstart
    · rw [rows, rows, hfirst]
      exact hinserted reaches hat

/-- What stands under the null page number moves no scan. -/
theorem Ok.setPage_null (ok : h.Ok) {page' : TablePage} (wf : page'.WellFormed)
    (hcount : 0 < page'.getRecordCount) (hnext : page'.nextPageId = nullPageId) :
    (h.setPage nullPageId page').Ok ∧
      (∀ rid, h.Place rid → (h.setPage nullPageId page').Place rid) ∧
      ∀ rid, h.Place rid → (h.setPage nullPageId page').rest rid = h.rest rid := by
  have ok' := ok.setPage wf hcount (Nat.le_refl nullPageId) (.inl hnext)
  have hlink : (h.setPage nullPageId page').Link = h.Link := by
    funext a b
    apply propext
    constructor
    · rintro ⟨ha, page, hpage, rfl⟩
      exact ⟨ha, page, setPage_page_ne ha page' ▸ hpage, rfl⟩
    · rintro ⟨ha, page, hpage, rfl⟩
      exact ⟨ha, page, (setPage_page_ne ha page').trans hpage, rfl⟩
  constructor
  · exact ok'
  constructor
  · rintro rid (hnull | ⟨reaches, page, hpage, hslot⟩)
    · exact .inl hnull
    · by_cases hp : rid.pageId = nullPageId
      · exact .inl hp
      · rw [Place, Reaches, hlink]
        exact .inr ⟨reaches, page, (setPage_page_ne hp page').trans hpage, hslot⟩
  · rintro rid (hnull | ⟨reaches, -⟩)
    · rw [rest_of_null hnull, rest_of_null hnull]
    · exact ok.rest_setPage_null ok' (ok.holds_of_reaches ok.first reaches) rid.slotId

/-- Taking a page out of the chain. -/
theorem Ok.unlink (ok : h.Ok) {prev : Nat} {prevPage : TablePage} (hprev : h.page prev = some prevPage)
    (hpage : h.page p = some page) (hlt : prev < p) :
    (h.setPage prev (prevPage.setNextPageId page.nextPageId)).Ok := by
  apply ok.setPage ((ok.wellFormed prev prevPage hprev).setNextPageId page.nextPageId)
    (ok.nonempty prev prevPage hprev) (ok.bound prev prevPage hprev)
  rcases ok.link p page hpage with hnull | ⟨hlt', hsome⟩
  · exact .inl hnull
  · exact .inr ⟨Nat.lt_trans hlt hlt', hsome⟩

theorem setPage_self (hpage : h.page p = some page) : h.setPage p page = h := by
  rcases h with ⟨first, pages⟩
  simp only [Heap.setPage, Heap.mk.injEq, true_and]
  funext q
  by_cases hq : q = p
  · rw [if_pos hq, hq]
    exact hpage.symm
  · exact if_neg hq

/-! ## The places of the rows -/

theorem Ok.mem_rest (ok : h.Ok) {q slotId : Nat} (holds : h.Holds q) {tuple : Tuple}
    (hmem : tuple ∈ h.rest ⟨q, slotId⟩) :
    tuple.rid.pageId ≠ nullPageId ∧ q ≤ tuple.rid.pageId ∧ ∃ page,
      h.page tuple.rid.pageId = some page ∧ tuple.rid.slotId < page.getRecordCount ∧
        page.getRecord tuple.rid.slotId = some tuple.record := by
  revert slotId hmem
  apply ok.induct _ _ q holds
  · intro slotId hmem
    rw [rest_null] at hmem
    cases hmem
  · intro q page hq hpage ih slotId hmem
    rw [ok.rest_stored hq hpage] at hmem
    rcases List.mem_append.mp hmem with hhere | hlater
    · rcases TablePage.mem_tuples hhere with ⟨rfl, -, hslot, hfound⟩
      exact ⟨hq, Nat.le_refl _, page, hpage, hslot, hfound⟩
    · rcases ih hlater with ⟨hne, hle, hfound⟩
      have hlt := ok.lt_next hq hpage
      exact ⟨hne, by omega, hfound⟩

/-- No place comes twice. -/
theorem Ok.nodup_rest (ok : h.Ok) {q : Nat} (holds : h.Holds q) (slotId : Nat) :
    ((h.rest ⟨q, slotId⟩).map Tuple.rid).Nodup := by
  revert slotId
  apply ok.induct _ _ q holds
  · intro slotId
    rw [rest_null]
    exact List.nodup_nil
  · intro q page hq hpage ih slotId
    rw [ok.rest_stored hq hpage, List.map_append]
    apply List.Nodup.append TablePage.nodup_tuples (ih 0)
    intro rid hhere hlater
    rcases List.mem_map.mp hhere with ⟨tuple, htuple, rfl⟩
    rcases List.mem_map.mp hlater with ⟨tuple', htuple', heq⟩
    have hpageId : tuple.rid.pageId = q := (TablePage.mem_tuples htuple).1
    have hle := (ok.mem_rest (ok.holds_next hpage) htuple').2.1
    have hlt := ok.lt_next hq hpage
    rw [heq, hpageId] at hle
    omega

theorem Ok.nodup_rows (ok : h.Ok) : (h.rows.map Tuple.rid).Nodup := ok.nodup_rest ok.first 0

/-- What is left of a scan is the end of it. -/
theorem Ok.rest_suffix (ok : h.Ok) {rid : Rid} (place : h.Place rid) : h.rest rid <:+ h.rows := by
  rcases place with hnull | ⟨reaches, page, hpage, hslot⟩
  · rw [rest_of_null hnull]
    exact List.nil_suffix
  · have hpages : ∀ p, h.Reaches p rid.pageId → h.rest ⟨rid.pageId, 0⟩ <:+ h.rest ⟨p, 0⟩ := by
      intro p reaches
      induction reaches using Relation.ReflTransGen.head_induction_on with
      | refl => exact List.suffix_rfl
      | @head q _ link _ ih =>
          rcases link with ⟨hne, page', hpage', rfl⟩
          rw [ok.rest_stored hne hpage']
          exact ih.trans (List.suffix_append _ _)
    by_cases hne : rid.pageId = nullPageId
    · rw [rest_of_null hne]
      exact List.nil_suffix
    · apply List.IsSuffix.trans _ (hpages h.first reaches)
      have hrest := ok.rest_stored hne hpage rid.slotId
      rcases TablePage.tuples_append rid.pageId (Nat.le_of_lt hslot) with ⟨before, hbefore⟩
      rw [hrest, ok.rest_stored hne hpage 0, hbefore, List.append_assoc]
      exact List.suffix_append _ _

/-- A row of a table is in a page that a scan comes to. -/
theorem Ok.at_of_mem (ok : h.Ok) {rid : Rid} (place : h.Place rid) {tuple : Tuple}
    (hmem : tuple ∈ h.rest rid) : h.At tuple.rid := by
  rcases ok.mem_rest (ok.holds_of_place place) hmem with ⟨-, -, page, hpage, hslot, -⟩
  exact ⟨page, hpage, hslot⟩

end Heap

end HuaDB
