import HuaDB.Sql.Isolation

/-!
What an UPDATE comes to while it grows the table that it scans.

The loop of an UPDATE goes through the rows that were visible when it started, each
once, and through none of its own; so does an INSERT of what it selects from its own
table (`halloween`). Both are over after so many rounds. What they do with a row
can go wrong in a way that nothing signals when the row has 64 KiB or more.
-/

namespace HuaDB

namespace Sql

open EStateM

variable {σ σ' σ₁ σ₂ : Database} {oid : Nat} {context : ExecutorContext}

/-! ## The rows of a statement -/

open Classical in
/-- The rows that a scan of the table sees. -/
noncomputable def visibleRows (σ : Database) (context : ExecutorContext) (oid : Nat) : List Tuple :=
  (σ.rows oid).filter fun t => Visible σ context t

open Classical in
/-- The rows that an UPDATE is for. -/
noncomputable def wantedRows (σ : Database) (context : ExecutorContext) (oid : Nat)
    (predicate : Expression Bool) : List Tuple :=
  (σ.rows oid).filter fun t => Wanted σ context predicate t

theorem mem_visibleRows {t : Tuple} :
    t ∈ visibleRows σ context oid ↔ t ∈ σ.rows oid ∧ Visible σ context t := by
  simp only [visibleRows, List.mem_filter, decide_eq_true_eq]

theorem mem_wantedRows {predicate : Expression Bool} {t : Tuple} :
    t ∈ wantedRows σ context oid predicate ↔ t ∈ σ.rows oid ∧ Wanted σ context predicate t := by
  simp only [wantedRows, List.mem_filter, decide_eq_true_eq]

theorem items_seqScan (σ : Database) (context : ExecutorContext) (oid : Nat) :
    items σ context (.seqScan oid) = (visibleRows σ context oid).map .ok := rfl

/-- The items of an UPDATE that go through are the rows it is for. -/
theorem eq_wantedRows {predicate : Expression Bool} {done : List Tuple}
    (h : items σ context (.filter predicate (.seqScan oid)) = done.map .ok) :
    done = wantedRows σ context oid predicate := by
  have hself : (done.map .ok : List Item).filterMap Except.toOption = done := by
    rw [List.filterMap_map]
    exact List.filterMap_some
  rw [← hself, ← h]
  exact oks_ahead (start σ (.seqScan oid))

/-! ## What is left of a statement -/

/-- The statement of `context` has put the records `new` in the place of the rows `gone`.
A record that comes on page `NULL_PAGE_ID` is lost. -/
structure Replaced (context : ExecutorContext) (oid : Nat) (gone new : List Tuple)
    (σ σ' : Database) : Prop where
  rows : (σ'.rows oid).Perm ((σ.rows oid).map (deleting context.xid gone) ++ kept new)
  others : ∀ o, o ≠ oid → σ'.rows o = σ.rows o
  inserted : ∀ t ∈ new, t.record.header.xmin = context.xid ∧ t.record.header.cid = context.cid ∧
    t.record.header.xmax = nullXid
  /-- Each row that is gone was deleted once, and nothing else was. -/
  once : gone.Nodup ∧ ∃ entries, σ'.mvcc.undo context.xid = entries ++ σ.mvcc.undo context.xid ∧
    entries.Perm ((kept new).map (fun t => .insert oid t.rid) ++ gone.map fun t => .delete oid t.rid)

theorem Writes.replaced {P : Mvcc.Policy Nat Rid Row} {gone new : List Tuple}
    (writes : Writes P context oid σ σ' gone new) : Replaced context oid gone new σ σ' where
  rows := writes.rows
  others o ho := rows_congr (writes.others o ho)
  inserted := writes.inserted
  once := ⟨writes.nodup, writes.entries⟩

/-- With rounds enough, a query is over, and what it returns and leaves meets `post` unless
it throws. -/
def Finishes (context : ExecutorContext) (query : Query) (σ : Database)
    (post : QueryResult → Database → Prop) : Prop :=
  ∃ bound, ∀ fuel, bound < fuel →
    Ends σ (executeQuery context fuel query) post fun e _ => ∃ ex, e = .thrown ex

theorem finishes_of_ends {query : Query} {post : QueryResult → Database → Prop} {bound : Nat}
    {overrun : Prop} (hover : ¬ overrun)
    (h : ∀ fuel, Ends σ (executeQuery context fuel query) post fun e _ => Stops fuel bound overrun e) :
    Finishes context query σ post := by
  refine ⟨bound, fun fuel hfuel => (h fuel).mono (fun _ _ => id) ?_⟩
  rintro (ex | - | -) σ' stops
  · exact ⟨ex, rfl⟩
  · exact absurd stops hover
  · exact absurd hfuel (Nat.not_lt.mpr stops)

section Finish

variable (sound : Sound σ) (active : context.xid ∈ σ.mvcc.active)
include sound active

theorem update_finishes (predicate : Expression Bool) (exprs : Expression Row)
    (fits : ∀ t ∈ wantedRows σ context oid predicate, ¬ Overlong exprs t)
    (few : (wantedRows σ context oid predicate).length < 2 ^ 32) :
    Finishes context (.update oid predicate exprs) σ fun result σ' =>
      result = .count (wantedRows σ context oid predicate).length ∧
        ∃ new, Supplies exprs (wantedRows σ context oid predicate) new ∧
          Replaced context oid (wantedRows σ context oid predicate) new σ σ' := by
  have hover : ¬ ∃ t ∈ σ.rows oid, Wanted σ context predicate t ∧ Overlong exprs t := by
    rintro ⟨t, ht, wanted, overlong⟩
    exact fits t (mem_wantedRows.mpr ⟨ht, wanted⟩) overlong
  apply finishes_of_ends hover
  intro fuel
  apply (update_ends (P := anyPolicy) fuel sound active False.elim (fun _ _ _ => trivial) exprs).mono
  · rintro result σ' ⟨done, new, hitems, writes, -, supplies, rfl⟩
    cases eq_wantedRows hitems
    rw [Nat.mod_eq_of_lt few]
    exact ⟨rfl, new, supplies, writes.replaced⟩
  · exact fun _ _ h => h.2

theorem insert_finishes (toRecord : Expression Row)
    (fits : ∀ t ∈ visibleRows σ context oid, ¬ Overlong toRecord t) :
    Finishes context (.insert oid toRecord (.seqScan oid)) σ fun _ σ' =>
      ∃ new, Supplies toRecord (visibleRows σ context oid) new ∧
        Replaced context oid [] new σ σ' := by
  have hok : Function.Injective (Except.ok : Tuple → Item) := fun _ _ h => Except.ok.inj h
  have hover : ¬ ∃ t, .ok t ∈ items σ context (.seqScan oid) ∧ Overlong toRecord t := by
    rintro ⟨t, ht, overlong⟩
    rw [items_seqScan, List.mem_map_of_injective hok] at ht
    exact fits t ht overlong
  apply finishes_of_ends hover
  intro fuel
  apply (insert_ends (P := anyPolicy) fuel sound active False.elim toRecord (.seqScan oid)).mono
  · rintro result σ' ⟨done, new, hitems, writes, supplies, -⟩
    cases List.map_injective_iff.mpr hok hitems
    exact ⟨new, supplies, writes.replaced⟩
  · exact fun _ _ h => h.2

end Finish

/-- An UPDATE is over, has replaced each row that it is for once, and reports their number;
an INSERT of what it selects from its table inserts what was visible. -/
theorem halloween (sound : Sound σ) (active : context.xid ∈ σ.mvcc.active) :
    (∀ oid predicate exprs, (∀ t ∈ wantedRows σ context oid predicate, ¬ Overlong exprs t) →
      (wantedRows σ context oid predicate).length < 2 ^ 32 →
        Finishes context (.update oid predicate exprs) σ fun result σ' =>
          result = .count (wantedRows σ context oid predicate).length ∧
            ∃ new, Supplies exprs (wantedRows σ context oid predicate) new ∧
              Replaced context oid (wantedRows σ context oid predicate) new σ σ') ∧
      ∀ oid toRecord, (∀ t ∈ visibleRows σ context oid, ¬ Overlong toRecord t) →
        Finishes context (.insert oid toRecord (.seqScan oid)) σ fun _ σ' =>
          ∃ new, Supplies toRecord (visibleRows σ context oid) new ∧
            Replaced context oid [] new σ σ' :=
  ⟨fun _ predicate exprs fits few => update_finishes sound active predicate exprs fits few,
    fun _ toRecord fits => insert_finishes sound active toRecord fits⟩

/-- Transaction 2 updates two rows, and inserts them again. -/
theorem halloween_update :
    ∃ σ, Run (fun conn _ => Regular conn) (oneTable 1 10001) σ ∧ (σ.rows 10001).length = 2 ∧
      Finishes ⟨2, .repeatableRead, 1⟩ (.update 10001 (fun _ => .ok true) fun _ => .ok [3]) σ
        (fun result σ' => result = .count (wantedRows σ ⟨2, .repeatableRead, 1⟩ 10001
            fun _ => .ok true).length ∧
          ∃ new, Supplies (fun _ => .ok [3]) (wantedRows σ ⟨2, .repeatableRead, 1⟩ 10001
            fun _ => .ok true) new ∧
            Replaced ⟨2, .repeatableRead, 1⟩ 10001 (wantedRows σ ⟨2, .repeatableRead, 1⟩ 10001
              fun _ => .ok true) new σ σ') ∧
      Finishes ⟨2, .repeatableRead, 1⟩ (.insert 10001 (fun _ => .ok [4]) (.seqScan 10001)) σ
        fun _ σ' => ∃ new, Supplies (fun _ => .ok [4])
          (visibleRows σ ⟨2, .repeatableRead, 1⟩ 10001) new ∧
            Replaced ⟨2, .repeatableRead, 1⟩ 10001 [] new σ σ' := by
  have hserve : (serveWhere (fun conn _ => Regular conn) 20
      [(1, insertRows 10001 [[1], [2]]), (2, .begin)] (oneTable 1 10001)).map (fun σ =>
        (decide (PagesKept σ), (σ.txn.xid2cid.find? 2).isSome, (σ.rows 10001).length)) =
          some (true, true, 2) := by decide +kernel
  rcases exists_run_of_serveWhere hserve with ⟨σ, run, hσ⟩
  simp only [Prod.mk.injEq, decide_eq_true_eq] at hσ
  rcases hσ with ⟨hkept, hactive, hlength⟩
  have leads : Leads anyPolicy (oneTable 1 10001) σ :=
    (started_oneTable 10001 (by decide)).leads (fun _ _ _ => id)
      (fun conn stmt σ _ _ _ => permits_any conn stmt _) run hkept
  have hfits : ∀ (b : UInt8) (t : Tuple), ¬ Overlong (fun _ => .ok [b]) t := by
    rintro b t ⟨data, hdata, -, hover⟩
    cases hdata
    exact hover rfl
  have hfew : (wantedRows σ ⟨2, .repeatableRead, 1⟩ 10001 fun _ => .ok true).length < 2 ^ 32 :=
    Nat.lt_of_le_of_lt (List.length_filter_le _ _) (hlength.trans_lt (by decide))
  have hboth := @halloween σ ⟨2, .repeatableRead, 1⟩ leads.sound hactive
  exact ⟨σ, run, hlength, hboth.1 10001 _ _ (fun t _ => hfits 3 t) hfew,
    hboth.2 10001 _ fun t _ => hfits 4 t⟩

/-! ## Records that overrun a page -/

/-- With its header, such a record has 64 KiB, and the size 0. -/
theorem overruns_of_length {record : Record} (h : record.data.length = 65523) :
    Overruns record := by
  rw [Overruns, Record.getSize, h]
  decide

theorem insertRecord_overruns {record : Record} (hover : Overruns record) {table : HuaDB.Table}
    (htable : σ.tables.find? oid = some table) (fuel xid cid : Nat) :
    Table.insertRecord fuel oid record xid cid σ = .error .memoryFault σ := by
  rw [Table.insertRecord, bind_of_ok (getTable_eq htable)]
  rw [if_neg (Nat.not_lt.mpr hover.1)]
  simp only [if_pos hover.2]
  rfl

/-- The first row that an UPDATE deletes, and the state after it. -/
def firstDeleted? (context : ExecutorContext) (fuel oid : Nat) (predicate : Expression Bool)
    (σ : Database) : Option (Tuple × Database) :=
  match Plan.next context fuel (.filter predicate (.seqScan oid))
      (start σ (.filter predicate (.seqScan oid))) σ with
  | .ok (some tuple, _) σ₁ =>
      match orThrow (LockManager.lockRow context.xid .x oid tuple.rid) "update lock failed!" σ₁ with
      | .ok _ σ₂ =>
          match Table.deleteRecord oid tuple.rid context.xid σ₂ with
          | .ok _ σ' => some (tuple, σ')
          | .error _ _ => none
      | .error _ _ => none
  | _ => none

/-- An UPDATE that makes such a record of the first row that it comes to. -/
theorem update_overruns {predicate : Expression Bool} {exprs : Expression Row} {fuel : Nat}
    {tuple : Tuple} {data : Row} (htable : (σ.tables.find? oid).isSome)
    (hfirst : firstDeleted? context (fuel + 1) oid predicate σ = some (tuple, σ'))
    (hexprs : exprs tuple.record.data = .ok data) (hover : Overruns { data := data })
    (htable' : (σ'.tables.find? oid).isSome) :
    executeQuery context (fuel + 1) (.update oid predicate exprs) σ = .error .memoryFault σ' := by
  rcases Option.isSome_iff_exists.mp htable' with ⟨table, htable'⟩
  have hinsert := insertRecord_overruns hover htable' (fuel + 1) context.xid context.cid
  rw [firstDeleted?] at hfirst
  split at hfirst
  · rename_i _ _ σ₁ hnext
    split at hfirst
    · rename_i σ₂ hlock
      split at hfirst
      · rename_i σ₃ hdelete
        cases hfirst
        have heval : evaluate (exprs tuple.record.data) σ₁ = .ok data σ₁ := by
          rw [hexprs]
          rfl
        have hupdate : updateRow context (fuel + 1) oid exprs tuple σ₁ = .error .memoryFault σ' := by
          rw [updateRow, bind_of_ok heval, bind_of_ok hlock]
          apply bind_of_error
          rw [Table.updateRecord, bind_of_ok hdelete]
          exact hinsert
        have hdrain : drain (Plan.next context (fuel + 1) (.filter predicate (.seqScan oid)))
            (counted (updateRow context (fuel + 1) oid exprs)) (fuel + 1) 0
            (start σ (.filter predicate (.seqScan oid))) σ = .error .memoryFault σ' := by
          rw [drain, bind_of_ok hnext]
          exact bind_of_error (bind_of_error hupdate)
        have hinit : Plan.init (.filter predicate (.seqScan oid)) σ =
            .ok (start σ (.filter predicate (.seqScan oid))) σ := scanInit_eq htable
        rw [executeQuery, bind_of_ok hinit]
        exact bind_of_error hdrain
      · cases hfirst
    · cases hfirst
  · cases hfirst

/-- An UPDATE that makes a row of 64 KiB out of one neither throws nor returns. -/
theorem halloween_overruns :
    ∃ σ σ', Run (fun conn _ => Regular conn) (oneTable 1 10001) σ ∧ (σ.rows 10001).length = 1 ∧
      executeQuery ⟨2, .readCommitted, 1⟩ 20 (.update 10001 (fun _ => .ok true) fun _ =>
        .ok (List.replicate 65523 0)) σ = .error .memoryFault σ' := by
  have hserve : (serveWhere (fun conn _ => Regular conn) 20
      [(1, insertRows 10001 [[1]]), (2, .begin)] (oneTable 1 10001)).map (fun σ =>
        ((σ.rows 10001).length, (σ.tables.find? 10001).isSome,
          (firstDeleted? ⟨2, .readCommitted, 1⟩ 20 10001 (fun _ => .ok true) σ).map fun r =>
            (r.2.tables.find? 10001).isSome)) = some (1, true, some true) := by decide +kernel
  rcases exists_run_of_serveWhere hserve with ⟨σ, run, hσ⟩
  simp only [Prod.mk.injEq] at hσ
  rcases hσ with ⟨hlength, htable, hfirst⟩
  rcases Option.map_eq_some_iff.mp hfirst with ⟨⟨tuple, σ'⟩, hfirst, htable'⟩
  have hover : Overruns { data := List.replicate 65523 0 } :=
    overruns_of_length List.length_replicate
  exact ⟨σ, σ', run, hlength, update_overruns htable hfirst rfl hover htable'⟩

end Sql

end HuaDB
