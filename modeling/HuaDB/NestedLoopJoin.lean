import HuaDB.Executors
import HuaDB.Lib.ExceptLists

/-!
`NestedLoopJoinExecutor` against the pairs on which its condition is TRUE.

`GetValue<bool>` throws on NULL, so the join gives these pairs when its condition is TRUE or
FALSE on every pair, and nothing at all otherwise.
-/

namespace HuaDB

open Volcano

/-! ## The executor -/

section NestedLoop

variable {regexMatch : RegexMatch} {joinCondition : OperatorExpression} {l r : ExecRecord}
  {ls rs : List ExecRecord}

/-- The condition is TRUE on a pair of records. -/
def joins (regexMatch : RegexMatch) (joinCondition : OperatorExpression) (l r : ExecRecord) : Bool :=
  match joinCondition.evaluateJoin regexMatch l.values r.values with
  | .ok (.bool b) => b
  | _ => false

/-- The condition is TRUE or FALSE on a pair of records. -/
def Decided (regexMatch : RegexMatch) (joinCondition : OperatorExpression) (l r : ExecRecord) :
    Prop :=
  ∃ b, joinCondition.evaluateJoin regexMatch l.values r.values = .ok (.bool b)

/-- The pairs on which the condition is TRUE, by rows. -/
def matchingPairs (regexMatch : RegexMatch) (joinCondition : OperatorExpression)
    (ls rs : List ExecRecord) : List ExecRecord :=
  ls.flatMap fun l => (rs.filter (joins regexMatch joinCondition l)).map l.append

theorem Decided.evaluateJoin_eq (h : Decided regexMatch joinCondition l r) :
    joinCondition.evaluateJoin regexMatch l.values r.values =
      .ok (.bool (joins regexMatch joinCondition l r)) := by
  rcases h with ⟨b, hb⟩
  rw [joins, hb]

/-- The inner loop, for one left record. -/
theorem nestedLoop_row (h : ∀ r ∈ rs, Decided regexMatch joinCondition l r) :
    (rs.filterMapM fun r => do
      let value ← joinCondition.evaluateJoin regexMatch l.values r.values
      return if ← value.getBool then some (l.append r) else none) =
      .ok ((rs.filter (joins regexMatch joinCondition l)).map l.append) := by
  have htest : ∀ r ∈ rs,
      (do
        let value ← joinCondition.evaluateJoin regexMatch l.values r.values
        return if ← value.getBool then some (l.append r) else none) =
      .ok (Option.guard (joins regexMatch joinCondition l) r |>.map l.append) := by
    intro r hr
    rw [(h r hr).evaluateJoin_eq, Option.guard]
    cases joins regexMatch joinCondition l r <;> rfl
  rw [Except.filterMapM_eq_ok htest, ← List.map_filterMap, List.filterMap_eq_filter]

/-- The loops of the join give the matching pairs if every pair is decided. -/
theorem nestedLoop_eq (h : ∀ l ∈ ls, ∀ r ∈ rs, Decided regexMatch joinCondition l r) :
    nestedLoop regexMatch joinCondition ls rs =
      .ok (matchingPairs regexMatch joinCondition ls rs) := by
  rw [nestedLoop, Except.mapM_eq_ok fun l hl => nestedLoop_row (h l hl)]
  rfl

theorem exists_decided_of_nestedLoop {rows : List ExecRecord}
    (h : nestedLoop regexMatch joinCondition ls rs = .ok rows) :
    ∀ l ∈ ls, ∀ r ∈ rs, Decided regexMatch joinCondition l r := by
  intro l hl r hr
  rw [nestedLoop] at h
  rcases Except.bind_eq_ok_iff.mp h with ⟨joined, hjoined, -⟩
  rcases Except.exists_ok_of_mapM hjoined l hl with ⟨row, hrow⟩
  rcases Except.exists_ok_of_filterMapM hrow r hr with ⟨found, hfound⟩
  rcases Except.bind_eq_ok_iff.mp hfound with ⟨value, hvalue, hfound⟩
  rcases Except.bind_eq_ok_iff.mp hfound with ⟨b, hb, -⟩
  cases value <;> cases hb
  exact ⟨b, hvalue⟩

section Gives

variable {σ : Type} (db : Storage σ) {test : OperatorExpression → ExecRecord → Except Stop Bool}
  {left right : Operator} (columnList : ColumnList) {fuel : Nat} {state : σ}

/-- A join whose condition is TRUE or FALSE on every pair gives the matching pairs. -/
theorem gives_nestedLoopJoin (hleft : (executor db test left).Gives fuel state ls)
    (hright : (executor db test right).Gives fuel state rs)
    (hfuel : ls.length < fuel ∧ rs.length < fuel)
    (hdecided : ∀ l ∈ ls, ∀ r ∈ rs, Decided db.regexMatch joinCondition l r) :
    (executor db test (.nestedLoopJoin columnList left right joinCondition)).Gives fuel state
      (matchingPairs db.regexMatch joinCondition ls rs) := by
  by_cases hempty : ls = [] ∨ rs = []
  · have hpairs : matchingPairs db.regexMatch joinCondition ls rs = [] := by
      rcases hempty with rfl | rfl
      · rfl
      · simp [matchingPairs]
    rw [hpairs]
    refine hleft.blocking₂_nil hright hfuel.1 hfuel.2 ?_ rfl
    rw [if_pos hempty]
    rfl
  · refine hleft.blocking₂ hright hfuel.1 hfuel.2 ?_
    rw [if_neg hempty]
    exact expression_bind_ok (nestedLoop_eq hdecided) _ _

end Gives

end NestedLoop

/-! ## Nested-loop joins of two tables -/

/-- `l.id = r.id`. -/
def sameColumn : OperatorExpression := .comparison .equal leftColumn rightColumn

def joinTables : Operator :=
  .nestedLoopJoin [] (.seqScan [] 1 "l" none) (.seqScan [] 2 "r" none) sameColumn

end HuaDB
