import HuaDB.Lib.Assoc
import HuaDB.Lib.BoundedLoop
import HuaDB.Optimizer.PushDown

/-!
`Optimizer::ReorderJoin` of `optimizer/optimizer.cpp`, with `JoinOrderAlgorithm::GREEDY`.

The function reads the statistics of all tables of the database, collects the nested
loop joins of the plan and then chooses one table after the other, by estimated size.
A table that is joined to tables chosen before it takes the joins off the end of the
collection, one for each relation, and hangs them above the tree built so far. A table
without an entry in `nodes` is a null pointer.

The nested loop joins of a plan of the planner all stand below one of them, the first of
the collection. It is the last one taken, so the tree built by then is what stands in
its place in the plan returned.
-/

namespace HuaDB

/-! ## Statistics -/

def invalidCardinality : Nat := 2 ^ 32 - 1
def invalidDistinct : Nat := 2 ^ 32 - 1

/-- What `GetCardinality` and `GetDistinct` return for a table and its columns: an entry of
the map `cardinalities` and one of `distincts`. -/
structure TableStatistics where
  name : String
  cardinality : Nat
  distincts : Assoc String Nat
  cardinality_lt : cardinality < 2 ^ 32
  distincts_lt : ∀ entry ∈ distincts, entry.2 < 2 ^ 32
  sorted : distincts.Pairwise fun a b => a.1 < b.1

/-- The two maps, which iterate in the order of the names. -/
structure Statistics where
  tables : List TableStatistics
  sorted : tables.Pairwise fun a b => a.name < b.name

namespace Statistics

/-- `cardinalities[name]`. -/
def cardinalityOf (stats : Statistics) (name : String) : Nat :=
  ((stats.tables.find? (·.name = name)).map TableStatistics.cardinality).getD 0

/-- `distincts[name]`. -/
def distinctsOf (stats : Statistics) (name : String) : Assoc String Nat :=
  ((stats.tables.find? (·.name = name)).map TableStatistics.distincts).getD []

end Statistics

/-- What stops the pass: an index outside a vector, a division by zero, or more rounds of
its outer loop than a bound. -/
inductive ReorderError where
  | undefined
  | divisionByZero
  | divergence
deriving DecidableEq, Repr

namespace Optimizer

/-! ## The joins of a plan -/

/-- The fields of a `NestedLoopJoinOperator`. -/
structure JoinOperator where
  columnList : ColumnList
  left : Operator
  right : Operator
  joinCondition : OperatorExpression

def joinOperator? : Operator → Option JoinOperator
  | .nestedLoopJoin columnList left right joinCondition =>
      some ⟨columnList, left, right, joinCondition⟩
  | _ => none

/-- The number of operators of a plan. -/
def size : Operator → Nat
  | .aggregate _ child | .delete _ child _ | .filter _ child _ | .insert _ child _ _
  | .limit _ child _ _ | .lockRows _ child _ _ | .orderBy _ child _ | .projection _ child _
  | .update _ child _ _ => size child + 1
  | .hashJoin _ left right | .mergeJoin _ left right _ _ | .nestedLoopJoin _ left right _ =>
      size left + size right + 1
  | .seqScan .. | .values .. => 1

/-- The loop over `plan_now`: the nested loop joins below the plans of a queue. -/
def collectJoins : Nat → List Operator → List JoinOperator
  | 0, _ | _, [] => []
  | rounds + 1, plan :: queue =>
      plan.children.filterMap joinOperator? ++ collectJoins rounds (queue ++ plan.children)

/-- `nested_loop_join_plans`. -/
def nestedLoopJoins (plan : Operator) : List JoinOperator := collectJoins (size plan) [plan]

/-- `children_[0]` and `children_[1]` of an expression that has them. -/
def operands? : OperatorExpression → Option (OperatorExpression × OperatorExpression)
  | .arithmetic _ left right | .comparison _ left right | .logic _ left right =>
      some (left, right)
  | _ => none

/-- `name.substr(0, name.find('.'))`. -/
def tablePart (name : String) : String := (tableOf? name).getD name

/-- The names of the two tables of a join condition. -/
def relationOf (join : JoinOperator) : Except ReorderError (String × String) :=
  match operands? join.joinCondition with
  | some (left, right) => .ok (tablePart left.toString, tablePart right.toString)
  | none => .error .undefined

/-- The entry that a child makes in `nodes`, unless it is a nested loop join. -/
def addNode (nodes : Assoc String Operator) (child : Operator) :
    Except ReorderError (Assoc String Operator) :=
  if child.isNestedLoopJoin then
    .ok nodes
  else
    match child.outputColumns with
    | [] => .error .undefined
    | column :: _ => .ok (nodes.insert (tablePart column.name) child)

/-- `std::less` of pairs. -/
def pairLt (a b : String × String) : Bool := a.1 < b.1 || (a.1 = b.1 && a.2 < b.2)

/-- What the loop over `nested_loop_join_plans` collects: `relations`, in the order of their
keys, the keys of all joins (`cnt` counts them), and `nodes`. -/
structure JoinGraph where
  relations : Assoc (String × String) OperatorExpression := []
  pairs : List (String × String) := []
  nodes : Assoc String Operator := []

def addJoin (graph : JoinGraph) (join : JoinOperator) : Except ReorderError JoinGraph := do
  let pair ← relationOf join
  let nodes ← addNode graph.nodes join.left
  let nodes ← addNode nodes join.right
  return {
    relations := graph.relations.upsert pairLt pair fun _ => join.joinCondition
    pairs := graph.pairs ++ [pair]
    nodes := nodes }

def joinGraph (joins : List JoinOperator) : Except ReorderError JoinGraph :=
  joins.foldlM addJoin {}

/-- `cnt[name]`. -/
def JoinGraph.cnt (graph : JoinGraph) (name : String) : Nat :=
  graph.pairs.countP (·.1 = name) + graph.pairs.countP (·.2 = name)

/-! ## Estimates -/

section Estimates

variable (stats : Statistics)

/-- The choice of `r_curr`, over `cardinalities`. -/
def firstTable (cnt : String → Nat) : String :=
  (stats.tables.foldl (fun (best : String × Nat × Nat) table =>
    if table.cardinality < best.2.1 ∨ best.2.2 < cnt table.name then
      (table.name, table.cardinality, cnt table.name)
    else best) ("", invalidCardinality, 0)).1

/-- `min_feature` and `mul_feature`, which have the same keys. -/
abbrev Features := Assoc String (Nat × Nat)

def addDistinct (features : Features) (entry : String × Nat) : Features :=
  features.upsert (fun a b => a < b) entry.1 fun
    | none => (entry.2, entry.2)
    | some (least, product) => (min least entry.2, product * entry.2 % 2 ^ 32)

/-- The features of a candidate together with the tables chosen. -/
def features (rNow : List String) (candidate : String) : Features :=
  (candidate :: rNow).foldl (fun fs r => (stats.distinctsOf r).foldl addDistinct fs) []

/-- The step of the loop over `min_feature`. -/
def divide (v : Nat) (feature : String × Nat × Nat) : Except ReorderError Nat :=
  if feature.2.2 = 0 then
    .error .divisionByZero
  else
    .ok (v * feature.2.1 % 2 ^ 32 / feature.2.2)

/-- `mul_all`. -/
def mulAll (rNow : List String) (candidate : String) : Nat :=
  rNow.foldl (fun product r => product * stats.cardinalityOf r % 2 ^ 32)
    (stats.cardinalityOf candidate)

/-- `v_map[..]` of a candidate. -/
def estimate (rNow : List String) (candidate : String) : Except ReorderError Nat :=
  (features stats rNow candidate).foldlM divide (mulAll stats rNow candidate)

/-- The tables not chosen yet. -/
def candidates (rNow : List String) : List String :=
  (stats.tables.map TableStatistics.name).filter (· ∉ rNow)

/-- The loop over `v_map`: the first of the least estimates below the invalid one. All keys
of `v_map` begin with the tables chosen, so they are in the order of the candidates. -/
def cheapest (estimates : List (String × Nat)) : String :=
  (estimates.foldl (fun best entry => if entry.2 < best.2 then entry else best)
    ("", invalidCardinality)).1

/-- What stands behind the last comma of a key of `v_map` that ends in a name. -/
def afterComma (name : String) : String :=
  String.ofList (name.toList.reverse.takeWhile (· ≠ ',')).reverse

/-- `r_nex`. -/
def nextTable (rNow : List String) : Except ReorderError String := do
  let estimates ← (candidates stats rNow).mapM fun name => do
    return (name, ← estimate stats rNow name)
  return afterComma (cheapest estimates)

end Estimates

/-! ## The loop -/

/-- What the joins are made into. -/
inductive JoinTree where
  /-- A null pointer. -/
  | null
  | leaf (plan : Operator)
  | join (columnList : ColumnList) (left right : JoinTree) (joinCondition : OperatorExpression)

/-- `nodes[name]`. -/
def JoinGraph.node (graph : JoinGraph) (name : String) : JoinTree :=
  match graph.nodes.find? name with
  | some plan => .leaf plan
  | none => .null

/-- `r_now`, `child_0`, and the columns of what is left of `nested_loop_join_plans`, the last
one first. -/
structure GreedyState where
  rNow : List String
  child0 : JoinTree
  pending : List ColumnList

/-- The relation joins the table `next` to a table chosen before. -/
def touches (rNow : List String) (next : String) (pair : String × String) : Bool :=
  (pair.1 = next && pair.2 ∈ rNow) || (pair.2 = next && pair.1 ∈ rNow)

/-- The last of `nested_loop_join_plans` is hung above the tree. -/
def hang (right : JoinTree) (built : JoinTree × List ColumnList)
    (joinCondition : OperatorExpression) : Except ReorderError (JoinTree × List ColumnList) :=
  match built.2 with
  | [] => .error .undefined
  | columnList :: pending => .ok (.join columnList built.1 right joinCondition, pending)

/-- A round of the outer loop, once `r_now` is not empty. -/
def greedyRound (stats : Statistics) (graph : JoinGraph) (s : GreedyState) :
    Except ReorderError GreedyState := do
  let next ← nextTable stats s.rNow
  let completed := (graph.relations.filter fun relation => touches s.rNow next relation.1).map
    Prod.snd
  let (child0, pending) ← completed.foldlM (hang (graph.node next)) (s.child0, s.pending)
  return { rNow := s.rNow ++ [next], child0 := child0, pending := pending }

/-- `while (nested_loop_join_plans.size() > 0)`. -/
def greedyLoop (stats : Statistics) (graph : JoinGraph) :
    Nat → GreedyState → Except ReorderError GreedyState :=
  BoundedLoop.run (·.pending.isEmpty) (greedyRound stats graph) .divergence

/-- The state with the first table chosen. -/
def greedyStart (stats : Statistics) (graph : JoinGraph) (joins : List JoinOperator) :
    GreedyState where
  rNow := [firstTable stats graph.cnt]
  child0 := graph.node (firstTable stats graph.cnt)
  pending := (joins.map JoinOperator.columnList).reverse

/-- `ReorderJoin`: what its joins are made into, or nothing where the plan has none and is
returned as it is. -/
def reorderJoin (stats : Statistics) (plan : Operator) (rounds : Nat) :
    Except ReorderError (Option JoinTree) := do
  let joins := nestedLoopJoins plan
  let graph ← joinGraph joins
  if joins.isEmpty then
    return none
  else
    return some (← greedyLoop stats graph rounds (greedyStart stats graph joins)).child0

end Optimizer

end HuaDB
