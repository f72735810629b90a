import Mathlib.Data.List.Flatten
import HuaDB.Optimizer.GreedyRuns

/-!
# The tree that the joins are made into

`reorderJoin_keeps_iff` says when the tree has the leaves and the conditions of the plan.
The joins are collected from the plan (`nestedLoopJoins_perm`), their leaves are the
entries of `nodes` (`nodes_eq`) and their conditions the values of `relations`
(`relations_perm`).  A round hangs one join above the tree for every relation that the
table chosen completes, each with that table as its right child.
-/

namespace HuaDB

namespace Optimizer

/-! ## The joins of a plan and their leaves -/

/-- The nested loop joins below an operator. -/
def joinsBelow : Operator → List JoinOperator
  | .aggregate _ child | .delete _ child _ | .filter _ child _ | .insert _ child _ _
  | .limit _ child _ _ | .lockRows _ child _ _ | .orderBy _ child _ | .projection _ child _
  | .update _ child _ _ => (joinOperator? child).toList ++ joinsBelow child
  | .hashJoin _ left right | .mergeJoin _ left right _ _ | .nestedLoopJoin _ left right _ =>
      (joinOperator? left).toList ++ (joinOperator? right).toList ++
        (joinsBelow left ++ joinsBelow right)
  | .seqScan .. | .values .. => []

/-- The children of joins that are not joins. -/
def leavesOf (joins : List JoinOperator) : List Operator :=
  joins.flatMap fun join => [join.left, join.right].filter fun child => !child.isNestedLoopJoin

def joinLeaves (plan : Operator) : List Operator := leavesOf (joinsBelow plan)

/-- The table name that `nodes` has for a leaf. -/
def leafName (leaf : Operator) : String :=
  match leaf.outputColumns with
  | [] => ""
  | column :: _ => tablePart column.name

/-- The tables of a query. -/
def queryTables (plan : Operator) : List String := (joinLeaves plan).map leafName

theorem filterMap_joinOperator?_pair (left right : Operator) :
    [left, right].filterMap joinOperator? =
      (joinOperator? left).toList ++ (joinOperator? right).toList := by
  cases hl : joinOperator? left <;> cases hr : joinOperator? right <;>
    simp [hl, hr]

theorem joinsBelow_eq (plan : Operator) :
    joinsBelow plan = plan.children.filterMap joinOperator? ++ plan.children.flatMap joinsBelow := by
  have hone : ∀ child : Operator,
      [child].filterMap joinOperator? = (joinOperator? child).toList := by
    intro child
    cases h : joinOperator? child <;> simp [h]
  cases plan <;> simp only [joinsBelow, Operator.children, List.flatMap_cons, List.flatMap_nil,
    List.append_nil, hone, filterMap_joinOperator?_pair, List.filterMap_nil]

theorem size_eq (plan : Operator) : size plan = (plan.children.map size).sum + 1 := by
  cases plan <;> simp [size, Operator.children]

/-- The queue comes by every join below its plans. -/
theorem collectJoins_perm (rounds : Nat) (queue : List Operator)
    (h : (queue.map size).sum ≤ rounds) :
    (collectJoins rounds queue).Perm (queue.flatMap joinsBelow) := by
  induction rounds generalizing queue with
  | zero =>
      cases queue with
      | nil => exact .refl _
      | cons plan queue =>
          rw [List.map_cons, List.sum_cons, size_eq] at h
          omega
  | succ rounds ih =>
      cases queue with
      | nil => exact .refl _
      | cons plan queue =>
          have hsizes : ((queue ++ plan.children).map size).sum ≤ rounds := by
            rw [List.map_append, List.sum_append]
            rw [List.map_cons, List.sum_cons, size_eq] at h
            omega
          have hrest := ih (queue ++ plan.children) hsizes
          rw [List.flatMap_append] at hrest
          rw [collectJoins, List.flatMap_cons, joinsBelow_eq plan, List.append_assoc]
          exact (hrest.trans List.perm_append_comm).append_left _

theorem nestedLoopJoins_perm (plan : Operator) :
    (nestedLoopJoins plan).Perm (joinsBelow plan) := by
  have h := collectJoins_perm (size plan) [plan] (by simp)
  rwa [List.flatMap_cons, List.flatMap_nil, List.append_nil] at h

theorem leavesOf_perm (plan : Operator) :
    (leavesOf (nestedLoopJoins plan)).Perm (joinLeaves plan) :=
  (nestedLoopJoins_perm plan).flatMap_right _

/-! ## The entries of `nodes` -/

/-- The entry of a leaf. -/
def leafEntry (leaf : Operator) : String × Operator := (leafName leaf, leaf)

theorem addNode_eq_ok {nodes nodes' : Assoc String Operator} {child : Operator}
    (h : addNode nodes child = .ok nodes') :
    nodes' = ([child].filter fun child => !child.isNestedLoopJoin).foldl
      (fun nodes leaf => nodes.insert (leafName leaf) leaf) nodes := by
  rw [addNode] at h
  split at h
  · rename_i hjoin
    cases h
    simp [hjoin]
  · rename_i hjoin
    rw [List.filter_cons_of_pos (by simpa using hjoin)]
    split at h
    · cases h
    · rename_i column columns hcolumns
      cases h
      simp [leafName, hcolumns]

theorem foldlM_addJoin_nodes {joins : List JoinOperator} {graph graph' : JoinGraph}
    (h : joins.foldlM addJoin graph = .ok graph') :
    graph'.nodes = (leavesOf joins).foldl (fun nodes leaf => nodes.insert (leafName leaf) leaf)
      graph.nodes := by
  induction joins generalizing graph with
  | nil =>
      cases h
      rfl
  | cons join joins ih =>
      rw [List.foldlM_cons] at h
      obtain ⟨mid, hmid, h⟩ := Except.bind_eq_ok_iff.mp h
      obtain ⟨pair, left, nodes, -, hleft, hright, rfl⟩ := addJoin_eq_ok hmid
      have hnodes : nodes = ([join.left, join.right].filter fun child =>
          !child.isNestedLoopJoin).foldl (fun nodes leaf => nodes.insert (leafName leaf) leaf)
            graph.nodes := by
        rw [addNode_eq_ok hright, addNode_eq_ok hleft, ← List.foldl_append, ← List.filter_append]
        rfl
      have hleaves : leavesOf (join :: joins) = ([join.left, join.right].filter fun child =>
          !child.isNestedLoopJoin) ++ leavesOf joins := List.flatMap_cons
      rw [ih h, hleaves, List.foldl_append, ← hnodes]

/-- With distinct tables, `nodes` has one entry for every leaf. -/
theorem nodes_eq {joins : List JoinOperator} {graph : JoinGraph}
    (hg : joinGraph joins = .ok graph) (hnodup : ((leavesOf joins).map leafName).Nodup) :
    graph.nodes = (leavesOf joins).map leafEntry := by
  rw [foldlM_addJoin_nodes hg]
  have hkeys : Assoc.keys ((leavesOf joins).map leafEntry) = (leavesOf joins).map leafName := by
    rw [Assoc.keys, List.map_map]
    rfl
  have h := Assoc.ofEntries_eq_self (hkeys ▸ hnodup)
  rw [Assoc.ofEntries, List.foldl_map] at h
  exact h

/-! ## The entries of `relations` -/

/-- The key of a relation has the tables of its condition. -/
def Relates (relation : (String × String) × OperatorExpression) : Prop :=
  ∃ left right, operands? relation.2 = some (left, right) ∧
    relation.1 = (tablePart left.toString, tablePart right.toString)

theorem relationOf_relates {join : JoinOperator} {pair : String × String}
    (h : relationOf join = .ok pair) : Relates (pair, join.joinCondition) := by
  rw [relationOf] at h
  split at h
  · rename_i left right hoperands
    cases h
    exact ⟨left, right, hoperands, rfl⟩
  · cases h

theorem mem_upsert_const {relations : Assoc (String × String) OperatorExpression}
    {pair : String × String} {condition : OperatorExpression}
    {relation : (String × String) × OperatorExpression}
    (h : relation ∈ relations.upsert pairLt pair fun _ => condition) :
    relation = (pair, condition) ∨ relation ∈ relations := by
  rw [Assoc.upsert] at h
  split at h
  · exact Assoc.forall_mem_insert (P := fun e => e = (pair, condition) ∨ e ∈ relations)
      (fun e he => .inr he) (.inl rfl) relation h
  · rcases List.mem_cons.mp ((Assoc.place_perm pairLt pair condition relations).subset h) with h | h
    · exact .inl h
    · exact .inr h

theorem foldlM_addJoin_relates {joins : List JoinOperator} {graph graph' : JoinGraph}
    (h : joins.foldlM addJoin graph = .ok graph') (hr : ∀ r ∈ graph.relations, Relates r) :
    ∀ r ∈ graph'.relations, Relates r := by
  induction joins generalizing graph with
  | nil =>
      cases h
      exact hr
  | cons join joins ih =>
      rw [List.foldlM_cons] at h
      obtain ⟨mid, hmid, h⟩ := Except.bind_eq_ok_iff.mp h
      obtain ⟨pair, left, nodes, hpair, -, -, rfl⟩ := addJoin_eq_ok hmid
      refine ih h ?_
      intro r hmem
      rcases mem_upsert_const hmem with rfl | hmem
      · exact relationOf_relates hpair
      · exact hr r hmem

/-- With distinct pairs, `relations` has the condition of every join. -/
theorem relations_perm {joins : List JoinOperator} {graph graph' : JoinGraph}
    (hc : graph.Collected) (h : joins.foldlM addJoin graph = .ok graph')
    (hnodup : graph'.pairs.Nodup) :
    (graph'.relations.map Prod.snd).Perm
      (graph.relations.map Prod.snd ++ joins.map JoinOperator.joinCondition) := by
  induction joins generalizing graph with
  | nil =>
      cases h
      rw [List.map_nil, List.append_nil]
  | cons join joins ih =>
      rw [List.foldlM_cons] at h
      obtain ⟨mid, hmid, h⟩ := Except.bind_eq_ok_iff.mp h
      have hrest := ih (hc.addJoin hmid) h
      obtain ⟨pair, left, nodes, hpair, -, -, rfl⟩ := addJoin_eq_ok hmid
      have hnew : graph.relations.find? pair = none := by
        rw [Assoc.find?_eq_none_iff, hc.mem_keys]
        obtain ⟨-, pairs, hpairs, -⟩ := foldlM_addJoin (hc.addJoin hmid) h
        rw [hpairs, List.nodup_append] at hnodup
        intro hmem
        exact (List.nodup_append.mp hnodup.1).2.2 pair hmem pair (List.mem_singleton_self _) rfl
      rw [Assoc.upsert, hnew] at hrest
      refine hrest.trans ?_
      have hplace := ((Assoc.place_perm pairLt pair join.joinCondition graph.relations).map Prod.snd)
      refine (hplace.append_right _).trans ?_
      rw [List.map_cons, List.map_cons]
      exact List.perm_middle.symm

/-! ## Trees -/

namespace JoinTree

/-- The leaves of a tree, null pointers among them. -/
def leaves : JoinTree → List (Option Operator)
  | .null => [none]
  | .leaf plan => [some plan]
  | .join _ left right _ => left.leaves ++ right.leaves

/-- The join conditions of a tree. -/
def conditions : JoinTree → List OperatorExpression
  | .null | .leaf _ => []
  | .join _ left right joinCondition => left.conditions ++ right.conditions ++ [joinCondition]

/-- The table of a condition is a leaf of the tree. -/
def Has (tree : JoinTree) (name : String) : Prop :=
  ∃ plan, some plan ∈ tree.leaves ∧ leafName plan = name

/-- Every join condition stands above both of its tables. -/
def Above : JoinTree → Prop
  | .null | .leaf _ => True
  | .join columnList left right joinCondition =>
      left.Above ∧ right.Above ∧ ∀ a b, operands? joinCondition = some (a, b) →
        (join columnList left right joinCondition).Has (tablePart a.toString) ∧
          (join columnList left right joinCondition).Has (tablePart b.toString)

end JoinTree

/-- The tree has each leaf of the plan and each of its join conditions once, and each
condition above both of its tables. -/
structure Keeps (plan : Operator) (tree : JoinTree) : Prop where
  leaves : tree.leaves.Perm ((joinLeaves plan).map some)
  conditions : tree.conditions.Perm ((joinsBelow plan).map JoinOperator.joinCondition)
  above : tree.Above

section

variable {right tree tree' : JoinTree} {conditions : List OperatorExpression}

theorem Hung.leaves_eq (h : Hung right conditions tree tree') :
    tree'.leaves = tree.leaves ++ (List.replicate conditions.length right.leaves).flatten := by
  induction h with
  | nil => exact (List.append_nil _).symm
  | cons columnList _ ih =>
      rw [ih, JoinTree.leaves, List.append_assoc]
      rfl

theorem Hung.eq_of_nil (h : Hung right [] tree tree') : tree' = tree := by
  cases h
  rfl

theorem Hung.eq_of_singleton {condition : OperatorExpression}
    (h : Hung right [condition] tree tree') :
    ∃ columnList, tree' = .join columnList tree right condition := by
  cases h with
  | cons columnList hrest => exact ⟨columnList, hrest.eq_of_nil⟩

theorem Hung.conditions_eq (hright : right.conditions = [])
    (h : Hung right conditions tree tree') :
    tree'.conditions = tree.conditions ++ conditions := by
  induction h with
  | nil => exact (List.append_nil _).symm
  | cons columnList _ ih =>
      rw [ih, JoinTree.conditions, hright, List.append_nil, List.append_assoc]
      rfl

end

theorem JoinGraph.leaves_node (graph : JoinGraph) (name : String) :
    (graph.node name).leaves = [graph.nodes.find? name] := by
  rw [node]
  cases graph.nodes.find? name <;> rfl

theorem JoinGraph.conditions_node (graph : JoinGraph) (name : String) :
    (graph.node name).conditions = [] := by
  rw [node]
  cases graph.nodes.find? name <;> rfl

theorem JoinGraph.above_node (graph : JoinGraph) (name : String) : (graph.node name).Above := by
  rw [node]
  cases graph.nodes.find? name <;> trivial

/-! ## Queries over distinct tables -/

/-- The joins of the plan are one below the other, over different tables of the database
that are read under their own names, and a join condition compares two of them. -/
structure DistinctTables (stats : Statistics) (plan : Operator) (graph : JoinGraph) : Prop where
  graph_eq : joinGraph (nestedLoopJoins plan) = .ok graph
  nodup : (queryTables plan).Nodup
  length_eq : (joinLeaves plan).length = (joinsBelow plan).length + 1
  known : ∀ name ∈ queryTables plan, name ∈ stats.names
  pairs_mem : ∀ pair ∈ graph.pairs, pair.1 ∈ queryTables plan ∧ pair.2 ∈ queryTables plan

namespace DistinctTables

variable {stats : Statistics} {plan : Operator} {graph : JoinGraph}

theorem nodes_perm (h : DistinctTables stats plan graph) :
    graph.nodes.Perm ((joinLeaves plan).map leafEntry) := by
  have hperm := leavesOf_perm plan
  have hnodup : ((leavesOf (nestedLoopJoins plan)).map leafName).Nodup :=
    (hperm.map leafName).nodup_iff.mpr h.nodup
  rw [nodes_eq h.graph_eq hnodup]
  exact hperm.map leafEntry

theorem keys_perm (h : DistinctTables stats plan graph) :
    graph.nodes.keys.Perm (queryTables plan) := by
  have hperm : graph.nodes.keys.Perm (((joinLeaves plan).map leafEntry).map Prod.fst) :=
    h.nodes_perm.map Prod.fst
  rwa [List.map_map] at hperm

/-- `nodes` finds the leaf of a table of the query, and nothing else. -/
theorem find?_eq_some_iff (h : DistinctTables stats plan graph) {name : String} {leaf : Operator} :
    graph.nodes.find? name = some leaf ↔ leaf ∈ joinLeaves plan ∧ leafName leaf = name := by
  have hmem : ∀ entry, entry ∈ graph.nodes ↔ ∃ leaf ∈ joinLeaves plan, leafEntry leaf = entry := by
    intro entry
    rw [h.nodes_perm.mem_iff, List.mem_map]
  constructor
  · intro hfind
    obtain ⟨leaf', hleaf, heq⟩ := (hmem _).mp (Assoc.mem_of_find? hfind)
    cases heq
    exact ⟨hleaf, rfl⟩
  · rintro ⟨hleaf, rfl⟩
    have hnodup : graph.nodes.keys.Nodup := h.keys_perm.nodup_iff.mpr h.nodup
    exact Assoc.find?_of_mem_nodup hnodup ((hmem _).mpr ⟨leaf, hleaf, rfl⟩)

theorem find?_eq_none_iff (h : DistinctTables stats plan graph) {name : String} :
    graph.nodes.find? name = none ↔ name ∉ queryTables plan := by
  rw [Assoc.find?_eq_none_iff, h.keys_perm.mem_iff]

/-- What `nodes` finds for all tables of the query are its leaves. -/
theorem map_find?_queryTables (h : DistinctTables stats plan graph) :
    (queryTables plan).map (graph.nodes.find? ·) = (joinLeaves plan).map some := by
  rw [queryTables, List.map_map]
  apply List.map_congr_left
  intro leaf hleaf
  exact h.find?_eq_some_iff.mpr ⟨hleaf, rfl⟩

theorem not_blank (hplain : stats.Plain) (h : DistinctTables stats plan graph) :
    ∀ pair ∈ graph.relations.keys, ¬Blank stats pair := by
  intro pair hpair
  obtain ⟨h1, h2⟩ := h.pairs_mem pair (((joinGraph_collected h.graph_eq).1.mem_keys pair).mp hpair)
  rintro (⟨hb, -⟩ | ⟨hb, -⟩)
  · exact hplain.blank (hb ▸ h.known _ h1)
  · exact hplain.blank (hb ▸ h.known _ h2)

theorem length_pairs (h : DistinctTables stats plan graph) :
    (queryTables plan).length = graph.pairs.length + 1 := by
  rw [queryTables, List.length_map, h.length_eq, (joinGraph_collected h.graph_eq).2,
    (nestedLoopJoins_perm plan).length_eq]

end DistinctTables

/-! ## What the rounds weave -/

theorem filter_perm_of_split {α : Type} {p q r : α → Bool} {l : List α}
    (h : ∀ x ∈ l, p x = (q x || r x) ∧ (q x && r x) = false) :
    (l.filter p).Perm (l.filter q ++ l.filter r) := by
  induction l with
  | nil => exact .refl _
  | cons x l ih =>
      obtain ⟨hor, hand⟩ := h x List.mem_cons_self
      have ih := ih fun y hy => h y (List.mem_cons_of_mem _ hy)
      rw [List.filter_cons, List.filter_cons, List.filter_cons, hor]
      cases hq : q x <;> cases hr : r x
      · exact ih
      · exact (ih.cons x).trans List.perm_middle.symm
      · exact ih.cons x
      · rw [hq, hr] at hand
        cases hand

section

variable {stats : Statistics} {plan : Operator} {graph : JoinGraph} {next : String}
  {s s' : GreedyState} {tree : JoinTree}

/-- The pass returns what its loop ends with. -/
theorem reorderJoin_eq_some {rounds : Nat} (hg : joinGraph (nestedLoopJoins plan) = .ok graph)
    (h : reorderJoin stats plan rounds = .ok (some tree)) :
    ∃ s, Reached stats graph plan s ∧ s.pending = [] ∧ s.child0 = tree := by
  rw [reorderJoin_of_graph hg] at h
  split at h
  · cases h
  · cases hloop : greedyLoop stats graph rounds
        (greedyStart stats graph (nestedLoopJoins plan)) with
    | error e =>
        rw [hloop] at h
        cases h
    | ok s =>
        rw [hloop] at h
        cases h
        obtain ⟨hreached, hdone⟩ := BoundedLoop.reaches_of_run_ok hloop
        exact ⟨s, hreached, List.isEmpty_iff.mp hdone, rfl⟩

/-- The conditions in the tree are those of the relations inside the tables chosen. -/
def Woven (graph : JoinGraph) (s : GreedyState) : Prop :=
  s.child0.conditions.Perm
    ((graph.relations.filter fun relation => inside s.rNow relation.1).map Prod.snd)

theorem Chooses.woven (hplain : stats.Plain)
    (hblank : ∀ pair ∈ graph.relations.keys, ¬Blank stats pair) (h : Chooses stats graph next s s')
    (hchoice : Choice stats s.rNow) (hw : Woven graph s) : Woven graph s' := by
  have hsplit : (graph.relations.filter fun relation => inside (s.rNow ++ [next]) relation.1).Perm
      ((graph.relations.filter fun relation => inside s.rNow relation.1) ++
        graph.relations.filter fun relation => touches s.rNow next relation.1) := by
    apply filter_perm_of_split
    intro relation hrelation
    exact inside_append hplain hchoice h.next_eq (hblank _ (List.mem_map_of_mem hrelation))
  rw [Woven] at hw ⊢
  rw [h.hung.conditions_eq (graph.conditions_node next), h.rNow_eq]
  refine (hw.append_right _).trans ?_
  rw [JoinGraph.completed, ← List.map_append]
  exact (hsplit.map Prod.snd).symm

/-- What holds at the start of every round. -/
structure Kept (stats : Statistics) (graph : JoinGraph) (s : GreedyState) : Prop where
  choice : Choice stats s.rNow
  balanced : Balanced graph graph.pairs.length s
  woven : Woven graph s

theorem Chooses.kept (hplain : stats.Plain)
    (hblank : ∀ pair ∈ graph.relations.keys, ¬Blank stats pair) (h : Chooses stats graph next s s')
    (hk : Kept stats graph s) : Kept stats graph s' where
  choice := by
    rw [h.rNow_eq]
    exact hk.choice.append hplain h.next_eq
  balanced := h.balanced hplain hblank hk.choice hk.balanced
  woven := h.woven hplain hblank hk.choice hk.woven

theorem greedyStart_kept (hg : joinGraph (nestedLoopJoins plan) = .ok graph) :
    Kept stats graph (greedyStart stats graph (nestedLoopJoins plan)) := by
  obtain ⟨hchoice, hb⟩ := greedyStart_ok stats hg
  refine ⟨hchoice, hb, ?_⟩
  have hnil : (graph.relations.filter fun relation =>
      inside [firstTable stats graph.cnt] relation.1) = [] := by
    rw [List.filter_eq_nil_iff]
    intro relation _ hinside
    simp only [inside, Bool.and_eq_true, decide_eq_true_eq, List.mem_singleton] at hinside
    obtain ⟨⟨hne, h1⟩, h2⟩ := hinside
    exact hne (h1.trans h2.symm)
  rw [Woven, greedyStart, hnil, graph.conditions_node]
  exact .refl _

theorem Reached.kept (hplain : stats.Plain) (hd : DistinctTables stats plan graph)
    (h : Reached stats graph plan s) : Kept stats graph s := by
  refine BoundedLoop.Reaches.invariant ?_ h (greedyStart_kept hd.graph_eq)
  intro s s' hk hround
  obtain ⟨next, hchooses⟩ := greedyRound_eq_ok hround.step_eq
  exact hchooses.kept hplain (hd.not_blank hplain) hk

/-- Where the loop ends all relations are in the tree, and no two joins had one key. -/
theorem Kept.conditions_perm (hd : DistinctTables stats plan graph) (hk : Kept stats graph s)
    (hdone : s.pending = []) :
    s.child0.conditions.Perm ((joinsBelow plan).map JoinOperator.joinCondition) := by
  obtain ⟨hc, -⟩ := joinGraph_collected hd.graph_eq
  have hb := hk.balanced
  rw [Balanced, hdone, List.length_nil, Nat.zero_add] at hb
  have hle := List.countP_le_length (p := inside s.rNow) (l := graph.relations.keys)
  have hkeys := hc.length_keys.1
  have hnodup : graph.pairs.Nodup := hc.length_keys.2.mp (by omega)
  have hcount : graph.relations.keys.countP (inside s.rNow) = graph.relations.keys.length := by
    omega
  have hall : (graph.relations.filter fun relation => inside s.rNow relation.1) =
      graph.relations := by
    rw [List.filter_eq_self]
    intro relation hrelation
    exact List.countP_eq_length.mp hcount _ (List.mem_map_of_mem hrelation)
  have hw := hk.woven
  rw [Woven, hall] at hw
  have hconditions : (graph.relations.map Prod.snd).Perm
      ((nestedLoopJoins plan).map JoinOperator.joinCondition) :=
    relations_perm collected_empty hd.graph_eq hnodup
  exact hw.trans (hconditions.trans ((nestedLoopJoins_perm plan).map _))

/-! ## One relation a round -/

/-- The tree is grown from the tables `inTree`, each once.  Either these are all tables of
the query chosen so far, or one chosen is missing for good. -/
structure Grown (plan : Operator) (graph : JoinGraph) (s : GreedyState)
    (inTree : List String) : Prop where
  leaves_eq : s.child0.leaves = inTree.map (graph.nodes.find? ·)
  nodup : inTree.Nodup
  query : ∀ name ∈ inTree, name ∈ queryTables plan
  chosen : ∀ name ∈ inTree, name ∈ s.rNow
  length_eq : inTree.length + s.pending.length = graph.pairs.length + 1
  above : (s.child0.Above ∧ ∀ name ∈ queryTables plan, name ∈ s.rNow → name ∈ inTree) ∨
    ∃ name ∈ queryTables plan, name ∈ s.rNow ∧ name ∉ inTree

theorem greedyStart_grown (hd : DistinctTables stats plan graph)
    (hfirst : firstTable stats graph.cnt ∈ queryTables plan) :
    Grown plan graph (greedyStart stats graph (nestedLoopJoins plan))
      [firstTable stats graph.cnt] where
  leaves_eq := graph.leaves_node _
  nodup := List.nodup_singleton _
  query := by
    intro name hname
    rwa [List.mem_singleton.mp hname]
  chosen := fun name hname => hname
  length_eq := by
    have hlength := (joinGraph_collected hd.graph_eq).2
    rw [greedyStart, List.length_singleton, List.length_reverse, List.length_map]
    omega
  above := .inl ⟨graph.above_node _, fun name _ hname => hname⟩

/-- A leaf of the tree for every table that it is grown from. -/
theorem Grown.has {inTree : List String} (hd : DistinctTables stats plan graph)
    (h : Grown plan graph s inTree) {name : String} (hname : name ∈ inTree) :
    s.child0.Has name := by
  cases hfind : graph.nodes.find? name with
  | none => exact absurd (h.query name hname) (hd.find?_eq_none_iff.mp hfind)
  | some leaf =>
      refine ⟨leaf, ?_, (hd.find?_eq_some_iff.mp hfind).2⟩
      rw [h.leaves_eq, ← hfind]
      exact List.mem_map_of_mem (f := fun name => graph.nodes.find? name) hname

theorem has_node (hd : DistinctTables stats plan graph) {name : String}
    (hname : name ∈ queryTables plan) : (graph.node name).Has name := by
  cases hfind : graph.nodes.find? name with
  | none => exact absurd hname (hd.find?_eq_none_iff.mp hfind)
  | some leaf =>
      refine ⟨leaf, ?_, (hd.find?_eq_some_iff.mp hfind).2⟩
      rw [graph.leaves_node, hfind]
      exact List.mem_singleton_self _

/-- A table that completes a relation is a table of the query not chosen before, and so is
the other table of the relation, which was. -/
theorem Chooses.of_completed (hplain : stats.Plain) (hd : DistinctTables stats plan graph)
    (h : Chooses stats graph next s s') {condition : OperatorExpression}
    (hmem : condition ∈ graph.completed s.rNow next) :
    next ∈ queryTables plan ∧ next ∉ s.rNow ∧
      ∃ pair, Relates (pair, condition) ∧ pair.1 ∈ queryTables plan ∧ pair.2 ∈ queryTables plan ∧
        (pair.1 = next ∧ pair.2 ∈ s.rNow ∨ pair.2 = next ∧ pair.1 ∈ s.rNow) := by
  rw [JoinGraph.completed, List.mem_map] at hmem
  obtain ⟨⟨pair, condition'⟩, hrelation, rfl⟩ := hmem
  obtain ⟨hrelation, htouch⟩ := List.mem_filter.mp hrelation
  simp only [touches, Bool.or_eq_true, Bool.and_eq_true, decide_eq_true_eq] at htouch
  have hrelates : Relates (pair, condition') := by
    refine foldlM_addJoin_relates hd.graph_eq ?_ _ hrelation
    intro relation hnil
    cases hnil
  have hkey : pair ∈ graph.relations.keys := List.mem_map_of_mem hrelation
  obtain ⟨h1, h2⟩ := hd.pairs_mem pair (((joinGraph_collected hd.graph_eq).1.mem_keys pair).mp hkey)
  have hquery : next ∈ queryTables plan := by
    rcases htouch with ⟨rfl, -⟩ | ⟨rfl, -⟩
    · exact h1
    · exact h2
  refine ⟨hquery, ?_, pair, hrelates, h1, h2, htouch⟩
  rcases nextTable_mem hplain h.next_eq with rfl | hmem
  · exact absurd (hd.known _ hquery) hplain.blank
  · exact ((mem_candidates stats).mp hmem).2

theorem Chooses.mem_rNow_iff (h : Chooses stats graph next s s') {name : String} :
    name ∈ s'.rNow ↔ name ∈ s.rNow ∨ name = next := by
  rw [h.rNow_eq, List.mem_append, List.mem_singleton]

/-- A table that completes no relation is missing for good, or not one of the query. -/
theorem Chooses.grown_of_nil (hplain : stats.Plain) (hd : DistinctTables stats plan graph)
    (h : Chooses stats graph next s s') (hnil : graph.completed s.rNow next = [])
    {inTree : List String} (hg : Grown plan graph s inTree) : Grown plan graph s' inTree := by
  have htree : s'.child0 = s.child0 := (hnil ▸ h.hung).eq_of_nil
  have hpending : s'.pending = s.pending := by
    rw [h.pending_eq, hnil]
    rfl
  refine ⟨htree ▸ hg.leaves_eq, hg.nodup, hg.query, ?_, hpending ▸ hg.length_eq, ?_⟩
  · intro name hname
    exact h.mem_rNow_iff.mpr (.inl (hg.chosen name hname))
  · rcases hg.above with ⟨habove, hall⟩ | ⟨name, hname, hrnow, hmissing⟩
    · by_cases hquery : next ∈ queryTables plan
      · right
        refine ⟨next, hquery, h.mem_rNow_iff.mpr (.inr rfl), ?_⟩
        intro hin
        rcases nextTable_mem hplain h.next_eq with rfl | hcandidate
        · exact hplain.blank (hd.known _ hquery)
        · exact ((mem_candidates stats).mp hcandidate).2 (hg.chosen next hin)
      · left
        refine ⟨htree ▸ habove, ?_⟩
        intro name hname hrnow
        rcases h.mem_rNow_iff.mp hrnow with hrnow | rfl
        · exact hall name hname hrnow
        · exact absurd hname hquery
    · exact .inr ⟨name, hname, h.mem_rNow_iff.mpr (.inl hrnow), hmissing⟩

/-- The join above a tree that has one table of the condition, and above the other one. -/
theorem above_join (hd : DistinctTables stats plan graph) {inTree : List String}
    (hg : Grown plan graph s inTree) (habove : s.child0.Above) (hquery : next ∈ queryTables plan)
    {pair : String × String} {condition : OperatorExpression} (hrelates : Relates (pair, condition))
    (hends : pair.1 = next ∧ pair.2 ∈ inTree ∨ pair.2 = next ∧ pair.1 ∈ inTree)
    (columnList : ColumnList) :
    (JoinTree.join columnList s.child0 (graph.node next) condition).Above := by
  refine ⟨habove, graph.above_node next, ?_⟩
  intro a b hoperands
  obtain ⟨a', b', hoperands', hpair⟩ := hrelates
  replace hoperands' : operands? condition = some (a', b') := hoperands'
  rw [hoperands] at hoperands'
  cases hoperands'
  replace hpair : pair = (tablePart a.toString, tablePart b.toString) := hpair
  have hleft : ∀ name, s.child0.Has name →
      (JoinTree.join columnList s.child0 (graph.node next) condition).Has name := by
    rintro name ⟨leaf, hleaf, hname⟩
    exact ⟨leaf, List.mem_append_left _ hleaf, hname⟩
  have hright : (JoinTree.join columnList s.child0 (graph.node next) condition).Has next := by
    obtain ⟨leaf, hleaf, hname⟩ := has_node hd hquery
    exact ⟨leaf, List.mem_append_right _ hleaf, hname⟩
  subst hpair
  rcases hends with ⟨heq, hold⟩ | ⟨heq, hold⟩
  · exact ⟨heq ▸ hright, hleft _ (hg.has hd hold)⟩
  · exact ⟨hleft _ (hg.has hd hold), heq ▸ hright⟩

/-- A table that completes one relation is a new leaf. -/
theorem Chooses.grown_of_singleton (hplain : stats.Plain) (hd : DistinctTables stats plan graph)
    (h : Chooses stats graph next s s') {condition : OperatorExpression}
    (hone : graph.completed s.rNow next = [condition])
    {inTree : List String} (hg : Grown plan graph s inTree) :
    Grown plan graph s' (inTree ++ [next]) := by
  obtain ⟨hquery, hnew, pair, hrelates, h1, h2, hends⟩ :=
    h.of_completed hplain hd (hone ▸ List.mem_singleton_self condition)
  have hnotin : next ∉ inTree := fun hin => hnew (hg.chosen next hin)
  obtain ⟨columnList, htree⟩ : ∃ columnList,
      s'.child0 = .join columnList s.child0 (graph.node next) condition :=
    (hone ▸ h.hung).eq_of_singleton
  constructor
  · rw [htree, JoinTree.leaves, hg.leaves_eq, graph.leaves_node, List.map_append]
    rfl
  · refine List.nodup_append.mpr ⟨hg.nodup, List.nodup_singleton _, ?_⟩
    intro name hname other hother heq
    rw [List.mem_singleton.mp hother] at heq
    exact hnotin (heq ▸ hname)
  · intro name hname
    rcases List.mem_append.mp hname with hname | hname
    · exact hg.query name hname
    · rwa [List.mem_singleton.mp hname]
  · intro name hname
    rw [h.mem_rNow_iff]
    rcases List.mem_append.mp hname with hname | hname
    · exact .inl (hg.chosen name hname)
    · exact .inr (List.mem_singleton.mp hname)
  · have hlength := hg.length_eq
    have hle := h.le
    rw [hone, List.length_singleton] at hle
    rw [h.pending_eq, hone, List.length_drop, List.length_append, List.length_singleton,
      List.length_singleton]
    omega
  · rcases hg.above with ⟨habove, hall⟩ | ⟨name, hname, hrnow, hmissing⟩
    · left
      constructor
      · rw [htree]
        apply above_join hd hg habove hquery hrelates
        rcases hends with ⟨heq, hold⟩ | ⟨heq, hold⟩
        · exact .inl ⟨heq, hall _ h2 hold⟩
        · exact .inr ⟨heq, hall _ h1 hold⟩
      · intro name hname hrnow
        rcases h.mem_rNow_iff.mp hrnow with hrnow | rfl
        · exact List.mem_append_left _ (hall name hname hrnow)
        · exact List.mem_append_right _ List.mem_cons_self
    · right
      refine ⟨name, hname, h.mem_rNow_iff.mpr (.inl hrnow), ?_⟩
      intro hin
      rcases List.mem_append.mp hin with hin | hin
      · exact hmissing hin
      · exact hnew (List.mem_singleton.mp hin ▸ hrnow)

theorem Chooses.grown (hplain : stats.Plain) (hd : DistinctTables stats plan graph)
    (h : Chooses stats graph next s s') (hone : (graph.completed s.rNow next).length ≤ 1)
    {inTree : List String} (hg : Grown plan graph s inTree) :
    ∃ inTree', Grown plan graph s' inTree' := by
  rcases hcompleted : graph.completed s.rNow next with _ | ⟨condition, _ | ⟨other, rest⟩⟩
  · exact ⟨inTree, h.grown_of_nil hplain hd hcompleted hg⟩
  · exact ⟨inTree ++ [next], h.grown_of_singleton hplain hd hcompleted hg⟩
  · rw [hcompleted, List.length_cons, List.length_cons] at hone
    omega

/-! ## The tree returned -/

theorem Reaches.leaves_prefix {t : GreedyState}
    (h : BoundedLoop.Reaches (·.pending.isEmpty) (greedyRound stats graph) s t) :
    s.child0.leaves <+: t.child0.leaves := by
  induction h with
  | refl => exact List.prefix_refl _
  | tail _ hround ih =>
      obtain ⟨next, hchooses⟩ := greedyRound_eq_ok hround.step_eq
      rw [hchooses.hung.leaves_eq]
      exact ih.trans (List.prefix_append _ _)

theorem DistinctTables.nodup_leaves (hd : DistinctTables stats plan graph) :
    ((joinLeaves plan).map some).Nodup :=
  (List.Nodup.of_map leafName hd.nodup).map (Option.some_injective _)

/-- A tree that has every leaf once began with a table of the query. -/
theorem Keeps.firstTable_mem (hd : DistinctTables stats plan graph)
    (hs : Reached stats graph plan s) (hk : Keeps plan s.child0) :
    firstTable stats graph.cnt ∈ queryTables plan := by
  by_contra hnot
  have hnone := hd.find?_eq_none_iff.mpr hnot
  have hmem : none ∈ s.child0.leaves := by
    apply (Reaches.leaves_prefix hs).subset
    rw [greedyStart, graph.leaves_node, hnone]
    exact List.mem_singleton_self _
  have hsome := hk.leaves.subset hmem
  simp at hsome

/-- A tree that has every leaf once grew by one join a round at most. -/
theorem Keeps.length_completed_le (hd : DistinctTables stats plan graph) {t : GreedyState}
    (hs : Reached stats graph plan s) (ht : Reached stats graph plan t) (hdone : t.pending = [])
    (hk : Keeps plan t.child0) (hpending : s.pending ≠ [])
    (hnext : nextTable stats s.rNow = .ok next) :
    (graph.completed s.rNow next).length ≤ 1 := by
  have hrest := hs.of_done ht (List.isEmpty_iff.mpr hdone)
  rcases hrest.cases_head with rfl | ⟨s', hround, hrest⟩
  · exact absurd hdone hpending
  · obtain ⟨next', hchooses⟩ := greedyRound_eq_ok hround.step_eq
    have heq := hnext.symm.trans hchooses.next_eq
    cases heq
    have hsub : s'.child0.leaves.Sublist t.child0.leaves := (Reaches.leaves_prefix hrest).sublist
    have hnodup : s'.child0.leaves.Nodup := (hk.leaves.nodup_iff.mpr hd.nodup_leaves).sublist hsub
    rw [hchooses.hung.leaves_eq, graph.leaves_node, List.flatten_replicate_singleton] at hnodup
    exact List.nodup_replicate.mp (List.nodup_append.mp hnodup).2.1

/-- When every round hangs one join at most, the tree has all that the plan had. -/
theorem Grown.keeps (hd : DistinctTables stats plan graph)
    {inTree : List String} (hk : Kept stats graph s) (hg : Grown plan graph s inTree)
    (hdone : s.pending = []) : Keeps plan s.child0 := by
  have hlength := hg.length_eq
  rw [hdone, List.length_nil, Nat.add_zero, ← hd.length_pairs] at hlength
  have hperm : inTree.Perm (queryTables plan) :=
    (List.subperm_of_subset hg.nodup hg.query).perm_of_length_le hlength.ge
  constructor
  · rw [hg.leaves_eq, ← hd.map_find?_queryTables]
    exact hperm.map _
  · exact hk.conditions_perm hd hdone
  · rcases hg.above with ⟨habove, -⟩ | ⟨name, hname, -, hmissing⟩
    · exact habove
    · exact absurd (hperm.mem_iff.mpr hname) hmissing

end

/-- Three tables `a(x int)`, `b(y int)` and `c(z int)`, of which `b` is the largest. -/
def threeTables : Statistics where
  tables := [oneColumn "a" "x" 1 1, oneColumn "b" "y" 100 1, oneColumn "c" "z" 1 1]
  sorted := by decide

/-- `select * from a join b on a.x = b.y join c on b.y = c.z`. -/
def selectPath : Operator :=
  selectFrom (joinOf (joinOf (scanOf "a" "a.x" none) (scanOf "b" "b.y" none) "a.x" "b.y")
    (scanOf "c" "c.z" none) "b.y" "c.z")

theorem threeTables_plain : threeTables.Plain := by
  intro name hname
  replace hname : name ∈ ["a", "b", "c"] := hname
  simp only [List.mem_cons, List.not_mem_nil, or_false] at hname
  rcases hname with rfl | rfl | rfl <;> decide

end Optimizer

end HuaDB
