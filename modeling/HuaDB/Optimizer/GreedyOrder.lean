import HuaDB.Lib.Exec
import HuaDB.Optimizer.Estimates

/-!
# The rounds of the greedy join order

A round chooses a table and takes one join off the collection for every relation between
it and the tables chosen before.  As long as there are tables not chosen, a round chooses
one of them or leaves the empty name (`waiting_lt`), so after finitely many rounds all are
chosen.  The joins taken by then are the relations between two tables of the database, and
the loop goes on for ever when there are more joins than these.
-/

namespace HuaDB

namespace Optimizer

/-! ## The join graph -/

theorem addJoin_eq_ok {graph graph' : JoinGraph} {join : JoinOperator}
    (h : addJoin graph join = .ok graph') :
    ∃ pair left nodes, relationOf join = .ok pair ∧ addNode graph.nodes join.left = .ok left ∧
      addNode left join.right = .ok nodes ∧
      graph' = {
        relations := graph.relations.upsert pairLt pair fun _ => join.joinCondition
        pairs := graph.pairs ++ [pair]
        nodes := nodes } := by
  rw [addJoin] at h
  obtain ⟨pair, hpair, h⟩ := Except.bind_eq_ok_iff.mp h
  obtain ⟨left, hleft, h⟩ := Except.bind_eq_ok_iff.mp h
  obtain ⟨nodes, hnodes, h⟩ := Except.bind_eq_ok_iff.mp h
  cases h
  exact ⟨pair, left, nodes, hpair, hleft, hnodes, rfl⟩

/-- The keys of `relations` are the pairs of all joins, each once. -/
structure JoinGraph.Collected (graph : JoinGraph) : Prop where
  keys_nodup : graph.relations.keys.Nodup
  mem_keys : ∀ pair, pair ∈ graph.relations.keys ↔ pair ∈ graph.pairs

theorem JoinGraph.Collected.addJoin {graph graph' : JoinGraph} {join : JoinOperator}
    (hg : graph.Collected) (h : addJoin graph join = .ok graph') : graph'.Collected := by
  obtain ⟨pair, left, nodes, -, -, -, rfl⟩ := addJoin_eq_ok h
  constructor
  · exact Assoc.nodup_keys_upsert pairLt pair (fun _ => join.joinCondition) hg.keys_nodup
  · intro other
    rw [Assoc.mem_keys_upsert, hg.mem_keys, List.mem_append, List.mem_singleton, or_comm]

theorem foldlM_addJoin {joins : List JoinOperator} {graph graph' : JoinGraph}
    (hg : graph.Collected) (h : joins.foldlM addJoin graph = .ok graph') :
    graph'.Collected ∧
      ∃ pairs, graph'.pairs = graph.pairs ++ pairs ∧ pairs.length = joins.length := by
  induction joins generalizing graph with
  | nil =>
      cases h
      exact ⟨hg, [], (List.append_nil _).symm, rfl⟩
  | cons join joins ih =>
      rw [List.foldlM_cons] at h
      obtain ⟨mid, hmid, h⟩ := Except.bind_eq_ok_iff.mp h
      obtain ⟨hc, pairs, hpairs, hlen⟩ := ih (hg.addJoin hmid) h
      obtain ⟨pair, left, nodes, -, -, -, rfl⟩ := addJoin_eq_ok hmid
      refine ⟨hc, pair :: pairs, ?_, ?_⟩
      · rw [hpairs, List.append_assoc]
        rfl
      · rw [List.length_cons, List.length_cons, hlen]

theorem collected_empty : JoinGraph.Collected {} := ⟨List.nodup_nil, fun _ => Iff.rfl⟩

theorem joinGraph_collected {joins : List JoinOperator} {graph : JoinGraph}
    (h : joinGraph joins = .ok graph) :
    graph.Collected ∧ graph.pairs.length = joins.length := by
  obtain ⟨hc, pairs, hpairs, hlen⟩ := foldlM_addJoin collected_empty h
  refine ⟨hc, ?_⟩
  rw [hpairs, ← hlen]
  rfl

/-- There are as many relations as joins when no pair is there twice. -/
theorem JoinGraph.Collected.length_keys {graph : JoinGraph} (h : graph.Collected) :
    graph.relations.keys.length ≤ graph.pairs.length ∧
      (graph.relations.keys.length = graph.pairs.length ↔ graph.pairs.Nodup) := by
  have hsub : graph.relations.keys.Subperm graph.pairs :=
    List.subperm_of_subset h.keys_nodup fun pair hpair => (h.mem_keys pair).mp hpair
  refine ⟨hsub.length_le, ?_, ?_⟩
  · intro hlen
    exact (hsub.perm_of_length_le hlen.ge).nodup_iff.mp h.keys_nodup
  · intro hnodup
    have hback : graph.pairs.Subperm graph.relations.keys :=
      List.subperm_of_subset hnodup fun pair hpair => (h.mem_keys pair).mpr hpair
    exact le_antisymm hsub.length_le hback.length_le

/-! ## One round -/

/-- Joins hung above a tree, all with the same right child. -/
inductive Hung (right : JoinTree) : List OperatorExpression → JoinTree → JoinTree → Prop
  | nil (tree : JoinTree) : Hung right [] tree tree
  | cons {condition conditions tree tree'} (columnList : ColumnList)
      (rest : Hung right conditions (.join columnList tree right condition) tree') :
      Hung right (condition :: conditions) tree tree'

theorem foldlM_hang (right : JoinTree) (conditions : List OperatorExpression) (tree : JoinTree)
    (pending : List ColumnList) :
    conditions.length ≤ pending.length ∧
        (∃ tree', conditions.foldlM (hang right) (tree, pending) =
          .ok (tree', pending.drop conditions.length) ∧ Hung right conditions tree tree') ∨
      pending.length < conditions.length ∧
        conditions.foldlM (hang right) (tree, pending) = .error .undefined := by
  induction conditions generalizing tree pending with
  | nil => exact .inl ⟨Nat.zero_le _, tree, rfl, .nil tree⟩
  | cons condition conditions ih =>
      rw [List.foldlM_cons]
      cases pending with
      | nil => exact .inr ⟨Nat.succ_pos _, rfl⟩
      | cons columnList pending =>
          rcases ih (.join columnList tree right condition) pending with
            ⟨hle, tree', hok, hhung⟩ | ⟨hlt, herror⟩
          · exact .inl ⟨Nat.succ_le_succ hle, tree', hok, .cons columnList hhung⟩
          · exact .inr ⟨Nat.succ_lt_succ hlt, herror⟩

section

variable {stats : Statistics} {graph : JoinGraph}

/-- The relations that a table completes. -/
def JoinGraph.completed (graph : JoinGraph) (rNow : List String) (next : String) :
    List OperatorExpression :=
  (graph.relations.filter fun relation => touches rNow next relation.1).map Prod.snd

theorem JoinGraph.length_completed (graph : JoinGraph) (rNow : List String) (next : String) :
    (graph.completed rNow next).length = graph.relations.keys.countP (touches rNow next) := by
  rw [completed, List.length_map, Assoc.keys, List.countP_map, List.countP_eq_length_filter]
  rfl

/-- What a round does that chooses the table `next`. -/
structure Chooses (stats : Statistics) (graph : JoinGraph) (next : String)
    (s s' : GreedyState) : Prop where
  next_eq : nextTable stats s.rNow = .ok next
  le : (graph.completed s.rNow next).length ≤ s.pending.length
  rNow_eq : s'.rNow = s.rNow ++ [next]
  pending_eq : s'.pending = s.pending.drop (graph.completed s.rNow next).length
  hung : Hung (graph.node next) (graph.completed s.rNow next) s.child0 s'.child0

/-- A round chooses a table, or it fails in the choice or for want of joins. -/
theorem greedyRound_cases (stats : Statistics) (graph : JoinGraph) (s : GreedyState) :
    (∃ next s', greedyRound stats graph s = .ok s' ∧ Chooses stats graph next s s') ∨
      (∃ e, nextTable stats s.rNow = .error e ∧ greedyRound stats graph s = .error e) ∨
      ∃ next, nextTable stats s.rNow = .ok next ∧
        s.pending.length < (graph.completed s.rNow next).length ∧
        greedyRound stats graph s = .error .undefined := by
  cases hnext : nextTable stats s.rNow with
  | error e =>
      refine .inr (.inl ⟨e, rfl, ?_⟩)
      rw [greedyRound, hnext]
      rfl
  | ok next =>
      rcases foldlM_hang (graph.node next) (graph.completed s.rNow next) s.child0 s.pending with
        ⟨hle, tree', hok, hhung⟩ | ⟨hlt, herror⟩
      · refine .inl ⟨next, ⟨s.rNow ++ [next], tree',
          s.pending.drop (graph.completed s.rNow next).length⟩, ?_, ?_⟩
        · rw [JoinGraph.completed] at hok
          rw [greedyRound, hnext]
          change (List.foldlM (hang (graph.node next)) (s.child0, s.pending) _ >>= _) = _
          rw [hok]
          rfl
        · exact ⟨hnext, hle, rfl, rfl, hhung⟩
      · refine .inr (.inr ⟨next, rfl, hlt, ?_⟩)
        rw [JoinGraph.completed] at herror
        rw [greedyRound, hnext]
        change (List.foldlM (hang (graph.node next)) (s.child0, s.pending) _ >>= _) = _
        rw [herror]
        rfl

theorem greedyRound_eq_ok {s s' : GreedyState} (h : greedyRound stats graph s = .ok s') :
    ∃ next, Chooses stats graph next s s' := by
  rcases greedyRound_cases stats graph s with ⟨next, t, hok, hc⟩ | ⟨e, -, herror⟩ | ⟨-, -, -, herror⟩
  · rw [h] at hok
    cases hok
    exact ⟨next, hc⟩
  all_goals
    rw [h] at herror
    cases herror

/-- A round divides by zero where the choice does. -/
theorem greedyRound_divisionByZero_iff {s : GreedyState} :
    greedyRound stats graph s = .error .divisionByZero ↔
      ∃ name ∈ candidates stats s.rNow, ∃ column,
        2 ^ 32 ∣ stats.distinctProduct (name :: s.rNow) column := by
  have hiff : nextTable stats s.rNow = .error .divisionByZero ↔ _ := nextTable_error_iff stats
  rw [eq_self, true_and] at hiff
  rw [← hiff]
  rcases greedyRound_cases stats graph s with
    ⟨next, t, hok, hc⟩ | ⟨e, hnext, herror⟩ | ⟨next, hnext, -, herror⟩
  · rw [hok, hc.next_eq]
    constructor
    · intro h
      cases h
    · intro h
      cases h
  · rw [hnext, herror]
    constructor
    · intro h
      cases h
      rfl
    · intro h
      cases h
      rfl
  · rw [hnext, herror]
    constructor
    · intro h
      cases h
    · intro h
      cases h

theorem greedyRound_ne_divergence (s : GreedyState) :
    greedyRound stats graph s ≠ .error .divergence := by
  intro h
  rcases greedyRound_cases stats graph s with
    ⟨next, t, hok, -⟩ | ⟨e, hnext, herror⟩ | ⟨next, -, -, herror⟩
  · rw [h] at hok
    cases hok
  · rw [h] at herror
    cases herror
    obtain ⟨hdiv, -⟩ := (nextTable_error_iff stats).mp hnext
    cases hdiv
  · rw [h] at herror
    cases herror

end

/-! ## The tables chosen -/

/-- The tables chosen are tables of the database, each once, and the empty name. -/
structure Choice (stats : Statistics) (rNow : List String) : Prop where
  nodup : (rNow.filter (· ≠ "")).Nodup
  known : ∀ name ∈ rNow, name = "" ∨ name ∈ stats.names

/-- The choices that are still to come before all tables are chosen. -/
def waiting (stats : Statistics) (rNow : List String) : Nat :=
  (candidates stats rNow).length + if "" ∈ rNow then 0 else 1

section

variable {stats : Statistics} {rNow : List String} {next : String}

theorem firstTable_mem (stats : Statistics) (cnt : String → Nat) :
    firstTable stats cnt = "" ∨ firstTable stats cnt ∈ stats.names := by
  have hfold : ∀ (tables : List TableStatistics) (best : String × Nat × Nat),
      (tables.foldl (fun (best : String × Nat × Nat) table =>
        if table.cardinality < best.2.1 ∨ best.2.2 < cnt table.name then
          (table.name, table.cardinality, cnt table.name)
        else best) best).1 = best.1 ∨
      (tables.foldl (fun (best : String × Nat × Nat) table =>
        if table.cardinality < best.2.1 ∨ best.2.2 < cnt table.name then
          (table.name, table.cardinality, cnt table.name)
        else best) best).1 ∈ tables.map TableStatistics.name := by
    intro tables
    induction tables with
    | nil => exact fun best => .inl rfl
    | cons table tables ih =>
        intro best
        rw [List.foldl_cons, List.map_cons, List.mem_cons]
        split
        · rcases ih (table.name, table.cardinality, cnt table.name) with h | h
          · exact .inr (.inl h)
          · exact .inr (.inr h)
        · rcases ih best with h | h
          · exact .inl h
          · exact .inr (.inr h)
  exact hfold stats.tables ("", invalidCardinality, 0)

theorem choice_firstTable (stats : Statistics) (cnt : String → Nat) :
    Choice stats [firstTable stats cnt] where
  nodup := ((List.nodup_singleton _).filter _)
  known := by
    intro name hname
    rw [List.mem_singleton.mp hname]
    exact firstTable_mem stats cnt

theorem Choice.append (hplain : stats.Plain) (h : Choice stats rNow)
    (hnext : nextTable stats rNow = .ok next) : Choice stats (rNow ++ [next]) := by
  rcases nextTable_mem hplain hnext with rfl | hmem
  · constructor
    · rw [List.filter_append]
      simpa using h.nodup
    · intro name hname
      rcases List.mem_append.mp hname with hname | hname
      · exact h.known name hname
      · exact .inl (List.mem_singleton.mp hname)
  · obtain ⟨hknown, hfresh⟩ := (mem_candidates stats).mp hmem
    constructor
    · rw [List.filter_append]
      refine List.nodup_append.mpr ⟨h.nodup, (List.nodup_singleton _).filter _, ?_⟩
      intro a ha b hb
      replace ha := List.mem_of_mem_filter ha
      replace hb := List.mem_singleton.mp (List.mem_of_mem_filter hb)
      subst hb
      exact fun hab => hfresh (hab ▸ ha)
    · intro name hname
      rcases List.mem_append.mp hname with hname | hname
      · exact h.known name hname
      · rw [List.mem_singleton.mp hname]
        exact .inr hknown

theorem candidates_append_of_not_mem (h : next ∉ stats.names) :
    candidates stats (rNow ++ [next]) = candidates stats rNow := by
  apply List.filter_congr
  intro name hname
  have hne : name ≠ next := fun heq => h (heq ▸ hname)
  simp [hne]

theorem length_candidates_append (h : next ∈ candidates stats rNow) :
    (candidates stats (rNow ++ [next])).length + 1 = (candidates stats rNow).length := by
  have hnodup : (candidates stats rNow).Nodup := stats.names_nodup.filter _
  have herase : candidates stats (rNow ++ [next]) = (candidates stats rNow).erase next := by
    rw [hnodup.erase_eq_filter, candidates, candidates, List.filter_filter]
    apply List.filter_congr
    intro name hname
    rw [Bool.eq_iff_iff]
    simp [and_comm]
  rw [herase, List.length_erase_of_mem h]
  have := List.length_pos_of_mem h
  omega

/-- As long as there are tables not chosen, or the empty name was not, a round brings their
number down. -/
theorem waiting_lt (hplain : stats.Plain) (hnext : nextTable stats rNow = .ok next)
    (hwait : waiting stats rNow ≠ 0) : waiting stats (rNow ++ [next]) < waiting stats rNow := by
  rcases nextTable_mem hplain hnext with rfl | hmem
  · by_cases hblank : "" ∈ rNow
    · have hleft : candidates stats rNow ≠ [] := by
        intro hnil
        rw [waiting, hnil, if_pos hblank] at hwait
        exact hwait rfl
      obtain ⟨hknown, -⟩ :=
        (mem_candidates stats).mp (nextTable_of_blank hplain hblank hleft hnext)
      exact absurd hknown hplain.blank
    · have hmem : "" ∈ rNow ++ [""] := List.mem_append_right _ List.mem_cons_self
      rw [waiting, waiting, candidates_append_of_not_mem hplain.blank, if_pos hmem, if_neg hblank]
      omega
  · have hlength := length_candidates_append hmem
    have hne : next ≠ "" := fun heq =>
      hplain.blank (heq ▸ ((mem_candidates stats).mp hmem).1)
    have hiff : "" ∈ rNow ++ [next] ↔ "" ∈ rNow := by simp [hne.symm]
    rw [waiting, waiting]
    simp only [hiff]
    omega

/-- Once all tables are chosen, rounds choose the empty name. -/
theorem nextTable_of_waiting_eq_zero (hplain : stats.Plain)
    (hnext : nextTable stats rNow = .ok next) (hwait : waiting stats rNow = 0) :
    next = "" ∧ "" ∈ rNow ∧ stats.names ⊆ rNow := by
  rw [waiting] at hwait
  have hnil : candidates stats rNow = [] := List.length_eq_zero_iff.mp (by omega)
  refine ⟨?_, ?_, ?_⟩
  · apply (nextTable_mem hplain hnext).resolve_right
    rw [hnil]
    exact List.not_mem_nil
  · apply Decidable.byContradiction
    intro hblank
    rw [if_neg hblank] at hwait
    omega
  · intro name hname
    apply Decidable.byContradiction
    intro hfresh
    have hmem : name ∈ candidates stats rNow := (mem_candidates stats).mpr ⟨hname, hfresh⟩
    rw [hnil] at hmem
    cases hmem

end

/-! ## The joins taken -/

section

variable {stats : Statistics} {graph : JoinGraph} {rNow : List String} {next : String}

/-- The relation joins two different tables of the database. -/
def Joined (stats : Statistics) (pair : String × String) : Prop :=
  pair.1 ≠ pair.2 ∧ pair.1 ∈ stats.names ∧ pair.2 ∈ stats.names

/-- The relation joins the empty name to a table of the database or to itself. -/
def Blank (stats : Statistics) (pair : String × String) : Prop :=
  pair.1 = "" ∧ (pair.2 = "" ∨ pair.2 ∈ stats.names) ∨ pair.2 = "" ∧ pair.1 ∈ stats.names

/-- Two different tables of the relation are chosen. -/
def inside (rNow : List String) (pair : String × String) : Bool :=
  pair.1 ≠ pair.2 && pair.1 ∈ rNow && pair.2 ∈ rNow

/-- A relation comes to be inside the tables chosen in the one round that it touches. -/
theorem inside_append (hplain : stats.Plain) (hchoice : Choice stats rNow)
    (hnext : nextTable stats rNow = .ok next) {pair : String × String} (hblank : ¬Blank stats pair) :
    inside (rNow ++ [next]) pair = (inside rNow pair || touches rNow next pair) ∧
      (inside rNow pair && touches rNow next pair) = false := by
  rcases nextTable_mem hplain hnext with rfl | hmem
  · have htouch : touches rNow "" pair = false := by
      rw [Bool.eq_false_iff]
      intro htouch
      apply hblank
      simp only [touches, Bool.or_eq_true, Bool.and_eq_true, decide_eq_true_eq] at htouch
      rcases htouch with ⟨h1, h2⟩ | ⟨h2, h1⟩
      · exact .inl ⟨h1, hchoice.known _ h2⟩
      · rcases hchoice.known _ h1 with h1 | h1
        · exact .inl ⟨h1, .inl h2⟩
        · exact .inr ⟨h2, h1⟩
    refine ⟨?_, by rw [htouch, Bool.and_false]⟩
    rw [htouch, Bool.or_false, Bool.eq_iff_iff]
    simp only [inside, Bool.and_eq_true, decide_eq_true_eq, List.mem_append, List.mem_singleton]
    constructor
    · rintro ⟨⟨hne, h1⟩, h2⟩
      rcases h1 with h1 | h1
      · rcases h2 with h2 | h2
        · exact ⟨⟨hne, h1⟩, h2⟩
        · rcases hchoice.known _ h1 with h1 | h1
          · exact absurd (.inl ⟨h1, .inl h2⟩) hblank
          · exact absurd (.inr ⟨h2, h1⟩) hblank
      · rcases h2 with h2 | h2
        · exact absurd (.inl ⟨h1, hchoice.known _ h2⟩) hblank
        · exact absurd (.inl ⟨h1, .inl h2⟩) hblank
    · rintro ⟨⟨hne, h1⟩, h2⟩
      exact ⟨⟨hne, .inl h1⟩, .inl h2⟩
  · obtain ⟨-, hfresh⟩ := (mem_candidates stats).mp hmem
    constructor
    · rw [Bool.eq_iff_iff]
      simp only [inside, touches, Bool.and_eq_true, Bool.or_eq_true, decide_eq_true_eq,
        List.mem_append, List.mem_singleton]
      grind
    · rw [Bool.eq_false_iff]
      simp only [inside, touches, ne_eq, Bool.and_eq_true, Bool.or_eq_true, decide_eq_true_eq]
      grind

theorem countP_inside_append (hplain : stats.Plain) (hchoice : Choice stats rNow)
    (hnext : nextTable stats rNow = .ok next) {pairs : List (String × String)}
    (hblank : ∀ pair ∈ pairs, ¬Blank stats pair) :
    pairs.countP (inside (rNow ++ [next])) =
      pairs.countP (inside rNow) + pairs.countP (touches rNow next) := by
  induction pairs with
  | nil => rfl
  | cons pair pairs ih =>
      obtain ⟨hor, hand⟩ := inside_append hplain hchoice hnext (hblank pair List.mem_cons_self)
      have ih := ih fun other hother => hblank other (List.mem_cons_of_mem _ hother)
      rw [List.countP_cons, List.countP_cons, List.countP_cons, ih, hor]
      cases hi : inside rNow pair <;> cases ht : touches rNow next pair
      · rfl
      · simp only [Bool.or_true, Bool.false_eq_true, if_true, if_false]
        omega
      · simp only [Bool.or_false, Bool.false_eq_true, if_true, if_false]
        omega
      · rw [hi, ht] at hand
        cases hand

end

end Optimizer

end HuaDB
