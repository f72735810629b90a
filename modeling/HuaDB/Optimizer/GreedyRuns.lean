import HuaDB.Optimizer.GreedyOrder

/-!
# Whole runs of `ReorderJoin`

`reorderJoin_ends_iff` says for which plans and statistics the loop comes to an end, and
`reorderJoin_divides_iff` when it divides by zero.  The loop is `BoundedLoop.run`: it ends
because `rank` goes down in every round, or it goes on because `Balanced` leaves joins in
the collection for ever.
-/

namespace HuaDB

namespace Optimizer

/-- The pass goes on for ever. -/
def RunsForever (stats : Statistics) (plan : Operator) : Prop :=
  ∀ rounds, reorderJoin stats plan rounds = .error .divergence

/-- The pass returns. -/
def Returns (stats : Statistics) (plan : Operator) : Prop :=
  ∃ rounds result, reorderJoin stats plan rounds = .ok result

/-- The states at the start of a round, and the last one. -/
abbrev Reached (stats : Statistics) (graph : JoinGraph) (plan : Operator) : GreedyState → Prop :=
  BoundedLoop.Reaches (·.pending.isEmpty) (greedyRound stats graph)
    (greedyStart stats graph (nestedLoopJoins plan))

/-! ## From the pass to its loop -/

theorem relationOf_error {join : JoinOperator} {e : ReorderError}
    (h : relationOf join = .error e) : e = .undefined := by
  rw [relationOf] at h
  split at h
  · cases h
  · cases h
    rfl

theorem addNode_error {nodes : Assoc String Operator} {child : Operator} {e : ReorderError}
    (h : addNode nodes child = .error e) : e = .undefined := by
  rw [addNode] at h
  split at h
  · cases h
  · split at h
    · cases h
      rfl
    · cases h

theorem addJoin_error {graph : JoinGraph} {join : JoinOperator} {e : ReorderError}
    (h : addJoin graph join = .error e) : e = .undefined := by
  rw [addJoin] at h
  cases hpair : relationOf join with
  | error e' =>
      rw [hpair] at h
      cases h
      exact relationOf_error hpair
  | ok pair =>
      rw [hpair] at h
      change (addNode graph.nodes join.left >>= _) = _ at h
      cases hleft : addNode graph.nodes join.left with
      | error e' =>
          rw [hleft] at h
          cases h
          exact addNode_error hleft
      | ok left =>
          rw [hleft] at h
          change (addNode left join.right >>= _) = _ at h
          cases hright : addNode left join.right with
          | error e' =>
              rw [hright] at h
              cases h
              exact addNode_error hright
          | ok nodes =>
              rw [hright] at h
              cases h

theorem joinGraph_error {joins : List JoinOperator} {e : ReorderError}
    (h : joinGraph joins = .error e) : e = .undefined := by
  have hfold : ∀ graph : JoinGraph, joins.foldlM addJoin graph = .error e → e = .undefined := by
    clear h
    induction joins with
    | nil =>
        intro graph h
        cases h
    | cons join joins ih =>
        intro graph h
        rw [List.foldlM_cons] at h
        cases hmid : addJoin graph join with
        | error e' =>
            rw [hmid] at h
            cases h
            exact addJoin_error hmid
        | ok mid =>
            rw [hmid] at h
            exact ih mid h
  exact hfold {} h

section

variable {stats : Statistics} {plan : Operator} {graph : JoinGraph}

theorem reorderJoin_of_graph (hg : joinGraph (nestedLoopJoins plan) = .ok graph) (rounds : Nat) :
    reorderJoin stats plan rounds =
      if (nestedLoopJoins plan).isEmpty then
        .ok none
      else
        (greedyLoop stats graph rounds (greedyStart stats graph (nestedLoopJoins plan))).map
          fun s => some s.child0 := by
  rw [reorderJoin, hg]
  change (if _ then _ else _) = _
  split
  · rfl
  · cases greedyLoop stats graph rounds (greedyStart stats graph (nestedLoopJoins plan)) <;> rfl

/-- The pass fails as its loop does, the missing operands and columns apart. -/
theorem reorderJoin_error_iff {rounds : Nat} {e : ReorderError} (he : e ≠ .undefined) :
    reorderJoin stats plan rounds = .error e ↔
      ∃ graph, joinGraph (nestedLoopJoins plan) = .ok graph ∧
        greedyLoop stats graph rounds (greedyStart stats graph (nestedLoopJoins plan)) =
          .error e := by
  cases hg : joinGraph (nestedLoopJoins plan) with
  | error e' =>
      rw [reorderJoin, hg]
      constructor
      · intro h
        cases h
        exact absurd (joinGraph_error hg) he
      · rintro ⟨graph, hgraph, -⟩
        cases hgraph
  | ok graph =>
      rw [reorderJoin_of_graph hg]
      constructor
      · intro h
        refine ⟨graph, rfl, ?_⟩
        split at h
        · cases h
        · cases hloop : greedyLoop stats graph rounds
              (greedyStart stats graph (nestedLoopJoins plan)) with
          | ok s =>
              rw [hloop] at h
              cases h
          | error e' =>
              rw [hloop] at h
              cases h
              rfl
      · rintro ⟨graph', hgraph, hloop⟩
        cases hgraph
        split
        · rename_i hempty
          rw [List.isEmpty_iff] at hempty
          have hok : greedyLoop stats graph rounds (greedyStart stats graph (nestedLoopJoins plan)) =
              .ok (greedyStart stats graph (nestedLoopJoins plan)) := by
            apply BoundedLoop.run_of_done
            rw [greedyStart, hempty]
            rfl
          rw [hloop] at hok
          cases hok
        · rw [hloop]
          rfl

end

/-! ## What the rounds keep -/

section

variable {stats : Statistics} {graph : JoinGraph} {next : String} {s s' : GreedyState}

/-- The joins taken are the relations inside the tables chosen. -/
def Balanced (graph : JoinGraph) (joins : Nat) (s : GreedyState) : Prop :=
  s.pending.length + graph.relations.keys.countP (inside s.rNow) = joins

theorem Chooses.balanced {joins : Nat} (hplain : stats.Plain)
    (hblank : ∀ pair ∈ graph.relations.keys, ¬Blank stats pair) (h : Chooses stats graph next s s')
    (hchoice : Choice stats s.rNow) (hb : Balanced graph joins s) : Balanced graph joins s' := by
  have hcount := countP_inside_append hplain hchoice h.next_eq hblank
  have hlength := graph.length_completed s.rNow next
  have hle := h.le
  rw [Balanced] at hb ⊢
  rw [h.rNow_eq, h.pending_eq, hcount, List.length_drop]
  omega

theorem greedyStart_balanced (stats : Statistics) (graph : JoinGraph) (joins : List JoinOperator) :
    Balanced graph joins.length (greedyStart stats graph joins) := by
  have hzero : graph.relations.keys.countP (inside [firstTable stats graph.cnt]) = 0 := by
    rw [List.countP_eq_zero]
    intro pair _ hinside
    simp only [inside, Bool.and_eq_true, decide_eq_true_eq, List.mem_singleton] at hinside
    obtain ⟨⟨hne, h1⟩, h2⟩ := hinside
    exact hne (h1.trans h2.symm)
  rw [Balanced, greedyStart, hzero, List.length_reverse, List.length_map, Nat.add_zero]

/-- The choices to come, and the joins to be taken. -/
def rank (stats : Statistics) (s : GreedyState) : Nat := waiting stats s.rNow + s.pending.length

theorem Chooses.rank_lt (hplain : stats.Plain) (h : Chooses stats graph next s s')
    (hpending : s.pending ≠ [])
    (hlast : "" ∈ s.rNow → stats.names ⊆ s.rNow →
      ∃ pair ∈ graph.relations.keys, touches s.rNow "" pair = true) :
    rank stats s' < rank stats s := by
  have hle : s'.pending.length ≤ s.pending.length := by
    rw [h.pending_eq, List.length_drop]
    omega
  rw [rank, rank, h.rNow_eq]
  by_cases hwait : waiting stats s.rNow = 0
  · obtain ⟨rfl, hblank, hall⟩ := nextTable_of_waiting_eq_zero hplain h.next_eq hwait
    obtain ⟨pair, hpair, htouch⟩ := hlast hblank hall
    have htaken : 0 < (graph.completed s.rNow "").length := by
      rw [graph.length_completed]
      exact List.countP_pos_iff.mpr ⟨pair, hpair, htouch⟩
    have hpos : 0 < s.pending.length := List.length_pos_iff.mpr hpending
    have hlength : s'.pending.length =
        s.pending.length - (graph.completed s.rNow "").length := by
      rw [h.pending_eq, List.length_drop]
    have hstay : waiting stats (s.rNow ++ [""]) ≤ waiting stats s.rNow := by
      rw [waiting, waiting, candidates_append_of_not_mem hplain.blank, if_pos hblank,
        if_pos (List.mem_append_left _ hblank)]
    omega
  · have hlt := waiting_lt hplain h.next_eq hwait
    omega

/-- A round does not fail as long as no product over all tables wraps around to zero. -/
theorem exists_greedyRound_eq_ok {joins : Nat} (hplain : stats.Plain)
    (hblank : ∀ pair ∈ graph.relations.keys, ¬Blank stats pair)
    (hkeys : graph.relations.keys.length ≤ joins)
    (hchoice : Choice stats s.rNow) (hb : Balanced graph joins s)
    (hdiv : candidates stats s.rNow = [] ∨
      ¬∃ column, 2 ^ 32 ∣ stats.distinctProduct stats.names column) :
    ∃ s', greedyRound stats graph s = .ok s' := by
  rcases greedyRound_cases stats graph s with
    ⟨next, s', hok, -⟩ | ⟨e, hnext, -⟩ | ⟨next, hnext, hlt, -⟩
  · exact ⟨s', hok⟩
  · obtain ⟨-, name, hname, column, hdvd⟩ := (nextTable_error_iff stats).mp hnext
    obtain ⟨hknown, hfresh⟩ := (mem_candidates stats).mp hname
    rcases hdiv with hnil | hnone
    · rw [hnil] at hname
      cases hname
    · refine absurd ⟨column, hdvd.trans ?_⟩ hnone
      apply Statistics.distinctProduct_dvd column hplain
      · rw [List.filter_cons]
        split
        · exact List.nodup_cons.mpr ⟨fun hmem => hfresh (List.mem_of_mem_filter hmem), hchoice.nodup⟩
        · exact hchoice.nodup
      · intro other hother
        rcases List.mem_cons.mp hother with rfl | hother
        · exact .inr hknown
        · exact hchoice.known other hother
  · have hcount := countP_inside_append hplain hchoice hnext hblank
    have hall := List.countP_le_length (p := inside (s.rNow ++ [next])) (l := graph.relations.keys)
    rw [graph.length_completed] at hlt
    rw [Balanced] at hb
    omega

end

/-! ## When the loop ends -/

/-- The joins are between different tables of the database, no two between the same ones. -/
structure AllJoined (stats : Statistics) (graph : JoinGraph) : Prop where
  nodup : graph.pairs.Nodup
  joined : ∀ pair ∈ graph.pairs, Joined stats pair

/-- The distinct counts of a column in all tables multiply to zero, and the first table is
not the only one. -/
def Traps (stats : Statistics) (graph : JoinGraph) : Prop :=
  candidates stats [firstTable stats graph.cnt] ≠ [] ∧
    ∃ column, 2 ^ 32 ∣ stats.distinctProduct stats.names column

section

variable {stats : Statistics} {graph : JoinGraph} {plan : Operator}

theorem Joined.not_blank (hplain : stats.Plain) {pair : String × String}
    (h : Joined stats pair) : ¬Blank stats pair := by
  obtain ⟨-, h1, h2⟩ := h
  rintro (⟨hblank, -⟩ | ⟨hblank, -⟩)
  · exact hplain.blank (hblank ▸ h1)
  · exact hplain.blank (hblank ▸ h2)

/-- Two tables inside those chosen are joined, unless one of them is the empty name. -/
theorem Choice.joined_of_inside {rNow : List String} (hchoice : Choice stats rNow)
    {pair : String × String} (hblank : ¬Blank stats pair) (h : inside rNow pair = true) :
    Joined stats pair := by
  simp only [inside, ne_eq, Bool.and_eq_true, decide_eq_true_eq] at h
  obtain ⟨⟨hne, h1⟩, h2⟩ := h
  rcases hchoice.known _ h1 with hb | h1
  · exact absurd (.inl ⟨hb, hchoice.known _ h2⟩) hblank
  · rcases hchoice.known _ h2 with hb | h2
    · exact absurd (.inr ⟨hb, h1⟩) hblank
    · exact ⟨hne, h1, h2⟩

/-- The loop ends when no round is left with all tables chosen and nothing to take. -/
theorem greedyLoop_ne_divergence {I : GreedyState → Prop} (hplain : stats.Plain)
    (hI : ∀ next s s', I s → s.pending ≠ [] → Chooses stats graph next s s' →
      I s' ∧ ("" ∈ s.rNow → stats.names ⊆ s.rNow →
        ∃ pair ∈ graph.relations.keys, touches s.rNow "" pair = true))
    {s : GreedyState} (hs : I s) :
    greedyLoop stats graph (rank stats s + 1) s ≠ .error .divergence := by
  refine BoundedLoop.run_ne_bound_of_measure I (rank stats) greedyRound_ne_divergence ?_ hs
    (Nat.lt_succ_self _)
  intro s s' hs hround
  obtain ⟨next, hchooses⟩ := greedyRound_eq_ok hround.step_eq
  have hpending : s.pending ≠ [] := by simpa using hround.not_done
  obtain ⟨hs', hlast⟩ := hI next s s' hs hpending hchooses
  exact ⟨hs', hchooses.rank_lt hplain hpending hlast⟩

theorem AllJoined.not_blank (hplain : stats.Plain) (hc : graph.Collected)
    (h : AllJoined stats graph) : ∀ pair ∈ graph.relations.keys, ¬Blank stats pair := by
  intro pair hpair
  exact (h.joined pair ((hc.mem_keys pair).mp hpair)).not_blank hplain

theorem AllJoined.greedyLoop_ne_divergence (hplain : stats.Plain) (hc : graph.Collected)
    (h : AllJoined stats graph) {s : GreedyState} (hchoice : Choice stats s.rNow)
    (hb : Balanced graph graph.pairs.length s) :
    greedyLoop stats graph (rank stats s + 1) s ≠ .error .divergence := by
  refine Optimizer.greedyLoop_ne_divergence (I := fun s =>
    Choice stats s.rNow ∧ Balanced graph graph.pairs.length s) hplain ?_ ⟨hchoice, hb⟩
  rintro next s s' ⟨hchoice, hb⟩ hpending hchooses
  refine ⟨⟨?_, hchooses.balanced hplain (h.not_blank hplain hc) hchoice hb⟩, ?_⟩
  · rw [hchooses.rNow_eq]
    exact hchoice.append hplain hchooses.next_eq
  · -- all joins are inside the tables chosen, so none is left
    intro _ hall
    have hinside : graph.relations.keys.countP (inside s.rNow) = graph.relations.keys.length := by
      rw [List.countP_eq_length]
      intro pair hpair
      obtain ⟨hne, h1, h2⟩ := h.joined pair ((hc.mem_keys pair).mp hpair)
      simp only [inside, ne_eq, Bool.and_eq_true, decide_eq_true_eq]
      exact ⟨⟨hne, hall h1⟩, hall h2⟩
    have hlength := hc.length_keys.2.mpr h.nodup
    have hpos : 0 < s.pending.length := List.length_pos_iff.mpr hpending
    rw [Balanced] at hb
    omega

theorem greedyLoop_ne_divergence_of_blank (hplain : stats.Plain) {pair : String × String}
    (hpair : pair ∈ graph.relations.keys) (hblank : Blank stats pair) (s : GreedyState) :
    greedyLoop stats graph (rank stats s + 1) s ≠ .error .divergence := by
  refine greedyLoop_ne_divergence (I := fun _ => True) hplain ?_ trivial
  intro next s s' _ _ _
  refine ⟨trivial, ?_⟩
  intro hempty hall
  refine ⟨pair, hpair, ?_⟩
  simp only [touches, Bool.or_eq_true, Bool.and_eq_true, decide_eq_true_eq]
  rcases hblank with ⟨h1, h2 | h2⟩ | ⟨h2, h1⟩
  · exact .inl ⟨h1, h2 ▸ hempty⟩
  · exact .inl ⟨h1, hall h2⟩
  · exact .inr ⟨h2, hall h1⟩

theorem greedyLoop_ne_divergence_of_zero (hplain : stats.Plain) {column : String}
    (hzero : 2 ^ 32 ∣ stats.distinctProduct stats.names column) {s : GreedyState}
    (hleft : candidates stats s.rNow ≠ []) :
    greedyLoop stats graph (rank stats s + 1) s ≠ .error .divergence := by
  refine greedyLoop_ne_divergence (I := fun s => candidates stats s.rNow ≠ []) hplain ?_ hleft
  intro next s s' hleft _ hchooses
  constructor
  · -- the last table left would have been estimated with a zero divisor
    rw [hchooses.rNow_eq]
    intro hnil
    rcases nextTable_mem hplain hchooses.next_eq with rfl | hmem
    · rw [candidates_append_of_not_mem hplain.blank] at hnil
      exact hleft hnil
    · have hsub : stats.names ⊆ next :: s.rNow := by
        intro name hname
        apply Decidable.byContradiction
        intro hfresh
        have hmem : name ∈ candidates stats (s.rNow ++ [next]) := by
          refine (mem_candidates stats).mpr ⟨hname, ?_⟩
          simpa [and_comm] using hfresh
        rw [hnil] at hmem
        cases hmem
      have herror : nextTable stats s.rNow = .error .divisionByZero :=
        (nextTable_error_iff stats).mpr ⟨rfl, next, hmem, column,
          hzero.trans (Statistics.dvd_distinctProduct column hsub)⟩
      rw [hchooses.next_eq] at herror
      cases herror
  · intro _ hall
    refine absurd ?_ hleft
    rw [List.eq_nil_iff_forall_not_mem]
    intro name hname
    obtain ⟨hknown, hfresh⟩ := (mem_candidates stats).mp hname
    exact hfresh (hall hknown)

/-- With too few relations between tables of the database joins are left for ever. -/
theorem greedyLoop_eq_divergence (hplain : stats.Plain) (hc : graph.Collected)
    (hjoined : ¬AllJoined stats graph) (hblank : ∀ pair ∈ graph.relations.keys, ¬Blank stats pair)
    {s : GreedyState} (hchoice : Choice stats s.rNow) (hb : Balanced graph graph.pairs.length s)
    (hdiv : candidates stats s.rNow = [] ∨
      ¬∃ column, 2 ^ 32 ∣ stats.distinctProduct stats.names column) (rounds : Nat) :
    greedyLoop stats graph rounds s = .error .divergence := by
  refine BoundedLoop.run_eq_bound_of_invariant (fun s => Choice stats s.rNow ∧
    Balanced graph graph.pairs.length s ∧ (candidates stats s.rNow = [] ∨
      ¬∃ column, 2 ^ 32 ∣ stats.distinctProduct stats.names column)) ?_ rounds ⟨hchoice, hb, hdiv⟩
  rintro s ⟨hchoice, hb, hdiv⟩
  obtain ⟨s', hok⟩ :=
    exists_greedyRound_eq_ok hplain hblank hc.length_keys.1 hchoice hb hdiv
  obtain ⟨next, hchooses⟩ := greedyRound_eq_ok hok
  have hleft : s.pending ≠ [] := by
    intro hnil
    rw [Balanced, hnil, List.length_nil, Nat.zero_add] at hb
    have hle := List.countP_le_length (p := inside s.rNow) (l := graph.relations.keys)
    apply hjoined
    constructor
    · have hlength := hc.length_keys.1
      exact hc.length_keys.2.mp (by omega)
    · intro pair hpair
      rw [← hc.mem_keys] at hpair
      have hlength := hc.length_keys.1
      have hall : graph.relations.keys.countP (inside s.rNow) = graph.relations.keys.length := by
        omega
      exact hchoice.joined_of_inside (hblank pair hpair) (List.countP_eq_length.mp hall pair hpair)
  refine ⟨s', ⟨by simpa using hleft, hok⟩, ?_, ?_, ?_⟩
  · rw [hchooses.rNow_eq]
    exact hchoice.append hplain hchooses.next_eq
  · exact hchooses.balanced hplain hblank hchoice hb
  · rcases hdiv with hnil | hnone
    · left
      rw [hchooses.rNow_eq, List.eq_nil_iff_forall_not_mem]
      intro name hname
      obtain ⟨hknown, hfresh⟩ := (mem_candidates stats).mp hname
      have hmem : name ∈ candidates stats s.rNow :=
        (mem_candidates stats).mpr ⟨hknown, fun h => hfresh (List.mem_append_left _ h)⟩
      rw [hnil] at hmem
      cases hmem
    · exact .inr hnone

theorem greedyStart_ok (stats : Statistics) {joins : List JoinOperator} (hg : joinGraph joins = .ok graph) :
    Choice stats (greedyStart stats graph joins).rNow ∧
      Balanced graph graph.pairs.length (greedyStart stats graph joins) := by
  refine ⟨choice_firstTable stats graph.cnt, ?_⟩
  rw [(joinGraph_collected hg).2]
  exact greedyStart_balanced stats graph joins

theorem runsForever_of (hplain : stats.Plain) (hg : joinGraph (nestedLoopJoins plan) = .ok graph)
    (hjoined : ¬AllJoined stats graph) (hblank : ∀ pair ∈ graph.pairs, ¬Blank stats pair)
    (htraps : ¬Traps stats graph) : RunsForever stats plan := by
  intro rounds
  apply (reorderJoin_error_iff (by decide)).mpr
  have hc := (joinGraph_collected hg).1
  obtain ⟨hchoice, hb⟩ := greedyStart_ok stats hg
  refine ⟨graph, hg, greedyLoop_eq_divergence hplain hc hjoined ?_ hchoice hb ?_ rounds⟩
  · intro pair hpair
    exact hblank pair ((hc.mem_keys pair).mp hpair)
  · by_contra hnone
    rw [not_or, not_not] at hnone
    exact htraps hnone

theorem AllJoined.returns (hplain : stats.Plain)
    (hg : joinGraph (nestedLoopJoins plan) = .ok graph) (h : AllJoined stats graph)
    (hdiv : ¬∃ column, 2 ^ 32 ∣ stats.distinctProduct stats.names column) :
    Returns stats plan := by
  have hc := (joinGraph_collected hg).1
  obtain ⟨hchoice, hb⟩ := greedyStart_ok stats hg
  have hends := h.greedyLoop_ne_divergence hplain hc hchoice hb
  refine ⟨rank stats (greedyStart stats graph (nestedLoopJoins plan)) + 1, ?_⟩
  rw [reorderJoin_of_graph hg]
  split
  · exact ⟨none, rfl⟩
  · rcases BoundedLoop.run_cases (·.pending.isEmpty) (greedyRound stats graph) .divergence
        (rank stats (greedyStart stats graph (nestedLoopJoins plan)) + 1)
        (greedyStart stats graph (nestedLoopJoins plan)) with
      ⟨t, -, -, hrun⟩ | ⟨t, -, -, hrun⟩ | ⟨t, e, ht, -, herror, -⟩
    · refine ⟨some t.child0, ?_⟩
      rw [greedyLoop, hrun]
      rfl
    · exact absurd hrun hends
    · have hblank := h.not_blank hplain hc
      have hkept : Choice stats t.rNow ∧ Balanced graph graph.pairs.length t := by
        refine BoundedLoop.Reaches.invariant (I := fun s =>
          Choice stats s.rNow ∧ Balanced graph graph.pairs.length s) ?_ ht ⟨hchoice, hb⟩
        rintro s s' ⟨hchoice, hb⟩ hround
        obtain ⟨next, hchooses⟩ := greedyRound_eq_ok hround.step_eq
        refine ⟨?_, hchooses.balanced hplain hblank hchoice hb⟩
        rw [hchooses.rNow_eq]
        exact hchoice.append hplain hchooses.next_eq
      obtain ⟨t', hok⟩ := exists_greedyRound_eq_ok hplain hblank hc.length_keys.1
        hkept.1 hkept.2 (.inr hdiv)
      rw [hok] at herror
      cases herror

end

/-- The statistics of a table with one column. -/
def oneColumn (name column : String) (cardinality distinct : UInt32) : TableStatistics where
  name := name
  cardinality := cardinality.toNat
  distincts := [(column, distinct.toNat)]
  cardinality_lt := cardinality.toNat_lt
  distincts_lt := by
    intro entry hentry
    rw [List.mem_singleton.mp hentry]
    exact distinct.toNat_lt
  sorted := List.pairwise_singleton _ _

/-- Two tables `r(a int)` and `s(b int)`. -/
def twoTables (distinctR distinctS : UInt32) : Statistics where
  tables := [oneColumn "r" "a" 2 distinctR, oneColumn "s" "b" 3 distinctS]
  sorted := by
    have hlt : "r" < "s" := by decide
    exact List.pairwise_pair.mpr hlt

/-- The scan of a table with one column, under the name that its column carries. -/
def scanOf (tableName column : String) (tableAlias : Option String) : Operator :=
  .seqScan [⟨column, .int, 4⟩] 10001 tableName tableAlias

/-- A join on the equality of a column of its left child and one of its right child. -/
def joinOf (left right : Operator) (leftColumn rightColumn : String) : Operator :=
  .nestedLoopJoin (left.outputColumns ++ right.outputColumns) left right
    (.comparison .equal
      (.columnValue (left.outputColumns.findIdx (·.name = leftColumn)) .int leftColumn 4 true)
      (.columnValue (right.outputColumns.findIdx (·.name = rightColumn)) .int rightColumn 4 false))

/-- `select ... from ...`. -/
def selectFrom (plan : Operator) : Operator := .projection plan.outputColumns plan []

/-- `select * from r join s on r.a = s.b`. -/
def selectTwo : Operator :=
  selectFrom (joinOf (scanOf "r" "r.a" none) (scanOf "s" "s.b" none) "r.a" "s.b")

theorem twoTables_plain (distinctR distinctS : UInt32) : (twoTables distinctR distinctS).Plain := by
  intro name hname
  replace hname : name ∈ ["r", "s"] := hname
  rw [List.mem_cons, List.mem_singleton] at hname
  rcases hname with rfl | rfl <;> decide

/-- No division of a run has a zero divisor exactly if, at the start of every round, no
column of a table not chosen yet and of the tables chosen has distinct counts whose product
wraps around to zero. -/
theorem reorderJoin_divides_iff (stats : Statistics) (plan : Operator) :
    (∀ rounds, reorderJoin stats plan rounds ≠ .error .divisionByZero) ↔
      ∀ graph, joinGraph (nestedLoopJoins plan) = .ok graph →
        ∀ s, Reached stats graph plan s → s.pending ≠ [] →
          ∀ name ∈ candidates stats s.rNow, ∀ column,
            ¬2 ^ 32 ∣ stats.distinctProduct (name :: s.rNow) column := by
  constructor
  · intro h graph hg s hs hpending name hname column hdvd
    have herror : greedyRound stats graph s = .error .divisionByZero :=
      greedyRound_divisionByZero_iff.mpr ⟨name, hname, column, hdvd⟩
    have hnot : s.pending.isEmpty = false := by simpa using hpending
    have hbound : ReorderError.divisionByZero ≠ .divergence := by decide
    obtain ⟨rounds, hrun⟩ := (BoundedLoop.exists_run_error_iff hbound).mpr ⟨s, hs, hnot, herror⟩
    exact h rounds ((reorderJoin_error_iff (by decide)).mpr ⟨graph, hg, hrun⟩)
  · intro h rounds herror
    obtain ⟨graph, hg, hloop⟩ := (reorderJoin_error_iff (by decide)).mp herror
    obtain ⟨s, hs, hnot, hround⟩ :=
      (BoundedLoop.exists_run_error_iff (by decide)).mp ⟨rounds, hloop⟩
    obtain ⟨name, hname, column, hdvd⟩ := greedyRound_divisionByZero_iff.mp hround
    exact h graph hg s hs (by simpa using hnot) name hname column hdvd

/-- The distinct count of the empty table `s` is zero once it was analysed. -/
theorem reorderJoin_divides_emptyTable :
    reorderJoin (twoTables 2 0) selectTwo 1 = .error .divisionByZero :=
  rfl

end Optimizer

end HuaDB
