import BenShu.Memory.Fact

/-!
# Facts that are related

The breadth-first walk along the relations of facts, with budgets on its depth, on the facts
it visits and on the relations it follows.
-/

namespace BenShu.Memory

def relationQueryHardCapDepth : Nat := 3
def relationQueryDefaultMaxVisitedNodes : Nat := 64
def relationQueryDefaultMaxReturnedEdges : Nat := 128

structure RelationQueryBudget where
  maxDepth : Nat
  maxVisitedNodes : Nat
  maxReturnedEdges : Nat

def RelationQueryBudget.forRequestedDepth (depth : Nat) : RelationQueryBudget :=
  { maxDepth := if depth = 0 then 0 else min depth relationQueryHardCapDepth
    maxVisitedNodes := relationQueryDefaultMaxVisitedNodes
    maxReturnedEdges := relationQueryDefaultMaxReturnedEdges }

/-- The state of a walk over facts of some kind. -/
structure Walk (α : Type) where
  visited : List String
  toVisit : List (String × Nat)
  results : List α := []
  traversedEdges : Nat := 0
  visitedBudgetExceeded : Bool := false
  edgeBudgetExceeded : Bool := false

namespace Walk

variable {α : Type}

def exceeded (walk : Walk α) : Bool := walk.visitedBudgetExceeded || walk.edgeBudgetExceeded

/-- A target that was not seen before joins the queue, one step deeper. -/
def follow (depth : Nat) (relation : Relation) (walk : Walk α) : Walk α :=
  let walk := { walk with traversedEdges := walk.traversedEdges + 1 }
  if relation.targetId ∈ walk.visited then walk
  else
    { walk with
      visited := walk.visited ++ [relation.targetId]
      toVisit := walk.toVisit ++ [(relation.targetId, depth + 1)] }

def followAll (budget : RelationQueryBudget) (depth : Nat) : List Relation → Walk α → Walk α
  | [], walk => walk
  | relation :: relations, walk =>
      if walk.traversedEdges ≥ budget.maxReturnedEdges then
        { walk with edgeBudgetExceeded := true }
      else if walk.visited.length ≥ budget.maxVisitedNodes then
        { walk with visitedBudgetExceeded := true }
      else followAll budget depth relations (walk.follow depth relation)

/-- Every fact that joins the queue takes a place among those that may be visited. -/
theorem followAll_measure (budget : RelationQueryBudget) (depth : Nat) (relations : List Relation)
    (walk : Walk α) :
    (followAll budget depth relations walk).toVisit.length +
        (budget.maxVisitedNodes - (followAll budget depth relations walk).visited.length) ≤
      walk.toVisit.length + (budget.maxVisitedNodes - walk.visited.length) := by
  induction relations generalizing walk with
  | nil => exact Nat.le_refl _
  | cons relation relations ih =>
      rw [followAll]
      split_ifs with hedges hvisited
      · exact Nat.le_refl _
      · exact Nat.le_refl _
      · refine Nat.le_trans (ih _) ?_
        unfold follow
        dsimp only
        split_ifs
        · exact Nat.le_refl _
        · simp only [List.length_append, List.length_singleton]
          omega

/-- One turn of the loop, for what was taken from the queue, and whether the loop goes on. -/
def visit (relations : α → List Relation) (factsById : Table String α)
    (budget : RelationQueryBudget) (currentId : String) (currentDepth : Nat) (walk : Walk α) :
    Walk α × Bool :=
  if currentDepth > budget.maxDepth then (walk, true)
  else if walk.visited.length > budget.maxVisitedNodes then
    ({ walk with visitedBudgetExceeded := true }, false)
  else
    match factsById.lookup currentId with
    | none => (walk, true)
    | some fact =>
        let walk :=
          if currentDepth > 0 then { walk with results := walk.results ++ [fact] } else walk
        if currentDepth ≥ budget.maxDepth then (walk, true)
        else
          let walk := followAll budget currentDepth (relations fact) walk
          (walk, !walk.exceeded)

theorem visit_measure (relations : α → List Relation) (factsById : Table String α)
    (budget : RelationQueryBudget) (currentId : String) (currentDepth : Nat) (walk : Walk α) :
    (walk.visit relations factsById budget currentId currentDepth).1.toVisit.length +
        (budget.maxVisitedNodes -
          (walk.visit relations factsById budget currentId currentDepth).1.visited.length) ≤
      walk.toVisit.length + (budget.maxVisitedNodes - walk.visited.length) := by
  unfold visit
  by_cases hdeep : currentDepth > budget.maxDepth
  · rw [if_pos hdeep]
  by_cases hvisited : walk.visited.length > budget.maxVisitedNodes
  · rw [if_neg hdeep, if_pos hvisited]
  rw [if_neg hdeep, if_neg hvisited]
  rcases factsById.lookup currentId with _ | fact
  · exact Nat.le_refl _
  by_cases hbottom : currentDepth ≥ budget.maxDepth
  · dsimp only
    rw [if_pos hbottom]
    split_ifs <;> exact Nat.le_refl _
  · dsimp only
    rw [if_neg hbottom]
    refine Nat.le_trans (followAll_measure _ _ _ _) ?_
    split_ifs <;> exact Nat.le_refl _

def run (relations : α → List Relation) (factsById : Table String α)
    (budget : RelationQueryBudget) (walk : Walk α) : Walk α :=
  match _h : walk.toVisit with
  | [] => walk
  | (currentId, currentDepth) :: rest =>
      let next := { walk with toVisit := rest }.visit relations factsById budget currentId
        currentDepth
      if next.2 then run relations factsById budget next.1 else next.1
termination_by walk.toVisit.length + (budget.maxVisitedNodes - walk.visited.length)
decreasing_by
  have hmeasure := visit_measure relations factsById budget currentId currentDepth
    { walk with toVisit := rest }
  dsimp only at hmeasure
  rw [_h, List.length_cons]
  omega

theorem run_nil {relations : α → List Relation} {factsById : Table String α}
    {budget : RelationQueryBudget} {walk : Walk α} (h : walk.toVisit = []) :
    walk.run relations factsById budget = walk := by
  rw [run]
  split
  · rfl
  · next heq =>
      rw [h] at heq
      cases heq

theorem run_cons {relations : α → List Relation} {factsById : Table String α}
    {budget : RelationQueryBudget} {walk : Walk α} {currentId : String} {currentDepth : Nat}
    {rest : List (String × Nat)} (h : walk.toVisit = (currentId, currentDepth) :: rest) :
    walk.run relations factsById budget =
      let next := { walk with toVisit := rest }.visit relations factsById budget currentId
        currentDepth
      if next.2 then next.1.run relations factsById budget else next.1 := by
  rw [run]
  split
  · next heq =>
      rw [h] at heq
      cases heq
  · next heq =>
      rw [h] at heq
      cases heq
      rfl

/-! ## Following the relations of one fact -/

section FollowAll

variable {budget : RelationQueryBudget} {depth : Nat} {relations : List Relation} {walk : Walk α}

/-- Targets that were not seen before join the visited facts and the queue alike. -/
theorem followAll_spec (budget : RelationQueryBudget) (depth : Nat) (relations : List Relation)
    (walk : Walk α) :
    (followAll budget depth relations walk).results = walk.results ∧
      ∃ fresh : List String,
        (followAll budget depth relations walk).visited = walk.visited ++ fresh ∧
        (followAll budget depth relations walk).toVisit =
          walk.toVisit ++ fresh.map (·, depth + 1) ∧
        ∀ target ∈ fresh, target ∉ walk.visited ∧ ∃ relation ∈ relations,
          relation.targetId = target := by
  induction relations generalizing walk with
  | nil => exact ⟨rfl, [], (List.append_nil _).symm, (List.append_nil _).symm, by simp⟩
  | cons relation relations ih =>
      rw [followAll]
      split_ifs with hedges hvisited
      · exact ⟨rfl, [], (List.append_nil _).symm, (List.append_nil _).symm, by simp⟩
      · exact ⟨rfl, [], (List.append_nil _).symm, (List.append_nil _).symm, by simp⟩
      · obtain ⟨hresults, fresh, hvisited', htoVisit, hfresh⟩ := ih (walk.follow depth relation)
        rw [hresults, hvisited', htoVisit]
        unfold follow at hfresh ⊢
        dsimp only at hfresh ⊢
        split_ifs at hfresh ⊢ with hseen
        · refine ⟨rfl, fresh, rfl, rfl, fun target htarget => ?_⟩
          obtain ⟨hnew, later, hlater, heq⟩ := hfresh target htarget
          exact ⟨hnew, later, List.mem_cons_of_mem relation hlater, heq⟩
        · refine ⟨rfl, relation.targetId :: fresh, by simp, by simp, fun target htarget => ?_⟩
          rcases List.mem_cons.mp htarget with rfl | hrest
          · exact ⟨hseen, relation, List.mem_cons_self, rfl⟩
          · obtain ⟨hnew, later, hlater, heq⟩ := hfresh target hrest
            exact ⟨fun h => hnew (List.mem_append_left _ h), later,
              List.mem_cons_of_mem relation hlater, heq⟩

theorem mem_visited_of_followAll (h : (followAll budget depth relations walk).exceeded = false)
    {relation : Relation} (hmem : relation ∈ relations) :
    relation.targetId ∈ (followAll budget depth relations walk).visited := by
  induction relations generalizing walk with
  | nil => cases hmem
  | cons first relations ih =>
      rw [followAll] at h ⊢
      split_ifs at h ⊢ with hedges hvisited
      · simp [exceeded] at h
      · simp [exceeded] at h
      · rcases List.mem_cons.mp hmem with rfl | hrest
        · obtain ⟨-, fresh, hvisited', -, -⟩ :=
            followAll_spec budget depth relations (walk.follow depth relation)
          rw [hvisited']
          refine List.mem_append_left _ ?_
          unfold follow
          dsimp only
          split_ifs with hseen
          · exact hseen
          · simp
        · exact ih h hrest

theorem visited_length_followAll (h : walk.visited.length ≤ budget.maxVisitedNodes) :
    (followAll budget depth relations walk).visited.length ≤ budget.maxVisitedNodes := by
  induction relations generalizing walk with
  | nil => exact h
  | cons relation relations ih =>
      rw [followAll]
      split_ifs with hedges hvisited
      · exact h
      · exact h
      · refine ih ?_
        unfold follow
        dsimp only
        split_ifs
        · exact h
        · simp only [List.length_append, List.length_singleton]
          omega

/-- A walk that has visited less and followed less stays within the budgets where the other
one does. -/
theorem followAll_exceeded_mono {β : Type} {small : Walk β} {budget' : RelationQueryBudget}
    {depth' : Nat} (hmaxVisited : budget.maxVisitedNodes = budget'.maxVisitedNodes)
    (hmaxEdges : budget.maxReturnedEdges = budget'.maxReturnedEdges)
    (hsub : small.visited ⊆ walk.visited) (hnodup : small.visited.Nodup)
    (hedges : small.traversedEdges ≤ walk.traversedEdges) (hsmall : small.exceeded = false)
    (h : (followAll budget depth relations walk).exceeded = false) :
    (followAll budget' depth' relations small).exceeded = false := by
  induction relations generalizing walk small with
  | nil => exact hsmall
  | cons relation relations ih =>
      have hlength : small.visited.length ≤ walk.visited.length :=
        (List.subperm_of_subset hnodup hsub).length_le
      rw [followAll] at h ⊢
      split_ifs at h with hover hfull
      · simp [exceeded] at h
      · simp [exceeded] at h
      rw [if_neg (by omega), if_neg (by omega)]
      refine ih ?_ ?_ ?_ ?_ h
      · unfold follow
        dsimp only
        split_ifs with hseen hseen' hseen'
        · exact hsub
        · exact fun x hx => List.mem_append_left _ (hsub hx)
        · refine List.append_subset.mpr ⟨hsub, ?_⟩
          simpa using hseen'
        · exact List.append_subset.mpr
            ⟨fun x hx => List.mem_append_left _ (hsub hx), List.subset_append_right _ _⟩
      · unfold follow
        dsimp only
        split_ifs with hseen
        · exact hnodup
        · exact hnodup.append (List.nodup_singleton _) (by simpa using hseen)
      · unfold follow
        dsimp only
        split_ifs <;> exact Nat.succ_le_succ hedges
      · unfold follow
        dsimp only
        split_ifs <;> exact hsmall

end FollowAll

end Walk

def traverseRelatedFacts {α : Type} (relations : α → List Relation) (factsById : Table String α)
    (factId : String) (depth : Nat) : List α :=
  let budget := RelationQueryBudget.forRequestedDepth depth
  if budget.maxDepth = 0 then []
  else (Walk.run relations factsById budget
    { visited := [factId], toVisit := [(factId, 0)] }).results

/-- What a traversal tells of itself. -/
structure RelationTraversalReport where
  requestedDepth : Nat
  effectiveMaxDepth : Nat
  visitedNodes : Nat := 0
  traversedEdges : Nat := 0
  returnedFacts : Nat := 0
  cycleSafe : Bool := true
  depthHardCapped : Bool
  visitedBudgetExceeded : Bool := false
  edgeBudgetExceeded : Bool := false
  truncated : Bool
  truncationReason : Option String

def RelationTraversalReport.metadataEntries (rootFactId : String)
    (report : RelationTraversalReport) : List (String × String) :=
  [("brain.memory.relation.last_root_fact_id", rootFactId),
    ("brain.memory.relation.last_requested_depth", toString report.requestedDepth),
    ("brain.memory.relation.last_effective_max_depth", toString report.effectiveMaxDepth),
    ("brain.memory.relation.last_visited_nodes", toString report.visitedNodes),
    ("brain.memory.relation.last_traversed_edges", toString report.traversedEdges),
    ("brain.memory.relation.last_returned_facts", toString report.returnedFacts),
    ("brain.memory.relation.last_cycle_safe", toString report.cycleSafe),
    ("brain.memory.relation.last_depth_hard_capped", toString report.depthHardCapped),
    ("brain.memory.relation.last_visited_budget_exceeded", toString report.visitedBudgetExceeded),
    ("brain.memory.relation.last_edge_budget_exceeded", toString report.edgeBudgetExceeded),
    ("brain.memory.relation.last_budget_exceeded", toString
      (report.visitedBudgetExceeded || report.edgeBudgetExceeded || report.depthHardCapped)),
    ("brain.memory.relation.last_truncated", toString report.truncated),
    ("brain.memory.relation.last_truncation_reason", report.truncationReason.getD "")]

def traverseRelatedFactsWithReport {α : Type} (relations : α → List Relation)
    (factsById : Table String α) (factId : String) (depth : Nat) :
    List α × RelationTraversalReport :=
  let budget := RelationQueryBudget.forRequestedDepth depth
  let depthHardCapped := decide (depth > budget.maxDepth)
  if budget.maxDepth = 0 then
    ([], { requestedDepth := depth
           effectiveMaxDepth := budget.maxDepth
           depthHardCapped := depthHardCapped
           truncated := depthHardCapped
           truncationReason := if depthHardCapped then some "depth_hard_cap" else none })
  else
    let walk := Walk.run relations factsById budget
      { visited := [factId], toVisit := [(factId, 0)] }
    let reasons := (if depthHardCapped then ["depth_hard_cap"] else []) ++
      (if walk.visitedBudgetExceeded then ["visited_nodes_budget"] else []) ++
      (if walk.edgeBudgetExceeded then ["returned_edges_budget"] else [])
    (walk.results,
      { requestedDepth := depth
        effectiveMaxDepth := budget.maxDepth
        visitedNodes := walk.visited.length
        traversedEdges := walk.traversedEdges
        returnedFacts := walk.results.length
        depthHardCapped := depthHardCapped
        visitedBudgetExceeded := walk.visitedBudgetExceeded
        edgeBudgetExceeded := walk.edgeBudgetExceeded
        truncated := !reasons.isEmpty
        truncationReason := if reasons.isEmpty then none else some (",".intercalate reasons) })

/-! ## What a traversal may return -/

section Traverse

variable {α : Type} {relations : α → List Relation} {factsById : Table String α}

/-- From the fact alone the walk gets to the target: its relations are within the budgets on
visited facts and followed relations, and one of them leads there. -/
def LeadsTo (relations : List Relation) (factId targetId : String) : Prop :=
  (Walk.followAll (RelationQueryBudget.forRequestedDepth 1) 0 relations
    ({ visited := [factId], toVisit := [] } : Walk Unit)).exceeded = false ∧
  targetId ≠ factId ∧ ∃ relation ∈ relations, relation.targetId = targetId

def Led (relations : α → List Relation) (factsById : Table String α) (targetId : String) : Prop :=
  ∃ factId fact, factsById.lookup factId = some fact ∧ LeadsTo (relations fact) factId targetId

structure SoundWalk (relations : α → List Relation) (factsById : Table String α)
    (walk : Walk α) : Prop where
  seen : ∀ entry ∈ walk.toVisit, entry.1 ∈ walk.visited
  led : ∀ entry ∈ walk.toVisit, 0 < entry.2 → Led relations factsById entry.1
  results : ∀ fact ∈ walk.results, ∃ factId, Led relations factsById factId ∧
    factsById.lookup factId = some fact

/-- One turn of the loop keeps what is known of the queue and of the results, as long as the
loop goes on. -/
theorem SoundWalk.visit {budget : RelationQueryBudget} {walk : Walk α} {currentId : String}
    {currentDepth : Nat} {rest : List (String × Nat)}
    (hvisitedMax : budget.maxVisitedNodes = relationQueryDefaultMaxVisitedNodes)
    (hedgesMax : budget.maxReturnedEdges = relationQueryDefaultMaxReturnedEdges)
    (hsound : SoundWalk relations factsById walk)
    (hqueue : walk.toVisit = (currentId, currentDepth) :: rest) :
    let next := { walk with toVisit := rest }.visit relations factsById budget currentId currentDepth
    (∀ fact ∈ next.1.results, ∃ factId, Led relations factsById factId ∧
      factsById.lookup factId = some fact) ∧
      (next.2 = true → SoundWalk relations factsById next.1) := by
  obtain ⟨hseen, hled, hresults⟩ := hsound
  rw [hqueue] at hseen hled
  obtain ⟨hcurrent, hrest⟩ := List.forall_mem_cons.mp hseen
  obtain ⟨hcurrentLed, hrestLed⟩ := List.forall_mem_cons.mp hled
  have hpopped : SoundWalk relations factsById { walk with toVisit := rest } :=
    ⟨hrest, hrestLed, hresults⟩
  unfold Walk.visit
  by_cases hdeep : currentDepth > budget.maxDepth
  · rw [if_pos hdeep]
    exact ⟨hresults, fun _ => hpopped⟩
  by_cases hfull : walk.visited.length > budget.maxVisitedNodes
  · rw [if_neg hdeep, if_pos hfull]
    exact ⟨hresults, fun h => by cases h⟩
  rw [if_neg hdeep, if_neg hfull]
  rcases hlookup : factsById.lookup currentId with _ | fact
  · exact ⟨hresults, fun _ => hpopped⟩
  -- the fact itself is returned below the root
  set current : Walk α := if currentDepth > 0 then
      { walk with toVisit := rest, results := walk.results ++ [fact] }
    else { walk with toVisit := rest } with hcurrentWalk
  have hkept : current.visited = walk.visited ∧ current.toVisit = rest := by
    rw [hcurrentWalk]
    split_ifs <;> exact ⟨rfl, rfl⟩
  have hnext : SoundWalk relations factsById current := by
    refine ⟨by rw [hkept.1, hkept.2]; exact hrest, by rw [hkept.2]; exact hrestLed, ?_⟩
    rw [hcurrentWalk]
    split_ifs with hpositive
    · intro other hother
      rcases List.mem_append.mp hother with hmem | hmem
      · exact hresults other hmem
      · rw [List.mem_singleton.mp hmem]
        exact ⟨currentId, hcurrentLed hpositive, hlookup⟩
    · exact hresults
  by_cases hbottom : currentDepth ≥ budget.maxDepth
  · dsimp only
    rw [if_pos hbottom]
    exact ⟨hnext.results, fun _ => hnext⟩
  dsimp only
  rw [if_neg hbottom]
  obtain ⟨hsame, fresh, hvisited, htoVisit, hfresh⟩ :=
    Walk.followAll_spec budget currentDepth (relations fact) current
  refine ⟨by rw [hsame]; exact hnext.results, fun hgoes => ?_⟩
  have hwithin := Bool.not_eq_true' _ |>.mp hgoes
  refine ⟨?_, ?_, by rw [hsame]; exact hnext.results⟩
  · rw [hvisited, htoVisit]
    intro entry hentry
    rcases List.mem_append.mp hentry with hmem | hmem
    · exact List.mem_append_left _ (hnext.seen entry hmem)
    · obtain ⟨target, htarget, rfl⟩ := List.mem_map.mp hmem
      exact List.mem_append_right _ htarget
  · rw [htoVisit]
    intro entry hentry hpositive
    rcases List.mem_append.mp hentry with hmem | hmem
    · exact hnext.led entry hmem hpositive
    · obtain ⟨target, htarget, rfl⟩ := List.mem_map.mp hmem
      obtain ⟨hnew, relation, hrelation, heq⟩ := hfresh target htarget
      have hcurrentSeen : currentId ∈ current.visited := hkept.1 ▸ hcurrent
      have hother : target ≠ currentId := fun h => hnew (h ▸ hcurrentSeen)
      refine ⟨currentId, fact, hlookup, ?_, hother, relation, hrelation, heq⟩
      exact Walk.followAll_exceeded_mono hvisitedMax hedgesMax (by simpa using hcurrentSeen)
        (List.nodup_singleton _) (Nat.zero_le _) rfl hwithin

theorem SoundWalk.run {budget : RelationQueryBudget} {walk : Walk α}
    (hvisitedMax : budget.maxVisitedNodes = relationQueryDefaultMaxVisitedNodes)
    (hedgesMax : budget.maxReturnedEdges = relationQueryDefaultMaxReturnedEdges)
    (hsound : SoundWalk relations factsById walk) :
    ∀ fact ∈ (walk.run relations factsById budget).results, ∃ factId,
      Led relations factsById factId ∧ factsById.lookup factId = some fact := by
  fun_induction Walk.run relations factsById budget walk with
  | case1 walk _ => exact hsound.results
  | case2 walk currentId currentDepth rest hqueue next hgoes ih =>
      exact ih ((hsound.visit hvisitedMax hedgesMax hqueue).2 hgoes)
  | case3 walk currentId currentDepth rest hqueue next _ =>
      exact (hsound.visit hvisitedMax hedgesMax hqueue).1

theorem led_of_mem_traverse {factId : String} {depth : Nat} {fact : α}
    (h : fact ∈ traverseRelatedFacts relations factsById factId depth) :
    ∃ targetId, Led relations factsById targetId ∧ factsById.lookup targetId = some fact := by
  unfold traverseRelatedFacts at h
  dsimp only at h
  split_ifs at h
  · cases h
  · refine SoundWalk.run rfl rfl ⟨?_, ?_, ?_⟩ fact h
    · simp
    · simp
    · simp

theorem run_of_bottom {budget : RelationQueryBudget} (walk : Walk α) (queue : List String)
    (hqueue : walk.toVisit = queue.map (·, budget.maxDepth)) (hpositive : 0 < budget.maxDepth)
    (hvisited : walk.visited.length ≤ budget.maxVisitedNodes) :
    (walk.run relations factsById budget).results =
      walk.results ++ queue.filterMap factsById.lookup := by
  induction queue generalizing walk with
  | nil =>
      rw [Walk.run_nil hqueue]
      simp
  | cons currentId queue ih =>
      rw [Walk.run_cons hqueue]
      unfold Walk.visit
      rw [if_neg (Nat.lt_irrefl _), if_neg (Nat.not_lt.mpr hvisited)]
      rcases hlookup : factsById.lookup currentId with _ | fact
      · simp only [List.filterMap_cons, hlookup]
        exact ih { walk with toVisit := queue.map (·, budget.maxDepth) } rfl hvisited
      · simp only [List.filterMap_cons, hlookup]
        rw [if_pos (Nat.le_refl _), if_pos hpositive]
        have hrest := ih { walk with
          toVisit := queue.map (·, budget.maxDepth), results := walk.results ++ [fact] } rfl hvisited
        rw [List.append_assoc] at hrest
        exact hrest

/-- From a fact that leads to another one, one step deep, the other one is returned. -/
theorem mem_traverse_of_leadsTo {factId targetId : String} {fact target : α}
    (hfact : factsById.lookup factId = some fact) (hleads : LeadsTo (relations fact) factId targetId)
    (htarget : factsById.lookup targetId = some target) :
    target ∈ traverseRelatedFacts relations factsById factId 1 := by
  obtain ⟨hwithin, hother, relation, hrelation, rfl⟩ := hleads
  set budget := RelationQueryBudget.forRequestedDepth 1 with hbudget
  have hdepth : budget.maxDepth = 1 := rfl
  set start : Walk α := { visited := [factId], toVisit := [] } with hstart
  have hwithin' : (start.followAll budget 0 (relations fact)).exceeded = false := by
    refine Walk.followAll_exceeded_mono rfl rfl ?_ (List.nodup_singleton _) ?_ rfl hwithin
    · exact List.Subset.refl [factId]
    · exact Nat.le_refl 0
  obtain ⟨hresults, fresh, hvisited, htoVisit, -⟩ :=
    Walk.followAll_spec budget 0 (relations fact) start
  have hfresh : relation.targetId ∈ fresh := by
    have hmem := Walk.mem_visited_of_followAll hwithin' hrelation
    rw [hvisited, hstart] at hmem
    exact (List.mem_append.mp hmem).resolve_left (by simpa using hother)
  unfold traverseRelatedFacts
  dsimp only
  rw [← hbudget, if_neg (by rw [hdepth]; exact Nat.one_ne_zero), Walk.run_cons rfl]
  have hvisit : ({ visited := [factId], toVisit := [] } : Walk α).visit relations factsById budget
      factId 0 = (start.followAll budget 0 (relations fact), true) := by
    have hroom : ¬start.visited.length > budget.maxVisitedNodes := show ¬1 > 64 by omega
    unfold Walk.visit
    rw [← hstart, if_neg (Nat.not_lt_zero _), if_neg hroom, hfact]
    dsimp only
    rw [if_neg (by rw [hdepth]; exact Nat.not_succ_le_zero 0), if_neg (Nat.lt_irrefl 0),
      hwithin']
    rfl
  dsimp only
  rw [hvisit, if_pos rfl]
  have hlength : (start.followAll budget 0 (relations fact)).visited.length ≤
      budget.maxVisitedNodes := Walk.visited_length_followAll (show 1 ≤ 64 by omega)
  rw [run_of_bottom _ fresh (by rw [htoVisit, hdepth]; rfl) (by decide) hlength, hresults]
  exact List.mem_append_right _ (List.mem_filterMap.mpr ⟨_, hfresh, htarget⟩)

end Traverse

end BenShu.Memory
