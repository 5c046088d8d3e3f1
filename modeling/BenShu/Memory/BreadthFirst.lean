import BenShu.Memory.Relations

/-!
# Traversals in the order of distance

A walk takes the ids from its queue in the order of their distance from the root. Where no budget
ends it, it misses none within its depth.
-/

namespace BenShu.Memory

namespace Walk

variable {α : Type} {budget : RelationQueryBudget} {depth : Nat} {relations : List Relation}
  {walk : Walk α}

theorem nodup_followAll (h : walk.visited.Nodup) :
    (followAll budget depth relations walk).visited.Nodup := by
  induction relations generalizing walk with
  | nil => exact h
  | cons relation relations ih =>
      rw [followAll]
      split_ifs with hedges hvisited
      · exact h
      · exact h
      · apply ih
        unfold follow
        dsimp only
        split_ifs with hseen
        · exact h
        · exact h.append (List.nodup_singleton _) (by simpa using hseen)

theorem traversedEdges_followAll (h : walk.traversedEdges ≤ budget.maxReturnedEdges) :
    (followAll budget depth relations walk).traversedEdges ≤ budget.maxReturnedEdges := by
  induction relations generalizing walk with
  | nil => exact h
  | cons relation relations ih =>
      rw [followAll]
      split_ifs with hedges hvisited
      · exact h
      · exact h
      · apply ih
        unfold follow
        dsimp only
        split_ifs
        · dsimp only
          omega
        · dsimp only
          omega

end Walk

section BreadthFirst

variable {α : Type} (relations : α → List Relation) (factsById : Table String α) (root : String)

/-- The id is reached from the root by so many relations of existing facts. -/
inductive RelationSteps : Nat → String → Prop
  | root : RelationSteps 0 root
  | follow {steps : Nat} {id : String} {fact : α} {relation : Relation}
      (hid : RelationSteps steps id) (hfact : factsById.lookup id = some fact)
      (hrelation : relation ∈ relations fact) : RelationSteps (steps + 1) relation.targetId

def AtDistance (distance : Nat) (id : String) : Prop :=
  RelationSteps relations factsById root distance id ∧
    ∀ steps, RelationSteps relations factsById root steps id → distance ≤ steps

/-- What holds of a walk that has taken these ids from its queue, each with its depth. -/
structure BreadthFirst (budget : RelationQueryBudget) (taken : List (String × Nat))
    (walk : Walk α) : Prop where
  started : root ∈ walk.visited
  visited : walk.visited = (taken ++ walk.toVisit).map Prod.fst
  nodup : walk.visited.Nodup
  ordered : (taken ++ walk.toVisit).Pairwise (·.2 ≤ ·.2)
  near : ∀ entry ∈ walk.toVisit, ∀ other ∈ walk.toVisit, other.2 ≤ entry.2 + 1
  distances : ∀ entry ∈ taken ++ walk.toVisit, entry.2 ≤ budget.maxDepth ∧
    AtDistance relations factsById root entry.2 entry.1
  closed : walk.exceeded = false → ∀ entry ∈ taken, entry.2 < budget.maxDepth →
    ∀ fact, factsById.lookup entry.1 = some fact →
      ∀ relation ∈ relations fact, relation.targetId ∈ walk.visited
  results : walk.results.map some =
    (taken.filter fun entry => decide (0 < entry.2) && (factsById.lookup entry.1).isSome).map
      (factsById.lookup ·.1)
  nodes : walk.visited.length ≤ budget.maxVisitedNodes
  edges : walk.traversedEdges ≤ budget.maxReturnedEdges

namespace BreadthFirst

variable {relations factsById root} {budget : RelationQueryBudget} {taken rest : List (String × Nat)}
  {walk next : Walk α} {id : String} {depth : Nat}

/-- Every id at most as far away as the queue has been visited. -/
theorem mem_visited (h : BreadthFirst relations factsById root budget taken walk)
    (hwithin : walk.exceeded = false) (hdepth : depth ≤ budget.maxDepth)
    (hqueue : ∀ entry ∈ walk.toVisit, depth ≤ entry.2) {steps : Nat}
    (hsteps : RelationSteps relations factsById root steps id) (hle : steps ≤ depth) :
    id ∈ walk.visited := by
  induction hsteps with
  | root => exact h.started
  | @follow steps id fact relation _ hfact hrelation ih =>
      have hid := ih (by omega)
      rw [h.visited] at hid
      obtain ⟨entry, hentry, rfl⟩ := List.mem_map.mp hid
      have hnear := (h.distances entry hentry).2.2 steps (by assumption)
      rcases List.mem_append.mp hentry with htaken | hwaiting
      · exact h.closed hwithin entry htaken (by omega) fact hfact relation hrelation
      · have hfar := hqueue entry hwaiting
        omega

/-- An id is taken from the queue, and what its relations lead to for the first time joins it. -/
theorem advance (h : BreadthFirst relations factsById root budget taken walk)
    (fresh : List String) (hwithin : walk.exceeded = false) (hqueue : walk.toVisit = (id, depth) :: rest)
    (hvisited : next.visited = walk.visited ++ fresh)
    (htoVisit : next.toVisit = rest ++ fresh.map (·, depth + 1))
    (hfresh : ∀ target ∈ fresh, depth < budget.maxDepth ∧ target ∉ walk.visited ∧
      ∃ fact, factsById.lookup id = some fact ∧ ∃ relation ∈ relations fact,
        relation.targetId = target)
    (hnodup : next.visited.Nodup)
    (hclosed : next.exceeded = false → depth < budget.maxDepth →
      ∀ fact, factsById.lookup id = some fact →
        ∀ relation ∈ relations fact, relation.targetId ∈ next.visited)
    (hresults : next.results =
      walk.results ++ if 0 < depth then (factsById.lookup id).toList else [])
    (hnodes : next.visited.length ≤ budget.maxVisitedNodes)
    (hedges : next.traversedEdges ≤ budget.maxReturnedEdges) :
    BreadthFirst relations factsById root budget (taken ++ [(id, depth)]) next := by
  have hall : taken ++ [(id, depth)] ++ next.toVisit =
      (taken ++ walk.toVisit) ++ fresh.map (·, depth + 1) := by
    rw [htoVisit, hqueue]
    simp
  have hordered := h.ordered
  have hnear := h.near
  rw [hqueue] at hordered hnear
  have hahead : ∀ entry ∈ rest, depth ≤ entry.2 := by
    have hwaiting := (List.pairwise_append.mp hordered).2.1
    exact (List.pairwise_cons.mp hwaiting).1
  have hbehind : ∀ entry ∈ taken, entry.2 ≤ depth := fun entry hentry =>
    (List.pairwise_append.mp hordered).2.2 entry hentry (id, depth) List.mem_cons_self
  have hclose : ∀ entry ∈ rest, entry.2 ≤ depth + 1 := fun entry hentry =>
    hnear (id, depth) List.mem_cons_self entry (List.mem_cons_of_mem _ hentry)
  have hcurrent := h.distances (id, depth) (by simp [hqueue])
  refine ⟨?_, ?_, hnodup, ?_, ?_, ?_, ?_, ?_, hnodes, hedges⟩
  · rw [hvisited]
    exact List.mem_append_left _ h.started
  · have hids : (fresh.map (·, depth + 1)).map Prod.fst = fresh := by
      rw [List.map_map]
      exact List.map_id fresh
    rw [hall, List.map_append, hids, hvisited, h.visited]
  · rw [hall, List.pairwise_append]
    refine ⟨h.ordered, ?_, ?_⟩
    · exact List.pairwise_map.mpr (List.pairwise_of_forall fun _ _ => Nat.le_refl _)
    · intro entry hentry other hother
      obtain ⟨target, -, rfl⟩ := List.mem_map.mp hother
      rw [hqueue] at hentry
      rcases List.mem_append.mp hentry with htaken | hwaiting
      · have := hbehind entry htaken
        dsimp only
        omega
      · rcases List.mem_cons.mp hwaiting with rfl | hrest
        · exact Nat.le_succ depth
        · exact hclose entry hrest
  · have hspan : ∀ entry ∈ next.toVisit, depth ≤ entry.2 ∧ entry.2 ≤ depth + 1 := by
      intro entry hentry
      rw [htoVisit] at hentry
      rcases List.mem_append.mp hentry with hrest | hnew
      · exact ⟨hahead entry hrest, hclose entry hrest⟩
      · obtain ⟨target, -, rfl⟩ := List.mem_map.mp hnew
        exact ⟨Nat.le_succ depth, Nat.le_refl _⟩
    intro entry hentry other hother
    have hfirst := hspan entry hentry
    have hsecond := hspan other hother
    omega
  · rw [hall]
    intro entry hentry
    rcases List.mem_append.mp hentry with hold | hnew
    · exact h.distances entry hold
    · obtain ⟨target, htarget, rfl⟩ := List.mem_map.mp hnew
      obtain ⟨hdeep, hunseen, fact, hfact, relation, hrelation, rfl⟩ := hfresh target htarget
      refine ⟨hdeep, .follow hcurrent.2.1 hfact hrelation, fun steps hsteps => ?_⟩
      -- by fewer steps the target would have been visited before
      by_contra hless
      refine hunseen (h.mem_visited hwithin hcurrent.1 ?_ hsteps (by omega))
      rw [hqueue]
      exact List.forall_mem_cons.mpr ⟨Nat.le_refl _, hahead⟩
  · intro hnext entry hentry hdeep fact hfact relation hrelation
    rcases List.mem_append.mp hentry with htaken | hnew
    · rw [hvisited]
      exact List.mem_append_left _ (h.closed hwithin entry htaken hdeep fact hfact relation hrelation)
    · rw [List.mem_singleton.mp hnew] at hdeep hfact
      exact hclosed hnext hdeep fact hfact relation hrelation
  · rw [hresults, List.map_append, h.results, List.filter_append, List.map_append]
    congr 1
    rcases hlookup : factsById.lookup id with _ | fact
    · simp [hlookup]
    · by_cases hpositive : 0 < depth
      · simp [hlookup, hpositive]
      · simp [hlookup, hpositive]

theorem visit (h : BreadthFirst relations factsById root budget taken walk)
    (hwithin : walk.exceeded = false) (hqueue : walk.toVisit = (id, depth) :: rest) :
    let turn := { walk with toVisit := rest }.visit relations factsById budget id depth
    BreadthFirst relations factsById root budget (taken ++ [(id, depth)]) turn.1 ∧
      turn.2 = !turn.1.exceeded := by
  have hcurrent := h.distances (id, depth) (by simp [hqueue])
  unfold Walk.visit
  rw [if_neg (Nat.not_lt.mpr hcurrent.1), if_neg (Nat.not_lt.mpr h.nodes)]
  have hgoes : ∀ results : List α, true =
      !Walk.exceeded { walk with toVisit := rest, results := results } := fun results => by
    simpa [Walk.exceeded] using hwithin
  rcases hlookup : factsById.lookup id with _ | fact
  · refine ⟨?_, hgoes walk.results⟩
    exact h.advance [] hwithin hqueue (by simp) (by simp) (by simp) h.nodup
      (by simp [hlookup]) (by simp [hlookup]) h.nodes h.edges
  -- the fact itself is returned below the root
  set current : Walk α := if depth > 0 then
      { walk with toVisit := rest, results := walk.results ++ [fact] }
    else { walk with toVisit := rest } with hcurrentWalk
  have hkept : current = { walk with toVisit := rest, results :=
      walk.results ++ if 0 < depth then (factsById.lookup id).toList else [] } := by
    rw [hcurrentWalk, hlookup]
    split_ifs <;> simp
  by_cases hbottom : depth ≥ budget.maxDepth
  · dsimp only
    rw [if_pos hbottom, ← hcurrentWalk, hkept]
    refine ⟨?_, hgoes _⟩
    exact h.advance [] hwithin hqueue (by simp) (by simp) (by simp) h.nodup
      (fun _ hdeep => absurd hdeep (Nat.not_lt.mpr hbottom)) rfl h.nodes h.edges
  · dsimp only
    rw [if_neg hbottom, ← hcurrentWalk]
    obtain ⟨hresults, fresh, hvisited, htoVisit, hfresh⟩ :=
      Walk.followAll_spec budget depth (relations fact) current
    refine ⟨?_, rfl⟩
    refine h.advance fresh hwithin hqueue ?_ ?_ ?_ ?_ ?_ ?_ ?_ ?_
    · rw [hvisited, hkept]
    · rw [htoVisit, hkept]
    · intro target htarget
      have hnew := hfresh target htarget
      rw [hkept] at hnew
      exact ⟨Nat.not_le.mp hbottom, hnew.1, fact, hlookup, hnew.2⟩
    · apply Walk.nodup_followAll
      rw [hkept]
      exact h.nodup
    · intro hnext _ other hother relation hrelation
      cases hlookup.symm.trans hother
      exact Walk.mem_visited_of_followAll hnext hrelation
    · rw [hresults, hkept]
    · apply Walk.visited_length_followAll
      rw [hkept]
      exact h.nodes
    · apply Walk.traversedEdges_followAll
      rw [hkept]
      exact h.edges

theorem run (h : ∃ taken, BreadthFirst relations factsById root budget taken walk)
    (hwithin : walk.exceeded = false) :
    ∃ taken, BreadthFirst relations factsById root budget taken
        (walk.run relations factsById budget) ∧
      ((walk.run relations factsById budget).exceeded = false →
        (walk.run relations factsById budget).toVisit = []) := by
  fun_induction Walk.run relations factsById budget walk with
  | case1 walk hempty => exact h.imp fun _ htaken => ⟨htaken, fun _ => hempty⟩
  | case2 walk id depth rest hqueue turn hgoes ih =>
      obtain ⟨taken, htaken⟩ := h
      obtain ⟨hnext, hturn⟩ := htaken.visit hwithin hqueue
      rw [hgoes] at hturn
      exact ih ⟨_, hnext⟩ (Bool.not_eq_true' _ |>.mp hturn.symm)
  | case3 walk id depth rest hqueue turn hends =>
      obtain ⟨taken, htaken⟩ := h
      obtain ⟨hnext, hturn⟩ := htaken.visit hwithin hqueue
      refine ⟨_, hnext, fun hexceeded => ?_⟩
      rw [hexceeded] at hturn
      exact absurd hturn hends

theorem start (hnodes : 1 ≤ budget.maxVisitedNodes) :
    BreadthFirst relations factsById root budget []
      { visited := [root], toVisit := [(root, 0)] } where
  started := List.mem_singleton_self root
  visited := rfl
  nodup := List.nodup_singleton root
  ordered := List.pairwise_singleton _ _
  near := by simp
  distances := by simpa [AtDistance] using RelationSteps.root
  closed := by simp
  results := rfl
  nodes := hnodes
  edges := Nat.zero_le _

end BreadthFirst

/-- The facts are distinct, below the root, and stand in the order of their distance from it; if
they are not cut short, all facts within the depth are among them. -/
def InOrderOfDistance (depth : Nat) (facts : List α) (truncated : Bool) : Prop :=
  ∃ found : List (String × Nat),
    found.map (factsById.lookup ·.1) = facts.map some ∧
    (found.map Prod.fst).Nodup ∧ found.Pairwise (·.2 ≤ ·.2) ∧
    (∀ entry ∈ found, entry.1 ≠ root ∧ 1 ≤ entry.2 ∧ entry.2 ≤ min depth 3 ∧
      AtDistance relations factsById root entry.2 entry.1) ∧
    (truncated = false → ∀ id distance, (factsById.lookup id).isSome →
      AtDistance relations factsById root distance id → 1 ≤ distance → distance ≤ depth →
        (id, distance) ∈ found)

/-- A traversal is a breadth-first search within its budgets. -/
theorem traverse_in_order_of_distance (depth : Nat) :
    InOrderOfDistance relations factsById root depth
        (traverseRelatedFactsWithReport relations factsById root depth).1
        (traverseRelatedFactsWithReport relations factsById root depth).2.truncated ∧
      (traverseRelatedFactsWithReport relations factsById root depth).2.visitedNodes ≤
        relationQueryDefaultMaxVisitedNodes ∧
      (traverseRelatedFactsWithReport relations factsById root depth).2.traversedEdges ≤
        relationQueryDefaultMaxReturnedEdges := by
  set budget := RelationQueryBudget.forRequestedDepth depth with hbudget
  have hmax : budget.maxDepth = min depth 3 := by
    rw [hbudget]
    unfold RelationQueryBudget.forRequestedDepth relationQueryHardCapDepth
    dsimp only
    split_ifs with hzero
    · simp [hzero]
    · rfl
  unfold traverseRelatedFactsWithReport
  dsimp only
  rw [← hbudget]
  by_cases hzero : budget.maxDepth = 0
  · rw [if_pos hzero]
    refine ⟨⟨[], rfl, List.nodup_nil, List.Pairwise.nil, by simp, ?_⟩, Nat.zero_le _, Nat.zero_le _⟩
    intro htruncated id distance _ _ hpositive hdistance
    have hcap := of_decide_eq_false htruncated
    omega
  rw [if_neg hzero]
  have hstart : BreadthFirst relations factsById root budget [] _ :=
    .start (show 1 ≤ 64 by omega)
  obtain ⟨taken, h, hended⟩ := BreadthFirst.run ⟨_, hstart⟩ rfl
  set walk := Walk.run relations factsById budget
    { visited := [root], toVisit := [(root, 0)] } with hwalk
  refine ⟨⟨_, h.results.symm, ?_, ?_, ?_, ?_⟩, h.nodes, h.edges⟩
  · have hnodup := h.nodup
    rw [h.visited, List.map_append] at hnodup
    exact (List.filter_sublist.map _).nodup hnodup.of_append_left
  · exact (List.pairwise_append.mp h.ordered).1.sublist List.filter_sublist
  · intro entry hentry
    obtain ⟨hmem, hkept⟩ := List.mem_filter.mp hentry
    have hpositive : 0 < entry.2 := by
      rw [Bool.and_eq_true] at hkept
      exact of_decide_eq_true hkept.1
    obtain ⟨hdeep, hdistance⟩ := h.distances entry (List.mem_append_left _ hmem)
    refine ⟨?_, hpositive, hmax ▸ hdeep, hdistance⟩
    rintro hroot
    have hnone := hdistance.2 0 (hroot ▸ .root)
    omega
  · intro htruncated id distance hexists hdistance hpositive hle
    have hreasons := List.isEmpty_iff.mp ((Bool.not_eq_false' _).mp htruncated)
    obtain ⟨hothers, hedges⟩ := List.append_eq_nil_iff.mp hreasons
    obtain ⟨hcap, hvisits⟩ := List.append_eq_nil_iff.mp hothers
    have hdepth : depth ≤ budget.maxDepth := by simpa using hcap
    have hwithin : walk.exceeded = false := by
      simp only [ite_eq_right_iff, List.cons_ne_nil, imp_false, Bool.not_eq_true] at hvisits hedges
      simp [Walk.exceeded, hvisits, hedges]
    have hempty := hended hwithin
    have hvisited := h.mem_visited hwithin (Nat.le_refl budget.maxDepth) (by simp [hempty])
      hdistance.1 (by omega)
    rw [h.visited, hempty, List.append_nil] at hvisited
    obtain ⟨entry, hentry, rfl⟩ := List.mem_map.mp hvisited
    have hsame := (h.distances entry (List.mem_append_left _ hentry)).2
    have heq : entry.2 = distance :=
      Nat.le_antisymm (hsame.2 _ hdistance.1) (hdistance.2 _ hsame.1)
    subst heq
    exact List.mem_filter.mpr ⟨hentry, by simp [hexists]; omega⟩

end BreadthFirst

end BenShu.Memory
