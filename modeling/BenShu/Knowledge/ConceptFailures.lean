import BenShu.Knowledge.GraphIndex

/-!
# Concepts that fail

A concept is registered before its link is added. Where the graph has no room for the link, the
concept stays without it, and the next distillation passes it over.
-/

namespace BenShu.Knowledge

namespace KnowledgeGraph

def centroids (order : Engram.HashOrder) (kg : KnowledgeGraph) : List String :=
  let degrees := degreeMap kg.triples
  let totalDegree := degrees.total id
  let avgDegree := if kg.entities.size = 0 then 0 else totalDegree / kg.entities.size
  let threshold := max (avgDegree * 2) 5
  (order.arrange degrees.keys).filter fun id => (degrees.lookup id).getD 0 ≥ threshold

theorem distillConcepts_eq (order : Engram.HashOrder) (kg : KnowledgeGraph) :
    kg.distillConcepts order = kg.addConcepts 0 (kg.centroids order) := rfl

theorem nodup_centroids (order : Engram.HashOrder) (kg : KnowledgeGraph) :
    (kg.centroids order).Nodup :=
  ((order.perm _).nodup_iff.mpr (degreeMap kg.triples).keys_nodup).filter _

def registerConcept (entities : Table String Entity) (centroid : String) : Table String Entity :=
  autoRegister
    (autoRegister (entities.insert (conceptId centroid) (conceptEntity centroid))
      (conceptId centroid)) centroid

/-- The centroids without a concept when they come up. -/
def missingConcepts (entities : Table String Entity) : List String → List String
  | [] => []
  | centroid :: rest =>
      if conceptId centroid ∈ entities then missingConcepts entities rest
      else centroid :: missingConcepts (registerConcept entities centroid) rest

def HasRoom (order : Engram.HashOrder) (kg : KnowledgeGraph) : Prop :=
  (missingConcepts kg.entities (kg.centroids order)).length ≤ maxTriples - kg.triples.length

/-! ## The loop over the centroids -/

variable {kg : KnowledgeGraph}

theorem mem_registerConcept {entities : Table String Entity} {id centroid : String}
    (h : id ∈ entities) : id ∈ registerConcept entities centroid := by
  unfold registerConcept
  rw [mem_autoRegister_iff, mem_autoRegister_iff, AList.mem_insert]
  exact .inr (.inr (.inr h))

theorem missingConcepts_sublist (entities : Table String Entity) (centroids : List String) :
    (missingConcepts entities centroids).Sublist centroids := by
  induction centroids generalizing entities with
  | nil => exact .slnil
  | cons centroid rest ih =>
      unfold missingConcepts
      split
      · exact (ih entities).cons centroid
      · exact (ih _).cons_cons centroid

def withConcept (kg : KnowledgeGraph) (centroid : String) : KnowledgeGraph :=
  ((kg.addEntity (conceptEntity centroid)).addTriple (conceptTriple centroid)).1

theorem addConcept_full (hfull : maxTriples ≤ kg.triples.length) (centroid : String) :
    ∃ fault, (kg.addEntity (conceptEntity centroid)).addTriple (conceptTriple centroid) =
      (kg.addEntity (conceptEntity centroid), .error fault) :=
  ⟨_, if_pos hfull⟩

theorem addConcept_room (hroom : kg.triples.length < maxTriples) (centroid : String) :
    (kg.addEntity (conceptEntity centroid)).addTriple (conceptTriple centroid) =
        (kg.withConcept centroid, .ok ()) ∧
      (kg.withConcept centroid).triples = kg.triples ++ [conceptTriple centroid] ∧
      (kg.withConcept centroid).entities = registerConcept kg.entities centroid := by
  have hroom' : ¬(kg.addEntity (conceptEntity centroid)).triples.length ≥ maxTriples :=
    Nat.not_le_of_lt hroom
  unfold withConcept addTriple
  rw [if_neg hroom']
  exact ⟨rfl, rfl, rfl⟩

/-- What a distillation that fails has left: the links of the concepts that had room, and one
concept without its link. -/
structure LeftOver (kg after : KnowledgeGraph) (centroids : List String) : Prop where
  overfull : maxTriples - kg.triples.length < (missingConcepts kg.entities centroids).length
  unlinked : ∃ linked centroid later,
    missingConcepts kg.entities centroids = linked ++ centroid :: later ∧
      after.triples = kg.triples ++ linked.map conceptTriple ∧
      conceptId centroid ∉ kg.entities ∧
      after.entities.lookup (conceptId centroid) = some (conceptEntity centroid)

theorem addConcepts_outcome (kg : KnowledgeGraph) (count : Nat) (centroids : List String) :
    (∃ n, (kg.addConcepts count centroids).2 = .ok n) ∧
        (missingConcepts kg.entities centroids).length ≤ maxTriples - kg.triples.length ∨
      (∃ fault, (kg.addConcepts count centroids).2 = .error fault) ∧
        LeftOver kg (kg.addConcepts count centroids).1 centroids := by
  induction centroids generalizing kg count with
  | nil => exact .inl ⟨⟨count, rfl⟩, Nat.zero_le _⟩
  | cons centroid rest ih =>
      by_cases hknown : conceptId centroid ∈ kg.entities
      · have hmissing : missingConcepts kg.entities (centroid :: rest) =
            missingConcepts kg.entities rest := if_pos hknown
        have hskip : kg.addConcepts count (centroid :: rest) = kg.addConcepts count rest :=
          if_pos hknown
        rw [hskip]
        rcases ih kg count with ⟨hok, hroom⟩ | ⟨herror, hleft⟩
        · exact .inl ⟨hok, hmissing ▸ hroom⟩
        · exact .inr ⟨herror, by rw [hmissing]; exact hleft.overfull,
            by rw [hmissing]; exact hleft.unlinked⟩
      · have hmissing : missingConcepts kg.entities (centroid :: rest) =
            centroid :: missingConcepts (registerConcept kg.entities centroid) rest :=
          if_neg hknown
        rw [addConcepts, if_neg hknown]
        rcases Nat.lt_or_ge kg.triples.length maxTriples with hroom | hfull
        · obtain ⟨hadd, htriples, hentities⟩ := addConcept_room hroom centroid
          rw [hadd]
          dsimp only
          have hlength : (kg.withConcept centroid).triples.length = kg.triples.length + 1 := by
            rw [htriples, List.length_append, List.length_singleton]
          have hrest := ih (kg.withConcept centroid) (count + 1)
          rw [hentities, hlength] at hrest
          rcases hrest with ⟨hok, hfits⟩ | ⟨herror, hleft⟩
          · refine .inl ⟨hok, ?_⟩
            rw [hmissing, List.length_cons]
            omega
          · obtain ⟨linked, unlinked, later, hsplit, hafter, hnew, hleft'⟩ := hleft.unlinked
            have hover := hleft.overfull
            rw [hentities] at hsplit hnew hover
            rw [hlength] at hover
            refine .inr ⟨herror, ?_, centroid :: linked, unlinked, later, ?_, ?_, ?_, hleft'⟩
            · rw [hmissing, List.length_cons]
              omega
            · rw [hmissing, hsplit, List.cons_append]
            · rw [hafter, htriples, List.append_assoc, List.map_cons, List.singleton_append]
            · exact fun h => hnew (mem_registerConcept h)
        · obtain ⟨fault, hadd⟩ := addConcept_full hfull centroid
          rw [hadd]
          refine .inr ⟨⟨fault, rfl⟩, ?_, [], centroid, _, hmissing, ?_, hknown, ?_⟩
          · rw [hmissing, List.length_cons]
            omega
          · rw [List.map_nil, List.append_nil]
            rfl
          · exact AList.lookup_insert kg.entities

/-! ## Failures -/

/-- Every concept that was registered has the link that was added for it. -/
def Linked (kg after : KnowledgeGraph) : Prop :=
  ∀ centroid, conceptId centroid ∉ kg.entities →
    after.entities.lookup (conceptId centroid) = some (conceptEntity centroid) →
      conceptTriple centroid ∈ after.triples.drop kg.triples.length

/-- A distillation that fails leaves every concept that it registered with its link, or the graph
as it was; and a distillation after further calls adds every link that it would have added had
there not been the one that failed. -/
structure FailsCleanly (order : Engram.HashOrder) (kg : KnowledgeGraph) : Prop where
  linked : ∀ fault, (kg.distillConcepts order).2 = .error fault →
    Linked kg (kg.distillConcepts order).1 ∨ (kg.distillConcepts order).1 = kg
  later : ∀ fault, (kg.distillConcepts order).2 = .error fault →
    ∀ (calls : List GraphCall) (order' : Engram.HashOrder) (n : Nat),
      ((calls.foldl perform kg).distillConcepts order').2 = .ok n →
        ∀ centroid, conceptTriple centroid ∈
            ((calls.foldl perform kg).distillConcepts order').1.triples →
          conceptTriple centroid ∈
            ((calls.foldl perform (kg.distillConcepts order).1).distillConcepts order').1.triples

theorem conceptTriple_injective {centroid other : String}
    (h : conceptTriple centroid = conceptTriple other) : centroid = other :=
  congrArg Triple.object h

theorem failsCleanly_of_hasRoom {order : Engram.HashOrder} (h : HasRoom order kg) :
    FailsCleanly order kg := by
  rcases addConcepts_outcome kg 0 (kg.centroids order) with ⟨⟨n, hok⟩, -⟩ | ⟨-, hleft⟩
  · constructor
    all_goals
      intro fault herror
      rw [distillConcepts_eq, hok] at herror
      cases herror
  · exact absurd h (Nat.not_le_of_lt hleft.overfull)

theorem not_failsCleanly {order : Engram.HashOrder} (hfull : ¬HasRoom order kg) :
    ¬FailsCleanly order kg := by
  intro h
  rcases addConcepts_outcome kg 0 (kg.centroids order) with ⟨-, hroom⟩ | ⟨⟨fault, herror⟩, hleft⟩
  · exact hfull hroom
  · obtain ⟨linked, centroid, later, hsplit, hafter, hnew, hunlinked⟩ := hleft.unlinked
    rcases h.linked fault herror with hlinked | hsame
    · have hmem := hlinked centroid hnew hunlinked
      rw [distillConcepts_eq, hafter, List.drop_left] at hmem
      obtain ⟨other, hother, heq⟩ := List.mem_map.mp hmem
      rw [conceptTriple_injective heq] at hother
      have hnodup := (nodup_centroids order kg).sublist (missingConcepts_sublist kg.entities _)
      rw [hsplit] at hnodup
      exact (List.nodup_append.mp hnodup).2.2 _ hother _ List.mem_cons_self rfl
    · rw [distillConcepts_eq] at hsame
      rw [hsame, AList.lookup_eq_none.mpr hnew] at hunlinked
      cases hunlinked

/-- A distillation fails cleanly exactly when it has room and does not fail. -/
theorem failsCleanly_iff (order : Engram.HashOrder) (kg : KnowledgeGraph) :
    FailsCleanly order kg ↔ HasRoom order kg :=
  ⟨fun h => by_contra fun hfull => not_failsCleanly hfull h, failsCleanly_of_hasRoom⟩

/-! ## A full graph -/

/-- A triple of an entity with itself. -/
def loop : Triple where
  subject := "a"
  predicate := "p"
  object := "a"

def idle : KnowledgeGraph :=
  [{ id := "b", entityType := "x" }, { id := "c", entityType := "x" },
    { id := "d", entityType := "x" }].foldl addEntity {}

def loops (n : Nat) : KnowledgeGraph :=
  (List.replicate n (GraphCall.addTriple loop)).foldl perform idle

theorem loops_succ (n : Nat) : loops (n + 1) = (loops n).perform (.addTriple loop) := by
  rw [loops, List.replicate_succ', List.foldl_append]
  rfl

theorem degreeMap_loops (n : Nat) :
    degreeMap (List.replicate (n + 1) loop) = AList.singleton "a" (2 * (n + 1)) := by
  have hlookup : ∀ k : Nat, (AList.singleton "a" k : Table String Nat).lookup "a" = some k := by
    intro k
    rw [← AList.insert_empty, AList.lookup_insert]
  induction n with
  | zero => simp [degreeMap, loop, hlookup]
  | succ n ih =>
      have hcount : 2 * (n + 1 + 1) = 2 * (n + 1) + 1 + 1 := by omega
      rw [List.replicate_succ', degreeMap, List.foldl_append, ← degreeMap, ih, hcount]
      simp [loop, hlookup]

theorem loops_spec {n : Nat} (hn : n < maxTriples) :
    (loops (n + 1)).triples = List.replicate (n + 1) loop ∧
      (loops (n + 1)).entities = (loops 1).entities := by
  induction n with
  | zero => exact ⟨rfl, rfl⟩
  | succ n ih =>
      obtain ⟨htriples, hentities⟩ := ih (by omega)
      have hroom : ¬(loops (n + 1)).triples.length ≥ maxTriples := by
        rw [htriples, List.length_replicate]
        omega
      have hknown : "a" ∈ (loops (n + 1)).entities := by
        rw [hentities]
        decide +kernel
      have hsame : autoRegister (autoRegister (loops (n + 1)).entities "a") "a" =
          (loops (n + 1)).entities := by
        have hkept : autoRegister (loops (n + 1)).entities "a" = (loops (n + 1)).entities :=
          if_pos hknown
        rw [hkept, hkept]
      rw [loops_succ, perform, addTriple, if_neg hroom]
      refine ⟨?_, hsame.trans hentities⟩
      rw [List.replicate_succ', ← htriples]

/-- At the limit of triples the concept of the entity stays without a link. -/
theorem loops_not_failsCleanly : ¬FailsCleanly .same (loops maxTriples) := by
  obtain ⟨htriples, hentities⟩ := loops_spec (show maxTriples - 1 < maxTriples by decide)
  have hmax : maxTriples - 1 + 1 = maxTriples := rfl
  have hdegrees := degreeMap_loops (maxTriples - 1)
  rw [hmax] at htriples hentities hdegrees
  have hsize : (loops maxTriples).entities.size = 4 := by
    rw [hentities]
    decide +kernel
  have hnew : conceptId "a" ∉ (loops maxTriples).entities := by
    rw [hentities]
    decide +kernel
  have hcentroids : (loops maxTriples).centroids .same = ["a"] := by
    have hkeys : (AList.singleton "a" (2 * maxTriples) : Table String Nat).keys = ["a"] := rfl
    have htotal : Table.total id (AList.singleton "a" (2 * maxTriples) : Table String Nat) =
        2 * maxTriples := rfl
    have hlookup : (AList.singleton "a" (2 * maxTriples) : Table String Nat).lookup "a" =
        some (2 * maxTriples) := by rw [← AList.insert_empty, AList.lookup_insert]
    unfold centroids
    dsimp only
    rw [htriples, hdegrees, hsize, htotal, hkeys]
    simp only [Engram.HashOrder.same, id_eq, List.filter_cons, List.filter_nil, hlookup]
    decide
  refine not_failsCleanly ?_
  unfold HasRoom
  rw [hcentroids, htriples, List.length_replicate, missingConcepts, if_neg hnew]
  simp

end KnowledgeGraph

end BenShu.Knowledge
