import BenShu.Knowledge.KnowledgeGraph
import BenShu.Lib.History

/-!
# The indices of the knowledge graph

The indices follow the triples and the events. They are exact if no event names a
participant twice, and the participants stay registered if none is removed.
-/

namespace BenShu.Knowledge

open PositionIndex

def subjectKeys (triple : Triple) : List String := [triple.subject]

def objectKeys (triple : Triple) : List String := [triple.object]

namespace KnowledgeGraph

variable {kg kg' : KnowledgeGraph} {id : String}

/-- What holds of every graph: each index has every mention, and the ends of triples are
registered. -/
structure Indexed (kg : KnowledgeGraph) : Prop where
  subject : ∀ id, kg.subjectIndex.entry id = occurrences subjectKeys id 0 kg.triples
  object : ∀ id, kg.objectIndex.entry id = occurrences objectKeys id 0 kg.triples
  participant : ∀ id, kg.participantIndex.entry id =
    occurrences Hyperedge.participants id 0 kg.hyperedges
  endpoints : ∀ triple ∈ kg.triples, triple.subject ∈ kg.entities ∧ triple.object ∈ kg.entities

/-- Entities are added, and the events stay. -/
structure Grows (kg kg' : KnowledgeGraph) : Prop where
  hyperedges : kg'.hyperedges = kg.hyperedges
  entities : ∀ id, id ∈ kg.entities → id ∈ kg'.entities

theorem Grows.refl (kg : KnowledgeGraph) : Grows kg kg := ⟨rfl, fun _ h => h⟩

theorem Grows.trans {kg'' : KnowledgeGraph} (h : Grows kg kg') (h' : Grows kg' kg'') :
    Grows kg kg'' :=
  ⟨h'.hyperedges.trans h.hyperedges, fun id hid => h'.entities id (h.entities id hid)⟩

theorem new_indexed : Indexed {} where
  subject id := rfl
  object id := rfl
  participant id := rfl
  endpoints triple h := absurd h (by simp)

/-! ## Registering -/

theorem mem_autoRegister_iff {entities : Table String Entity} {id' : String} :
    id ∈ autoRegister entities id' ↔ id = id' ∨ id ∈ entities := by
  unfold autoRegister
  split
  · rename_i hmem
    constructor
    · exact .inr
    · intro h
      rcases h with heq | hin
      · rw [heq]
        exact hmem
      · exact hin
  · rw [AList.mem_insert]

theorem mem_foldl_autoRegister_iff {entities : Table String Entity} {ids : List String} :
    id ∈ ids.foldl autoRegister entities ↔ id ∈ ids ∨ id ∈ entities := by
  induction ids generalizing entities with
  | nil => simp
  | cons id' ids ih =>
      rw [List.foldl_cons, ih, mem_autoRegister_iff, List.mem_cons]
      constructor
      · intro h
        rcases h with hrest | heq | hin
        · exact .inl (.inr hrest)
        · exact .inl (.inl heq)
        · exact .inr hin
      · intro h
        rcases h with (heq | hrest) | hin
        · exact .inr (.inl heq)
        · exact .inl hrest
        · exact .inr (.inr hin)

/-! ## Triples -/

theorem indexTriples_spec (kg : KnowledgeGraph) (start : Nat) (l : List Triple) :
    let indexed := kg.indexTriples start l
    (∀ id, indexed.subjectIndex.entry id =
        kg.subjectIndex.entry id ++ occurrences subjectKeys id start l) ∧
      (∀ id, indexed.objectIndex.entry id =
        kg.objectIndex.entry id ++ occurrences objectKeys id start l) ∧
      indexed.participantIndex = kg.participantIndex ∧ indexed.triples = kg.triples ∧
      Grows kg indexed ∧
      ∀ triple ∈ l, triple.subject ∈ indexed.entities ∧ triple.object ∈ indexed.entities := by
  induction l generalizing kg start with
  | nil => simp [indexTriples, occurrences, Grows.refl]
  | cons triple l ih =>
      rcases ih (kg.indexTriple start triple) (start + 1) with
        ⟨hsubject, hobject, hparticipant, htriples, hgrows, hregistered⟩
      have hfirst : Grows kg (kg.indexTriple start triple) := by
        refine ⟨rfl, fun id hid => ?_⟩
        exact mem_autoRegister_iff.mpr (.inr (mem_autoRegister_iff.mpr (.inr hid)))
      have hpush : ∀ (index : PositionIndex String) (id key : String),
          (index.push start key).entry id =
            index.entry id ++ List.replicate ([key].count id) start := by
        intro index id key
        exact entry_add index start [key]
      refine ⟨?_, ?_, hparticipant, htriples, hfirst.trans hgrows, ?_⟩
      · intro id
        show ((kg.indexTriple start triple).indexTriples (start + 1) l).subjectIndex.entry id = _
        rw [hsubject, occurrences, ← List.append_assoc]
        exact congrArg (· ++ _) (hpush kg.subjectIndex id triple.subject)
      · intro id
        show ((kg.indexTriple start triple).indexTriples (start + 1) l).objectIndex.entry id = _
        rw [hobject, occurrences, ← List.append_assoc]
        exact congrArg (· ++ _) (hpush kg.objectIndex id triple.object)
      · intro other hother
        rcases List.mem_cons.mp hother with hsame | hrest
        · subst hsame
          constructor
          · exact hgrows.entities _
              (mem_autoRegister_iff.mpr (.inr (mem_autoRegister_iff.mpr (.inl rfl))))
          · exact hgrows.entities _ (mem_autoRegister_iff.mpr (.inl rfl))
        · exact hregistered other hrest

theorem Indexed.append (h : Indexed kg) (l : List Triple) :
    Indexed (({ kg with triples := kg.triples ++ l } : KnowledgeGraph).indexTriples
      kg.triples.length l) := by
  rcases indexTriples_spec { kg with triples := kg.triples ++ l } kg.triples.length l with
    ⟨hsubject, hobject, hparticipant, htriples, hgrows, hregistered⟩
  constructor
  · intro id
    rw [hsubject, htriples, occurrences_append, Nat.zero_add]
    exact congrArg (· ++ _) (h.subject id)
  · intro id
    rw [hobject, htriples, occurrences_append, Nat.zero_add]
    exact congrArg (· ++ _) (h.object id)
  · intro id
    rw [hparticipant, hgrows.hyperedges]
    exact h.participant id
  · intro triple htriple
    rw [htriples] at htriple
    rcases List.mem_append.mp htriple with hold | hnew
    · have hends := h.endpoints triple hold
      exact ⟨hgrows.entities _ hends.1, hgrows.entities _ hends.2⟩
    · exact hregistered triple hnew

theorem addTriple_spec (h : Indexed kg) (triple : Triple) :
    Indexed (kg.addTriple triple).1 ∧ Grows kg (kg.addTriple triple).1 := by
  unfold addTriple
  split
  · exact ⟨h, Grows.refl kg⟩
  · have hgrows := (indexTriples_spec { kg with triples := kg.triples ++ [triple] }
      kg.triples.length [triple]).2.2.2.2.1
    exact ⟨h.append [triple], hgrows.hyperedges, hgrows.entities⟩

theorem addTriplesBatch_spec (h : Indexed kg) (triples : List Triple) :
    Indexed (kg.addTriplesBatch triples).1 ∧ Grows kg (kg.addTriplesBatch triples).1 := by
  unfold addTriplesBatch
  split
  · exact ⟨h, Grows.refl kg⟩
  · split
    · exact ⟨h, Grows.refl kg⟩
    · have hgrows := (indexTriples_spec { kg with triples := kg.triples ++ triples }
        kg.triples.length triples).2.2.2.2.1
      exact ⟨h.append triples, hgrows.hyperedges, hgrows.entities⟩

/-! ## Entities and events -/

theorem addEntity_spec (h : Indexed kg) (entity : Entity) :
    Indexed (kg.addEntity entity) ∧ Grows kg (kg.addEntity entity) := by
  have hgrows : ∀ id, id ∈ kg.entities → id ∈ kg.entities.insert entity.id entity :=
    fun id hid => (AList.mem_insert _).mpr (.inr hid)
  refine ⟨⟨h.subject, h.object, h.participant, ?_⟩, rfl, hgrows⟩
  intro triple htriple
  have hends := h.endpoints triple htriple
  exact ⟨hgrows _ hends.1, hgrows _ hends.2⟩

theorem addHyperedge_indexed (h : Indexed kg) (hyperedge : Hyperedge) :
    Indexed (kg.addHyperedge hyperedge).1 := by
  unfold addHyperedge
  split
  · exact h
  · refine ⟨h.subject, h.object, ?_, ?_⟩
    · intro id
      dsimp only
      rw [entry_add, occurrences_snoc, h.participant]
    · intro triple htriple
      have hends := h.endpoints triple htriple
      exact ⟨mem_foldl_autoRegister_iff.mpr (.inr hends.1),
        mem_foldl_autoRegister_iff.mpr (.inr hends.2)⟩

theorem entry_rebuilt {α : Type} (keysOf : α → List String) (l : List α) (id : String) :
    ((∅ : PositionIndex String).addAll keysOf 0 l).sorted.entry id =
      occurrences keysOf id 0 l := by
  have hentry : ((∅ : PositionIndex String).addAll keysOf 0 l).entry id =
      occurrences keysOf id 0 l := by
    rw [entry_addAll]
    rfl
  rw [entry_sorted_of_pairwise (by rw [hentry]; exact occurrences_sorted 0 l), hentry]

theorem rebuildIndices_indexed
    (h : ∀ triple ∈ kg.triples, triple.subject ∈ kg.entities ∧ triple.object ∈ kg.entities) :
    Indexed kg.rebuildIndices where
  subject id := entry_rebuilt subjectKeys kg.triples id
  object id := entry_rebuilt objectKeys kg.triples id
  participant id := entry_rebuilt Hyperedge.participants kg.hyperedges id
  endpoints := h

theorem removeEntity_indexed (h : Indexed kg) (entityId : String) :
    Indexed (kg.removeEntity entityId) := by
  apply rebuildIndices_indexed
  intro triple htriple
  have hmem := List.mem_filter.mp htriple
  have hends := h.endpoints triple hmem.1
  have hne := of_decide_eq_true hmem.2
  exact ⟨AList.mem_erase.mpr ⟨hne.1, hends.1⟩, AList.mem_erase.mpr ⟨hne.2, hends.2⟩⟩

theorem addConcepts_spec (h : Indexed kg) (count : Nat) (centroids : List String) :
    Indexed (kg.addConcepts count centroids).1 ∧ Grows kg (kg.addConcepts count centroids).1 := by
  induction centroids generalizing kg count with
  | nil => exact ⟨h, Grows.refl kg⟩
  | cons centroid centroids ih =>
      unfold addConcepts
      split
      · exact ih h count
      · rcases addEntity_spec h (conceptEntity centroid) with ⟨hentity, hgrows⟩
        rcases addTriple_spec hentity (conceptTriple centroid) with ⟨htriple, hgrows'⟩
        generalize (kg.addEntity (conceptEntity centroid)).addTriple (conceptTriple centroid) =
          added at *
        rcases added with ⟨after, result⟩
        cases result with
        | error fault => exact ⟨htriple, hgrows.trans hgrows'⟩
        | ok _ =>
            rcases ih htriple (count + 1) with ⟨hindexed, hrest⟩
            exact ⟨hindexed, (hgrows.trans hgrows').trans hrest⟩

theorem distillConcepts_spec (h : Indexed kg) (order : Engram.HashOrder) :
    Indexed (kg.distillConcepts order).1 ∧ Grows kg (kg.distillConcepts order).1 :=
  addConcepts_spec h 0 _

/-! ## Consistency -/

/-- The indices list exactly the positions of what names an entity, the queries return exactly
that, the check finds nothing, and all that is named is registered. -/
structure Consistent (kg : KnowledgeGraph) : Prop where
  subjectPositions : ∀ id, kg.subjectIndex.entry id = positions subjectKeys id kg.triples
  objectPositions : ∀ id, kg.objectIndex.entry id = positions objectKeys id kg.triples
  participantPositions : ∀ id, kg.participantIndex.entry id =
    positions Hyperedge.participants id kg.hyperedges
  subjectQuery : ∀ id, kg.querySubject id =
    some (kg.triples.filter fun triple => triple.subject = id)
  objectQuery : ∀ id, kg.queryObject id = some (kg.triples.filter fun triple => triple.object = id)
  participantQuery : ∀ id, kg.queryParticipantEvents id =
    some (kg.hyperedges.filter fun hyperedge => id ∈ hyperedge.participants)
  check : kg.checkIndexConsistency = []
  endpoints : ∀ triple ∈ kg.triples, triple.subject ∈ kg.entities ∧ triple.object ∈ kg.entities
  participants : ∀ hyperedge ∈ kg.hyperedges, ∀ id ∈ hyperedge.participants, id ∈ kg.entities

/-- No event names a participant twice, and all participants are registered. -/
structure Clean (kg : KnowledgeGraph) : Prop where
  distinct : ∀ hyperedge ∈ kg.hyperedges, hyperedge.participants.Nodup
  participants : ∀ hyperedge ∈ kg.hyperedges, ∀ id ∈ hyperedge.participants, id ∈ kg.entities

theorem exact_iff_nodup {α : Type} (keysOf : α → List String) (l : List α) :
    (∀ id, occurrences keysOf id 0 l = positions keysOf id l) ↔
      ∀ x ∈ l, (keysOf x).Nodup := by
  constructor
  · intro h x hx
    rw [List.nodup_iff_count_le_one]
    intro id
    exact (occurrences_eq_positions_iff l).mp (h id) x hx
  · intro h id
    rw [occurrences_eq_positions_iff]
    intro x hx
    exact List.nodup_iff_count_le_one.mp (h x hx) id

theorem exact_of_singleton {α : Type} (field : α → String) (l : List α) (id : String) :
    occurrences (fun x => [field x]) id 0 l = positions (fun x => [field x]) id l :=
  (exact_iff_nodup _ l).mpr (fun x _ => List.nodup_singleton (field x)) id

theorem fetch_singleton {α : Type} (field : α → String) (l : List α) (id : String) :
    fetch l (positions (fun x => [field x]) id l) = some (l.filter fun x => field x = id) := by
  rw [fetch_positions]
  congr 1
  apply List.filter_congr
  intro x _
  simp [eq_comm]

theorem checkIndexConsistency_eq_nil
    (h : ∀ id, kg.subjectIndex.entry id = positions subjectKeys id kg.triples) :
    kg.checkIndexConsistency = [] := by
  unfold checkIndexConsistency
  rw [List.flatMap_eq_nil_iff]
  intro entry hentry
  rw [List.filterMap_eq_nil_iff]
  intro i hi
  have hlookup : kg.subjectIndex.lookup entry.1 = some entry.2 := Table.mem_entries_iff.mp hentry
  have hpositions : entry.2 = positions subjectKeys entry.1 kg.triples := by
    rw [← h entry.1, PositionIndex.entry, hlookup]
    rfl
  rw [hpositions] at hi
  have hmem := (List.mem_filter.mp hi).2
  unfold subjectFault
  cases htriple : kg.triples[i]? with
  | none =>
      rw [htriple] at hmem
      simp at hmem
  | some triple =>
      rw [htriple] at hmem
      have hsubject : entry.1 = triple.subject := by simpa [subjectKeys] using hmem
      simp [hsubject]

theorem consistent_iff_clean (h : Indexed kg) : Consistent kg ↔ Clean kg := by
  have hsubject : ∀ id, kg.subjectIndex.entry id = positions subjectKeys id kg.triples :=
    fun id => (h.subject id).trans (exact_of_singleton Triple.subject kg.triples id)
  have hobject : ∀ id, kg.objectIndex.entry id = positions objectKeys id kg.triples :=
    fun id => (h.object id).trans (exact_of_singleton Triple.object kg.triples id)
  constructor
  · intro hconsistent
    refine ⟨?_, hconsistent.participants⟩
    rw [← exact_iff_nodup]
    intro id
    rw [← h.participant]
    exact hconsistent.participantPositions id
  · intro hclean
    have hparticipant : ∀ id, kg.participantIndex.entry id =
        positions Hyperedge.participants id kg.hyperedges := by
      intro id
      rw [h.participant]
      exact (exact_iff_nodup _ _).mpr hclean.distinct id
    constructor
    · exact hsubject
    · exact hobject
    · exact hparticipant
    · intro id
      unfold querySubject
      rw [hsubject]
      exact fetch_singleton Triple.subject kg.triples id
    · intro id
      unfold queryObject
      rw [hobject]
      exact fetch_singleton Triple.object kg.triples id
    · intro id
      unfold queryParticipantEvents
      rw [hparticipant]
      exact fetch_positions kg.hyperedges
    · exact checkIndexConsistency_eq_nil hsubject
    · exact h.endpoints
    · exact hclean.participants

/-! ## Runs -/

/-- What a call must meet: an event that is added names no participant twice, and an entity that
is removed takes part in no event. -/
def Keeps (kg : KnowledgeGraph) : GraphCall → Prop
  | .addHyperedge hyperedge =>
      kg.hyperedges.length < maxHyperedges → hyperedge.participants.Nodup
  | .removeEntity entityId => ∀ hyperedge ∈ kg.hyperedges, entityId ∉ hyperedge.participants
  | _ => True

theorem Clean.grows (h : Clean kg) (hgrows : Grows kg kg') : Clean kg' := by
  constructor
  · rw [hgrows.hyperedges]
    exact h.distinct
  · rw [hgrows.hyperedges]
    intro hyperedge hmem id hid
    exact hgrows.entities id (h.participants hyperedge hmem id hid)

theorem addHyperedge_clean_iff (h : Clean kg) (hyperedge : Hyperedge) :
    Clean (kg.addHyperedge hyperedge).1 ↔ Keeps kg (.addHyperedge hyperedge) := by
  unfold addHyperedge
  split
  · rename_i hfull
    exact iff_of_true h fun hroom => absurd hfull (Nat.not_le.mpr hroom)
  · rename_i hroom
    constructor
    · intro hclean _
      exact hclean.distinct hyperedge (List.mem_append_right _ List.mem_cons_self)
    · intro hkeeps
      constructor
      · intro other hother
        rcases List.mem_append.mp hother with hold | hnew
        · exact h.distinct other hold
        · rw [List.mem_singleton.mp hnew]
          exact hkeeps (Nat.not_le.mp hroom)
      · intro other hother id hid
        rw [mem_foldl_autoRegister_iff]
        rcases List.mem_append.mp hother with hold | hnew
        · exact .inr (h.participants other hold id hid)
        · rw [List.mem_singleton.mp hnew] at hid
          exact .inl hid

theorem removeEntity_clean_iff (h : Clean kg) (entityId : String) :
    Clean (kg.removeEntity entityId) ↔ Keeps kg (.removeEntity entityId) := by
  constructor
  · intro hclean hyperedge hmem hid
    have hregistered := hclean.participants hyperedge hmem entityId hid
    exact (AList.mem_erase.mp hregistered).1 rfl
  · intro hkeeps
    refine ⟨h.distinct, ?_⟩
    intro hyperedge hmem id hid
    have hne : id ≠ entityId := by
      intro heq
      subst heq
      exact hkeeps hyperedge hmem hid
    exact AList.mem_erase.mpr ⟨hne, h.participants hyperedge hmem id hid⟩

theorem perform_spec (h : Indexed kg) (call : GraphCall) :
    Indexed (kg.perform call) ∧ (Clean kg → (Clean (kg.perform call) ↔ Keeps kg call)) := by
  have hgrown : ∀ kg', Indexed kg' ∧ Grows kg kg' →
      Indexed kg' ∧ (Clean kg → (Clean kg' ↔ True)) :=
    fun kg' h => ⟨h.1, fun hclean => iff_of_true (hclean.grows h.2) trivial⟩
  cases call with
  | addTriple triple => exact hgrown _ (addTriple_spec h triple)
  | addTriplesBatch triples => exact hgrown _ (addTriplesBatch_spec h triples)
  | addEntity entity => exact hgrown _ (addEntity_spec h entity)
  | addHyperedge hyperedge =>
      exact ⟨addHyperedge_indexed h hyperedge, fun hclean => addHyperedge_clean_iff hclean hyperedge⟩
  | removeEntity entityId =>
      exact ⟨removeEntity_indexed h entityId, fun hclean => removeEntity_clean_iff hclean entityId⟩
  | rebuildIndices => exact hgrown _ ⟨rebuildIndices_indexed h.endpoints, rfl, fun _ hid => hid⟩
  | distillConcepts order => exact hgrown _ (distillConcepts_spec h order)

/-- The graph is consistent after every call of a run if and only if each call keeps it so. -/
theorem run_consistent_iff (calls : List GraphCall) :
    (∀ pre, pre <+: calls → Consistent (pre.foldl perform {})) ↔
      History.Preceded (fun pre call => Keeps (pre.foldl perform {}) call) calls := by
  have hclean : Clean {} := ⟨fun _ h => absurd h (by simp), fun _ h => absurd h (by simp)⟩
  apply @History.foldl_throughout_iff _ calls _ perform {} Indexed Consistent Keeps new_indexed
    ((consistent_iff_clean new_indexed).mpr hclean)
  intro call _ kg hindexed
  rcases perform_spec hindexed call with ⟨hafter, hkeeps⟩
  refine ⟨hafter, ?_⟩
  intro hconsistent
  rw [consistent_iff_clean hafter]
  exact hkeeps ((consistent_iff_clean hindexed).mp hconsistent)

/-- Removing an entity that takes part in an event leaves the event with a participant that is not
registered; an event that names a participant twice is listed and returned twice. -/
theorem inconsistent :
    let meeting : Hyperedge := { id := "e", label := "meeting", participants := ["a"] }
    let doubled : Hyperedge := { id := "e", label := "meeting", participants := ["a", "a"] }
    ¬Consistent ([.addHyperedge meeting, .removeEntity "a"].foldl perform {}) ∧
      ¬Consistent ([.addHyperedge doubled].foldl perform {}) := by
  constructor
  · intro h
    have hregistered := h.participants { id := "e", label := "meeting", participants := ["a"] }
      List.mem_cons_self "a" List.mem_cons_self
    exact absurd hregistered (by decide)
  · intro h
    exact absurd (h.participantPositions "a") (by decide)

end KnowledgeGraph

end BenShu.Knowledge
