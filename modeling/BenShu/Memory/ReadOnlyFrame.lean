import BenShu.Lib.Frame
import BenShu.Memory.ReadOnly

/-!
# What a read-only proxy leaves as it was

Nothing that the proxy answers itself changes the memory behind it, and of what it asks only a
request for a review and, over a manager, a session that the durable layer is the authority on.
-/

namespace BenShu.Memory

open Protocol

/-- What a memory keeps: its messages, sessions, facts with their reviews, and documents. -/
@[ext]
structure MemoryContents where
  messages : String → Option (List Message)
  sessions : String → Option StatedSession
  facts : String → Option (List Fact)
  reviews : String → Option FactReviewPayload
  documents : String → Option Document

def ReadOnlyMemory.step {σ : Type} (inner : InnerMemory σ) (state : σ)
    (entry : CallSetting × MemoryCall) : σ :=
  (ReadOnlyMemory.call inner entry.1 entry.2 state).1

def InnerMemory.step {σ : Type} (inner : InnerMemory σ) (state : σ)
    (entry : CallSetting × InnerCall) : σ :=
  (inner entry.1 entry.2 state).1

def ReadOnlyMemory.AsksQuietly {σ : Type} (quiet : σ → CallSetting × InnerCall → Prop) (state : σ)
    (entry : CallSetting × MemoryCall) : Prop :=
  ∀ asked, ReadOnlyMemory.react entry.2 = .ask asked → quiet state (entry.1, asked)

theorem ReadOnlyMemory.quiets {σ κ : Type} {inner : InnerMemory σ} {view : σ → κ}
    {quiet : σ → CallSetting × InnerCall → Prop}
    (h : Frame.Quiets (InnerMemory.step inner) view quiet) :
    Frame.Quiets (ReadOnlyMemory.step inner) view (ReadOnlyMemory.AsksQuietly quiet) where
  step_iff state entry := by
    unfold ReadOnlyMemory.step ReadOnlyMemory.call ReadOnlyMemory.AsksQuietly
    rcases ReadOnlyMemory.react entry.2 with asked | answer
    · refine (h.step_iff state (entry.1, asked)).trans ⟨fun hquiet other hother => ?_, fun hall => ?_⟩
      · cases hother
        exact hquiet
      · exact hall asked rfl
    · simp
  congr state state' entry hview hquiet asked hasked :=
    h.congr state state' (entry.1, asked) hview (hquiet asked hasked)

/-! ## The memory in memory -/

namespace InMemoryMemory

def contents (memory : InMemoryMemory) : MemoryContents :=
  { messages := memory.messages.lookup
    sessions := memory.sessions.lookup
    facts := memory.facts.lookup
    reviews := memory.reviewPayloads.lookup
    documents := memory.documents.lookup }

/-- The review is already asked for, with the payload and at the time. -/
structure ReviewSettled (clock : Clock) (factId : String) (payload : FactReviewPayload)
    (memory : InMemoryMemory) : Prop where
  facts : ∀ owner facts, memory.facts.lookup owner = some facts →
    ∀ fact ∈ facts, fact.id = factId → fact.pendingReview clock.now = fact
  payload : memory.reviewPayloads.lookup factId =
    some { payload with reviewRequestedAt := some clock.requestedAt }

def Reported (who : Partition) (factId : String) (depth : Nat) (memory : InMemoryMemory) : Prop :=
  ∀ entry ∈ (traverseRelatedFactsWithReport (·.relations)
      (Table.indexedBy (·.id) (memory.retrieveFacts who)) factId depth).2.metadataEntries factId,
    memory.metadata.lookup entry.1 = some entry.2

theorem contents_storeSession_iff (session : StatedSession) (memory : InMemoryMemory) :
    (memory.storeSession session).contents = memory.contents ↔
      memory.retrieveSession session.id = some session := by
  unfold contents storeSession retrieveSession
  rw [MemoryContents.mk.injEq]
  constructor
  · rintro ⟨-, hsessions, -⟩
    have hsession := congrFun hsessions session.id
    rw [Table.lookup_insert, if_pos rfl] at hsession
    exact hsession.symm
  · intro hheld
    refine ⟨rfl, funext fun sessionId => ?_, rfl, rfl, rfl⟩
    rw [Table.lookup_insert]
    split_ifs with hid
    · rw [hid, hheld]
    · rfl

theorem map_reviewed_iff (factId : String) (now : DateTime) (facts : List Fact) :
    (facts.map fun fact => if fact.id = factId then fact.pendingReview now else fact) = facts ↔
      ∀ fact ∈ facts, fact.id = factId → fact.pendingReview now = fact := by
  induction facts with
  | nil => simp
  | cons fact facts ih =>
      rw [List.map_cons, List.cons.injEq, ih, List.forall_mem_cons]
      by_cases hid : fact.id = factId
      · simp [hid]
      · simp [hid]

theorem contents_requestFactReview_iff (clock : Clock) (factId : String)
    (payload : FactReviewPayload) (memory : InMemoryMemory) :
    (memory.requestFactReview clock factId payload).contents = memory.contents ↔
      memory.ReviewSettled clock factId payload := by
  unfold contents requestFactReview
  rw [MemoryContents.mk.injEq]
  constructor
  · rintro ⟨-, -, hfacts, hreviews, -⟩
    refine ⟨fun owner facts hlookup => ?_, ?_⟩
    · have howner := congrFun hfacts owner
      rw [Table.lookup_collect, hlookup, Option.bind_some, Option.some_inj] at howner
      exact (map_reviewed_iff factId clock.now facts).mp howner
    · have hpayload := congrFun hreviews factId
      rw [Table.lookup_insert, if_pos rfl] at hpayload
      exact hpayload.symm
  · intro hsettled
    refine ⟨rfl, rfl, funext fun owner => ?_, funext fun id => ?_, rfl⟩
    · rw [Table.lookup_collect]
      rcases hlookup : memory.facts.lookup owner with _ | facts
      · rfl
      · rw [Option.bind_some, (map_reviewed_iff factId clock.now facts).mpr
          (hsettled.facts owner facts hlookup)]
    · rw [Table.lookup_insert]
      split_ifs with hid
      · rw [hid, hsettled.payload]
      · rfl

variable {memory' memory : InMemoryMemory}

theorem ReviewSettled.congr {clock : Clock} {factId : String} {payload : FactReviewPayload}
    (hsame : memory.contents = memory'.contents) (h : memory.ReviewSettled clock factId payload) :
    memory'.ReviewSettled clock factId payload where
  facts owner facts hlookup :=
    h.facts owner facts ((congrFun (congrArg MemoryContents.facts hsame) owner).trans hlookup)
  payload := (congrFun (congrArg MemoryContents.reviews hsame) factId).symm.trans h.payload

theorem retrieveSession_congr (hsame : memory.contents = memory'.contents) (sessionId : String) :
    memory.retrieveSession sessionId = memory'.retrieveSession sessionId :=
  congrFun (congrArg MemoryContents.sessions hsame) sessionId

theorem retrieveFacts_congr (hsame : memory.contents = memory'.contents) (who : Partition) :
    memory.retrieveFacts who = memory'.retrieveFacts who :=
  congrArg (·.getD []) (congrFun (congrArg MemoryContents.facts hsame) (key who))

def metadataOf (memory : InMemoryMemory) : String → Option String := memory.metadata.lookup

theorem metadataEntries_nodup (rootFactId : String) (report : RelationTraversalReport) :
    ((report.metadataEntries rootFactId).map Prod.fst).Nodup := by
  unfold RelationTraversalReport.metadataEntries
  simp only [List.map_cons, List.map_nil]
  decide

theorem metadataOf_findRelatedFacts_iff (who : Partition) (factId : String) (depth : Nat)
    (memory : InMemoryMemory) :
    (memory.findRelatedFacts who factId depth).1.metadataOf = memory.metadataOf ↔
      memory.Reported who factId depth := by
  unfold metadataOf
  rw [funext_iff]
  exact Table.lookup_foldl_insert_same_iff _ (metadataEntries_nodup factId _)

theorem Reported.congr {who : Partition} {factId : String} {depth : Nat}
    (hsame : memory.contents = memory'.contents)
    (hmetadata : memory.metadataOf = memory'.metadataOf) (h : memory.Reported who factId depth) :
    memory'.Reported who factId depth := by
  unfold Reported at h ⊢
  rw [← retrieveFacts_congr hsame who]
  intro entry hentry
  exact (congrFun hmetadata entry.1).symm.trans (h entry hentry)

/-- The calls that leave the contents of a memory in memory as they are. -/
def Quiet (memory : InMemoryMemory) (entry : CallSetting × InnerCall) : Prop :=
  match entry.2 with
  | .requestFactReview factId payload => memory.ReviewSettled entry.1.hot factId payload
  | _ => True

def MetadataQuiet (memory : InMemoryMemory) (entry : CallSetting × InnerCall) : Prop :=
  match entry.2 with
  | .findRelatedFacts who factId depth => memory.Reported who factId depth
  | _ => True

variable (toLowercase : String → String)

theorem quiets_contents : Frame.Quiets (InnerMemory.step (inner toLowercase)) contents Quiet where
  step_iff memory entry := by
    obtain ⟨setting, call⟩ := entry
    cases call with
    | requestFactReview factId payload => exact contents_requestFactReview_iff _ _ _ _
    | _ => exact iff_of_true rfl trivial
  congr memory memory' entry hsame hquiet := by
    obtain ⟨setting, call⟩ := entry
    cases call with
    | requestFactReview factId payload => exact ReviewSettled.congr hsame hquiet
    | _ => exact trivial

theorem metadataOf_step_iff (memory : InMemoryMemory) (entry : CallSetting × InnerCall) :
    (InnerMemory.step (inner toLowercase) memory entry).metadataOf = memory.metadataOf ↔
      memory.MetadataQuiet entry := by
  obtain ⟨setting, call⟩ := entry
  cases call with
  | findRelatedFacts who factId depth => exact metadataOf_findRelatedFacts_iff who factId depth _
  | _ => exact iff_of_true rfl trivial

theorem MetadataQuiet.congr {entry : CallSetting × InnerCall}
    (hsame : memory.contents = memory'.contents)
    (hmetadata : memory.metadataOf = memory'.metadataOf) (h : memory.MetadataQuiet entry) :
    memory'.MetadataQuiet entry := by
  obtain ⟨setting, call⟩ := entry
  cases call with
  | findRelatedFacts who factId depth => exact Reported.congr hsame hmetadata h
  | _ => exact trivial

end InMemoryMemory

/-! ## The manager -/

namespace ManagedLayers

def contents (layers : ManagedLayers) : MemoryContents × MemoryContents :=
  (layers.hot.contents, layers.engram.contents)

def metadataOf (layers : ManagedLayers) : (String → Option String) × (String → Option String) :=
  (layers.hot.metadataOf, layers.engram.metadataOf)

/-- The session that would be stored back is what both layers hold. -/
def SessionSettled (setting : CallSetting) (sessionId : String) (layers : ManagedLayers) : Prop :=
  ∀ session source, layers.sessionAuthority sessionId = some (session, some source) →
    let recovered := session.recovered setting source
    layers.hot.retrieveSession recovered.id = some recovered ∧
      layers.engram.retrieveSession recovered.id = some recovered

/-- The calls that leave the contents of both layers as they are. -/
def Quiet (layers : ManagedLayers) (entry : CallSetting × InnerCall) : Prop :=
  match entry.2 with
  | .retrieveSession sessionId => layers.SessionSettled entry.1 sessionId
  | .requestFactReview factId payload =>
      layers.hot.ReviewSettled entry.1.hot factId payload ∧
        layers.engram.ReviewSettled entry.1.engram factId payload
  | _ => True

/-- The durable layer writes a report only when the hot one knows of no related fact. -/
def MetadataQuiet (layers : ManagedLayers) (entry : CallSetting × InnerCall) : Prop :=
  match entry.2 with
  | .findRelatedFacts who factId depth =>
      layers.hot.Reported who factId depth ∧
        ((layers.hot.findRelatedFacts who factId depth).2 = [] →
          layers.engram.Reported who factId depth)
  | _ => True

theorem contents_retrieveSession_iff (setting : CallSetting) (sessionId : String)
    (layers : ManagedLayers) :
    (layers.retrieveSession setting sessionId).1.contents = layers.contents ↔
      layers.SessionSettled setting sessionId := by
  unfold retrieveSession SessionSettled
  rcases layers.sessionAuthority sessionId with _ | ⟨session, _ | source⟩
  · simp
  · simp
  · unfold contents storeSession
    rw [Prod.mk.injEq, InMemoryMemory.contents_storeSession_iff,
      InMemoryMemory.contents_storeSession_iff]
    constructor
    · rintro hheld _ _ ⟨⟩
      exact hheld
    · intro hsettled
      exact hsettled session source rfl

theorem SessionSettled.congr {setting : CallSetting} {sessionId : String}
    {layers layers' : ManagedLayers} (hsame : layers.contents = layers'.contents)
    (h : layers.SessionSettled setting sessionId) : layers'.SessionSettled setting sessionId := by
  unfold contents at hsame
  rw [Prod.mk.injEq] at hsame
  have hhot := InMemoryMemory.retrieveSession_congr hsame.1
  have hengram := InMemoryMemory.retrieveSession_congr hsame.2
  unfold SessionSettled sessionAuthority at h ⊢
  rw [← hhot, ← hengram]
  intro session source hauthority
  dsimp only
  rw [← hhot, ← hengram]
  exact h session source hauthority

theorem metadataOf_findRelatedFacts_iff (who : Partition) (factId : String) (depth : Nat)
    (layers : ManagedLayers) :
    (layers.findRelatedFacts who factId depth).1.metadataOf = layers.metadataOf ↔
      layers.hot.Reported who factId depth ∧
        ((layers.hot.findRelatedFacts who factId depth).2 = [] →
          layers.engram.Reported who factId depth) := by
  unfold findRelatedFacts metadataOf
  dsimp only
  rcases hrelated : (layers.hot.findRelatedFacts who factId depth).2 with _ | ⟨fact, facts⟩
  · rw [List.isEmpty_nil, if_pos rfl]
    dsimp only
    rw [Prod.mk.injEq, InMemoryMemory.metadataOf_findRelatedFacts_iff,
      InMemoryMemory.metadataOf_findRelatedFacts_iff]
    simp
  · rw [List.isEmpty_cons, if_neg Bool.false_ne_true]
    dsimp only
    rw [Prod.mk.injEq, InMemoryMemory.metadataOf_findRelatedFacts_iff]
    simp

variable (toLowercase : String → String)

theorem quiets_contents : Frame.Quiets (InnerMemory.step (inner toLowercase)) contents Quiet where
  step_iff layers entry := by
    obtain ⟨setting, call⟩ := entry
    cases call with
    | retrieveSession sessionId => exact contents_retrieveSession_iff setting sessionId layers
    | findRelatedFacts who factId depth =>
        refine iff_of_true ?_ trivial
        show (layers.findRelatedFacts who factId depth).1.contents = layers.contents
        unfold findRelatedFacts
        dsimp only
        split_ifs <;> rfl
    | requestFactReview factId payload =>
        show (layers.requestFactReview setting factId payload).contents = layers.contents ↔ _
        unfold contents requestFactReview
        rw [Prod.mk.injEq, InMemoryMemory.contents_requestFactReview_iff,
          InMemoryMemory.contents_requestFactReview_iff]
        rfl
    | _ => exact iff_of_true rfl trivial
  congr layers layers' entry hsame hquiet := by
    obtain ⟨setting, call⟩ := entry
    cases call with
    | retrieveSession sessionId => exact SessionSettled.congr hsame hquiet
    | requestFactReview factId payload =>
        unfold contents at hsame
        rw [Prod.mk.injEq] at hsame
        exact ⟨hquiet.1.congr hsame.1, hquiet.2.congr hsame.2⟩
    | _ => exact trivial

theorem metadataOf_step_iff (layers : ManagedLayers) (entry : CallSetting × InnerCall) :
    (InnerMemory.step (inner toLowercase) layers entry).metadataOf = layers.metadataOf ↔
      layers.MetadataQuiet entry := by
  obtain ⟨setting, call⟩ := entry
  cases call with
  | retrieveSession sessionId =>
      refine iff_of_true ?_ trivial
      show (layers.retrieveSession setting sessionId).1.metadataOf = layers.metadataOf
      unfold retrieveSession
      rcases layers.sessionAuthority sessionId with _ | ⟨session, _ | source⟩ <;> rfl
  | findRelatedFacts who factId depth =>
      exact metadataOf_findRelatedFacts_iff who factId depth layers
  | _ => exact iff_of_true rfl trivial

theorem MetadataQuiet.congr {layers layers' : ManagedLayers} {entry : CallSetting × InnerCall}
    (hsame : layers.contents = layers'.contents)
    (hmetadata : layers.metadataOf = layers'.metadataOf) (h : layers.MetadataQuiet entry) :
    layers'.MetadataQuiet entry := by
  obtain ⟨setting, call⟩ := entry
  cases call with
  | findRelatedFacts who factId depth =>
      unfold contents at hsame
      unfold metadataOf at hmetadata
      rw [Prod.mk.injEq] at hsame hmetadata
      refine ⟨h.1.congr hsame.1 hmetadata.1, fun hnone => ?_⟩
      refine (h.2 ?_).congr hsame.2 hmetadata.2
      rw [← hnone]
      unfold InMemoryMemory.findRelatedFacts
      rw [InMemoryMemory.retrieveFacts_congr hsame.1 who]
  | _ => exact trivial

end ManagedLayers

/-! ## The proxy -/

/-- The memories that a proxy stands before. -/
inductive BrainMemory where
  | inMemory (memory : InMemoryMemory)
  | managed (layers : ManagedLayers)

namespace BrainMemory

def inner (toLowercase : String → String) : InnerMemory BrainMemory := fun setting call state =>
  match state with
  | .inMemory memory =>
      let (memory, answer) := InMemoryMemory.inner toLowercase setting call memory
      (.inMemory memory, answer)
  | .managed layers =>
      let (layers, answer) := ManagedLayers.inner toLowercase setting call layers
      (.managed layers, answer)

def contents : BrainMemory → MemoryContents ⊕ (MemoryContents × MemoryContents)
  | inMemory memory => .inl memory.contents
  | managed layers => .inr layers.contents

def metadataOf : BrainMemory →
    (String → Option String) ⊕ ((String → Option String) × (String → Option String))
  | inMemory memory => .inl memory.metadataOf
  | managed layers => .inr layers.metadataOf

def Quiet : BrainMemory → CallSetting × InnerCall → Prop
  | inMemory memory, entry => memory.Quiet entry
  | managed layers, entry => layers.Quiet entry

def MetadataQuiet : BrainMemory → CallSetting × InnerCall → Prop
  | inMemory memory, entry => memory.MetadataQuiet entry
  | managed layers, entry => layers.MetadataQuiet entry

variable (toLowercase : String → String)

theorem quiets_contents : Frame.Quiets (InnerMemory.step (inner toLowercase)) contents Quiet where
  step_iff state entry := by
    cases state with
    | inMemory memory =>
        exact Sum.inl_injective.eq_iff.trans
          ((InMemoryMemory.quiets_contents toLowercase).step_iff memory entry)
    | managed layers =>
        exact Sum.inr_injective.eq_iff.trans
          ((ManagedLayers.quiets_contents toLowercase).step_iff layers entry)
  congr state state' entry hsame hquiet := by
    cases state with
    | inMemory memory =>
        cases state' with
        | inMemory memory' =>
            exact (InMemoryMemory.quiets_contents toLowercase).congr _ _ _
              (Sum.inl_injective hsame) hquiet
        | managed layers' => cases hsame
    | managed layers =>
        cases state' with
        | inMemory memory' => cases hsame
        | managed layers' =>
            exact (ManagedLayers.quiets_contents toLowercase).congr _ _ _
              (Sum.inr_injective hsame) hquiet

theorem metadataOf_step_iff (state : BrainMemory) (entry : CallSetting × InnerCall) :
    (InnerMemory.step (inner toLowercase) state entry).metadataOf = state.metadataOf ↔
      state.MetadataQuiet entry := by
  cases state with
  | inMemory memory =>
      exact Sum.inl_injective.eq_iff.trans
        (InMemoryMemory.metadataOf_step_iff toLowercase memory entry)
  | managed layers =>
      exact Sum.inr_injective.eq_iff.trans
        (ManagedLayers.metadataOf_step_iff toLowercase layers entry)

theorem MetadataQuiet.congr {state state' : BrainMemory} {entry : CallSetting × InnerCall}
    (hsame : state.contents = state'.contents) (hmetadata : state.metadataOf = state'.metadataOf)
    (h : state.MetadataQuiet entry) : state'.MetadataQuiet entry := by
  cases state with
  | inMemory memory =>
      cases state' with
      | inMemory memory' =>
          exact InMemoryMemory.MetadataQuiet.congr (Sum.inl_injective hsame)
            (Sum.inl_injective hmetadata) h
      | managed layers' => cases hsame
  | managed layers =>
      cases state' with
      | inMemory memory' => cases hsame
      | managed layers' =>
          exact ManagedLayers.MetadataQuiet.congr (Sum.inr_injective hsame)
            (Sum.inr_injective hmetadata) h

end BrainMemory

namespace ReadOnlyMemory

variable (toLowercase : String → String)

/-- Along the calls of a proxy, what the memory keeps is unchanged exactly when every review
asked for is settled before and every session asked of a manager needs no recovery. Its metadata
is unchanged as well exactly when the report of every traversal is there before. -/
theorem innerMemory_unchanged_iff (memory : BrainMemory) (calls : List (CallSetting × MemoryCall)) :
    (Frame.Unchanged (step (BrainMemory.inner toLowercase)) BrainMemory.contents memory calls ↔
      ∀ entry ∈ calls, AsksQuietly BrainMemory.Quiet memory entry) ∧
    (Frame.Unchanged (step (BrainMemory.inner toLowercase))
        (fun memory => (memory.contents, memory.metadataOf)) memory calls ↔
      ∀ entry ∈ calls,
        AsksQuietly (fun memory asked => memory.Quiet asked ∧ memory.MetadataQuiet asked)
          memory entry) := by
  have hcontents := BrainMemory.quiets_contents toLowercase
  have hboth := hcontents.prod (BrainMemory.metadataOf_step_iff toLowercase)
    fun _ _ _ hsame hmetadata => BrainMemory.MetadataQuiet.congr hsame hmetadata
  exact ⟨(quiets hcontents).unchanged_iff memory calls, (quiets hboth).unchanged_iff memory calls⟩

def reviewedFact : Fact :=
  { id := "f", category := "work", content := "the plan", importance := 1 / 2, createdAt := 0,
    updatedAt := 0, verified := true, source := none, confidence := 1, relations := [],
    semanticHash := none, status := .verified, protection := .normal }

def verifiedMemory : InMemoryMemory :=
  { InMemoryMemory.new with facts := Table.ofList [("u", [reviewedFact])] }

def callAt (now : DateTime) : CallSetting :=
  { hot := ⟨now, now⟩, engram := ⟨now, now⟩, recoveredAt := now, updatedAt := now, order := .same }

/-- The verified fact is pending again, and no longer verified. -/
theorem askedReview_writes :
    ¬Frame.Unchanged (step (BrainMemory.inner id)) BrainMemory.contents
      (.inMemory verifiedMemory) [(callAt 1, .requestFactReview "f" {})] := by
  intro hunchanged
  have hcontents := hunchanged _ (List.prefix_refl _)
  have hmemory : (verifiedMemory.requestFactReview ⟨1, 1⟩ "f" {}).contents =
      verifiedMemory.contents := Sum.inl_injective hcontents
  have hfacts := congrFun (congrArg MemoryContents.facts hmemory) "u"
  have hverified : some [false] = some [true] :=
    congrArg (Option.map (List.map Fact.verified)) hfacts
  cases hverified

end ReadOnlyMemory

end BenShu.Memory
