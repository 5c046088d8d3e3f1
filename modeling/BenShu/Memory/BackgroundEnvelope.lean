import BenShu.Memory.BackgroundText

/-!
# Budgets of the background envelope

Every text of an envelope has a cap on its characters and every list a cap on its items. A text
over its cap is cut there, and a mark stands behind the cut.
-/

namespace BenShu.Memory

/-! ## Layers -/

structure PersonaBackgroundLayer where
  identitySummary : Option String
  speakingStyle : Option String
  relationshipFrame : Option String
  safetyNotes : List String

structure RelationshipBackgroundLayer where
  userProfileSummary : Option String
  userPreferences : List String
  relationshipSummary : Option String
  longTermTopics : List String
  emotionalMarkers : List String

structure RecentWindowSummary where
  summary : String
  prunedMessageCount : Nat
  coveredMessageCount : Nat

structure BackgroundEvidenceRef where
  sourceKind : String
  sourceId : String

structure BackgroundEnvelope where
  personaLayer : Option PersonaBackgroundLayer := none
  relationshipLayer : Option RelationshipBackgroundLayer := none
  sessionLayer : Option SessionBackgroundState := none
  recentWindowSummary : Option RecentWindowSummary := none
  sourceRefs : List BackgroundEvidenceRef := []

/-! ## Caps -/

def PersonaBackgroundLayer.applyBudgetCaps (layer : PersonaBackgroundLayer) :
    PersonaBackgroundLayer where
  identitySummary := capOptionalText layer.identitySummary 240
  speakingStyle := capOptionalText layer.speakingStyle 160
  relationshipFrame := capOptionalText layer.relationshipFrame 200
  safetyNotes := capVecText (capVecLen layer.safetyNotes 4) 120

def RelationshipBackgroundLayer.applyBudgetCaps (layer : RelationshipBackgroundLayer) :
    RelationshipBackgroundLayer where
  userProfileSummary := capOptionalText layer.userProfileSummary 240
  relationshipSummary := capOptionalText layer.relationshipSummary 220
  userPreferences := capVecText (capVecLen layer.userPreferences 6) 120
  longTermTopics := capVecText (capVecLen layer.longTermTopics 4) 100
  emotionalMarkers := capVecText (capVecLen layer.emotionalMarkers 4) 80

def BackendContextRecord.applyBudgetCaps (record : BackendContextRecord) :
    BackendContextRecord :=
  { record with
    value := capText record.value 140
    source := capOptionalText record.source 120 }

def RetrievedMemoryObject.applyBudgetCaps (object : RetrievedMemoryObject) :
    RetrievedMemoryObject where
  recallSource := capText object.recallSource 80
  recallKind := capOptionalText object.recallKind 60
  collection := capOptionalText object.collection 80
  retrievalQuery := capOptionalText object.retrievalQuery 140
  recallSummary := capOptionalText object.recallSummary 160

def WebSessionObject.applyBudgetCaps (object : WebSessionObject) : WebSessionObject where
  url := capText object.url 140
  pageTitle := capOptionalText object.pageTitle 120
  taskGoal := capOptionalText object.taskGoal 140

def ArtifactSessionObject.applyBudgetCaps (object : ArtifactSessionObject) :
    ArtifactSessionObject where
  path := capText object.path 140
  collection := capOptionalText object.collection 80
  taskGoal := capOptionalText object.taskGoal 140

def TaskSessionObject.applyBudgetCaps (object : TaskSessionObject) : TaskSessionObject where
  state := capText object.state 100
  title := capOptionalText object.title 120
  goal := capOptionalText object.goal 140

def ToolSessionObject.applyBudgetCaps (object : ToolSessionObject) : ToolSessionObject where
  toolName := capText object.toolName 64
  resultSummary := capOptionalText object.resultSummary 160
  route := capOptionalText object.route 80
  sourceRef := capOptionalText object.sourceRef 140

def MultimodalSessionObject.applyBudgetCaps (object : MultimodalSessionObject) :
    MultimodalSessionObject where
  locator := capText object.locator 140
  route := capOptionalText object.route 80
  modality := capOptionalText object.modality 32
  collection := capOptionalText object.collection 80
  sourceUrl := capOptionalText object.sourceUrl 140
  title := capOptionalText object.title 120
  taskGoal := capOptionalText object.taskGoal 140

def SessionBackgroundState.applyBudgetCaps (state : SessionBackgroundState) :
    SessionBackgroundState :=
  let state := state.syncBackendContextStorage
  let state := { state with
    recentEmotionalState := capOptionalText state.recentEmotionalState 120
    workspaceFocus := capOptionalText state.workspaceFocus 160
    summary := capOptionalText state.summary 320
    activeTopics := capVecText (capVecLen state.activeTopics 5) 100
    backendContexts := capVecText (capVecLen state.backendContexts 8) 140
    backendContextRecords :=
      (capVecLen state.backendContextRecords 8).map BackendContextRecord.applyBudgetCaps
    retrievedMemoryObjects :=
      (capVecLen state.retrievedMemoryObjects 6).map RetrievedMemoryObject.applyBudgetCaps
    webSessionObjects :=
      (capVecLen state.webSessionObjects 6).map WebSessionObject.applyBudgetCaps
    artifactSessionObjects :=
      (capVecLen state.artifactSessionObjects 6).map ArtifactSessionObject.applyBudgetCaps
    taskSessionObjects :=
      (capVecLen state.taskSessionObjects 6).map TaskSessionObject.applyBudgetCaps
    toolSessionObjects :=
      (capVecLen state.toolSessionObjects 6).map ToolSessionObject.applyBudgetCaps
    multimodalSessionObjects :=
      (capVecLen state.multimodalSessionObjects 6).map MultimodalSessionObject.applyBudgetCaps
    openLoops := capVecText (capVecLen state.openLoops 5) 140
    ongoingGoals := capVecText (capVecLen state.ongoingGoals 4) 120
    pendingFollowups := capVecText (capVecLen state.pendingFollowups 5) 140 }
  state.applyCompressionSlotBudgetCaps

def RecentWindowSummary.applyBudgetCaps (window : RecentWindowSummary) : RecentWindowSummary :=
  { window with summary := capText window.summary 360 }

def BackgroundEnvelope.applyBudgetCaps (envelope : BackgroundEnvelope) : BackgroundEnvelope where
  personaLayer := envelope.personaLayer.map PersonaBackgroundLayer.applyBudgetCaps
  relationshipLayer := envelope.relationshipLayer.map RelationshipBackgroundLayer.applyBudgetCaps
  sessionLayer := envelope.sessionLayer.map SessionBackgroundState.applyBudgetCaps
  recentWindowSummary := envelope.recentWindowSummary.map RecentWindowSummary.applyBudgetCaps
  sourceRefs := capVecLen envelope.sourceRefs 8

/-! ## Within the caps -/

/-- A text within its cap, or cut there with the mark behind it. -/
def Within (maxChars : Nat) (text : String) : Prop :=
  Text.charCount text ≤ maxChars ∨
    ∃ front, Text.charCount front = maxChars ∧ text = front ++ "..."

def OptionWithin (maxChars : Nat) (value : Option String) : Prop :=
  ∀ text ∈ value, Within maxChars text

/-- At most so many items, each within its caps. -/
structure AllWithin {α : Type} (maxItems : Nat) (P : α → Prop) (items : List α) : Prop where
  count : items.length ≤ maxItems
  each : ∀ item ∈ items, P item

structure BackgroundCompressionSlots.WithinCaps (slots : BackgroundCompressionSlots) : Prop where
  currentTask : OptionWithin 180 slots.currentTask
  projectFacts : AllWithin 5 (Within 140) slots.projectFacts
  completedWork : AllWithin 5 (Within 140) slots.completedWork
  pendingWork : AllWithin 5 (Within 140) slots.pendingWork
  keyFiles : AllWithin 8 (Within 180) slots.keyFiles
  testResults : AllWithin 6 (Within 180) slots.testResults
  risks : AllWithin 4 (Within 140) slots.risks
  verificationNeeds : AllWithin 4 (Within 140) slots.verificationNeeds

structure PersonaBackgroundLayer.WithinCaps (layer : PersonaBackgroundLayer) : Prop where
  identitySummary : OptionWithin 240 layer.identitySummary
  speakingStyle : OptionWithin 160 layer.speakingStyle
  relationshipFrame : OptionWithin 200 layer.relationshipFrame
  safetyNotes : AllWithin 4 (Within 120) layer.safetyNotes

structure RelationshipBackgroundLayer.WithinCaps (layer : RelationshipBackgroundLayer) :
    Prop where
  userProfileSummary : OptionWithin 240 layer.userProfileSummary
  relationshipSummary : OptionWithin 220 layer.relationshipSummary
  userPreferences : AllWithin 6 (Within 120) layer.userPreferences
  longTermTopics : AllWithin 4 (Within 100) layer.longTermTopics
  emotionalMarkers : AllWithin 4 (Within 80) layer.emotionalMarkers

structure BackendContextRecord.WithinCaps (record : BackendContextRecord) : Prop where
  value : Within 140 record.value
  source : OptionWithin 120 record.source

structure RetrievedMemoryObject.WithinCaps (object : RetrievedMemoryObject) : Prop where
  recallSource : Within 80 object.recallSource
  recallKind : OptionWithin 60 object.recallKind
  collection : OptionWithin 80 object.collection
  retrievalQuery : OptionWithin 140 object.retrievalQuery
  recallSummary : OptionWithin 160 object.recallSummary

structure WebSessionObject.WithinCaps (object : WebSessionObject) : Prop where
  url : Within 140 object.url
  pageTitle : OptionWithin 120 object.pageTitle
  taskGoal : OptionWithin 140 object.taskGoal

structure ArtifactSessionObject.WithinCaps (object : ArtifactSessionObject) : Prop where
  path : Within 140 object.path
  collection : OptionWithin 80 object.collection
  taskGoal : OptionWithin 140 object.taskGoal

structure TaskSessionObject.WithinCaps (object : TaskSessionObject) : Prop where
  state : Within 100 object.state
  title : OptionWithin 120 object.title
  goal : OptionWithin 140 object.goal

structure ToolSessionObject.WithinCaps (object : ToolSessionObject) : Prop where
  toolName : Within 64 object.toolName
  resultSummary : OptionWithin 160 object.resultSummary
  route : OptionWithin 80 object.route
  sourceRef : OptionWithin 140 object.sourceRef

structure MultimodalSessionObject.WithinCaps (object : MultimodalSessionObject) : Prop where
  locator : Within 140 object.locator
  route : OptionWithin 80 object.route
  modality : OptionWithin 32 object.modality
  collection : OptionWithin 80 object.collection
  sourceUrl : OptionWithin 140 object.sourceUrl
  title : OptionWithin 120 object.title
  taskGoal : OptionWithin 140 object.taskGoal

/-- The fields of a session within their caps, and the slots that are read from its metadata. -/
structure SessionBackgroundState.WithinCaps (state : SessionBackgroundState) : Prop where
  recentEmotionalState : OptionWithin 120 state.recentEmotionalState
  workspaceFocus : OptionWithin 160 state.workspaceFocus
  summary : OptionWithin 320 state.summary
  activeTopics : AllWithin 5 (Within 100) state.activeTopics
  backendContexts : AllWithin 8 (Within 140) state.backendContexts
  backendContextRecords :
    AllWithin 8 BackendContextRecord.WithinCaps state.backendContextRecords
  retrievedMemoryObjects :
    AllWithin 6 RetrievedMemoryObject.WithinCaps state.retrievedMemoryObjects
  webSessionObjects : AllWithin 6 WebSessionObject.WithinCaps state.webSessionObjects
  artifactSessionObjects :
    AllWithin 6 ArtifactSessionObject.WithinCaps state.artifactSessionObjects
  taskSessionObjects : AllWithin 6 TaskSessionObject.WithinCaps state.taskSessionObjects
  toolSessionObjects : AllWithin 6 ToolSessionObject.WithinCaps state.toolSessionObjects
  multimodalSessionObjects :
    AllWithin 6 MultimodalSessionObject.WithinCaps state.multimodalSessionObjects
  openLoops : AllWithin 5 (Within 140) state.openLoops
  ongoingGoals : AllWithin 4 (Within 120) state.ongoingGoals
  pendingFollowups : AllWithin 5 (Within 140) state.pendingFollowups
  compressionSlots : state.compressionSlots.WithinCaps

structure BackgroundEnvelope.WithinCaps (envelope : BackgroundEnvelope) : Prop where
  personaLayer : ∀ layer ∈ envelope.personaLayer, layer.WithinCaps
  relationshipLayer : ∀ layer ∈ envelope.relationshipLayer, layer.WithinCaps
  sessionLayer : ∀ state ∈ envelope.sessionLayer, state.WithinCaps
  recentWindowSummary : ∀ window ∈ envelope.recentWindowSummary, Within 360 window.summary
  sourceRefs : envelope.sourceRefs.length ≤ 8

theorem within_capText (text : String) {maxChars : Nat} [NeZero maxChars] :
    Within maxChars (capText text maxChars) := by
  unfold capText previewText
  split
  · rename_i hshort
    exact .inl (hshort.resolve_left (NeZero.ne maxChars))
  · rename_i hlong
    refine .inr ⟨_, ?_, rfl⟩
    rw [Text.charCount, String.toList_ofList, List.length_take]
    unfold Text.charCount at hlong
    omega

theorem optionWithin_capOptionalText (value : Option String) {maxChars : Nat} [NeZero maxChars] :
    OptionWithin maxChars (capOptionalText value maxChars) := by
  intro text htext
  obtain ⟨hmem, -⟩ := Option.filter_eq_some_iff.mp htext
  obtain ⟨source, -, rfl⟩ := Option.map_eq_some_iff.mp hmem
  exact within_capText source

theorem allWithin_map {α : Type} {P : α → Prop} {f : α → α} (hf : ∀ item, P (f item))
    (items : List α) (maxItems : Nat) :
    AllWithin maxItems P ((capVecLen items maxItems).map f) := by
  refine ⟨?_, fun item hitem => ?_⟩
  · rw [List.length_map]
    exact RecentWindow.length_recent_le maxItems items
  · obtain ⟨source, -, rfl⟩ := List.mem_map.mp hitem
    exact hf source

theorem allWithin_capVecText (items : List String) (maxItems : Nat) {maxChars : Nat}
    [NeZero maxChars] :
    AllWithin maxItems (Within maxChars) (capVecText (capVecLen items maxItems) maxChars) :=
  allWithin_map (fun item => within_capText item) items maxItems

theorem BackgroundCompressionSlots.withinCaps (slots : BackgroundCompressionSlots) :
    slots.applyBudgetCaps.WithinCaps where
  currentTask := optionWithin_capOptionalText _
  projectFacts := allWithin_capVecText _ _
  completedWork := allWithin_capVecText _ _
  pendingWork := allWithin_capVecText _ _
  keyFiles := allWithin_capVecText _ _
  testResults := allWithin_capVecText _ _
  risks := allWithin_capVecText _ _
  verificationNeeds := allWithin_capVecText _ _

theorem PersonaBackgroundLayer.withinCaps (layer : PersonaBackgroundLayer) :
    layer.applyBudgetCaps.WithinCaps where
  identitySummary := optionWithin_capOptionalText _
  speakingStyle := optionWithin_capOptionalText _
  relationshipFrame := optionWithin_capOptionalText _
  safetyNotes := allWithin_capVecText _ _

theorem RelationshipBackgroundLayer.withinCaps (layer : RelationshipBackgroundLayer) :
    layer.applyBudgetCaps.WithinCaps where
  userProfileSummary := optionWithin_capOptionalText _
  relationshipSummary := optionWithin_capOptionalText _
  userPreferences := allWithin_capVecText _ _
  longTermTopics := allWithin_capVecText _ _
  emotionalMarkers := allWithin_capVecText _ _

/-! ## Slots that are read back -/

namespace SessionBackgroundState

theorem linesOf_cycleLines (maxItems maxChars : Nat) (stored : Option String) :
    linesOf (cycleLines maxItems maxChars stored) = capLines (linesOf stored) maxItems maxChars :=
  linesOf_lineText (line_of_mem_capLines fun _ hitem => line_of_mem_linesOf hitem)

theorem nonBlank_capOptionalText (value : Option String) (maxChars : Nat) :
    nonBlank (capOptionalText value maxChars) = capOptionalText value maxChars := by
  cases value with
  | none => simp [nonBlank, capOptionalText]
  | some text =>
      rw [capOptionalText_some]
      split
      · rfl
      · rename_i hne
        exact nonBlank_some (trimmed_capText text maxChars) hne

theorem nonBlank_cycleText (maxChars : Nat) (stored : Option String) :
    nonBlank (cycleText maxChars stored) = capOptionalText (nonBlank stored) maxChars := by
  have hkept := nonBlank_capOptionalText (nonBlank stored) maxChars
  exact (congrArg nonBlank hkept).trans hkept

theorem cycleSlot_slots :
    cycleSlot slotProjectFacts = cycleLines 5 140 ∧ cycleSlot slotCurrentTask = cycleText 180 ∧
      cycleSlot slotCompletedWork = cycleLines 5 140 ∧
      cycleSlot slotPendingWork = cycleLines 5 140 ∧ cycleSlot slotKeyFiles = cycleLines 8 180 ∧
      cycleSlot slotTestResults = cycleLines 6 180 ∧ cycleSlot slotRisks = cycleLines 4 140 ∧
      cycleSlot slotVerificationNeeds = cycleLines 4 140 := by
  simp [cycleSlot, slotProjectFacts, slotCurrentTask, slotCompletedWork, slotPendingWork,
    slotKeyFiles, slotTestResults, slotRisks, slotVerificationNeeds]

variable (state : SessionBackgroundState)

theorem metadataLines_capped {key : String} {maxItems maxChars : Nat}
    (hslot : cycleSlot key = cycleLines maxItems maxChars) :
    metadataLines state.applyCompressionSlotBudgetCaps.metadata key =
      capVecText (capVecLen (metadataLines state.metadata key) maxItems) maxChars := by
  have hread := linesOf_cycleLines maxItems maxChars (state.metadata.lookup key)
  rwa [← hslot, ← lookup_applyCompressionSlotBudgetCaps] at hread

theorem metadataOptionalText_capped {key : String} {maxChars : Nat}
    (hslot : cycleSlot key = cycleText maxChars) :
    metadataOptionalText state.applyCompressionSlotBudgetCaps.metadata key =
      capOptionalText (metadataOptionalText state.metadata key) maxChars := by
  have hread := nonBlank_cycleText maxChars (state.metadata.lookup key)
  rwa [← hslot, ← lookup_applyCompressionSlotBudgetCaps] at hread

theorem compressionSlots_capped :
    state.applyCompressionSlotBudgetCaps.compressionSlots =
      state.compressionSlots.applyBudgetCaps := by
  obtain ⟨hfacts, htask, hcompleted, hpending, hfiles, htests, hrisks, hneeds⟩ := cycleSlot_slots
  rw [compressionSlots, metadataLines_capped state hfacts, metadataOptionalText_capped state htask,
    metadataLines_capped state hcompleted, metadataLines_capped state hpending,
    metadataLines_capped state hfiles, metadataLines_capped state htests,
    metadataLines_capped state hrisks, metadataLines_capped state hneeds]
  rfl

end SessionBackgroundState

/-! ## Caps that are applied again -/

theorem capOptionalText_capOptionalText (value : Option String) (maxChars : Nat) :
    capOptionalText (capOptionalText value maxChars) maxChars = capOptionalText value maxChars := by
  cases value with
  | none => rfl
  | some text =>
      rw [capOptionalText_some]
      split
      · rfl
      · rename_i hne
        rw [capOptionalText_some, capText_capText, if_neg hne]

theorem capItems_twice {α : Type} {f : α → α} (hf : ∀ item, f (f item) = f item)
    (items : List α) (maxItems : Nat) :
    (capVecLen ((capVecLen items maxItems).map f) maxItems).map f =
      (capVecLen items maxItems).map f := by
  have hlength : ((capVecLen items maxItems).map f).length ≤ maxItems :=
    (allWithin_map (P := fun _ => True) (fun _ => trivial) items maxItems).count
  rw [capVecLen, RecentWindow.recent_of_length_le hlength, List.map_map]
  exact List.map_congr_left fun item _ => hf item

theorem capVecText_twice (items : List String) (maxItems maxChars : Nat) :
    capVecText (capVecLen (capVecText (capVecLen items maxItems) maxChars) maxItems) maxChars =
      capVecText (capVecLen items maxItems) maxChars :=
  capItems_twice (fun item => capText_capText item maxChars) items maxItems

theorem PersonaBackgroundLayer.applyBudgetCaps_twice (layer : PersonaBackgroundLayer) :
    layer.applyBudgetCaps.applyBudgetCaps = layer.applyBudgetCaps := by
  simp only [applyBudgetCaps, capOptionalText_capOptionalText, capVecText_twice]

theorem RelationshipBackgroundLayer.applyBudgetCaps_twice (layer : RelationshipBackgroundLayer) :
    layer.applyBudgetCaps.applyBudgetCaps = layer.applyBudgetCaps := by
  simp only [applyBudgetCaps, capOptionalText_capOptionalText, capVecText_twice]

theorem BackendContextRecord.applyBudgetCaps_twice (record : BackendContextRecord) :
    record.applyBudgetCaps.applyBudgetCaps = record.applyBudgetCaps := by
  simp only [applyBudgetCaps, capOptionalText_capOptionalText, capText_capText]

theorem RetrievedMemoryObject.applyBudgetCaps_twice (object : RetrievedMemoryObject) :
    object.applyBudgetCaps.applyBudgetCaps = object.applyBudgetCaps := by
  simp only [applyBudgetCaps, capOptionalText_capOptionalText, capText_capText]

theorem WebSessionObject.applyBudgetCaps_twice (object : WebSessionObject) :
    object.applyBudgetCaps.applyBudgetCaps = object.applyBudgetCaps := by
  simp only [applyBudgetCaps, capOptionalText_capOptionalText, capText_capText]

theorem ArtifactSessionObject.applyBudgetCaps_twice (object : ArtifactSessionObject) :
    object.applyBudgetCaps.applyBudgetCaps = object.applyBudgetCaps := by
  simp only [applyBudgetCaps, capOptionalText_capOptionalText, capText_capText]

theorem TaskSessionObject.applyBudgetCaps_twice (object : TaskSessionObject) :
    object.applyBudgetCaps.applyBudgetCaps = object.applyBudgetCaps := by
  simp only [applyBudgetCaps, capOptionalText_capOptionalText, capText_capText]

theorem ToolSessionObject.applyBudgetCaps_twice (object : ToolSessionObject) :
    object.applyBudgetCaps.applyBudgetCaps = object.applyBudgetCaps := by
  simp only [applyBudgetCaps, capOptionalText_capOptionalText, capText_capText]

theorem MultimodalSessionObject.applyBudgetCaps_twice (object : MultimodalSessionObject) :
    object.applyBudgetCaps.applyBudgetCaps = object.applyBudgetCaps := by
  simp only [applyBudgetCaps, capOptionalText_capOptionalText, capText_capText]

theorem RecentWindowSummary.applyBudgetCaps_twice (window : RecentWindowSummary) :
    window.applyBudgetCaps.applyBudgetCaps = window.applyBudgetCaps := by
  simp only [applyBudgetCaps, capText_capText]

/-! ## Contexts that are capped again -/

namespace BackendContextRecord

variable (record : BackendContextRecord)

def Solid : Prop := Text.trim record.value ≠ ""

instance : Decidable record.Solid := inferInstanceAs (Decidable (Text.trim record.value ≠ ""))

theorem solid_applyBudgetCaps : record.applyBudgetCaps.Solid ↔ record.Solid := by
  have htrim := (trimmed_capText record.value 140).trim_eq
  unfold Solid applyBudgetCaps
  rw [htrim]
  rcases previewText_cases (Text.trim record.value) 140 with heq | ⟨-, hlong, htext⟩
  · rw [capText, heq]
  · refine iff_of_true (fun hempty => ?_) (fun hempty => ?_)
    · rw [capText] at hempty
      rw [hempty] at htext
      simp at htext
    · rw [hempty] at hlong
      simp at hlong

theorem toList_previewText {text : String} {maxChars : Nat} (hpos : 0 < maxChars)
    (hlong : maxChars < text.toList.length) :
    (previewText text maxChars).toList = text.toList.take maxChars ++ ['.', '.', '.'] := by
  have hcut : ¬(maxChars = 0 ∨ Text.charCount text ≤ maxChars) :=
    not_or.mpr ⟨Nat.pos_iff_ne_zero.mp hpos, Nat.not_le_of_lt hlong⟩
  rw [previewText, if_neg hcut, String.toList_append, String.toList_ofList]
  rfl

theorem previewText_append (front text : String) {maxChars : Nat} (hpos : 0 < maxChars) :
    previewText (front ++ previewText text maxChars) maxChars =
      previewText (front ++ text) maxChars := by
  rcases Nat.lt_or_ge maxChars text.toList.length with hlong | hshort
  · have hfront := toList_previewText hpos hlong
    have happend : ∀ rest : String, maxChars < rest.toList.length →
        (previewText (front ++ rest) maxChars).toList =
          (front.toList ++ rest.toList).take maxChars ++ ['.', '.', '.'] := by
      intro rest hrest
      rw [← String.toList_append]
      refine toList_previewText hpos ?_
      rw [String.toList_append, List.length_append]
      omega
    have hlength : (text.toList.take maxChars).length = maxChars := by
      rw [List.length_take]
      omega
    apply String.toList_injective
    rw [happend _ hlong, happend, hfront, List.take_append, @List.take_append _ front.toList,
      List.take_append_of_le_length, List.take_take, Nat.min_eq_left (Nat.sub_le _ _)]
    · omega
    · rw [hfront, List.length_append, hlength, List.length_cons]
      omega
  · have hkept : previewText text maxChars = text := if_pos (.inr hshort)
    rw [hkept]

@[simp] theorem applyBudgetCaps_kind : record.applyBudgetCaps.kind = record.kind := by
  simp only [applyBudgetCaps]

@[simp] theorem applyBudgetCaps_value :
    record.applyBudgetCaps.value = capText record.value 140 := by
  simp only [applyBudgetCaps]

theorem capText_render_applyBudgetCaps :
    capText record.applyBudgetCaps.render 140 = capText record.render 140 := by
  have htrim := (trimmed_capText record.value 140).trim_eq
  have hkind' := applyBudgetCaps_kind record
  cases hkind : record.kind with
  | none =>
      rw [render_plain record hkind, render_plain _ (hkind'.trans hkind), applyBudgetCaps_value,
        htrim, capText_capText, capText, capText, Text.trim_trim]
  | some kind =>
      by_cases hsolid : record.Solid
      · have hcapped := (solid_applyBudgetCaps record).mpr hsolid
        rw [capText, capText, (trimmed_render _).trim_eq, (trimmed_render _).trim_eq,
          render_kind record hkind hsolid, render_kind _ (hkind'.trans hkind) hcapped,
          applyBudgetCaps_value, htrim]
        exact previewText_append _ _ (by decide)
      · have hcapped := (solid_applyBudgetCaps record).not.mpr hsolid
        rw [render_blank _ (not_not.mp hsolid), render_blank _ (not_not.mp hcapped)]

end BackendContextRecord

namespace SessionBackgroundState

open BackendContextRecord

variable (state : SessionBackgroundState)

/-- No record without a value is kept, or none with a value is left out. -/
def ContextsSettled : Prop :=
  let records := state.canonicalBackendContextRecords
  (∀ record ∈ RecentWindow.recent 8 records, record.Solid) ∨
    ∀ record ∈ records.take (records.length - 8), ¬record.Solid

theorem records_capped :
    state.applyBudgetCaps.backendContextRecords =
      (RecentWindow.recent 8 state.canonicalBackendContextRecords).map
        BackendContextRecord.applyBudgetCaps := by
  simp only [applyBudgetCaps, applyCompressionSlotBudgetCaps, setCompressionSlots,
    syncBackendContextStorage, capVecLen]

theorem contexts_capped :
    state.applyBudgetCaps.backendContexts =
      (RecentWindow.recent 8 (state.canonicalBackendContextRecords.filter (·.Solid))).map
        fun record => capText record.render 140 := by
  have hsolid : ((fun value : String => !value.isEmpty) ∘ render) =
      fun record => decide record.Solid := by
    funext record
    have hempty := (render_eq_empty_iff record).not
    rw [Bool.eq_iff_iff, decide_eq_true_iff]
    simpa [Solid] using hempty
  simp only [applyBudgetCaps, applyCompressionSlotBudgetCaps, setCompressionSlots,
    syncBackendContextStorage, capVecText, capVecLen, List.filter_map, hsolid,
    RecentWindow.recent_map, List.map_map]
  rw [Function.comp_def]

theorem canonical_applyBudgetCaps :
    state.applyBudgetCaps.canonicalBackendContextRecords =
      state.applyBudgetCaps.backendContextRecords := by
  unfold canonicalBackendContextRecords
  split
  · rfl
  · rename_i hempty
    have hrecords : state.applyBudgetCaps.backendContextRecords = [] := by simpa using hempty
    have hnone : state.canonicalBackendContextRecords = [] := by
      rw [records_capped, List.map_eq_nil_iff, RecentWindow.recent_eq_nil_iff] at hrecords
      exact hrecords.resolve_left (by decide)
    rw [hrecords, contexts_capped, hnone]
    simp

theorem contexts_capped_twice :
    state.applyBudgetCaps.applyBudgetCaps.backendContexts =
      ((RecentWindow.recent 8 state.canonicalBackendContextRecords).filter (·.Solid)).map
        fun record => capText record.render 140 := by
  have hsolid : ((fun record : BackendContextRecord => decide record.Solid) ∘
      BackendContextRecord.applyBudgetCaps) = fun record => decide record.Solid := by
    funext record
    simp only [Function.comp_apply, solid_applyBudgetCaps]
  have hlength : ((RecentWindow.recent 8 state.canonicalBackendContextRecords).filter
      (·.Solid)).length ≤ 8 := by
    exact Nat.le_trans (List.length_filter_le _ _) (RecentWindow.length_recent_le 8 _)
  rw [contexts_capped, canonical_applyBudgetCaps, records_capped, List.filter_map, hsolid,
    RecentWindow.recent_map, RecentWindow.recent_of_length_le hlength, List.map_map]
  simp only [Function.comp_def, capText_render_applyBudgetCaps]

theorem contexts_settled_iff :
    state.applyBudgetCaps.applyBudgetCaps.backendContexts =
        state.applyBudgetCaps.backendContexts ↔ state.ContextsSettled := by
  rw [contexts_capped_twice, contexts_capped, RecentWindow.map_filter_recent_iff,
    RecentWindow.filter_recent_iff]
  simp [ContextsSettled]

def Same (state state' : SessionBackgroundState) : Prop :=
  state' = { state with metadata := state'.metadata } ∧
    ∀ key, state'.metadata.lookup key = state.metadata.lookup key

/-- Beside the contexts only the order of the metadata can be another one. -/
theorem applyBudgetCaps_twice :
    state.applyBudgetCaps.applyBudgetCaps =
      { state.applyBudgetCaps with
        backendContexts := state.applyBudgetCaps.applyBudgetCaps.backendContexts
        metadata := state.applyBudgetCaps.applyBudgetCaps.metadata } := by
  have hrecords : state.applyBudgetCaps.applyBudgetCaps.backendContextRecords =
      state.applyBudgetCaps.backendContextRecords := by
    rw [records_capped, canonical_applyBudgetCaps, records_capped]
    exact capItems_twice BackendContextRecord.applyBudgetCaps_twice _ 8
  apply SessionBackgroundState.ext
  case backendContextRecords => exact hrecords
  case backendContexts => dsimp only
  case metadata => dsimp only
  all_goals
    simp only [applyBudgetCaps, applyCompressionSlotBudgetCaps, setCompressionSlots,
      syncBackendContextStorage, capOptionalText_capOptionalText, capVecText_twice,
      capItems_twice RetrievedMemoryObject.applyBudgetCaps_twice,
      capItems_twice WebSessionObject.applyBudgetCaps_twice,
      capItems_twice ArtifactSessionObject.applyBudgetCaps_twice,
      capItems_twice TaskSessionObject.applyBudgetCaps_twice,
      capItems_twice ToolSessionObject.applyBudgetCaps_twice,
      capItems_twice MultimodalSessionObject.applyBudgetCaps_twice]

theorem metadata_capped :
    state.applyBudgetCaps.metadata = state.applyCompressionSlotBudgetCaps.metadata := by
  simp only [applyBudgetCaps, applyCompressionSlotBudgetCaps, setCompressionSlots,
    compressionSlots, syncBackendContextStorage]

theorem same_twice_iff :
    state.applyBudgetCaps.Same state.applyBudgetCaps.applyBudgetCaps ↔ state.ContextsSettled := by
  rw [← contexts_settled_iff]
  constructor
  · intro h
    rw [h.1]
  · intro h
    refine ⟨?_, fun key => ?_⟩
    · rw [applyBudgetCaps_twice, h]
    · rw [metadata_capped, lookup_applyCompressionSlotBudgetCaps, metadata_capped,
        lookup_applyCompressionSlotBudgetCaps, cycleSlot_cycleSlot]

end SessionBackgroundState

/-! ## Every layer within its caps -/

theorem BackendContextRecord.withinCaps (record : BackendContextRecord) :
    record.applyBudgetCaps.WithinCaps := by
  constructor
  all_goals simp only [applyBudgetCaps]
  · exact within_capText _
  · exact optionWithin_capOptionalText _

theorem RetrievedMemoryObject.withinCaps (object : RetrievedMemoryObject) :
    object.applyBudgetCaps.WithinCaps := by
  constructor
  all_goals simp only [applyBudgetCaps]
  · exact within_capText _
  · exact optionWithin_capOptionalText _
  · exact optionWithin_capOptionalText _
  · exact optionWithin_capOptionalText _
  · exact optionWithin_capOptionalText _

theorem WebSessionObject.withinCaps (object : WebSessionObject) :
    object.applyBudgetCaps.WithinCaps := by
  constructor
  all_goals simp only [applyBudgetCaps]
  · exact within_capText _
  · exact optionWithin_capOptionalText _
  · exact optionWithin_capOptionalText _

theorem ArtifactSessionObject.withinCaps (object : ArtifactSessionObject) :
    object.applyBudgetCaps.WithinCaps := by
  constructor
  all_goals simp only [applyBudgetCaps]
  · exact within_capText _
  · exact optionWithin_capOptionalText _
  · exact optionWithin_capOptionalText _

theorem TaskSessionObject.withinCaps (object : TaskSessionObject) :
    object.applyBudgetCaps.WithinCaps := by
  constructor
  all_goals simp only [applyBudgetCaps]
  · exact within_capText _
  · exact optionWithin_capOptionalText _
  · exact optionWithin_capOptionalText _

theorem ToolSessionObject.withinCaps (object : ToolSessionObject) :
    object.applyBudgetCaps.WithinCaps := by
  constructor
  all_goals simp only [applyBudgetCaps]
  · exact within_capText _
  · exact optionWithin_capOptionalText _
  · exact optionWithin_capOptionalText _
  · exact optionWithin_capOptionalText _

theorem MultimodalSessionObject.withinCaps (object : MultimodalSessionObject) :
    object.applyBudgetCaps.WithinCaps := by
  constructor
  all_goals simp only [applyBudgetCaps]
  · exact within_capText _
  · exact optionWithin_capOptionalText _
  · exact optionWithin_capOptionalText _
  · exact optionWithin_capOptionalText _
  · exact optionWithin_capOptionalText _
  · exact optionWithin_capOptionalText _
  · exact optionWithin_capOptionalText _

theorem RecentWindowSummary.within_summary (window : RecentWindowSummary) :
    Within 360 window.applyBudgetCaps.summary := by
  simp only [applyBudgetCaps]
  exact within_capText _

namespace SessionBackgroundState

theorem compressionSlots_applyBudgetCaps (state : SessionBackgroundState) :
    state.applyBudgetCaps.compressionSlots = state.compressionSlots.applyBudgetCaps := by
  rw [← compressionSlots_capped]
  simp only [compressionSlots, metadata_capped]

theorem contexts_within (state : SessionBackgroundState) :
    AllWithin 8 (Within 140) state.applyBudgetCaps.backendContexts := by
  rw [contexts_capped]
  refine ⟨?_, fun text htext => ?_⟩
  · rw [List.length_map]
    exact RecentWindow.length_recent_le 8 _
  · obtain ⟨record, -, rfl⟩ := List.mem_map.mp htext
    exact within_capText _

theorem withinCaps (state : SessionBackgroundState) : state.applyBudgetCaps.WithinCaps := by
  constructor
  case backendContexts => exact contexts_within state
  case compressionSlots =>
    rw [compressionSlots_applyBudgetCaps]
    exact state.compressionSlots.withinCaps
  all_goals
    simp only [applyBudgetCaps, applyCompressionSlotBudgetCaps, setCompressionSlots,
      syncBackendContextStorage]
  case backendContextRecords => exact allWithin_map BackendContextRecord.withinCaps _ _
  case retrievedMemoryObjects => exact allWithin_map RetrievedMemoryObject.withinCaps _ _
  case webSessionObjects => exact allWithin_map WebSessionObject.withinCaps _ _
  case artifactSessionObjects => exact allWithin_map ArtifactSessionObject.withinCaps _ _
  case taskSessionObjects => exact allWithin_map TaskSessionObject.withinCaps _ _
  case toolSessionObjects => exact allWithin_map ToolSessionObject.withinCaps _ _
  case multimodalSessionObjects => exact allWithin_map MultimodalSessionObject.withinCaps _ _
  case recentEmotionalState => exact optionWithin_capOptionalText _
  case workspaceFocus => exact optionWithin_capOptionalText _
  case summary => exact optionWithin_capOptionalText _
  all_goals exact allWithin_capVecText _ _

end SessionBackgroundState

namespace BackgroundEnvelope

variable (envelope : BackgroundEnvelope)

theorem withinCaps : envelope.applyBudgetCaps.WithinCaps := by
  unfold applyBudgetCaps
  constructor
  · simpa using fun layer _ => layer.withinCaps
  · simpa using fun layer _ => layer.withinCaps
  · simpa using fun state _ => state.withinCaps
  · simpa using fun window _ => window.within_summary
  · simpa [capVecLen] using RecentWindow.length_recent_le 8 envelope.sourceRefs

/-- The same layers, up to the order of the metadata of the session. -/
def Same (envelope envelope' : BackgroundEnvelope) : Prop :=
  envelope' = { envelope with sessionLayer := envelope'.sessionLayer } ∧
    Option.Rel SessionBackgroundState.Same envelope.sessionLayer envelope'.sessionLayer

theorem applyBudgetCaps_twice :
    envelope.applyBudgetCaps.applyBudgetCaps =
      { envelope.applyBudgetCaps with
        sessionLayer := envelope.applyBudgetCaps.applyBudgetCaps.sessionLayer } := by
  have hrefs : (RecentWindow.recent 8 envelope.sourceRefs).length ≤ 8 :=
    RecentWindow.length_recent_le 8 _
  simp only [applyBudgetCaps, Option.map_map, Function.comp_def,
    PersonaBackgroundLayer.applyBudgetCaps_twice,
    RelationshipBackgroundLayer.applyBudgetCaps_twice, RecentWindowSummary.applyBudgetCaps_twice,
    capVecLen, RecentWindow.recent_of_length_le hrefs]

theorem same_twice_iff :
    envelope.applyBudgetCaps.Same envelope.applyBudgetCaps.applyBudgetCaps ↔
      ∀ state ∈ envelope.sessionLayer, state.ContextsSettled := by
  have hsession : envelope.applyBudgetCaps.sessionLayer =
      envelope.sessionLayer.map SessionBackgroundState.applyBudgetCaps := rfl
  have hsession' : envelope.applyBudgetCaps.applyBudgetCaps.sessionLayer =
      envelope.applyBudgetCaps.sessionLayer.map SessionBackgroundState.applyBudgetCaps := rfl
  rw [Same, and_iff_right (applyBudgetCaps_twice envelope), hsession', hsession]
  cases envelope.sessionLayer with
  | none => simp
  | some state =>
      simp only [Option.map_some, Option.mem_some_iff, forall_eq']
      rw [← SessionBackgroundState.same_twice_iff]
      exact ⟨fun h => by cases h; assumption, .some⟩

/-- The caps hold, up to the mark behind a cut, and the slots that are read back are within
theirs. Applied again, they change nothing exactly when the contexts are settled. -/
theorem applyBudgetCaps_spec :
    envelope.applyBudgetCaps.WithinCaps ∧
      (∀ state ∈ envelope.sessionLayer,
        state.applyBudgetCaps.compressionSlots = state.compressionSlots.applyBudgetCaps) ∧
      (envelope.applyBudgetCaps.Same envelope.applyBudgetCaps.applyBudgetCaps ↔
        ∀ state ∈ envelope.sessionLayer, state.ContextsSettled) :=
  ⟨withinCaps envelope, fun state _ => state.compressionSlots_applyBudgetCaps,
    same_twice_iff envelope⟩

/-- A modality of 33 characters. -/
def longModality : BackgroundEnvelope where
  sessionLayer := some
    { multimodalSessionObjects :=
        [{ locator := "a"
           route := none
           modality := some "aaaaaaaaaaaaaaaaaaaaaaaaaaaaaaaaa"
           collection := none
           sourceUrl := none
           title := none
           taskGoal := none }] }

/-- Eight records with a value, and one without behind them. -/
def blankLast : BackgroundEnvelope where
  sessionLayer := some
    { backendContextRecords :=
        List.replicate 8 { kind := none, value := "a", source := none } ++
          [{ kind := none, value := "", source := none }] }

/-- The mark stands behind the cut, and a record without a value takes the place of a context. -/
theorem applyBudgetCaps_overruns :
    (longModality.applyBudgetCaps.sessionLayer.map fun state =>
        state.multimodalSessionObjects.map fun object => object.modality.map Text.charCount) =
        some [some 35] ∧
      (blankLast.applyBudgetCaps.sessionLayer.map fun state =>
        state.backendContexts.length) = some 8 ∧
      (blankLast.applyBudgetCaps.applyBudgetCaps.sessionLayer.map fun state =>
        state.backendContexts.length) = some 7 := by
  decide +kernel

end BackgroundEnvelope

end BenShu.Memory
