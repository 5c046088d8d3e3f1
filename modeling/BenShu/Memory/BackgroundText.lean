import BenShu.Lib.Lines
import BenShu.Lib.RecentWindow
import BenShu.Lib.Table

/-!
# Background memory as text

A context of the session is a value with a kind, and it is kept as a text that begins with the
label of the kind. The compression slots are kept as the lines of metadata entries.
-/

namespace BenShu.Memory

/-! ## Contexts -/

inductive BackendContextKind where
  | artifact
  | collection
  | web
  | toolResult
  | route
  | multimodal
  | multimodalRoute
  | taskState
  | memoryRecall
  deriving DecidableEq

namespace BackendContextKind

def asLabel : BackendContextKind → String
  | .artifact => "Artifact context"
  | .collection => "Collection context"
  | .web => "Web context"
  | .toolResult => "Tool result"
  | .route => "Route context"
  | .multimodal => "Multimodal context"
  | .multimodalRoute => "Multimodal route"
  | .taskState => "Task state"
  | .memoryRecall => "Memory recall"

end BackendContextKind

structure BackendContextRecord where
  kind : Option BackendContextKind
  value : String
  source : Option String
  deriving DecidableEq

def legacyPrefixes : List (String × BackendContextKind) :=
  [("Artifact context: ", .artifact),
    ("Collection context: ", .collection),
    ("Web context: ", .web),
    ("Tool result: ", .toolResult),
    ("Route context: ", .route),
    ("Multimodal context: ", .multimodal),
    ("Multimodal route: ", .multimodalRoute),
    ("Task state: ", .taskState),
    ("Memory recall: ", .memoryRecall)]

namespace BackendContextRecord

def render (record : BackendContextRecord) : String :=
  let value := Text.trim record.value
  if value.isEmpty then ""
  else match record.kind with
    | some kind => kind.asLabel ++ ": " ++ value
    | none => value

def fromLegacyText (value : String) : BackendContextRecord :=
  let labelled? := legacyPrefixes.findSome? fun entry =>
    (Text.afterStart? value entry.1).map fun rest =>
      { kind := some entry.2, value := Text.trim rest, source := none }
  labelled?.getD { kind := none, value := Text.trim value, source := none }

end BackendContextRecord

/-! ## Compression slots -/

structure BackgroundCompressionSlots where
  projectFacts : List String
  currentTask : Option String
  completedWork : List String
  pendingWork : List String
  keyFiles : List String
  testResults : List String
  risks : List String
  verificationNeeds : List String
  deriving DecidableEq

def slotProjectFacts : String := "background_slot.project_facts"

def slotCurrentTask : String := "background_slot.current_task"

def slotCompletedWork : String := "background_slot.completed_work"

def slotPendingWork : String := "background_slot.pending_work"

def slotKeyFiles : String := "background_slot.key_files"

def slotTestResults : String := "background_slot.test_results"

def slotRisks : String := "background_slot.risks"

def slotVerificationNeeds : String := "background_slot.verification_needs"

def previewText (input : String) (maxChars : Nat) : String :=
  if maxChars = 0 ∨ Text.charCount input ≤ maxChars then input
  else .ofList (input.toList.take maxChars) ++ "..."

def capText (text : String) (maxChars : Nat) : String := previewText (Text.trim text) maxChars

def capOptionalText (value : Option String) (maxChars : Nat) : Option String :=
  (value.map (capText · maxChars)).filter fun text => !(Text.trim text).isEmpty

def capVecLen {α : Type} (items : List α) (maxItems : Nat) : List α :=
  RecentWindow.recent maxItems items

def capVecText (items : List String) (maxChars : Nat) : List String :=
  items.map (capText · maxChars)

def BackgroundCompressionSlots.applyBudgetCaps (slots : BackgroundCompressionSlots) :
    BackgroundCompressionSlots where
  currentTask := capOptionalText slots.currentTask 180
  projectFacts := capVecText (capVecLen slots.projectFacts 5) 140
  completedWork := capVecText (capVecLen slots.completedWork 5) 140
  pendingWork := capVecText (capVecLen slots.pendingWork 5) 140
  keyFiles := capVecText (capVecLen slots.keyFiles 8) 180
  testResults := capVecText (capVecLen slots.testResults 6) 180
  risks := capVecText (capVecLen slots.risks 4) 140
  verificationNeeds := capVecText (capVecLen slots.verificationNeeds 4) 140

abbrev Metadata := Table String String

def metadataLines (metadata : Metadata) (key : String) : List String :=
  ((metadata.lookup key).map fun value =>
    ((Text.lines value).map Text.trim).filter fun line => !line.isEmpty).getD []

def metadataOptionalText (metadata : Metadata) (key : String) : Option String :=
  ((metadata.lookup key).map Text.trim).filter fun value => !value.isEmpty

def setMetadataLines (metadata : Metadata) (key : String) (values : List String) : Metadata :=
  let value := "\n".intercalate ((values.map Text.trim).filter fun value => !value.isEmpty)
  if value.isEmpty then metadata.erase key else metadata.insert key value

def setMetadataOptionalText (metadata : Metadata) (key : String) (value : Option String) :
    Metadata :=
  match (value.map Text.trim).filter fun value => !value.isEmpty with
  | none => metadata.erase key
  | some value => metadata.insert key value

structure RetrievedMemoryObject where
  recallSource : String
  recallKind : Option String
  collection : Option String
  retrievalQuery : Option String
  recallSummary : Option String

structure WebSessionObject where
  url : String
  pageTitle : Option String
  taskGoal : Option String

structure ArtifactSessionObject where
  path : String
  collection : Option String
  taskGoal : Option String

structure TaskSessionObject where
  state : String
  title : Option String
  goal : Option String

structure ToolSessionObject where
  toolName : String
  resultSummary : Option String
  route : Option String
  sourceRef : Option String

structure MultimodalSessionObject where
  locator : String
  route : Option String
  modality : Option String
  collection : Option String
  sourceUrl : Option String
  title : Option String
  taskGoal : Option String

/-- What is known of a session. Its contexts are kept as texts and as records. -/
@[ext]
structure SessionBackgroundState where
  activeTopics : List String := []
  backendContexts : List String := []
  backendContextRecords : List BackendContextRecord := []
  retrievedMemoryObjects : List RetrievedMemoryObject := []
  webSessionObjects : List WebSessionObject := []
  artifactSessionObjects : List ArtifactSessionObject := []
  taskSessionObjects : List TaskSessionObject := []
  toolSessionObjects : List ToolSessionObject := []
  multimodalSessionObjects : List MultimodalSessionObject := []
  openLoops : List String := []
  recentEmotionalState : Option String := none
  ongoingGoals : List String := []
  workspaceFocus : Option String := none
  pendingFollowups : List String := []
  summary : Option String := none
  metadata : Metadata := ∅

namespace SessionBackgroundState

def compressionSlots (state : SessionBackgroundState) : BackgroundCompressionSlots where
  projectFacts := metadataLines state.metadata slotProjectFacts
  currentTask := metadataOptionalText state.metadata slotCurrentTask
  completedWork := metadataLines state.metadata slotCompletedWork
  pendingWork := metadataLines state.metadata slotPendingWork
  keyFiles := metadataLines state.metadata slotKeyFiles
  testResults := metadataLines state.metadata slotTestResults
  risks := metadataLines state.metadata slotRisks
  verificationNeeds := metadataLines state.metadata slotVerificationNeeds

def setCompressionSlots (state : SessionBackgroundState) (slots : BackgroundCompressionSlots) :
    SessionBackgroundState :=
  let slots := slots.applyBudgetCaps
  let metadata := setMetadataLines state.metadata slotProjectFacts slots.projectFacts
  let metadata := setMetadataOptionalText metadata slotCurrentTask slots.currentTask
  let metadata := setMetadataLines metadata slotCompletedWork slots.completedWork
  let metadata := setMetadataLines metadata slotPendingWork slots.pendingWork
  let metadata := setMetadataLines metadata slotKeyFiles slots.keyFiles
  let metadata := setMetadataLines metadata slotTestResults slots.testResults
  let metadata := setMetadataLines metadata slotRisks slots.risks
  let metadata := setMetadataLines metadata slotVerificationNeeds slots.verificationNeeds
  { state with metadata }

def applyCompressionSlotBudgetCaps (state : SessionBackgroundState) : SessionBackgroundState :=
  state.setCompressionSlots state.compressionSlots

def canonicalBackendContextRecords (state : SessionBackgroundState) :
    List BackendContextRecord :=
  if !state.backendContextRecords.isEmpty then state.backendContextRecords
  else (state.backendContexts.map .fromLegacyText).filter fun record =>
    !(Text.trim record.value).isEmpty

def syncBackendContextStorage (state : SessionBackgroundState) : SessionBackgroundState :=
  let records := state.canonicalBackendContextRecords
  { state with
    backendContextRecords := records
    backendContexts :=
      (records.map BackendContextRecord.render).filter fun value => !value.isEmpty }

end SessionBackgroundState

/-! ## Labels -/

def kinds : List BackendContextKind :=
  [.artifact, .collection, .web, .toolResult, .route, .multimodal, .multimodalRoute, .taskState,
    .memoryRecall]

theorem mem_kinds (kind : BackendContextKind) : kind ∈ kinds := by cases kind <;> decide

theorem legacyPrefixes_eq :
    legacyPrefixes = kinds.map fun kind => (kind.asLabel ++ ": ", kind) := by
  decide +kernel

theorem labels_apart : ∀ kind ∈ kinds, ∀ other ∈ kinds,
    (kind.asLabel ++ ": ").toList <+: (other.asLabel ++ ": ").toList → kind = other := by
  decide +kernel

theorem label_inj {kind other : BackendContextKind} {rest rest' : String}
    (h : kind.asLabel ++ ": " ++ rest = other.asLabel ++ ": " ++ rest') :
    kind = other ∧ rest = rest' := by
  have hlist := congrArg String.toList h
  rw [String.toList_append, String.toList_append (t := rest')] at hlist
  have hkind : kind = other := by
    have hleft : (kind.asLabel ++ ": ").toList <+:
        (other.asLabel ++ ": ").toList ++ rest'.toList := ⟨_, hlist⟩
    rcases List.prefix_or_prefix_of_prefix hleft (List.prefix_append _ _) with hle | hle
    · exact labels_apart kind (mem_kinds _) other (mem_kinds _) hle
    · exact (labels_apart other (mem_kinds _) kind (mem_kinds _) hle).symm
  subst hkind
  exact ⟨rfl, String.toList_injective (List.append_cancel_left hlist)⟩

theorem label_ne_empty (kind : BackendContextKind) (rest : String) :
    kind.asLabel ++ ": " ++ rest ≠ "" := by
  intro h
  have hlength := congrArg String.length h
  have hcolon : ": ".length = 2 := rfl
  rw [String.length_append, String.length_append, hcolon, String.length_empty] at hlength
  omega

namespace BackendContextRecord

theorem fromLegacyText_label (kind : BackendContextKind) (rest : String) :
    fromLegacyText (kind.asLabel ++ ": " ++ rest) =
      { kind := some kind, value := Text.trim rest, source := none } := by
  unfold fromLegacyText
  dsimp only
  rw [legacyPrefixes_eq]
  cases hfound : (kinds.map fun kind => (kind.asLabel ++ ": ", kind)).findSome? fun entry =>
      (Text.afterStart? (kind.asLabel ++ ": " ++ rest) entry.1).map fun rest =>
        ({ kind := some entry.2, value := Text.trim rest, source := none } :
          BackendContextRecord) with
  | none =>
      have hnone := List.findSome?_eq_none_iff.mp hfound (kind.asLabel ++ ": ", kind)
        (List.mem_map_of_mem (mem_kinds kind))
      rw [Text.afterStart?_append] at hnone
      cases hnone
  | some record =>
      obtain ⟨entry, hentry, hrecord⟩ := List.exists_of_findSome?_eq_some hfound
      obtain ⟨other, -, rfl⟩ := List.mem_map.mp hentry
      obtain ⟨rest', hrest, rfl⟩ := Option.map_eq_some_iff.mp hrecord
      have happend := Text.afterStart?_some hrest
      rw [← String.toList_append] at happend
      obtain ⟨rfl, rfl⟩ := label_inj (String.toList_injective happend)
      rfl

theorem fromLegacyText_plain {value : String}
    (h : ∀ kind rest, value ≠ BackendContextKind.asLabel kind ++ ": " ++ rest) :
    fromLegacyText value = { kind := none, value := Text.trim value, source := none } := by
  unfold fromLegacyText
  dsimp only
  rw [legacyPrefixes_eq, List.findSome?_eq_none_iff.mpr]
  · rfl
  · intro entry hentry
    obtain ⟨kind, -, rfl⟩ := List.mem_map.mp hentry
    rw [Option.map_eq_none_iff]
    cases hrest : Text.afterStart? value (kind.asLabel ++ ": ") with
    | none => rfl
    | some rest =>
        have happend := Text.afterStart?_some hrest
        rw [← String.toList_append] at happend
        exact absurd (String.toList_injective happend) (h kind rest)

/-- A value without a kind that begins with a label and white space behind it. -/
def Relabelled (record : BackendContextRecord) : Prop :=
  record.kind = none ∧ ∃ kind rest,
    Text.trim record.value = BackendContextKind.asLabel kind ++ ": " ++ rest ∧
      ∃ c ∈ rest.toList.head?, Text.isWhitespace c = true

variable (record : BackendContextRecord)

theorem render_blank (h : Text.trim record.value = "") : record.render = "" := by
  rw [render, h]
  rfl

theorem render_plain (h : record.kind = none) : record.render = Text.trim record.value := by
  unfold render
  dsimp only
  split
  · rename_i hempty
    exact (String.isEmpty_iff.mp hempty).symm
  · rw [h]

theorem render_kind {kind : BackendContextKind} (h : record.kind = some kind)
    (hvalue : Text.trim record.value ≠ "") :
    record.render = kind.asLabel ++ ": " ++ Text.trim record.value := by
  unfold render
  dsimp only
  rw [if_neg (by simpa using hvalue), h]

theorem rest_not_blank {value rest : String} {kind : BackendContextKind} (h : Text.Trimmed value)
    (hvalue : value = kind.asLabel ++ ": " ++ rest) : Text.trim rest ≠ "" := by
  intro hblank
  have hrest := Text.trim_eq_empty_iff.mp hblank
  have hlast := h.last
  rw [hvalue, String.toList_append] at hlast
  rcases List.eq_nil_or_concat rest.toList with hnil | ⟨front, c, hconcat⟩
  · have hspace := hlast ' ' (by rw [hnil]; simp [String.toList_append])
    cases hspace
  · have hsolid := hlast c (by
      rw [hconcat, List.concat_eq_append, ← List.append_assoc]
      exact List.getLast?_concat)
    rw [hrest c (by rw [hconcat]; simp)] at hsolid
    cases hsolid

theorem render_fromLegacyText_label (kind : BackendContextKind) (rest : String) :
    (fromLegacyText (kind.asLabel ++ ": " ++ rest)).render =
      if Text.trim rest = "" then "" else kind.asLabel ++ ": " ++ Text.trim rest := by
  rw [fromLegacyText_label]
  split
  · rename_i hblank
    exact render_blank _ (by rw [Text.trim_trim, hblank])
  · rename_i hblank
    rw [render_kind _ rfl (by rwa [Text.trim_trim]), Text.trim_trim]

theorem render_fromLegacyText_plain {value : String}
    (h : ∀ kind rest, value ≠ BackendContextKind.asLabel kind ++ ": " ++ rest) :
    (fromLegacyText value).render = Text.trim value := by
  rw [fromLegacyText_plain h, render_plain _ rfl, Text.trim_trim]

theorem trimmed_render : Text.Trimmed record.render := by
  have htrimmed := Text.trimmed_trim record.value
  by_cases hblank : Text.trim record.value = ""
  · rw [render_blank record hblank]
    exact ⟨by simp, by simp⟩
  · cases hkind : record.kind with
    | none =>
        rw [render_plain record hkind]
        exact htrimmed
    | some kind =>
        rw [render_kind record hkind hblank]
        have hlabel : ∃ c cs, (kind.asLabel ++ ": ").toList = c :: cs ∧
            Text.isWhitespace c = false := by cases kind <;> exact ⟨_, _, rfl, by decide⟩
        obtain ⟨c, cs, hcons, hc⟩ := hlabel
        have hne : (Text.trim record.value).toList ≠ [] :=
          fun hnil => hblank (String.toList_eq_nil_iff.mp hnil)
        constructor
        · rw [String.toList_append, hcons]
          intro d hd
          cases hd
          exact hc
        · rw [String.toList_append, List.getLast?_append_of_ne_nil _ hne]
          exact htrimmed.last

theorem render_fromLegacyText_render_iff :
    (fromLegacyText record.render).render = record.render ↔ ¬Relabelled record := by
  have htrimmed := Text.trimmed_trim record.value
  by_cases hblank : Text.trim record.value = ""
  · rw [render_blank record hblank]
    refine iff_of_true (by decide +kernel) ?_
    rintro ⟨-, kind, rest, hvalue, -⟩
    exact label_ne_empty kind rest (hvalue.symm.trans hblank)
  cases hkind : record.kind with
  | some kind =>
      rw [render_kind record hkind hblank, render_fromLegacyText_label, Text.trim_trim,
        if_neg hblank]
      exact iff_of_true rfl fun h => by rw [h.1] at hkind; cases hkind
  | none =>
      rw [render_plain record hkind]
      by_cases hlabel : ∃ kind rest,
          Text.trim record.value = BackendContextKind.asLabel kind ++ ": " ++ rest
      · obtain ⟨kind, rest, hvalue⟩ := hlabel
        have hblank' := rest_not_blank htrimmed hvalue
        have hrest : rest ≠ "" := fun hempty => hblank' (by rw [hempty]; rfl)
        have hkept : Relabelled record ↔ Text.trim rest ≠ rest := by
          rw [ne_eq, htrimmed.trim_suffix_eq_iff hvalue hrest]
          constructor
          · rintro ⟨-, other, rest', hvalue', c, hc, hspace⟩ hall
            obtain ⟨rfl, rfl⟩ := label_inj (hvalue.symm.trans hvalue')
            rw [hall c hc] at hspace
            cases hspace
          · intro hnot
            push Not at hnot
            obtain ⟨c, hc, hspace⟩ := hnot
            exact ⟨hkind, kind, rest, hvalue, c, hc, by simpa using hspace⟩
        rw [hkept, not_not, hvalue, render_fromLegacyText_label, if_neg hblank']
        exact ⟨fun h => (label_inj h).2, fun h => by rw [h]⟩
      · push Not at hlabel
        rw [render_fromLegacyText_plain hlabel, Text.trim_trim]
        refine iff_of_true rfl ?_
        rintro ⟨-, kind, rest, hvalue, -⟩
        exact hlabel kind rest hvalue

theorem not_relabelled_fromLegacyText {value : String} (h : Text.Trimmed value) :
    ¬Relabelled (fromLegacyText value) := by
  rintro ⟨hkind, kind, rest, hvalue, -⟩
  by_cases hlabel : ∃ other rest',
      value = BackendContextKind.asLabel other ++ ": " ++ rest'
  · obtain ⟨other, rest', rfl⟩ := hlabel
    rw [fromLegacyText_label] at hkind
    cases hkind
  · push Not at hlabel
    rw [fromLegacyText_plain hlabel] at hvalue
    rw [Text.trim_trim, h.trim_eq] at hvalue
    exact hlabel kind rest hvalue

theorem render_fromLegacyText_twice :
    (fromLegacyText (fromLegacyText record.render).render).render =
      (fromLegacyText record.render).render :=
  (render_fromLegacyText_render_iff _).mpr (not_relabelled_fromLegacyText (trimmed_render record))

theorem render_eq_empty_iff : record.render = "" ↔ Text.trim record.value = "" := by
  constructor
  · intro h
    by_contra hblank
    cases hkind : record.kind with
    | none => exact hblank (by rwa [render_plain record hkind] at h)
    | some kind =>
        rw [render_kind record hkind hblank] at h
        exact label_ne_empty kind _ h
  · exact render_blank record

theorem render_fromLegacyText_ne_empty {value : String} (h : Text.Trimmed value)
    (hvalue : value ≠ "") : (fromLegacyText value).render ≠ "" := by
  rw [ne_eq, render_eq_empty_iff]
  by_cases hlabel : ∃ kind rest, value = BackendContextKind.asLabel kind ++ ": " ++ rest
  · obtain ⟨kind, rest, rfl⟩ := hlabel
    rw [fromLegacyText_label, Text.trim_trim]
    exact rest_not_blank h rfl
  · push Not at hlabel
    rw [fromLegacyText_plain hlabel, Text.trim_trim, h.trim_eq]
    exact hvalue

end BackendContextRecord

/-! ## Contexts of a session -/

namespace SessionBackgroundState

open BackendContextRecord

def textsOnly (state : SessionBackgroundState) : SessionBackgroundState :=
  { state with backendContextRecords := [] }

theorem sync_contexts (state : SessionBackgroundState) :
    state.syncBackendContextStorage.backendContexts =
      (state.canonicalBackendContextRecords.map render).filter fun value => !value.isEmpty :=
  rfl

theorem canonical_textsOnly (state : SessionBackgroundState) :
    state.textsOnly.canonicalBackendContextRecords =
      (state.backendContexts.map fromLegacyText).filter fun record =>
        !(Text.trim record.value).isEmpty :=
  if_neg (by simp [textsOnly])

theorem sync_textsOnly {state : SessionBackgroundState}
    (h : ∀ value ∈ state.backendContexts, Text.Trimmed value ∧ value ≠ "") :
    state.textsOnly.syncBackendContextStorage.backendContexts =
      state.backendContexts.map fun value => (fromLegacyText value).render := by
  have hkept : ∀ record ∈ state.backendContexts.map fromLegacyText,
      (!(Text.trim record.value).isEmpty) = true := by
    intro record hrecord
    obtain ⟨value, hvalue, rfl⟩ := List.mem_map.mp hrecord
    obtain ⟨htrimmed, hne⟩ := h value hvalue
    have hrender := render_fromLegacyText_ne_empty htrimmed hne
    rw [ne_eq, render_eq_empty_iff] at hrender
    simpa using hrender
  have hrendered : ∀ text ∈ state.backendContexts.map fun value => (fromLegacyText value).render,
      (!text.isEmpty) = true := by
    intro text htext
    obtain ⟨value, hvalue, rfl⟩ := List.mem_map.mp htext
    obtain ⟨htrimmed, hne⟩ := h value hvalue
    simpa using render_fromLegacyText_ne_empty htrimmed hne
  rw [sync_contexts, canonical_textsOnly, List.filter_eq_self.mpr hkept, List.map_map,
    Function.comp_def, List.filter_eq_self.mpr hrendered]

/-- The texts of the contexts are kept over a cycle exactly when no record takes on a label. -/
theorem sync_textsOnly_iff (state : SessionBackgroundState) :
    state.syncBackendContextStorage.textsOnly.syncBackendContextStorage.backendContexts =
        state.syncBackendContextStorage.backendContexts ↔
      ∀ record ∈ state.canonicalBackendContextRecords, ¬Relabelled record := by
  have htexts : ∀ value ∈ state.syncBackendContextStorage.backendContexts,
      Text.Trimmed value ∧ value ≠ "" := by
    intro value hvalue
    rw [sync_contexts] at hvalue
    obtain ⟨hmem, hne⟩ := List.mem_filter.mp hvalue
    obtain ⟨record, -, rfl⟩ := List.mem_map.mp hmem
    exact ⟨trimmed_render record, by simpa using hne⟩
  rw [sync_textsOnly htexts, Text.map_eq_self_iff, sync_contexts]
  constructor
  · intro h record hrecord
    rw [← render_fromLegacyText_render_iff]
    by_cases hempty : record.render = ""
    · rw [hempty]
      rfl
    · refine h _ (List.mem_filter.mpr ⟨List.mem_map_of_mem hrecord, ?_⟩)
      simpa using hempty
  · intro h value hvalue
    obtain ⟨hmem, -⟩ := List.mem_filter.mp hvalue
    obtain ⟨record, hrecord, rfl⟩ := List.mem_map.mp hmem
    exact (render_fromLegacyText_render_iff record).mpr (h record hrecord)

end SessionBackgroundState

/-! ## Lines of metadata -/

def lineText (values : List String) : Option String :=
  let value := "\n".intercalate ((values.map Text.trim).filter fun value => !value.isEmpty)
  if value.isEmpty then none else some value

def linesOf (stored : Option String) : List String :=
  (stored.map fun value =>
    ((Text.lines value).map Text.trim).filter fun line => !line.isEmpty).getD []

def nonBlank (value : Option String) : Option String :=
  (value.map Text.trim).filter fun value => !value.isEmpty

theorem lookup_setMetadataLines (metadata : Metadata) (key key' : String) (values : List String) :
    (setMetadataLines metadata key values).lookup key' =
      if key' = key then lineText values else metadata.lookup key' := by
  unfold setMetadataLines lineText
  dsimp only
  split
  · exact Table.lookup_erase metadata key key'
  · exact Table.lookup_insert metadata key key' _

theorem lookup_setMetadataOptionalText (metadata : Metadata) (key key' : String)
    (value : Option String) :
    (setMetadataOptionalText metadata key value).lookup key' =
      if key' = key then nonBlank value else metadata.lookup key' := by
  unfold setMetadataOptionalText nonBlank
  split
  · rename_i hnone
    rw [hnone]
    exact Table.lookup_erase metadata key key'
  · rename_i text hsome
    rw [hsome]
    exact Table.lookup_insert metadata key key' _

theorem line_of_mem_linesOf {stored : Option String} {item : String} (h : item ∈ linesOf stored) :
    Text.Line item := by
  cases stored with
  | none => cases h
  | some value =>
      obtain ⟨hmem, hne⟩ := List.mem_filter.mp h
      obtain ⟨line, hline, rfl⟩ := List.mem_map.mp hmem
      refine ⟨Text.trimmed_trim line, by simpa using hne, fun hbreak => ?_⟩
      exact Text.notMem_of_mem_lines hline (Text.mem_of_mem_trim hbreak)

theorem linesOf_lineText {items : List String} (h : ∀ item ∈ items, Text.Line item) :
    linesOf (lineText items) = items := by
  have htrim : items.map Text.trim = items :=
    Text.map_eq_self_iff.mpr fun item hitem => (h item hitem).trimmed.trim_eq
  have hkept : (items.filter fun value => !value.isEmpty) = items :=
    List.filter_eq_self.mpr fun item hitem => by simpa using (h item hitem).nonempty
  unfold lineText
  rw [htrim, hkept]
  dsimp only
  split
  · rename_i hempty
    have hlines := Text.lines_intercalate h
    rw [String.isEmpty_iff.mp hempty] at hlines
    exact hlines
  · show ((Text.lines ("\n".intercalate items)).map Text.trim).filter _ = items
    rw [Text.lines_intercalate h, htrim, hkept]

/-! ## Caps -/

theorem previewText_cases (input : String) (maxChars : Nat) :
    previewText input maxChars = input ∨
      (0 < maxChars ∧ maxChars ≤ input.toList.length ∧
        (previewText input maxChars).toList = input.toList.take maxChars ++ ['.', '.', '.']) := by
  unfold previewText
  split
  · exact .inl rfl
  · rename_i hlong
    rw [not_or] at hlong
    refine .inr ⟨Nat.pos_of_ne_zero hlong.1, Nat.le_of_not_le hlong.2, ?_⟩
    rw [String.toList_append, String.toList_ofList]
    rfl

theorem capText_cut {text : String} {front : List Char} {maxChars : Nat}
    (htrimmed : Text.Trimmed text) (hlength : front.length = maxChars) (hpos : 0 < maxChars)
    (htext : text.toList = front ++ ['.', '.', '.']) : capText text maxChars = text := by
  have hlong : ¬(maxChars = 0 ∨ Text.charCount text ≤ maxChars) := by
    rw [Text.charCount, htext, List.length_append, hlength]
    simp
    omega
  rw [capText, htrimmed.trim_eq, previewText, if_neg hlong, htext, ← hlength, List.take_left]
  apply String.toList_injective
  rw [String.toList_append, String.toList_ofList, htext]
  rfl

theorem trimmed_cut {text : String} {front : List Char}
    (hfront : ∀ c ∈ front.head?, Text.isWhitespace c = false) (hne : front ≠ [])
    (htext : text.toList = front ++ ['.', '.', '.']) : Text.Trimmed text := by
  constructor
  · rw [htext, List.head?_append_of_ne_nil _ hne]
    exact hfront
  · rw [htext]
    intro c hc
    have hdot : c = '.' := by simpa using hc.symm
    rw [hdot]
    decide

theorem trimmed_capText (text : String) (maxChars : Nat) :
    Text.Trimmed (capText text maxChars) := by
  have htrimmed := Text.trimmed_trim text
  unfold capText
  rcases previewText_cases (Text.trim text) maxChars with heq | ⟨hpos, hlong, htext⟩
  · rw [heq]
    exact htrimmed
  · refine trimmed_cut (fun c hc => ?_) (fun hnil => ?_) htext
    · rw [List.head?_take, if_neg (by omega)] at hc
      exact htrimmed.head c hc
    · have hlength := congrArg List.length hnil
      rw [List.length_take, List.length_nil] at hlength
      omega

theorem capText_capText (text : String) (maxChars : Nat) :
    capText (capText text maxChars) maxChars = capText text maxChars := by
  have htrimmed := trimmed_capText text maxChars
  rcases previewText_cases (Text.trim text) maxChars with heq | ⟨hpos, hlong, htext⟩
  · unfold capText
    rw [heq, Text.trim_trim, heq]
  · refine capText_cut htrimmed ?_ hpos htext
    rw [List.length_take]
    omega

theorem line_capText {item : String} (h : Text.Line item) (maxChars : Nat) :
    Text.Line (capText item maxChars) := by
  refine ⟨trimmed_capText item maxChars, ?_, ?_⟩
  all_goals
    rw [capText, h.trimmed.trim_eq]
    rcases previewText_cases item maxChars with heq | ⟨-, -, htext⟩
  · rw [heq]
    exact h.nonempty
  · intro hempty
    rw [hempty] at htext
    simp at htext
  · rw [heq]
    exact h.single
  · rw [htext]
    intro hbreak
    rcases List.mem_append.mp hbreak with hfront | hdots
    · exact h.single (List.mem_of_mem_take hfront)
    · simp at hdots

def capLines (items : List String) (maxItems maxChars : Nat) : List String :=
  capVecText (capVecLen items maxItems) maxChars

theorem capLines_capLines (items : List String) (maxItems maxChars : Nat) :
    capLines (capLines items maxItems maxChars) maxItems maxChars =
      capLines items maxItems maxChars := by
  have hlength : (capLines items maxItems maxChars).length ≤ maxItems := by
    rw [capLines, capVecText, List.length_map, capVecLen, RecentWindow.length_recent]
    exact Nat.min_le_left _ _
  have hkept : capVecLen (capLines items maxItems maxChars) maxItems =
      capLines items maxItems maxChars := RecentWindow.recent_of_length_le hlength
  rw [capLines, hkept, capVecText, Text.map_eq_self_iff]
  intro item hitem
  obtain ⟨text, -, rfl⟩ := List.mem_map.mp hitem
  exact capText_capText text maxChars

theorem line_of_mem_capLines {items : List String} (h : ∀ item ∈ items, Text.Line item)
    {maxItems maxChars : Nat} : ∀ item ∈ capLines items maxItems maxChars, Text.Line item := by
  intro item hitem
  obtain ⟨text, htext, rfl⟩ := List.mem_map.mp hitem
  exact line_capText (h text (List.mem_of_mem_drop htext)) maxChars

/-! ## Slots over a cycle -/

def cycleLines (maxItems maxChars : Nat) (stored : Option String) : Option String :=
  lineText (capLines (linesOf stored) maxItems maxChars)

theorem cycleLines_cycleLines (maxItems maxChars : Nat) (stored : Option String) :
    cycleLines maxItems maxChars (cycleLines maxItems maxChars stored) =
      cycleLines maxItems maxChars stored := by
  have hlines : ∀ item ∈ capLines (linesOf stored) maxItems maxChars, Text.Line item :=
    line_of_mem_capLines fun _ hitem => line_of_mem_linesOf hitem
  unfold cycleLines
  rw [linesOf_lineText hlines, capLines_capLines]

def cycleText (maxChars : Nat) (stored : Option String) : Option String :=
  nonBlank (capOptionalText (nonBlank stored) maxChars)

theorem nonBlank_some {text : String} (htrimmed : Text.Trimmed text) (hne : text ≠ "") :
    nonBlank (some text) = some text := by
  simp [nonBlank, htrimmed.trim_eq, Option.filter, hne]

theorem capOptionalText_some (text : String) (maxChars : Nat) :
    capOptionalText (some text) maxChars =
      if capText text maxChars = "" then none else some (capText text maxChars) := by
  have htrim := (trimmed_capText text maxChars).trim_eq
  simp only [capOptionalText, Option.map_some, Option.filter, htrim]
  by_cases hempty : capText text maxChars = ""
  · rw [if_pos hempty, hempty]
    rfl
  · rw [if_neg hempty, if_pos (by simpa using hempty)]

theorem cycleText_cycleText (maxChars : Nat) (stored : Option String) :
    cycleText maxChars (cycleText maxChars stored) = cycleText maxChars stored := by
  unfold cycleText
  cases hread : nonBlank stored with
  | none => rfl
  | some text =>
      rw [capOptionalText_some]
      split
      · rfl
      · rename_i hne
        have hkept := nonBlank_some (trimmed_capText text maxChars) hne
        rw [hkept, hkept, capOptionalText_some, capText_capText, if_neg hne, hkept]

namespace SessionBackgroundState

/-- What one cycle makes of what is stored under a key. -/
def cycleSlot (key : String) : Option String → Option String :=
  if key = slotVerificationNeeds then cycleLines 4 140
  else if key = slotRisks then cycleLines 4 140
  else if key = slotTestResults then cycleLines 6 180
  else if key = slotKeyFiles then cycleLines 8 180
  else if key = slotPendingWork then cycleLines 5 140
  else if key = slotCompletedWork then cycleLines 5 140
  else if key = slotCurrentTask then cycleText 180
  else if key = slotProjectFacts then cycleLines 5 140
  else id

theorem lookup_applyCompressionSlotBudgetCaps (state : SessionBackgroundState) (key : String) :
    state.applyCompressionSlotBudgetCaps.metadata.lookup key =
      cycleSlot key (state.metadata.lookup key) := by
  simp only [applyCompressionSlotBudgetCaps, setCompressionSlots, lookup_setMetadataLines,
    lookup_setMetadataOptionalText, cycleSlot, ite_apply]
  have hslot : ∀ {slot : String} {cap cycled rest rest' : Option String},
      (key = slot → cap = cycled) → rest = rest' →
        (if key = slot then cap else rest) = if key = slot then cycled else rest' :=
    fun hcap hrest => ite_congr rfl hcap fun _ => hrest
  refine hslot ?_ <| hslot ?_ <| hslot ?_ <| hslot ?_ <| hslot ?_ <| hslot ?_ <| hslot ?_ <|
    hslot ?_ rfl
  all_goals
    rintro rfl
    rfl

theorem settled_ite {α : Type} {p : Prop} [Decidable p] {f g : α → α} (hf : ∀ x, f (f x) = f x)
    (hg : ∀ x, g (g x) = g x) (x : α) :
    (if p then f else g) ((if p then f else g) x) = (if p then f else g) x := by
  split
  · exact hf x
  · exact hg x

theorem cycleSlot_cycleSlot (key : String) :
    ∀ stored, cycleSlot key (cycleSlot key stored) = cycleSlot key stored :=
  settled_ite (cycleLines_cycleLines _ _) <| settled_ite (cycleLines_cycleLines _ _) <|
    settled_ite (cycleLines_cycleLines _ _) <| settled_ite (cycleLines_cycleLines _ _) <|
      settled_ite (cycleLines_cycleLines _ _) <| settled_ite (cycleLines_cycleLines _ _) <|
        settled_ite (cycleText_cycleText _) <| settled_ite (cycleLines_cycleLines _ _) fun _ => rfl

theorem applyCompressionSlotBudgetCaps_twice (state : SessionBackgroundState) (key : String) :
    state.applyCompressionSlotBudgetCaps.applyCompressionSlotBudgetCaps.metadata.lookup key =
      state.applyCompressionSlotBudgetCaps.metadata.lookup key := by
  rw [lookup_applyCompressionSlotBudgetCaps, lookup_applyCompressionSlotBudgetCaps,
    cycleSlot_cycleSlot]

end SessionBackgroundState

/-! ## The cycle -/

/-- A cycle keeps the text of a record, and the contexts of a session, exactly where no record
takes on a label; what it leaves is kept by the next one, and so are the slots. -/
theorem legacyText_spec :
    (∀ record : BackendContextRecord,
      (BackendContextRecord.fromLegacyText record.render).render = record.render ↔
        ¬record.Relabelled) ∧
      (∀ record : BackendContextRecord,
        (BackendContextRecord.fromLegacyText
            (BackendContextRecord.fromLegacyText record.render).render).render =
          (BackendContextRecord.fromLegacyText record.render).render) ∧
      (∀ state : SessionBackgroundState,
        state.syncBackendContextStorage.textsOnly.syncBackendContextStorage.backendContexts =
            state.syncBackendContextStorage.backendContexts ↔
          ∀ record ∈ state.canonicalBackendContextRecords, ¬record.Relabelled) ∧
      ∀ (state : SessionBackgroundState) (key : String),
        state.applyCompressionSlotBudgetCaps.applyCompressionSlotBudgetCaps.metadata.lookup key =
          state.applyCompressionSlotBudgetCaps.metadata.lookup key :=
  ⟨BackendContextRecord.render_fromLegacyText_render_iff,
    BackendContextRecord.render_fromLegacyText_twice, SessionBackgroundState.sync_textsOnly_iff,
    SessionBackgroundState.applyCompressionSlotBudgetCaps_twice⟩

/-- A value without a kind is read with one, and loses a blank behind the label. -/
theorem legacyText_takesLabel :
    let record : BackendContextRecord :=
      { kind := none, value := "Web context:  example", source := none }
    record.render = "Web context:  example" ∧
      (BackendContextRecord.fromLegacyText record.render).render = "Web context: example" := by
  decide +kernel

end BenShu.Memory
