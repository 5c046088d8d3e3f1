import BenShu.Lib.FirstMatch
import BenShu.Lib.Text
import Mathlib.Algebra.Group.Nat.Defs

/-!
# The story bible

What the contract and the approved chapters say of the characters, the world and the hooks
of a story. An approved chapter is applied to the bible as one delta.
-/

namespace BenShu.Novel

open FirstMatch

/-! ## Deltas -/

inductive ChapterStateEventType where
  | character
  | relationship
  | world
  | power
  | resource
  | hookSeed
  | hookAdvance
  | hookPayOff
  | hookDefer
  | incidental
  deriving DecidableEq, Repr

inductive StateChangeAllowance where
  | contract
  | boundedIncidental
  | rejected
  | unchecked
  deriving DecidableEq, Repr

structure ChapterBodyEvidence where
  startChar : Nat := 0
  endChar : Nat := 0
  deriving DecidableEq, Repr

structure ChapterStateChange where
  entityId : String
  eventType : ChapterStateEventType
  value : String
  evidence : ChapterBodyEvidence := {}
  authorityPath : String := ""
  authorityExcerpt : String := ""
  allowance : StateChangeAllowance := .unchecked
  deferUntilChapter : Option Nat := none
  deriving DecidableEq, Repr

structure ChapterCharacterRegistration where
  characterId : String
  canonicalName : String
  role : String
  relationshipToExisting : String
  desire : String
  fear : String
  bottomLine : String
  arcStart : String
  deriving DecidableEq, Repr

structure ApprovedChapterDelta where
  number : Nat
  title : String := ""
  summary : String := ""
  unitCount : Nat := 0
  keyFacts : List String := []
  continuityUpdates : List String := []
  characterRegistrations : List ChapterCharacterRegistration := []
  stateChanges : List ChapterStateChange := []
  deriving DecidableEq, Repr

/-! ## The bible -/

structure WorldRule where
  id : String
  rule : String
  costOrLimit : String
  narrativeEffect : String
  deriving DecidableEq, Repr

structure WorldEntity where
  id : String
  name : String
  role : String
  knownFacts : List String
  deriving DecidableEq, Repr

structure WorldDatabase where
  rules : List WorldRule := []
  locations : List WorldEntity := []
  factions : List WorldEntity := []
  resources : List WorldEntity := []
  deriving DecidableEq, Repr

structure CharacterAnchor where
  id : String
  name : String
  role : String
  desire : String
  fear : String
  bottomLine : String
  woundOrFlaw : String
  currentState : String
  relationshipAnchors : List String
  deriving DecidableEq, Repr

inductive HookStatus where
  | open
  | seeded
  | advancing
  | deferred
  | overdue
  | paidOff
  | dropped
  deriving DecidableEq, Repr

structure HookLedgerEntry where
  id : String
  title : String
  introducedChapter : Option Nat := none
  introducedWhen : String := ""
  plannedPayoffChapter : Option Nat := none
  payoffChapter : Option Nat := none
  lastAdvancedChapter : Option Nat := none
  deferredUntilChapter : Option Nat := none
  status : HookStatus
  evidence : List String := []
  deriving DecidableEq, Repr

structure RelationshipLedgerEntry where
  characterIds : List String
  characters : List String
  currentState : String
  evidence : String
  lastChangedChapter : Option Nat
  deriving DecidableEq, Repr

structure CharacterProgressionState where
  character : String
  level : String
  evidence : String
  deriving DecidableEq, Repr

structure ArtifactLedgerEntry where
  name : String
  lastSeenChapter : Option Nat
  deriving DecidableEq, Repr

structure PayoffMatrixEntry where
  promise : String
  introducedChapter : Option Nat
  payoffTarget : String
  payoffChapter : Option Nat
  status : String
  evidence : List String
  deriving DecidableEq, Repr

structure NovelContractV2 where
  revision : Nat := 0
  relationshipLedger : List RelationshipLedgerEntry := []
  characterCurrentLevels : List CharacterProgressionState := []
  artifactLedger : List ArtifactLedgerEntry := []
  payoffMatrix : List PayoffMatrixEntry := []
  deriving DecidableEq, Repr

structure ChapterContinuitySummary where
  chapterNumber : Nat
  title : String
  summary : String
  keyFacts : List String
  continuityUpdates : List String
  unitCount : Nat
  deriving DecidableEq, Repr

/-- What is taken from the contract. -/
structure ContractLedgers where
  worldDatabase : WorldDatabase := {}
  characterLedger : List CharacterAnchor := []
  hookLedger : List HookLedgerEntry := []
  structuredContractV2 : NovelContractV2 := {}
  deriving DecidableEq, Repr

structure StoryBible extends ContractLedgers where
  chapterSummaries : List ChapterContinuitySummary
  lastRebuiltChapter : Option Nat
  updatedAt : String
  deriving DecidableEq, Repr

def buildStoryBible (ledgers : ContractLedgers) (now : String) : StoryBible where
  toContractLedgers := ledgers
  chapterSummaries := []
  lastRebuiltChapter := none
  updatedAt := now

/-! ## Names and lines -/

def nameStops : List Char :=
  ['，', ',', '。', '.', '；', ';', '：', ':', '、', '\n', '\r', '\t', '"', '\'', '“', '”', '‘', '’',
    '《', '》', '(', ')', '（', '）', '[', ']', '【', '】']

def isCjk (c : Char) : Bool := 0x4e00 ≤ c.toNat && c.toNat ≤ 0x9fff

def stableCharacterName (name : String) : Bool :=
  let trimmed := Text.trim name
  let len := Text.charCount trimmed
  if ¬(2 ≤ len ∧ len ≤ 32) then false
  else if trimmed.toList.any fun c => c.isDigit || nameStops.contains c then false
  else if trimmed.toList.any isCjk && !(2 ≤ len && len ≤ 6) then false
  else !(["protagonist", "antagonist", "hero", "villain", "character", "主角", "反派",
    "角色"].contains (Text.toAsciiLowercase trimmed))

def surfaceNoiseMarkers : List String :=
  ["可修改说明", "请回复", "回复开始", "开始写第一章", "按这个开始", "如果不满意", "如果满意", "用户可以", "你可以修改",
    "质量合同", "导出规范", "工具调用", "下一步", "操作说明", "确认后", "全书推进依据", "书名理由", "终局方向", "主角弧线",
    "世界观意象", "总主线因果链", "contract draft", "quality contract", "export format", "reply",
    "please confirm", "next step"]

def contractLineIsSurfaceNoise (value : String) : Bool :=
  let text := Text.trim value
  text.isEmpty || surfaceNoiseMarkers.any fun marker =>
    Text.contains text marker || Text.contains (Text.toAsciiLowercase text) marker

def sanitizeContractScalar (value : String) : String :=
  let cleaned := Text.trim (Text.trimMatches (Text.trim value)
    ['"', '\'', '“', '”', '‘', '’'].contains)
  if contractLineIsSurfaceNoise cleaned then "" else cleaned

def sanitizeContractItem (value : String) : Option String :=
  let cleaned := sanitizeContractScalar value
  if !cleaned.isEmpty && !contractLineIsSurfaceNoise cleaned then some cleaned else none

/-! ## The character ledger -/

def sanitizeAux : List String → List CharacterAnchor → List CharacterAnchor
  | _, [] => []
  | seen, character :: ledger =>
      let name := Text.trim character.name
      if !stableCharacterName name || seen.contains name then sanitizeAux seen ledger
      else character :: sanitizeAux (seen ++ [name]) ledger

def sanitizeCharacterLedger (ledger : List CharacterAnchor) : List CharacterAnchor :=
  sanitizeAux [] ledger

def ensureCharacterAnchor (ledger : List CharacterAnchor)
    (registration : ChapterCharacterRegistration) : List CharacterAnchor :=
  let name := Text.trim registration.canonicalName
  if name.isEmpty || ledger.any (·.name == name) then ledger
  else ledger ++ [{
    id := registration.characterId
    name := name
    role := registration.role
    desire := registration.desire
    fear := registration.fear
    bottomLine := registration.bottomLine
    woundOrFlaw := registration.arcStart
    currentState := ""
    relationshipAnchors := (sanitizeContractItem registration.relationshipToExisting).toList }]

def ensureCharacterAnchorsFromChapter (ledger : List CharacterAnchor)
    (chapter : ApprovedChapterDelta) : List CharacterAnchor :=
  chapter.characterRegistrations.foldl ensureCharacterAnchor ledger

/-! ## State changes -/

def ChapterStateChange.durable (change : ChapterStateChange) : Bool :=
  change.allowance == .contract || change.allowance == .boundedIncidental

def durableCharacterStateValue (change : ChapterStateChange) : String :=
  if change.allowance = .contract ∧
      Text.trim change.authorityPath = "chapter_contract.new_state_after_chapter" ∧
      ¬(Text.trim change.authorityExcerpt).isEmpty then
    Text.trim change.authorityExcerpt
  else Text.trim change.value

def appendCappedUnique (values : List String) (value : String) (maxLen : Nat) : List String :=
  let value := Text.trim value
  if value.isEmpty || values.contains value then values
  else
    let values := values ++ [value]
    values.drop (values.length - maxLen)

def applyCharacterChange (ledger : List CharacterAnchor) (change : ChapterStateChange) :
    List CharacterAnchor :=
  modifyFirst (fun c => c.id == change.entityId || c.name == change.entityId)
    (fun c => { c with currentState := durableCharacterStateValue change }) ledger

def WorldEntity.named (entityId : String) (entity : WorldEntity) : Bool :=
  entity.id == entityId || entity.name == entityId

def WorldEntity.learn (value : String) (entity : WorldEntity) : WorldEntity :=
  { entity with knownFacts := appendCappedUnique entity.knownFacts value 24 }

def WorldDatabase.applyWorldChange (world : WorldDatabase) (change : ChapterStateChange) :
    WorldDatabase :=
  let named := WorldEntity.named change.entityId
  let learn := WorldEntity.learn change.value
  if world.rules.any (·.id == change.entityId) then
    { world with
      rules := modifyFirst (·.id == change.entityId)
        (fun rule => { rule with narrativeEffect := change.value }) world.rules }
  else if world.locations.any named then
    { world with locations := modifyFirst named learn world.locations }
  else if world.factions.any named then
    { world with factions := modifyFirst named learn world.factions }
  else { world with resources := modifyFirst named learn world.resources }

def WorldDatabase.applyResourceChange (world : WorldDatabase) (change : ChapterStateChange) :
    WorldDatabase :=
  { world with
    resources := modifyFirst (WorldEntity.named change.entityId) (WorldEntity.learn change.value)
      world.resources }

/-! ## Hooks -/

def HookLedgerEntry.named (entityId : String) (hook : HookLedgerEntry) : Bool :=
  hook.id == entityId || hook.title == entityId

def chapterEvidence (number : Nat) (change : ChapterStateChange) : String :=
  s!"chapter {number} chars {change.evidence.startChar}..{change.evidence.endChar}"

def applyTypedHookChange (ledger : List HookLedgerEntry) (chapterNumber : Nat)
    (change : ChapterStateChange) : List HookLedgerEntry :=
  let modify := modifyFirst (HookLedgerEntry.named change.entityId)
  match change.eventType with
  | .hookSeed =>
      if ledger.any (HookLedgerEntry.named change.entityId) then ledger
      else ledger ++ [{
        id := change.entityId
        title := change.value
        introducedChapter := some chapterNumber
        introducedWhen := chapterEvidence chapterNumber change
        status := .seeded }]
  | .hookAdvance =>
      modify (fun hook => { hook with
        lastAdvancedChapter := some chapterNumber, status := .advancing }) ledger
  | .hookPayOff =>
      modify (fun hook => { hook with
        payoffChapter := some chapterNumber, status := .paidOff }) ledger
  | .hookDefer =>
      modify (fun hook => { hook with
        lastAdvancedChapter := some chapterNumber
        deferredUntilChapter := change.deferUntilChapter
        status := .deferred }) ledger
  | _ => ledger

def HookLedgerEntry.markOverdue (chapterNumber : Nat) (hook : HookLedgerEntry) :
    HookLedgerEntry :=
  if hook.status = .paidOff ∨ hook.status = .dropped then hook
  else if (hook.deferredUntilChapter.or hook.plannedPayoffChapter).any (· < chapterNumber) then
    { hook with status := .overdue }
  else hook

def applyTypedStateChange (number : Nat) (bible : StoryBible) (change : ChapterStateChange) :
    StoryBible :=
  if !change.durable then bible
  else match change.eventType with
    | .character | .incidental =>
        { bible with characterLedger := applyCharacterChange bible.characterLedger change }
    | .relationship => bible
    | .world => { bible with worldDatabase := bible.worldDatabase.applyWorldChange change }
    | .power => bible
    | .resource => { bible with worldDatabase := bible.worldDatabase.applyResourceChange change }
    | .hookSeed | .hookAdvance | .hookPayOff | .hookDefer =>
        { bible with hookLedger := applyTypedHookChange bible.hookLedger number change }

def applyTypedStateChanges (bible : StoryBible) (chapter : ApprovedChapterDelta) : StoryBible :=
  let bible := chapter.stateChanges.foldl (applyTypedStateChange chapter.number) bible
  { bible with hookLedger := bible.hookLedger.map (HookLedgerEntry.markOverdue chapter.number) }

/-! ## The structured contract -/

def resolveCharacterName (characterLedger : List CharacterAnchor) (entityId : String) :
    Option String :=
  let entityId := Text.trim entityId
  ((characterLedger.find? fun character =>
    Text.trim character.id == entityId || Text.trim character.name == entityId).map
      fun character => Text.trim character.name).filter fun name => !name.isEmpty

def ownsEntity (entityId : String) (canonicalCharacter : Option String)
    (relationship : RelationshipLedgerEntry) : Bool :=
  relationship.characterIds.any (Text.trim · == entityId) ||
    relationship.characters.any fun name =>
      Text.trim name == entityId || canonicalCharacter.any (Text.trim name == ·)

def resolveRelationshipIndex (relationships : List RelationshipLedgerEntry) (entityId : String)
    (canonicalCharacter : Option String) (authorityExcerpt value : String) : Option Nat :=
  let entityId := Text.trim entityId
  let canonicalCharacter := (canonicalCharacter.map Text.trim).filter fun name => !name.isEmpty
  let owns := ownsEntity entityId canonicalCharacter
  let evidence := s!"{Text.trim authorityExcerpt} {Text.trim value}"
  (uniqueIdx? (fun r => "|".intercalate r.characters == entityId ||
      "|".intercalate r.characterIds == entityId) relationships).or <|
    (uniqueIdx? owns relationships).or <|
      uniqueIdx? (fun r => owns r && r.characters.any fun name =>
        let name := Text.trim name
        !name.isEmpty && some name != canonicalCharacter && name != entityId &&
          Text.contains evidence name) relationships

def payoffStatus : ChapterStateEventType → String
  | .hookPayOff => "paid_off"
  | .hookAdvance => "advancing"
  | .hookDefer => "deferred"
  | _ => "seeded"

def PayoffMatrixEntry.apply (number : Nat) (delta : ChapterStateChange)
    (payoff : PayoffMatrixEntry) : PayoffMatrixEntry where
  promise := payoff.promise
  introducedChapter := payoff.introducedChapter.or (some number)
  payoffTarget := payoff.payoffTarget
  payoffChapter :=
    if delta.eventType = .hookPayOff then payoff.payoffChapter.or (some number)
    else payoff.payoffChapter
  status := payoffStatus delta.eventType
  evidence :=
    if payoff.evidence.contains (chapterEvidence number delta) then payoff.evidence
    else payoff.evidence ++ [chapterEvidence number delta]

/-- The contract after a change, and whether it did change. -/
def settleChange (characterLedger : List CharacterAnchor) (number : Nat)
    (settled : NovelContractV2 × Bool) (delta : ChapterStateChange) : NovelContractV2 × Bool :=
  let contract := settled.1
  let evidence := chapterEvidence number delta
  let canonicalCharacter := resolveCharacterName characterLedger delta.entityId
  if !delta.durable then settled
  else match delta.eventType with
    | .relationship =>
        match resolveRelationshipIndex contract.relationshipLedger delta.entityId
          canonicalCharacter delta.authorityExcerpt delta.value with
        | some index =>
            ({ contract with
              relationshipLedger := contract.relationshipLedger.modify index fun relation =>
                { relation with
                  currentState := delta.value
                  evidence := evidence
                  lastChangedChapter := some number } }, true)
        | none => settled
    | .power =>
        let character := canonicalCharacter.getD (Text.trim delta.entityId)
        if character.isEmpty then settled
        else if contract.characterCurrentLevels.any (·.character == character) then
          ({ contract with
            characterCurrentLevels := modifyFirst (·.character == character)
              (fun state => { state with level := delta.value, evidence := evidence })
              contract.characterCurrentLevels }, true)
        else if canonicalCharacter.isSome then
          ({ contract with
            characterCurrentLevels := contract.characterCurrentLevels ++
              [⟨character, delta.value, evidence⟩] }, true)
        else settled
    | .resource =>
        if contract.artifactLedger.any (·.name == delta.entityId) then
          ({ contract with
            artifactLedger := modifyFirst (·.name == delta.entityId)
              (fun artifact => { artifact with lastSeenChapter := some number })
              contract.artifactLedger }, true)
        else settled
    | .hookSeed | .hookAdvance | .hookPayOff | .hookDefer =>
        let named := fun payoff : PayoffMatrixEntry =>
          payoff.promise == delta.entityId || payoff.payoffTarget == delta.entityId
        if contract.payoffMatrix.any named then
          ({ contract with
            payoffMatrix := modifyFirst named (PayoffMatrixEntry.apply number delta)
              contract.payoffMatrix }, true)
        else settled
    | .character | .world | .incidental => settled

def NovelContractV2.bumpRevision (contract : NovelContractV2) : NovelContractV2 :=
  { contract with revision := min (contract.revision + 1) (2 ^ 64 - 1) }

def applyApprovedChapter (contract : NovelContractV2) (characterLedger : List CharacterAnchor)
    (chapter : ApprovedChapterDelta) : NovelContractV2 :=
  let settled := chapter.stateChanges.foldl (settleChange characterLedger chapter.number)
    (contract, false)
  if settled.2 then settled.1.bumpRevision else settled.1

/-! ## Applying deltas -/

def ApprovedChapterDelta.continuity (chapter : ApprovedChapterDelta) :
    ChapterContinuitySummary where
  chapterNumber := chapter.number
  title := chapter.title
  summary := chapter.summary
  keyFacts := chapter.keyFacts
  continuityUpdates := chapter.continuityUpdates
  unitCount := chapter.unitCount

/-- Summaries are sorted by chapter, those of one chapter as they came. -/
def ByChapter (summary later : ChapterContinuitySummary) : Prop :=
  summary.chapterNumber ≤ later.chapterNumber

instance : DecidableRel ByChapter := fun _ _ => inferInstanceAs (Decidable (_ ≤ _))

def upsertChapterSummary (summaries : List ChapterContinuitySummary)
    (summary : ChapterContinuitySummary) : List ChapterContinuitySummary :=
  (summaries.filter (·.chapterNumber != summary.chapterNumber) ++ [summary]).insertionSort
    ByChapter

def applyApprovedChapterDelta (bible : StoryBible) (chapter : ApprovedChapterDelta)
    (now : String) : StoryBible :=
  let bible := { bible with
    characterLedger := ensureCharacterAnchorsFromChapter
      (sanitizeCharacterLedger bible.characterLedger) chapter
    chapterSummaries := upsertChapterSummary bible.chapterSummaries chapter.continuity }
  let bible := applyTypedStateChanges bible chapter
  { bible with
    structuredContractV2 := applyApprovedChapter bible.structuredContractV2
      bible.characterLedger chapter
    characterLedger := sanitizeCharacterLedger bible.characterLedger
    updatedAt := now }

def ByNumber (chapter later : ApprovedChapterDelta) : Prop := chapter.number ≤ later.number

instance : DecidableRel ByNumber := fun _ _ => inferInstanceAs (Decidable (_ ≤ _))

def rebuildStoryBible (ledgers : ContractLedgers) (approvedChapters : List ApprovedChapterDelta)
    (now : String) : StoryBible :=
  let rebuilt := (approvedChapters.insertionSort ByNumber).foldl
    (fun bible chapter => applyApprovedChapterDelta bible chapter now)
    (buildStoryBible ledgers now)
  { rebuilt with
    lastRebuiltChapter := (approvedChapters.map (·.number)).max?
    updatedAt := now }

/-- A chapter that is approved is applied at once. -/
def updateStoryBibleAfterApprovedChapter (bible : StoryBible)
    (approval : ApprovedChapterDelta × String) : StoryBible :=
  { applyApprovedChapterDelta bible approval.1 approval.2 with
    lastRebuiltChapter := some approval.1.number }

/-- The bible of a project whose chapters were approved one after the other. -/
def approvedStoryBible (ledgers : ContractLedgers) (now : String)
    (approvals : List (ApprovedChapterDelta × String)) : StoryBible :=
  approvals.foldl updateStoryBibleAfterApprovedChapter (buildStoryBible ledgers now)

end BenShu.Novel
