import BenShu.Engram.DocumentUpdates
import BenShu.Engram.HybridSearch
import BenShu.Lib.OrderedTable
import Mathlib.Tactic.Linarith

/-!
# Promoting a collection

A promotion marks every document of a collection through its path and raises its utility
through its id. An id names one document, and documents with one body share it.
-/

namespace BenShu.Engram

inductive PromotionMode where
  | policyDriven
  | utilityDriven
  deriving DecidableEq

def PromotionMode.asStr : PromotionMode → String
  | .policyDriven => "policy_driven"
  | .utilityDriven => "utility_driven"

def tierPromotionMetadata (target promotedAtMs source mode policyOwner : String) :
    Table String String :=
  Table.ofList [
    ("tier_target", target),
    ("tier_promoted_at_ms", promotedAtMs),
    ("tier_promotion_source", source),
    ("tier_promotion_contract_version", "1"),
    ("tier_promotion_mode", mode),
    ("tier_policy_owner", policyOwner),
    ("tier_durable_authority", "engram")]

/-- How much a promotion to the level raises the utility. -/
def utilityBoost : QuantLevel → Rat
  | .full => 1 / 4
  | .warm => 3 / 20
  | .cold | .background => 1 / 20

theorem utilityBoost_pos (level : QuantLevel) : 0 < utilityBoost level := by
  cases level <;> norm_num [utilityBoost]

namespace EngramStore

def listDocumentsInCollection (store : EngramStore) (collection : String) : List Document :=
  (store.documents.inOrder.map (·.2)).filter fun doc => doc.collection == collection

section

variable (setting : CallSetting) (boost : Rat) (metadata : Table String String)

/-- One document of the loop; a failure to raise the utility is ignored. -/
def promoteDocument (store : EngramStore) (doc : Document) :
    EngramStore × Except EngramError Unit :=
  (store.updateUtility setting doc.docid boost).1.mergeMetadata setting doc.collection doc.path
    metadata

/-- The loop over the documents. The first failure ends it. -/
def promoteLoop (store : EngramStore) (promoted : Nat) :
    List Document → EngramStore × Except EngramError Nat
  | [] => (store, .ok promoted)
  | doc :: rest =>
      match store.promoteDocument setting boost metadata doc with
      | (store, .error failure) => (store, .error failure)
      | (store, .ok ()) => store.promoteLoop (promoted + 1) rest

end

end EngramStore

namespace HybridSearchEngine

variable {quant : Quantization} {host : HybridHost quant}

/-- Vectors are moved to the level first; one that cannot be moved stays. -/
def promoteCollection (setting : CallSetting) (engine : HybridSearchEngine host)
    (collection : String) (targetLevel : QuantLevel) (source : String) (mode : PromotionMode)
    (policyOwner : String) : HybridSearchEngine host × Except EngramError Nat :=
  let docs := engine.store.listDocumentsInCollection collection
  let metadata := tierPromotionMetadata targetLevel.debug.toLower (toString setting.nowMs) source
    mode.asStr policyOwner
  let vectorStore := docs.foldl (fun vectors doc =>
    (vectors.changeLevel doc.collection doc.path targetLevel).1) engine.vectorStore
  let (store, promoted) :=
    engine.store.promoteLoop setting (utilityBoost targetLevel) metadata 0 docs
  ({ engine with vectorStore := vectorStore, store := store }, promoted)

end HybridSearchEngine

/-! ## Scores -/

namespace EngramStore

variable {score boost : Rat}

theorem clampScore_bounds (score : Rat) : 0 ≤ clampScore score ∧ clampScore score ≤ 1 := by
  unfold clampScore
  exact ⟨le_max_left _ _, max_le (by norm_num) (min_le_left _ _)⟩

theorem clampScore_nonneg (h : 0 ≤ score) : clampScore score = min 1 score := by
  unfold clampScore
  exact max_eq_right (le_min (by norm_num) h)

theorem clampScore_self (h : 0 ≤ score) (hle : score ≤ 1) : clampScore score = score := by
  rw [clampScore_nonneg h, min_eq_right hle]

theorem clampScore_add (h : 0 ≤ score) (hboost : 0 ≤ boost) :
    clampScore (clampScore score + boost) = clampScore (score + boost) := by
  rw [clampScore_nonneg h, clampScore_nonneg (add_nonneg h hboost),
    clampScore_nonneg (add_nonneg (le_min (by norm_num) h) hboost)]
  rcases le_total score 1 with hle | hge
  · rw [min_eq_right hle]
  · rw [min_eq_left hge, min_eq_left (by linarith), min_eq_left (by linarith)]

theorem clampScore_same_iff (h : 0 ≤ score) (hle : score ≤ 1) (hboost : 0 < boost) (times : Nat) :
    clampScore (score + times * boost) = score ↔ times = 0 ∨ score = 1 := by
  have htimes : (0 : Rat) ≤ times * boost := mul_nonneg (Nat.cast_nonneg times) hboost.le
  rw [clampScore_nonneg (add_nonneg h htimes)]
  constructor
  · intro hsame
    by_contra hother
    obtain ⟨hsome, hbelow⟩ := not_or.mp hother
    have hpos : (0 : Rat) < times * boost :=
      mul_pos (Nat.cast_pos.mpr (Nat.pos_of_ne_zero hsome)) hboost
    have hgrows : score < min 1 (score + times * boost) :=
      lt_min (lt_of_le_of_ne hle hbelow) (by linarith)
    exact absurd hsame (ne_of_gt hgrows)
  · rintro (hnone | htop)
    · rw [hnone, Nat.cast_zero, zero_mul, add_zero, min_eq_right hle]
    · rw [htop]
      exact min_eq_left (by linarith)

/-- Raising a score several times is raising it once if it is done once, if the score is at the
top already, or if once takes it there. -/
theorem clampScore_times_iff (h : 0 ≤ score) (hle : score ≤ 1) (hboost : 0 < boost) (times : Nat) :
    clampScore (score + times * boost) = clampScore (score + boost) ↔
      times = 1 ∨ score = 1 ∨ (1 ≤ times ∧ 1 ≤ score + boost) := by
  cases times with
  | zero =>
      have hraised : clampScore (score + boost) = score ↔ score = 1 := by
        simpa using clampScore_same_iff h hle hboost 1
      have hsame : clampScore (score + (0 : Nat) * boost) = score := by
        rw [Nat.cast_zero, zero_mul, add_zero, clampScore_self h hle]
      rw [hsame, eq_comm, hraised]
      simp
  | succ more =>
      have hmore : (0 : Rat) ≤ more * boost := mul_nonneg (Nat.cast_nonneg more) hboost.le
      have hsum : score + (more + 1 : Nat) * boost = (score + boost) + more * boost := by
        push_cast
        linarith
      rw [hsum]
      by_cases hbelow : score + boost ≤ 1
      · have honce := clampScore_same_iff (by linarith) hbelow hboost more
        rw [clampScore_self (by linarith) hbelow, honce]
        constructor
        · rintro (hnone | htop)
          · exact .inl (by omega)
          · exact .inr (.inr ⟨by omega, htop.ge⟩)
        · rintro (honce | htop | ⟨-, hreached⟩)
          · exact .inl (by omega)
          · exact absurd hbelow (by linarith)
          · exact .inr (le_antisymm hbelow hreached)
      · have hreached : 1 ≤ score + boost := (not_le.mp hbelow).le
        rw [clampScore_nonneg (by linarith), clampScore_nonneg (by linarith), min_eq_left hreached,
          min_eq_left (by linarith)]
        simp only [true_iff]
        exact .inr (.inr ⟨by omega, hreached⟩)

/-! ## Stores that were filled by calls -/

variable {host : EngramHost} {setting : CallSetting} {store store' : EngramStore}
  {collection : String} {metadata : Table String String}

/-- Every document is under the key of its collection and path, with a utility between zero and
one. -/
def Cataloged (store : EngramStore) : Prop :=
  ∀ key doc, store.documents.lookup key = some doc →
    key = documentKey doc.collection doc.path ∧ 0 ≤ doc.utilityScore ∧ doc.utilityScore ≤ 1

theorem Cataloged.insert {key : String} {doc : Document} (h : store.Cataloged)
    (hkey : key = documentKey doc.collection doc.path)
    (hscore : 0 ≤ doc.utilityScore ∧ doc.utilityScore ≤ 1)
    (hdocuments : store'.documents = store.documents.insert key doc) : store'.Cataloged := by
  intro other found hfound
  rw [hdocuments, Table.lookup_insert] at hfound
  split at hfound
  · rename_i hother
    cases hfound
    exact ⟨hother.trans hkey, hscore⟩
  · exact h other found hfound

theorem Cataloged.updateDocument (h : store.Cataloged) {path : String}
    {change : Document → Document} (hidentity : ∀ doc, SameIdentity doc (change doc))
    (hscore : ∀ doc, (change doc).utilityScore = doc.utilityScore) :
    (store.updateDocument collection path change).1.Cataloged := by
  unfold EngramStore.updateDocument
  cases hdoc : store.getByPath collection path with
  | none => exact h
  | some doc =>
      obtain ⟨hkey, hbounds⟩ := h _ doc hdoc
      refine h.insert ?_ ?_ rfl
      · rw [(hidentity doc).collection, (hidentity doc).path]
        exact hkey
      · rw [hscore]
        exact hbounds

theorem Cataloged.updateUtility (h : store.Cataloged) (docid : String) (boost : Rat) :
    (store.updateUtility setting docid boost).1.Cataloged := by
  unfold EngramStore.updateUtility
  cases hkey : store.docidMap.lookup docid with
  | none => exact h
  | some key =>
      cases hdoc : store.getByDocKey key with
      | none =>
          simp only [hdoc]
          exact h
      | some doc =>
          simp only [hdoc]
          refine h.insert ?_ ?_ rfl
          · exact (h key doc hdoc).1
          · exact clampScore_bounds (doc.utilityScore + boost)

theorem Cataloged.storeDocument (h : store.Cataloged) {path title body : String}
    {unverified : Bool} :
    (store.storeDocument host setting collection path title body unverified
      metadata).1.Cataloged := by
  by_cases hsize : body.utf8ByteSize ≤ store.config.maxContentSize
  · obtain ⟨hdocuments, -⟩ := store.storeDocument_fields host setting collection path title
      unverified metadata hsize
    obtain ⟨-, -, hcollection, hpath, -⟩ := storedDocument_fields host setting store collection
      path title body unverified metadata
    refine h.insert ?_ ?_ hdocuments
    · rw [hcollection, hpath]
    · unfold storedDocument
      cases hexisting : store.getByDocKey (documentKey collection path) with
      | none => exact ⟨le_refl 0, zero_le_one⟩
      | some existing => exact (h _ existing hexisting).2
  · rw [storeDocument_tooLarge (by omega)]
    exact h

theorem Cataloged.deleteDocument (h : store.Cataloged) {path : String} :
    (store.deleteDocument host setting collection path).Cataloged := by
  intro key doc hdoc
  change (store.documents.erase (documentKey collection path)).lookup key = some doc at hdoc
  rw [Table.lookup_erase] at hdoc
  split at hdoc
  · cases hdoc
  · exact h key doc hdoc

theorem Cataloged.perform (h : store.Cataloged) (call : EngramCall) :
    (store.perform host call).Cataloged := by
  obtain ⟨setting, op⟩ := call
  have hchanged : ∀ (collection path : String) (change : Document → Document),
      (∀ doc, SameIdentity doc (change doc)) →
        (∀ doc, (change doc).utilityScore = doc.utilityScore) →
          (store.updateDocument collection path change).1.Cataloged :=
    fun _ _ _ hidentity hscore => h.updateDocument hidentity hscore
  cases op with
  | storeDocument collection path title body unverified metadata =>
      show (store.storeDocument host setting collection path title body unverified
        metadata).1.Cataloged
      exact h.storeDocument
  | deleteDocument collection path =>
      show (store.deleteDocument host setting collection path).Cataloged
      exact h.deleteDocument
  | markVerified collection path =>
      exact hchanged _ _ _ (fun _ => ⟨rfl, rfl, rfl, rfl⟩) fun _ => rfl
  | markPendingReview collection path summary =>
      exact hchanged _ _ _ (fun _ => ⟨rfl, rfl, rfl, rfl⟩) fun _ => rfl
  | updateSummary collection path summary =>
      exact hchanged _ _ _ (fun _ => ⟨rfl, rfl, rfl, rfl⟩) fun _ => rfl
  | mergeMetadata collection path metadata =>
      exact hchanged _ _ _ (fun _ => ⟨rfl, rfl, rfl, rfl⟩) fun _ => rfl
  | archiveDocument collection path archivedAtMs metadata =>
      exact hchanged _ _ _ (fun _ => ⟨rfl, rfl, rfl, rfl⟩) fun _ => rfl
  | updateUtility docid increment =>
      show (store.updateUtility setting docid increment).1.Cataloged
      exact h.updateUtility docid increment

/-! ## The loop -/

theorem updateDocument_lookup (store : EngramStore) (collection path key : String)
    (change : Document → Document) :
    (store.updateDocument collection path change).1.documents.lookup key =
      (store.documents.lookup key).map fun doc =>
        if key = documentKey collection path then change doc else doc := by
  unfold updateDocument
  cases hdoc : store.getByPath collection path with
  | none =>
      by_cases hkey : key = documentKey collection path
      · have hnone : store.documents.lookup key = none := hkey ▸ hdoc
        rw [hnone]
        rfl
      · simp [hkey]
  | some doc =>
      dsimp only
      rw [Table.lookup_insert]
      by_cases hkey : key = documentKey collection path
      · have hsome : store.documents.lookup key = some doc := hkey ▸ hdoc
        rw [if_pos hkey, hsome, Option.map_some, if_pos hkey]
      · simp [hkey]

theorem updateUtility_lookup (store : EngramStore) (setting : CallSetting) (docid key : String)
    (boost : Rat) :
    (store.updateUtility setting docid boost).1.documents.lookup key =
      (store.documents.lookup key).map fun doc =>
        if store.docidMap.lookup docid = some key then rescored setting boost doc else doc := by
  unfold updateUtility
  cases hnamed : store.docidMap.lookup docid with
  | none => simp
  | some named =>
      dsimp only
      cases hdoc : store.getByDocKey named with
      | none =>
          by_cases hkey : named = key
          · have hnone : store.documents.lookup key = none := hkey ▸ hdoc
            rw [hnone]
            rfl
          · simp [hkey]
      | some doc =>
          dsimp only
          rw [Table.lookup_insert]
          by_cases hkey : key = named
          · have hsome : store.documents.lookup key = some doc := hkey ▸ hdoc
            rw [if_pos hkey, hsome, Option.map_some, if_pos (by rw [hkey])]
          · have hother : ¬some named = some key := fun heq => hkey (Option.some.inj heq).symm
            simp [hkey, hother]

def leads (store : EngramStore) (key : String) (doc : Document) : Bool :=
  decide (store.docidMap.lookup doc.docid = some key)

theorem promoteDocument_lookup (store : EngramStore) (setting : CallSetting) (doc : Document)
    (boost : Rat) (metadata : Table String String) (key : String) :
    (store.promoteDocument setting boost metadata doc).1.documents.lookup key =
      (store.documents.lookup key).map fun found =>
        let found := if store.leads key doc = true then rescored setting boost found else found
        if key = documentKey doc.collection doc.path then
          { found with metadata := metadata ∪ found.metadata, updatedAtMs := setting.nowMs }
        else found := by
  unfold promoteDocument mergeMetadata
  rw [updateDocument_lookup, updateUtility_lookup, Option.map_map]
  unfold leads
  simp only [decide_eq_true_eq]
  rfl

theorem promoteDocument_docidMap (store : EngramStore) (setting : CallSetting) (doc : Document)
    (boost : Rat) (metadata : Table String String) :
    (store.promoteDocument setting boost metadata doc).1.docidMap = store.docidMap := by
  have hutility : ∀ docid, (store.updateUtility setting docid boost).1.docidMap =
      store.docidMap := by
    intro docid
    unfold updateUtility
    split
    · rfl
    · split
      · rfl
      · rfl
  have hdocument : ∀ (store : EngramStore) collection path change,
      (store.updateDocument collection path change).1.docidMap = store.docidMap := by
    intro store collection path change
    unfold updateDocument
    split
    · rfl
    · rfl
  unfold promoteDocument mergeMetadata
  rw [hdocument, hutility]

theorem promoteDocument_ok {doc found : Document}
    (h : store.documents.lookup (documentKey doc.collection doc.path) = some found)
    (setting : CallSetting) (boost : Rat) (metadata : Table String String) :
    (store.promoteDocument setting boost metadata doc).2 = .ok () := by
  have hthere := store.updateUtility_lookup setting doc.docid
    (documentKey doc.collection doc.path) boost
  rw [h] at hthere
  unfold promoteDocument mergeMetadata updateDocument getByPath getByDocKey
  rw [hthere]
  rfl

theorem Cataloged.promoteDocument (h : store.Cataloged) (setting : CallSetting) (boost : Rat)
    (metadata : Table String String) (doc : Document) :
    (store.promoteDocument setting boost metadata doc).1.Cataloged :=
  (h.updateUtility doc.docid boost).updateDocument (fun _ => ⟨rfl, rfl, rfl, rfl⟩) fun _ => rfl

/-- The loop marks the documents it is for and raises a document as often as ids of theirs lead
to it. -/
theorem promoteLoop_spec {docs : List Document} (h : store.Cataloged) (hboost : 0 ≤ boost)
    (setting : CallSetting) (metadata : Table String String) (promoted : Nat)
    (hdocs : ∀ doc ∈ docs, ∃ found,
      store.documents.lookup (documentKey doc.collection doc.path) = some found) :
    (store.promoteLoop setting boost metadata promoted docs).2 = .ok (promoted + docs.length) ∧
      (store.promoteLoop setting boost metadata promoted docs).1.Cataloged ∧
      ∀ key doc, store.documents.lookup key = some doc → ∃ doc',
        (store.promoteLoop setting boost metadata promoted docs).1.documents.lookup key =
            some doc' ∧
          doc'.utilityScore =
            clampScore (doc.utilityScore + docs.countP (store.leads key) * boost) ∧
          ((∀ other ∈ docs, key ≠ documentKey other.collection other.path) →
            doc'.metadata = doc.metadata) := by
  induction docs generalizing store promoted with
  | nil =>
      refine ⟨rfl, h, fun key doc hdoc => ⟨doc, hdoc, ?_, fun _ => rfl⟩⟩
      obtain ⟨-, hnonneg, hle⟩ := h key doc hdoc
      simp [clampScore_self hnonneg hle]
  | cons first rest ih =>
      obtain ⟨found, hfound⟩ := hdocs first List.mem_cons_self
      have hlookup := store.promoteDocument_lookup setting first boost metadata
      have hids := store.promoteDocument_docidMap setting first boost metadata
      have hok := promoteDocument_ok hfound setting boost metadata
      have hcataloged := h.promoteDocument setting boost metadata first
      unfold promoteLoop
      generalize store.promoteDocument setting boost metadata first = after at *
      obtain ⟨store', result⟩ := after
      dsimp only at hlookup hids hok hcataloged ⊢
      subst hok
      have hleads : ∀ key, store'.leads key = store.leads key := by
        intro key
        unfold leads
        rw [hids]
      have hrest : ∀ doc ∈ rest, ∃ found,
          store'.documents.lookup (documentKey doc.collection doc.path) = some found := by
        intro doc hdoc
        obtain ⟨found, hfound⟩ := hdocs doc (List.mem_cons_of_mem _ hdoc)
        rw [hlookup, hfound]
        exact ⟨_, rfl⟩
      obtain ⟨hresult, hkept, heffect⟩ := ih hcataloged (promoted + 1) hrest
      refine ⟨?_, hkept, fun key doc hdoc => ?_⟩
      · dsimp only
        rw [hresult, List.length_cons]
        congr 1
        omega
      · obtain ⟨-, hnonneg, hle⟩ := h key doc hdoc
        have hnext := hlookup key
        rw [hdoc, Option.map_some] at hnext
        obtain ⟨doc', hdoc', hscore, hmetadata⟩ := heffect key _ hnext
        refine ⟨doc', hdoc', ?_, fun hothers => ?_⟩
        · rw [hscore, hleads, List.countP_cons]
          by_cases hfirst : store.leads key first = true
          · have hraised : clampScore (clampScore (doc.utilityScore + boost) +
                rest.countP (store.leads key) * boost) =
                  clampScore (doc.utilityScore + (rest.countP (store.leads key) + 1 : Nat) *
                    boost) := by
              rw [clampScore_add (by linarith) (mul_nonneg (Nat.cast_nonneg _) hboost)]
              push_cast
              congr 1
              linarith
            rw [if_pos hfirst, if_pos hfirst, ← hraised]
            split
            · rfl
            · rfl
          · rw [if_neg hfirst, if_neg hfirst, Nat.add_zero]
            split
            · rfl
            · rfl
        · rw [hmetadata fun other hother => hothers other (List.mem_cons_of_mem _ hother)]
          rw [if_neg (hothers first List.mem_cons_self)]
          split
          · rfl
          · rfl

theorem mem_listDocumentsInCollection {doc : Document} :
    doc ∈ store.listDocumentsInCollection collection ↔
      (∃ key, store.documents.lookup key = some doc) ∧ doc.collection = collection := by
  rw [listDocumentsInCollection, List.mem_filter, List.mem_map, beq_iff_eq]
  refine and_congr_left fun _ => ⟨?_, ?_⟩
  · rintro ⟨entry, hentry, rfl⟩
    exact ⟨entry.1, Table.mem_inOrder.mp hentry⟩
  · rintro ⟨key, hdoc⟩
    exact ⟨⟨key, doc⟩, Table.mem_inOrder.mpr hdoc, rfl⟩

/-- Every document of the collection has been raised once and the others have kept utility and
metadata. -/
structure Promoted (store store' : EngramStore) (collection : String) (boost : Rat) : Prop where
  raised : ∀ key doc, store.documents.lookup key = some doc → doc.collection = collection →
    ∃ doc', store'.documents.lookup key = some doc' ∧
      doc'.utilityScore = clampScore (doc.utilityScore + boost)
  kept : ∀ key doc, store.documents.lookup key = some doc → doc.collection ≠ collection →
    ∃ doc', store'.documents.lookup key = some doc' ∧ doc'.utilityScore = doc.utilityScore ∧
      doc'.metadata = doc.metadata

def namings (store : EngramStore) (collection key : String) : Nat :=
  (store.listDocumentsInCollection collection).countP (store.leads key)

/-- The ids of the collection lead to each of its documents once and to no other document, as
far as it shows in the utility. -/
def NamesOwn (store : EngramStore) (collection : String) (boost : Rat) : Prop :=
  ∀ key doc, store.documents.lookup key = some doc →
    if doc.collection = collection then
      store.namings collection key = 1 ∨ doc.utilityScore = 1 ∨
        (1 ≤ store.namings collection key ∧ 1 ≤ doc.utilityScore + boost)
    else store.namings collection key = 0 ∨ doc.utilityScore = 1

theorem promoteLoop_exact_iff (h : store.Cataloged) (hboost : 0 < boost) (setting : CallSetting)
    (metadata : Table String String) :
    Promoted store (store.promoteLoop setting boost metadata 0
        (store.listDocumentsInCollection collection)).1 collection boost ↔
      store.NamesOwn collection boost := by
  have hdocs : ∀ doc ∈ store.listDocumentsInCollection collection, ∃ found,
      store.documents.lookup (documentKey doc.collection doc.path) = some found := by
    intro doc hdoc
    obtain ⟨⟨key, hlookup⟩, -⟩ := mem_listDocumentsInCollection.mp hdoc
    exact ⟨doc, (h key doc hlookup).1 ▸ hlookup⟩
  obtain ⟨-, -, heffect⟩ := promoteLoop_spec h hboost.le setting metadata 0 hdocs
  constructor
  · intro hpromoted key doc hdoc
    obtain ⟨-, hnonneg, hle⟩ := h key doc hdoc
    obtain ⟨doc', hdoc', hscore, -⟩ := heffect key doc hdoc
    by_cases hcollection : doc.collection = collection
    · rw [if_pos hcollection]
      obtain ⟨raised, hraised, honce⟩ := hpromoted.raised key doc hdoc hcollection
      rw [hdoc'] at hraised
      cases hraised
      rw [hscore] at honce
      exact (clampScore_times_iff hnonneg hle hboost _).mp honce
    · rw [if_neg hcollection]
      obtain ⟨kept, hkept, hsame, -⟩ := hpromoted.kept key doc hdoc hcollection
      rw [hdoc'] at hkept
      cases hkept
      rw [hscore] at hsame
      exact (clampScore_same_iff hnonneg hle hboost _).mp hsame
  · intro hnames
    constructor
    · intro key doc hdoc hcollection
      obtain ⟨-, hnonneg, hle⟩ := h key doc hdoc
      obtain ⟨doc', hdoc', hscore, -⟩ := heffect key doc hdoc
      have hnamed := hnames key doc hdoc
      rw [if_pos hcollection] at hnamed
      exact ⟨doc', hdoc', hscore.trans ((clampScore_times_iff hnonneg hle hboost _).mpr hnamed)⟩
    · intro key doc hdoc hcollection
      obtain ⟨hkey, hnonneg, hle⟩ := h key doc hdoc
      obtain ⟨doc', hdoc', hscore, hmetadata⟩ := heffect key doc hdoc
      have hnamed := hnames key doc hdoc
      rw [if_neg hcollection] at hnamed
      refine ⟨doc', hdoc', hscore.trans ((clampScore_same_iff hnonneg hle hboost _).mpr hnamed),
        hmetadata fun other hother hsame => ?_⟩
      obtain ⟨⟨otherKey, hlookup⟩, hin⟩ := mem_listDocumentsInCollection.mp hother
      rw [← (h otherKey other hlookup).1] at hsame
      rw [← hsame, hdoc] at hlookup
      cases hlookup
      exact hcollection hin

end EngramStore

/-! ## Runs -/

inductive PromotionEvent where
  | call (call : EngramCall)
  | promote (setting : CallSetting) (collection : String) (targetLevel : QuantLevel)
      (source : String) (mode : PromotionMode) (policyOwner : String)

namespace HybridSearchEngine

variable {quant : Quantization} {host : HybridHost quant}

def occur (engine : HybridSearchEngine host) : PromotionEvent → HybridSearchEngine host
  | .call call => { engine with store := engine.store.perform host.engram call }
  | .promote setting collection targetLevel source mode policyOwner =>
      (engine.promoteCollection setting collection targetLevel source mode policyOwner).1

def runEvents (engine : HybridSearchEngine host) (events : List PromotionEvent) :
    HybridSearchEngine host :=
  events.foldl occur engine

theorem promoteCollection_cataloged (engine : HybridSearchEngine host)
    (h : engine.store.Cataloged) (setting : CallSetting) (collection : String)
    (targetLevel : QuantLevel) (source : String) (mode : PromotionMode) (policyOwner : String) :
    (engine.promoteCollection setting collection targetLevel source mode
      policyOwner).1.store.Cataloged := by
  have hdocs : ∀ doc ∈ engine.store.listDocumentsInCollection collection, ∃ found,
      engine.store.documents.lookup (documentKey doc.collection doc.path) = some found := by
    intro doc hdoc
    obtain ⟨⟨key, hlookup⟩, -⟩ := EngramStore.mem_listDocumentsInCollection.mp hdoc
    exact ⟨doc, (h key doc hlookup).1 ▸ hlookup⟩
  exact (EngramStore.promoteLoop_spec h (utilityBoost_pos targetLevel).le setting _ 0 hdocs).2.1

theorem runEvents_cataloged (config : HybridSearchConfig host.scoring.Score) (dimension : Nat)
    (metric : VectorMetric) (events : List PromotionEvent) :
    ((HybridSearchEngine.new config dimension metric : HybridSearchEngine host).runEvents
      events).store.Cataloged := by
  induction events using List.reverseRecOn with
  | nil =>
      intro key doc hdoc
      simp [runEvents, HybridSearchEngine.new] at hdoc
  | append_singleton events event ih =>
      rw [runEvents, List.foldl_append]
      cases event with
      | call call => exact ih.perform call
      | promote setting collection targetLevel source mode policyOwner =>
          exact promoteCollection_cataloged _ ih setting collection targetLevel source mode
            policyOwner

end HybridSearchEngine

end BenShu.Engram
