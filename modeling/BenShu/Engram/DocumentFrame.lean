import BenShu.Engram.DocumentUpdates
import BenShu.Engram.FtsAgreement

/-!
# What calls leave alone

Documents and text-index entries are kept under the collection and the path with a
colon between them. A call for one document leaves another one alone if the two keys
differ, and a change of utility if the id leads elsewhere.
-/

namespace BenShu.Engram

namespace EngramStore

variable {host : EngramHost} {setting : CallSetting} {store store' : EngramStore}
  {collection path other otherPath : String}

/-- What holds of every store that was filled by calls. -/
structure Kept (host : EngramHost) (store : EngramStore) : Prop where
  indexed : store.fts.Indexed
  exact : store.fts.Exact
  hashed : ∀ hash text, store.contents.lookup hash = some text →
    host.hashContent text = hash ∧ text.utf8ByteSize ≤ store.config.maxContentSize
  filed : ∀ key doc, store.documents.lookup key = some doc →
    (store.contents.lookup doc.contentHash).isSome = true

theorem new_kept (host : EngramHost) (config : EngramStoreConfig) :
    Kept host { config := config } where
  indexed := FtsEngine.new_indexed
  exact := fun _ _ => rfl
  hashed := by simp
  filed := by simp

/-! ## The text index -/

theorem storeDocument_fts (h : store.fts.Indexed) (hexact : store.fts.Exact) (host : EngramHost)
    (setting : CallSetting) (collection path title body : String) (unverified : Bool)
    (metadata : Table String String) :
    let stored := (store.storeDocument host setting collection path title body unverified metadata).1
    stored.fts.Indexed ∧ stored.fts.Exact ∧ ∀ key, key ≠ documentKey collection path →
      stored.fts.forward.lookup key = store.fts.forward.lookup key := by
  unfold storeDocument
  split
  · exact ⟨h, hexact, fun _ _ => rfl⟩
  · dsimp only
    split
    · obtain ⟨fts, hok, hindexed, hkeeps, hforward, -⟩ :=
        FtsEngine.indexDocument_indexed host.fts setting.order h (documentKey collection path) body
      rw [hok]
      refine ⟨hindexed, hkeeps hexact, ?_⟩
      intro key hkey
      show fts.forward.lookup key = _
      rw [hforward, Table.lookup_insert, if_neg hkey]
    · exact ⟨h, hexact, fun _ _ => rfl⟩

theorem deleteDocument_fts (h : store.fts.Indexed) (hexact : store.fts.Exact) (host : EngramHost)
    (setting : CallSetting) (collection path : String) :
    let deleted := store.deleteDocument host setting collection path
    deleted.fts.Indexed ∧ deleted.fts.Exact ∧ ∀ key, key ≠ documentKey collection path →
      deleted.fts.forward.lookup key = store.fts.forward.lookup key := by
  obtain ⟨fts, hok, hindexed, hkeeps, hforward, -⟩ :=
    FtsEngine.deleteDocument_indexed host.fts setting.order h (documentKey collection path)
  unfold deleteDocument
  dsimp only
  rw [hok]
  refine ⟨hindexed, hkeeps hexact, ?_⟩
  intro key hkey
  rw [hforward, Table.lookup_erase, if_neg hkey]

/-! ## Calls keep the store -/

theorem storeDocument_kept (h : Kept host store) {title body : String} {unverified : Bool}
    {metadata : Table String String} :
    Kept host
      (store.storeDocument host setting collection path title body unverified metadata).1 := by
  obtain ⟨hindexed, hexact, -⟩ := storeDocument_fts h.indexed h.exact host setting collection
    path title body unverified metadata
  by_cases hsize : body.utf8ByteSize ≤ store.config.maxContentSize
  · obtain ⟨hdocuments, hcontents, -, hconfig⟩ :=
      store.storeDocument_fields host setting collection path title unverified metadata hsize
    obtain ⟨-, hhash, -⟩ :=
      storedDocument_fields host setting store collection path title body unverified metadata
    refine ⟨hindexed, hexact, ?_, ?_⟩
    · intro hash text htext
      rw [hcontents, Table.lookup_insert] at htext
      rw [hconfig]
      split at htext
      · rename_i heq
        cases htext
        exact ⟨heq.symm, hsize⟩
      · exact h.hashed hash text htext
    · intro key doc hdoc
      rw [hdocuments, Table.lookup_insert] at hdoc
      rw [hcontents, Table.lookup_insert]
      split at hdoc
      · cases hdoc
        rw [hhash, if_pos rfl]
        rfl
      · split
        · rfl
        · exact h.filed key doc hdoc
  · rw [storeDocument_tooLarge (by omega)]
    exact h

theorem deleteDocument_kept (h : Kept host store) :
    Kept host (store.deleteDocument host setting collection path) := by
  obtain ⟨hindexed, hexact, -⟩ := deleteDocument_fts h.indexed h.exact host setting
    collection path
  refine ⟨hindexed, hexact, h.hashed, ?_⟩
  intro key doc hdoc
  change (store.documents.erase (documentKey collection path)).lookup key = some doc at hdoc
  rw [Table.lookup_erase] at hdoc
  split at hdoc
  · cases hdoc
  · exact h.filed key doc hdoc

theorem Updated.kept (hupdated : Updated store store') (h : Kept host store) :
    Kept host store' := by
  rcases hupdated with hsame | ⟨key, doc, doc', hdoc, hidentity, hstore⟩
  · rw [hsame]
    exact h
  · rw [hstore]
    refine ⟨h.indexed, h.exact, h.hashed, ?_⟩
    intro other found hfound
    dsimp only at hfound ⊢
    rw [Table.lookup_insert] at hfound
    split at hfound
    · cases hfound
      rw [hidentity.contentHash]
      exact h.filed key doc hdoc
    · exact h.filed other found hfound

theorem perform_kept (h : Kept host store) (call : EngramCall) :
    Kept host (store.perform host call) := by
  obtain ⟨setting, op⟩ := call
  have hupdate : op.IsUpdate → Kept host (store.perform host (setting, op)) :=
    fun hupdate => (perform_updated (setting, op) hupdate).kept h
  cases op with
  | storeDocument collection path title body unverified metadata => exact storeDocument_kept h
  | deleteDocument collection path => exact deleteDocument_kept h
  | _ => exact hupdate trivial

theorem run_kept (h : Kept host store) (calls : List EngramCall) :
    Kept host (run host store calls) := by
  induction calls generalizing store with
  | nil => exact h
  | cons call calls ih => exact ih (perform_kept h call)

/-! ## What belongs to one path -/

/-- The document of the path, its body and its entry in the text index are as before. -/
structure Unchanged (store store' : EngramStore) (collection path : String) : Prop where
  document : store'.getByPath collection path = store.getByPath collection path
  body : (store'.getByPath collection path).bind store'.getContent =
    (store.getByPath collection path).bind store.getContent
  forward : store'.fts.forward.lookup (documentKey collection path) =
    store.fts.forward.lookup (documentKey collection path)
  postings : ∀ term, store'.fts.posting term (documentKey collection path) =
    store.fts.posting term (documentKey collection path)

/-- The postings of a document follow its forward index. -/
theorem unchanged_of (h : Kept host store) (h' : Kept host store')
    (hdocument : store'.getByPath collection path = store.getByPath collection path)
    (hcontents : ∀ doc, store.getByPath collection path = some doc →
      store'.getContent doc = store.getContent doc)
    (hforward : store'.fts.forward.lookup (documentKey collection path) =
      store.fts.forward.lookup (documentKey collection path)) :
    Unchanged store store' collection path where
  document := hdocument
  body := by
    rw [hdocument]
    cases hdoc : store.getByPath collection path with
    | none => rfl
    | some doc => exact hcontents doc hdoc
  forward := hforward
  postings := by
    intro term
    rw [h'.exact, h.exact, FtsEngine.listed, FtsEngine.listed, hforward]

def Fresh (host : EngramHost) (store : EngramStore) (body : String) : Prop :=
  ∀ text, store.contents.lookup (host.hashContent body) = some text → text = body

/-- A call for the document of a path; the one that changes the utility is given the
document's id. -/
def CallAt (host : EngramHost) (store : EngramStore) (collection path : String)
    (call : EngramCall) : Prop :=
  match call.2 with
  | .storeDocument collection' path' _ body _ _ =>
      collection' = collection ∧ path' = path ∧ store.Fresh host body
  | .deleteDocument collection' path' => collection' = collection ∧ path' = path
  | .archiveDocument collection' path' _ _ => collection' = collection ∧ path' = path
  | .updateUtility docid _ =>
      ∃ doc, store.getByPath collection path = some doc ∧ doc.docid = docid
  | _ => False

/-- The keys differ, and the id of the document at the first path does not lead to a
document under the key of the second. -/
def Separate (store : EngramStore) (collection path other otherPath : String) : Prop :=
  documentKey collection path ≠ documentKey other otherPath ∧
    ∀ doc, store.getByPath collection path = some doc →
      store.docidMap.lookup doc.docid = some (documentKey other otherPath) →
        store.getByPath other otherPath = none

theorem getByPath_insert {key : String} {doc : Document} (hkey : key ≠ documentKey other otherPath) :
    ({ store with documents := store.documents.insert key doc } : EngramStore).getByPath other
      otherPath = store.getByPath other otherPath := by
  show (store.documents.insert key doc).lookup _ = store.documents.lookup _
  rw [Table.lookup_insert, if_neg hkey.symm]

theorem storeDocument_unchanged (h : Kept host store) {title body : String} {unverified : Bool}
    {metadata : Table String String} (hfresh : store.Fresh host body)
    (hkey : documentKey collection path ≠ documentKey other otherPath) :
    Unchanged store
      (store.storeDocument host setting collection path title body unverified metadata).1
      other otherPath := by
  have hforward := (storeDocument_fts h.indexed h.exact host setting collection
    path title body unverified metadata).2.2 _ hkey.symm
  apply unchanged_of h (storeDocument_kept h) ?_ ?_ hforward
  · by_cases hsize : body.utf8ByteSize ≤ store.config.maxContentSize
    · obtain ⟨hdocuments, -⟩ :=
        store.storeDocument_fields host setting collection path title unverified metadata hsize
      unfold getByPath getByDocKey
      rw [hdocuments, Table.lookup_insert, if_neg hkey.symm]
    · rw [storeDocument_tooLarge (by omega)]
  · intro doc hdoc
    by_cases hsize : body.utf8ByteSize ≤ store.config.maxContentSize
    · obtain ⟨-, hcontents, -⟩ :=
        store.storeDocument_fields host setting collection path title unverified metadata hsize
      unfold getContent
      rw [hcontents, Table.lookup_insert]
      split
      · rename_i hsame
        obtain ⟨text, htext⟩ := Option.isSome_iff_exists.mp (h.filed _ doc hdoc)
        rw [htext, hfresh text (hsame ▸ htext)]
      · rfl
    · rw [storeDocument_tooLarge (by omega)]

theorem deleteDocument_unchanged (h : Kept host store)
    (hkey : documentKey collection path ≠ documentKey other otherPath) :
    Unchanged store (store.deleteDocument host setting collection path) other otherPath := by
  have hforward := (deleteDocument_fts h.indexed h.exact host setting
    collection path).2.2 _ hkey.symm
  apply unchanged_of h (deleteDocument_kept h) ?_ (fun _ _ => rfl) hforward
  show (store.documents.erase _).lookup _ = store.documents.lookup _
  rw [Table.lookup_erase, if_neg hkey.symm]

theorem updateDocument_unchanged (h : Kept host store) {change : Document → Document}
    (hchange : ∀ doc, SameIdentity doc (change doc))
    (hkey : documentKey collection path ≠ documentKey other otherPath) :
    Unchanged store (store.updateDocument collection path change).1 other otherPath := by
  have hkept : Kept host (store.updateDocument collection path change).1 :=
    (updateDocument_updated hchange collection path).kept h
  unfold updateDocument at hkept ⊢
  cases hdoc : store.getByPath collection path with
  | none => exact ⟨rfl, rfl, rfl, fun _ => rfl⟩
  | some doc =>
      rw [hdoc] at hkept
      exact unchanged_of h hkept (getByPath_insert hkey) (fun _ _ => rfl) rfl

theorem updateUtility_unchanged (h : Kept host store) {docid : String} {increment : Rat}
    (hkey : store.docidMap.lookup docid = some (documentKey other otherPath) →
      store.getByPath other otherPath = none) :
    Unchanged store (store.updateUtility setting docid increment).1 other otherPath := by
  have hkept : Kept host (store.updateUtility setting docid increment).1 :=
    (updateUtility_updated docid increment).kept h
  unfold updateUtility at hkept ⊢
  cases hnamed : store.docidMap.lookup docid with
  | none => exact ⟨rfl, rfl, rfl, fun _ => rfl⟩
  | some key =>
      rw [hnamed] at hkept
      dsimp only at hkept ⊢
      cases hdoc : store.getByDocKey key with
      | none => exact ⟨rfl, rfl, rfl, fun _ => rfl⟩
      | some doc =>
          rw [hdoc] at hkept
          have hne : key ≠ documentKey other otherPath := by
            intro heq
            have hnone := hkey (hnamed.trans (congrArg some heq))
            rw [heq] at hdoc
            exact absurd (hdoc.symm.trans hnone) (by simp)
          exact unchanged_of h hkept (getByPath_insert hne) (fun _ _ => rfl) rfl

theorem perform_unchanged (h : Kept host store)
    (hseparate : store.Separate collection path other otherPath) {call : EngramCall}
    (hcall : store.CallAt host collection path call) :
    Unchanged store (store.perform host call) other otherPath := by
  obtain ⟨setting, op⟩ := call
  cases op with
  | storeDocument collection' path' title body unverified metadata =>
      obtain ⟨hcollection, hpath, hfresh⟩ := hcall
      subst hcollection hpath
      exact storeDocument_unchanged h hfresh hseparate.1
  | deleteDocument collection' path' =>
      obtain ⟨hcollection, hpath⟩ := hcall
      subst hcollection hpath
      exact deleteDocument_unchanged h hseparate.1
  | archiveDocument collection' path' archivedAtMs metadata =>
      obtain ⟨hcollection, hpath⟩ := hcall
      subst hcollection hpath
      exact updateDocument_unchanged h (fun _ => ⟨rfl, rfl, rfl, rfl⟩) hseparate.1
  | updateUtility docid increment =>
      obtain ⟨doc, hdoc, hdocid⟩ := hcall
      subst hdocid
      exact updateUtility_unchanged h (hseparate.2 doc hdoc)
  | _ => cases hcall

/-! ## Calls that meet another document -/

theorem exists_fresh (h : Kept host store) :
    ∃ body, store.Fresh host body ∧ body.utf8ByteSize ≤ store.config.maxContentSize := by
  cases hstored : store.contents.lookup (host.hashContent "") with
  | none =>
      refine ⟨"", ?_, Nat.zero_le _⟩
      intro text htext
      rw [hstored] at htext
      cases htext
  | some text =>
      obtain ⟨hhash, hsize⟩ := h.hashed _ text hstored
      refine ⟨text, ?_, hsize⟩
      intro text' htext'
      rw [hhash, hstored] at htext'
      exact (Option.some.inj htext').symm

theorem exists_changed (h : Kept host store)
    (hkey : documentKey collection path = documentKey other otherPath) :
    ∃ call, store.CallAt host collection path call ∧
      ¬Unchanged store (store.perform host call) other otherPath := by
  cases hdoc : store.getByPath other otherPath with
  | some doc =>
      refine ⟨(⟨0, .same⟩, .deleteDocument collection path), ⟨rfl, rfl⟩, fun hsame => ?_⟩
      have hdocument := hsame.document
      rw [hdoc] at hdocument
      change (store.documents.erase (documentKey collection path)).lookup
        (documentKey other otherPath) = some doc at hdocument
      rw [Table.lookup_erase, if_pos hkey.symm] at hdocument
      cases hdocument
  | none =>
      obtain ⟨body, hfresh, hsize⟩ := exists_fresh h
      refine ⟨(⟨0, .same⟩, .storeDocument collection path "" body false ∅), ⟨rfl, rfl, hfresh⟩,
        fun hsame => ?_⟩
      have hdocument := hsame.document
      rw [hdoc] at hdocument
      obtain ⟨hdocuments, -⟩ :=
        store.storeDocument_fields host ⟨0, .same⟩ collection path "" false ∅ hsize
      unfold getByPath getByDocKey perform at hdocument
      rw [hdocuments, Table.lookup_insert, if_pos hkey.symm] at hdocument
      cases hdocument

theorem updateUtility_changed {docid : String} {found : Document}
    (hnamed : store.docidMap.lookup docid = some (documentKey other otherPath))
    (hfound : store.getByPath other otherPath = some found) :
    ¬Unchanged store (store.updateUtility ⟨found.updatedAtMs + 1, .same⟩ docid 0).1
      other otherPath := by
  intro hsame
  have hdocument := hsame.document
  have hstored : store.getByDocKey (documentKey other otherPath) = some found := hfound
  rw [hfound, updateUtility, hnamed] at hdocument
  dsimp only at hdocument
  rw [hstored] at hdocument
  change (store.documents.insert _ _).lookup (documentKey other otherPath) = _ at hdocument
  rw [Table.lookup_insert, if_pos rfl] at hdocument
  have htime : found.updatedAtMs + 1 = found.updatedAtMs :=
    congrArg Document.updatedAtMs (Option.some.inj hdocument)
  omega

/-- After any run, the calls for the document of one path leave the one of another path
alone exactly when the two are separate. -/
theorem run_frame_iff (host : EngramHost) (config : EngramStoreConfig) (calls : List EngramCall)
    (collection path other otherPath : String) :
    let store := run host { config := config } calls
    (∀ call, store.CallAt host collection path call →
        Unchanged store (store.perform host call) other otherPath) ↔
      store.Separate collection path other otherPath := by
  intro store
  have hkept : Kept host store := run_kept (new_kept host config) calls
  constructor
  · intro hframe
    constructor
    · intro hkey
      obtain ⟨call, hcall, hchanged⟩ := exists_changed hkept hkey
      exact hchanged (hframe call hcall)
    · intro doc hdoc hnamed
      cases hfound : store.getByPath other otherPath with
      | none => rfl
      | some found =>
          have hcall := hframe (⟨found.updatedAtMs + 1, .same⟩, .updateUtility doc.docid 0)
            ⟨doc, hdoc, rfl⟩
          exact absurd hcall (updateUtility_changed hnamed hfound)
  · intro hseparate call hcall
    exact perform_unchanged hkept hseparate hcall

/-- Deleting `docs:a:b` as a document of `docs:a` takes the one of `docs` away. -/
theorem sharedKey_changed :
    let store := run wordEngramHost {}
      [(⟨0, .same⟩, .storeDocument "docs" "a:b" "Title" "text" false ∅)]
    ("docs:a", "b") ≠ ("docs", "a:b") ∧
      store.CallAt wordEngramHost "docs:a" "b" (⟨0, .same⟩, .deleteDocument "docs:a" "b") ∧
      ¬Unchanged store (store.perform wordEngramHost (⟨0, .same⟩, .deleteDocument "docs:a" "b"))
        "docs" "a:b" := by
  intro store
  refine ⟨by decide, ⟨rfl, rfl⟩, fun hsame => ?_⟩
  have hdocument := hsame.document
  have hkey : documentKey "docs:a" "b" = documentKey "docs" "a:b" := by decide
  have hgone : (store.perform wordEngramHost
      (⟨0, .same⟩, .deleteDocument "docs:a" "b")).getByPath "docs" "a:b" = none := by
    show (store.documents.erase (documentKey "docs:a" "b")).lookup (documentKey "docs" "a:b") = none
    rw [Table.lookup_erase, if_pos hkey.symm]
  have hthere : ∃ doc, store.getByPath "docs" "a:b" = some doc := by
    have hsize : "text".utf8ByteSize ≤ ({} : EngramStore).config.maxContentSize := by decide
    obtain ⟨hdocuments, -⟩ := storeDocument_fields wordEngramHost ⟨0, .same⟩ {} "docs" "a:b" "Title"
      false ∅ hsize
    unfold getByPath getByDocKey
    change store.documents = _ at hdocuments
    rw [hdocuments, Table.lookup_insert, if_pos rfl]
    exact ⟨_, rfl⟩
  obtain ⟨doc, hdoc⟩ := hthere
  rw [hgone, hdoc] at hdocument
  cases hdocument

end EngramStore

end BenShu.Engram
