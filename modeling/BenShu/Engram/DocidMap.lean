import BenShu.Engram.DocumentUpdates
import BenShu.Lib.BackIndex
import BenShu.Lib.History

/-!
# The map from document ids

The id of a document is the start of the hash of its body, so documents with equal
bodies share it, and the map names one path for an id.
-/

namespace BenShu.Engram

namespace EngramStore

variable {host : EngramHost} {setting : CallSetting} {store store' : EngramStore}
  {collection path : String}

/-- What is found by an id is stored and has the id, and a stored document is found by
its id, or another one with that id is. -/
structure DocidsSound (store : EngramStore) : Prop where
  found : ∀ docid doc, store.getByDocid docid = some doc →
    doc.docid = docid ∧ ∃ key, store.getByDocKey key = some doc
  covered : ∀ key doc, store.getByDocKey key = some doc →
    ∃ found, store.getByDocid doc.docid = some found ∧ found.docid = doc.docid

def backIndex (store : EngramStore) : BackIndex String String where
  idAt key := (store.documents.lookup key).map (·.docid)
  keyOf docid := store.docidMap.lookup docid

theorem docidsSound_iff (store : EngramStore) :
    store.DocidsSound ↔ store.backIndex.Faithful := by
  constructor
  · intro h
    constructor
    · intro docid key held hnamed hholds
      obtain ⟨doc, hdoc, hdocid⟩ := Option.map_eq_some_iff.mp hholds
      have hnamed' : store.docidMap.lookup docid = some key := hnamed
      have hfound : store.getByDocid docid = some doc := by
        rw [getByDocid, hnamed', Option.bind_some, getByDocKey, hdoc]
      rw [← hdocid, (h.found docid doc hfound).1]
    · intro key docid hholds
      obtain ⟨doc, hdoc, hdocid⟩ := Option.map_eq_some_iff.mp hholds
      obtain ⟨found, hfound, hsame⟩ := h.covered key doc hdoc
      obtain ⟨named, hnamed, hstored⟩ := Option.bind_eq_some_iff.mp hfound
      rw [hdocid] at hnamed hsame
      refine ⟨named, hnamed, ?_⟩
      rw [← hsame]
      exact Option.map_eq_some_iff.mpr ⟨found, hstored, rfl⟩
  · intro h
    constructor
    · intro docid doc hfound
      obtain ⟨named, hnamed, hstored⟩ := Option.bind_eq_some_iff.mp hfound
      have hholds : store.backIndex.idAt named = some doc.docid :=
        Option.map_eq_some_iff.mpr ⟨doc, hstored, rfl⟩
      exact ⟨h.named docid named doc.docid hnamed hholds, named, hstored⟩
    · intro key doc hdoc
      have hholds : store.backIndex.idAt key = some doc.docid :=
        Option.map_eq_some_iff.mpr ⟨doc, hdoc, rfl⟩
      obtain ⟨named, hnamed, hnamedHolds⟩ := h.covered key doc.docid hholds
      obtain ⟨found, hstored, hsame⟩ := Option.map_eq_some_iff.mp hnamedHolds
      refine ⟨found, ?_, hsame⟩
      have hnamed' : store.docidMap.lookup doc.docid = some named := hnamed
      rw [getByDocid, hnamed', Option.bind_some, getByDocKey, hstored]

/-! ## What the calls do to the map -/

theorem Updated.backIndex (h : Updated store store') : store'.backIndex = store.backIndex := by
  rcases h with hsame | ⟨key, doc, doc', hdoc, hidentity, hstore⟩
  · rw [hsame]
  · rw [hstore]
    unfold EngramStore.backIndex
    congr 1
    funext other
    dsimp only
    rw [Table.lookup_insert]
    by_cases hother : other = key
    · rw [if_pos hother, hother, hdoc, Option.map_some, Option.map_some, hidentity.docid]
    · rw [if_neg hother]

theorem storeDocument_backIndex {title body : String} {unverified : Bool}
    {metadata : Table String String} (hsize : body.utf8ByteSize ≤ store.config.maxContentSize) :
    (store.storeDocument host setting collection path title body unverified metadata).1.backIndex =
      store.backIndex.put (documentKey collection path) (getDocid (host.hashContent body)) := by
  obtain ⟨hdocuments, -, hdocidMap, -⟩ :=
    store.storeDocument_fields host setting collection path title unverified metadata hsize
  obtain ⟨hdocid, -⟩ :=
    storedDocument_fields host setting store collection path title body unverified metadata
  unfold EngramStore.backIndex BackIndex.put
  rw [hdocuments, hdocidMap, hdocid]
  congr 1
  · funext key
    dsimp only
    rw [Table.lookup_insert, Function.update_apply]
    split
    · rw [Option.map_some, hdocid]
    · rfl
  · funext docid
    dsimp only
    rw [Table.lookup_insert, Function.update_apply]

theorem deleteDocument_backIndex (host : EngramHost) (setting : CallSetting) :
    (store.deleteDocument host setting collection path).backIndex =
      store.backIndex.erase (documentKey collection path) := by
  unfold EngramStore.backIndex BackIndex.erase deleteDocument getByPath getByDocKey
  congr 1
  · funext key
    dsimp only
    rw [Table.lookup_erase, Function.update_apply]
    split
    · rfl
    · rfl
  · funext docid
    dsimp only
    cases hdoc : store.documents.lookup (documentKey collection path) with
    | none => rfl
    | some doc =>
        dsimp only [Option.map_some]
        rw [Table.lookup_erase, Function.update_apply]

/-! ## Runs -/

/-- The call leaves the map sound: a document is stored at a path that no other id is
mapped to, or removed while no other document has its id. -/
def KeepsDocids (host : EngramHost) (store : EngramStore) (call : EngramCall) : Prop :=
  match call.2 with
  | .storeDocument collection path _ body _ _ =>
      body.utf8ByteSize ≤ store.config.maxContentSize →
        ∀ docid, store.docidMap.lookup docid = some (documentKey collection path) →
          docid = getDocid (host.hashContent body)
  | .deleteDocument collection path =>
      ∀ doc, store.getByPath collection path = some doc → ∀ key other,
        store.getByDocKey key = some other → other.docid = doc.docid →
          key = documentKey collection path
  | _ => True

theorem perform_docidsSound (h : store.DocidsSound) (call : EngramCall) :
    (store.perform host call).DocidsSound ↔ store.KeepsDocids host call := by
  obtain ⟨setting, op⟩ := call
  rw [docidsSound_iff] at h ⊢
  have hupdate : op.IsUpdate → (store.perform host (setting, op)).backIndex.Faithful := by
    intro hupdate
    rw [(perform_updated (setting, op) hupdate).backIndex]
    exact h
  cases op with
  | storeDocument collection path title body unverified metadata =>
      by_cases hsize : body.utf8ByteSize ≤ store.config.maxContentSize
      · have hindex : (store.perform host (setting,
            .storeDocument collection path title body unverified metadata)).backIndex = _ :=
          storeDocument_backIndex hsize
        rw [hindex, BackIndex.faithful_put_iff h]
        constructor
        · intro honly _
          exact honly
        · intro honly
          exact honly hsize
      · have hsame : store.perform host (setting,
            .storeDocument collection path title body unverified metadata) = store :=
          storeDocument_tooLarge (by omega)
        rw [hsame]
        exact iff_of_true h fun hfits => absurd hfits hsize
  | deleteDocument collection path =>
      have hindex : (store.perform host (setting, .deleteDocument collection path)).backIndex = _ :=
        deleteDocument_backIndex host setting
      rw [hindex, BackIndex.faithful_erase_iff h]
      constructor
      · intro honly doc hdoc key other hother hsame
        exact honly doc.docid (Option.map_eq_some_iff.mpr ⟨doc, hdoc, rfl⟩) key
          (Option.map_eq_some_iff.mpr ⟨other, hother, hsame⟩)
      · intro honly docid hholds key hother
        obtain ⟨doc, hdoc, hdocid⟩ := Option.map_eq_some_iff.mp hholds
        obtain ⟨other, hstored, hsame⟩ := Option.map_eq_some_iff.mp hother
        exact honly doc hdoc key other hstored (hsame.trans hdocid.symm)
  | _ => exact iff_of_true (hupdate trivial) trivial

theorem new_docidsSound (config : EngramStoreConfig) :
    ({ config := config } : EngramStore).DocidsSound :=
  (docidsSound_iff _).mpr BackIndex.faithful_empty

/-- The map is sound in every state of a run exactly when every call keeps it so. -/
theorem run_docidsSound_iff (host : EngramHost) (config : EngramStoreConfig)
    (calls : List EngramCall) :
    (∀ pre, pre <+: calls → (run host { config := config } pre).DocidsSound) ↔
      History.Preceded (fun pre call =>
        (run host { config := config } pre).KeepsDocids host call) calls :=
  @History.foldl_throughout_iff _ calls _ (perform host) _ (fun _ => True) _ _ trivial
    (new_docidsSound config) fun call _ _ _ => ⟨trivial, fun h => perform_docidsSound h call⟩

def storeText (path : String) : EngramCall :=
  (⟨0, .same⟩, .storeDocument "docs" path "Title" "text" false ∅)

theorem storeText_backIndex (path : String) (hconfig : store.config = {}) :
    (store.perform wordEngramHost (storeText path)).backIndex =
      store.backIndex.put (documentKey "docs" path) "text" :=
  storeDocument_backIndex (by rw [hconfig]; decide)

/-- A document is no longer found by its id when one with the same body is deleted. -/
theorem sharedBody_lost :
    ¬(run wordEngramHost {}
      [storeText "a", storeText "b", (⟨0, .same⟩, .deleteDocument "docs" "b")]).DocidsSound := by
  have hfirst : (run wordEngramHost {} [storeText "a"]).backIndex = _ :=
    storeText_backIndex "a" rfl
  have hsecond : (run wordEngramHost {} [storeText "a", storeText "b"]).backIndex =
      (run wordEngramHost {} [storeText "a"]).backIndex.put (documentKey "docs" "b") "text" :=
    storeText_backIndex "b" (run_config [storeText "a"])
  have hthird : (run wordEngramHost {}
      [storeText "a", storeText "b", (⟨0, .same⟩, .deleteDocument "docs" "b")]).backIndex =
      (run wordEngramHost {} [storeText "a", storeText "b"]).backIndex.erase
        (documentKey "docs" "b") := deleteDocument_backIndex wordEngramHost ⟨0, .same⟩
  intro h
  rw [docidsSound_iff, hthird, hsecond, hfirst] at h
  obtain ⟨named, hnamed, -⟩ := h.covered "docs:a" "text" (by decide)
  have hnone : some named = none := hnamed.symm.trans (by decide)
  cases hnone

end EngramStore

end BenShu.Engram
