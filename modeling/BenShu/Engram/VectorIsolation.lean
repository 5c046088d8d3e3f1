import BenShu.Engram.VectorSearch

/-!
# Isolation of collections

The keys of two collections can coincide or begin alike when a name holds a colon.
As long as no call makes use of that, a search finds documents of its collection
only and the calls for other collections leave its documents alone.
-/

namespace BenShu.Engram

namespace VectorStore

variable {quant : Quantization} {store store' : VectorStore quant}
  {collection other path docid key : String}

def keyPrefix (collection : String) : String := s!"v:{collection}:"

def Stores (store : VectorStore quant) (collection path docid : String) : Prop :=
  ∃ key entry, store.kv.vectors.lookup key = some entry ∧
    entry.collection = collection ∧ entry.path = path ∧ entry.docid = docid

def Owns (store : VectorStore quant) (collection key : String) : Prop :=
  ∃ entry, store.kv.vectors.lookup key = some entry ∧ entry.collection = collection

/-- No vector of another collection is under a key that the graphs' search takes for
one of the collection. -/
def Apart (collection : String) (store : VectorStore quant) : Prop :=
  store.annContractEnabled → ∀ key entry, store.kv.vectors.lookup key = some entry →
    Text.startsWith key (keyPrefix collection) = true → entry.collection = collection

/-- The call is for another collection and takes a key of the collection: it replaces
or removes the vector there, or stores one under a key that begins like its keys. -/
def Intrudes (collection : String) (store : VectorStore quant) : VectorOp quant → Prop
  | .add other path _ _ _ | .addAtLevel other path _ _ _ _ =>
      other ≠ collection ∧ (store.Owns collection (vectorKey other path) ∨
        store.annContractEnabled ∧
          Text.startsWith (vectorKey other path) (keyPrefix collection) = true)
  | .remove other path => other ≠ collection ∧ store.Owns collection (vectorKey other path)
  | .changeLevel _ _ _ | .save => False

/-! ## Documents of the collection -/

theorem SameVectors.stores (h : SameVectors store store') :
    Stores store' collection path docid ↔ Stores store collection path docid := by
  unfold Stores
  rw [h.vectors]

/-- Stores that differ under one key only, and there have the same documents of the
collection or none. -/
theorem stores_congr_at (key : String)
    (hsame : ∀ found, found ≠ key → store'.kv.vectors.lookup found = store.kv.vectors.lookup found)
    (hkey : (∃ entry, store'.kv.vectors.lookup key = some entry ∧
        entry.collection = collection ∧ entry.path = path ∧ entry.docid = docid) ↔
      ∃ entry, store.kv.vectors.lookup key = some entry ∧
        entry.collection = collection ∧ entry.path = path ∧ entry.docid = docid) :
    Stores store' collection path docid ↔ Stores store collection path docid := by
  unfold Stores
  apply exists_congr
  intro found
  by_cases hfound : found = key
  · rw [hfound]
    exact hkey
  · rw [hsame found hfound]

theorem Erased.stores (h : Erased store store' key) (hkey : ¬store.Owns collection key) :
    Stores store' collection path docid ↔ Stores store collection path docid := by
  apply stores_congr_at key
  · intro found hfound
    rw [h.vectors, Table.lookup_erase, if_neg hfound]
  · rw [h.vectors, Table.lookup_erase, if_pos rfl]
    constructor
    · intro hstored
      rcases hstored with ⟨entry, hentry, -⟩
      cases hentry
    · intro hstored
      rcases hstored with ⟨entry, hentry, hcollection, -⟩
      exact absurd ⟨entry, hentry, hcollection⟩ hkey

theorem Put.stores {entry : VectorEntry quant} {embedding : quant.Vec}
    (h : Put store store' key entry embedding) (hentry : entry.collection ≠ collection)
    (hkey : ¬store.Owns collection key) :
    Stores store' collection path docid ↔ Stores store collection path docid := by
  apply stores_congr_at key
  · intro found hfound
    rw [h.vectors, Table.lookup_insert, if_neg hfound]
  · rw [h.vectors, Table.lookup_insert, if_pos rfl]
    constructor
    · intro hstored
      rcases hstored with ⟨stored, hstored, hcollection, -⟩
      cases hstored
      exact absurd hcollection hentry
    · intro hstored
      rcases hstored with ⟨stored, hstored, hcollection, -⟩
      exact absurd ⟨stored, hstored, hcollection⟩ hkey

theorem Put.stores_old {entry old : VectorEntry quant} {embedding : quant.Vec}
    (h : Put store store' key entry embedding) (hold : store.kv.vectors.lookup key = some old)
    (hdocid : entry.docid = old.docid) (hcollection : entry.collection = old.collection)
    (hpath : entry.path = old.path) :
    Stores store' collection path docid ↔ Stores store collection path docid := by
  apply stores_congr_at key
  · intro found hfound
    rw [h.vectors, Table.lookup_insert, if_neg hfound]
  · rw [h.vectors, Table.lookup_insert, if_pos rfl, hold]
    constructor
    · intro hstored
      rcases hstored with ⟨stored, hstored, hdocument⟩
      cases hstored
      rw [hcollection, hpath, hdocid] at hdocument
      exact ⟨old, rfl, hdocument⟩
    · intro hstored
      rcases hstored with ⟨stored, hstored, hdocument⟩
      cases hstored
      rw [← hcollection, ← hpath, ← hdocid] at hdocument
      exact ⟨entry, rfl, hdocument⟩

theorem Step.stores {added : Option String} (h : Step store store' other path added)
    (hother : other ≠ collection) (hkey : ¬store.Owns collection (vectorKey other path))
    {found : String} :
    Stores store' collection found docid ↔ Stores store collection found docid := by
  cases h with
  | same h keeps => exact h.stores
  | put entry embedding h keeps origin =>
      rcases origin with ⟨-, hcollection, -⟩ | ⟨old, hold, hdocid, hcollection, hpath⟩
      · exact h.stores (by rw [hcollection]; exact hother) hkey
      · exact h.stores_old hold hdocid hcollection hpath
  | erased h keeps => exact h.stores hkey

theorem Changed.stores (h : Changed store store' other path none) {found : String} :
    Stores store' collection found docid ↔ Stores store collection found docid := by
  rcases h with ⟨hsame, -⟩ | ⟨entry, embedding, hput, -, horigin⟩
  · exact hsame.stores
  · rcases horigin with ⟨hnone, -⟩ | ⟨old, hold, hdocid, hcollection, hpath⟩
    · cases hnone
    · exact hput.stores_old hold hdocid hcollection hpath

/-! ## Keys of the collection -/

theorem SameVectors.apart (h : SameVectors store store') (hapart : Apart collection store) :
    Apart collection store' := by
  unfold Apart
  rw [h.ann, h.vectors]
  exact hapart

theorem Put.apart {entry : VectorEntry quant} {embedding : quant.Vec}
    (h : Put store store' key entry embedding)
    (hentry : store.annContractEnabled → Text.startsWith key (keyPrefix collection) = true →
      entry.collection = collection) (hapart : Apart collection store) :
    Apart collection store' := by
  intro hann found stored hlookup hbegins
  have hbefore := h.ann.mp hann
  rw [h.vectors, Table.lookup_insert] at hlookup
  by_cases hfound : found = key
  · rw [if_pos hfound] at hlookup
    cases hlookup
    rw [hfound] at hbegins
    exact hentry hbefore hbegins
  · rw [if_neg hfound] at hlookup
    exact hapart hbefore found stored hlookup hbegins

theorem Erased.apart (h : Erased store store' key) (hapart : Apart collection store) :
    Apart collection store' := by
  intro hann found stored hlookup hbegins
  have hbefore : store.annContractEnabled := by
    unfold annContractEnabled at hann ⊢
    rwa [h.metric] at hann
  rw [h.vectors, Table.lookup_erase] at hlookup
  by_cases hfound : found = key
  · rw [if_pos hfound] at hlookup
    cases hlookup
  · rw [if_neg hfound] at hlookup
    exact hapart hbefore found stored hlookup hbegins

theorem Step.apart {added : Option String} (h : Step store store' other path added)
    (hadded : added.isSome = true → other = collection ∨ ¬(store.annContractEnabled ∧
      Text.startsWith (vectorKey other path) (keyPrefix collection) = true))
    (hapart : Apart collection store) : Apart collection store' := by
  cases h with
  | same h keeps => exact h.apart hapart
  | erased h keeps => exact h.apart hapart
  | put entry embedding h keeps origin =>
      apply h.apart ?_ hapart
      intro hann hbegins
      rcases origin with ⟨hdocid, hcollection, -⟩ | ⟨old, hold, -, hcollection, -⟩
      · rcases hadded (by rw [hdocid]; rfl) with hsame | haway
        · rw [hcollection, hsame]
        · exact absurd ⟨hann, hbegins⟩ haway
      · rw [hcollection]
        exact hapart hann _ old hold hbegins

end VectorStore

/-! ## Runs -/

namespace VectorSession

open VectorStore

variable {quant : Quantization} {format : SnapshotFormat quant} {collection : String}

def Added (ops : List (VectorOp quant)) (collection path docid : String) : Prop :=
  ∃ op ∈ ops, op.target = some (collection, path) ∧ op.docid = some docid

/-- Every result of a search is of a document that was added under the collection,
whatever earlier searches have left in the cache. -/
def SearchIsolated (collection : String) (ops : List (VectorOp quant))
    (store : VectorStore quant) : Prop :=
  ∀ (scoring : Scoring quant) cache query order graphSearch limit searched results,
    VectorStore.search scoring { store with decodedCache := cache } query order graphSearch
        collection limit = .ok (searched, results) →
      ∀ result ∈ results, result.collection = collection ∧
        Added ops collection result.path result.docid

theorem run_added (dimension : Nat) (metric : VectorMetric) (ops : List (VectorOp quant)) :
    ∀ key entry,
      ((VectorSession.new format dimension metric).run ops).store.kv.vectors.lookup key =
        some entry → Added ops entry.collection entry.path entry.docid := by
  induction ops using List.reverseRecOn with
  | nil =>
      intro key entry hlookup
      cases hlookup
  | append_singleton ops op ih =>
      intro key entry hlookup
      have hold : ∀ key entry,
          ((VectorSession.new format dimension metric).run ops).store.kv.vectors.lookup key =
            some entry → Added (ops ++ [op]) entry.collection entry.path entry.docid := by
        intro key entry hlookup
        obtain ⟨added, hmem, hadded⟩ := ih key entry hlookup
        exact ⟨added, List.mem_append_left _ hmem, hadded⟩
      rw [run_snoc] at hlookup
      generalize (VectorSession.new format dimension metric).run ops = session at *
      rcases session.perform_step op with hsame | ⟨other, path, htarget, hstep⟩
      · rw [hsame.vectors] at hlookup
        exact hold key entry hlookup
      · cases hstep with
        | same h keeps =>
            rw [h.vectors] at hlookup
            exact hold key entry hlookup
        | erased h keeps =>
            rw [h.vectors, Table.lookup_erase] at hlookup
            split at hlookup
            · cases hlookup
            · exact hold key entry hlookup
        | put stored embedding h keeps origin =>
            rw [h.vectors, Table.lookup_insert] at hlookup
            split at hlookup
            · cases hlookup
              rcases origin with ⟨hdocid, hcollection, hpath⟩ | ⟨old, hlast, hdocid, hcollection, hpath⟩
              · refine ⟨op, List.mem_append_right _ List.mem_cons_self, ?_, hdocid⟩
                rw [htarget, hcollection, hpath]
              · rw [hdocid, hcollection, hpath]
                exact hold _ old hlast
            · exact hold key entry hlookup

theorem perform_apart {session : VectorSession format} {op : VectorOp quant}
    (h : ¬Intrudes collection session.store op) (hapart : Apart collection session.store) :
    Apart collection (session.perform op).store := by
  have hadd : ∀ other path, (other ≠ collection →
      ¬(session.store.Owns collection (vectorKey other path) ∨
        session.store.annContractEnabled ∧
          Text.startsWith (vectorKey other path) (keyPrefix collection) = true)) →
      other = collection ∨ ¬(session.store.annContractEnabled ∧
        Text.startsWith (vectorKey other path) (keyPrefix collection) = true) := by
    intro other path haway
    by_cases hother : other = collection
    · exact .inl hother
    · exact .inr fun hbegins => haway hother (.inr hbegins)
  cases op with
  | add other path docid chunkSeq embedding =>
      exact (addAtLevel_step session.store other path docid chunkSeq embedding .full).apart
        (fun _ => hadd other path fun hother haway => h ⟨hother, haway⟩) hapart
  | addAtLevel other path docid chunkSeq embedding level =>
      exact (addAtLevel_step session.store other path docid chunkSeq embedding level).apart
        (fun _ => hadd other path fun hother haway => h ⟨hother, haway⟩) hapart
  | changeLevel other path targetLevel =>
      exact (changeLevel_step session.store other path targetLevel).apart
        (fun hnone => by cases hnone) hapart
  | remove other path =>
      exact (remove_step session.store other path).apart (fun hnone => by cases hnone) hapart
  | save => exact (save_same format session.store session.files).apart hapart

/-- A call for another collection that does not intrude leaves the documents of the
collection alone. -/
theorem perform_stores {session : VectorSession format} {op : VectorOp quant}
    (h : ¬Intrudes collection session.store op) {other target : String}
    (htarget : op.target = some (other, target)) (hother : other ≠ collection)
    {path docid : String} : Stores (session.perform op).store collection path docid ↔
      Stores session.store collection path docid := by
  cases op with
  | add name target docid chunkSeq embedding =>
      cases htarget
      exact (addAtLevel_step session.store other target docid chunkSeq embedding .full).stores
        hother fun howns => h ⟨hother, .inl howns⟩
  | addAtLevel name target docid chunkSeq embedding level =>
      cases htarget
      exact (addAtLevel_step session.store other target docid chunkSeq embedding level).stores
        hother fun howns => h ⟨hother, .inl howns⟩
  | changeLevel name path targetLevel =>
      exact (changeLevel_changed session.store name path targetLevel).stores
  | remove name target =>
      cases htarget
      exact (remove_step session.store other target).stores hother
        fun howns => h ⟨hother, howns⟩
  | save => cases htarget

def Respects (dimension : Nat) (metric : VectorMetric) (format : SnapshotFormat quant)
    (collection : String) (ops : List (VectorOp quant)) : Prop :=
  History.Preceded (fun pre op =>
    ¬Intrudes collection ((VectorSession.new format dimension metric).run pre).store op) ops

variable {metric : VectorMetric} {dimension : Nat}

theorem Respects.nil :
    Respects dimension metric format collection [] := History.Preceded.nil

variable {ops : List (VectorOp quant)}

theorem Respects.snoc {op : VectorOp quant} (h : Respects dimension metric format collection ops)
    (hop : ¬Intrudes collection ((VectorSession.new format dimension metric).run ops).store op) :
    Respects dimension metric format collection (ops ++ [op]) := History.Preceded.snoc h hop

theorem run_apart (h : Respects dimension metric format collection ops) :
    Apart collection ((VectorSession.new format dimension metric).run ops).store := by
  induction ops using List.reverseRecOn with
  | nil =>
      intro _ key entry hlookup
      cases hlookup
  | append_singleton ops op ih =>
      have hbefore : Respects dimension metric format collection ops := by
        intro pre op' post heq
        exact h pre op' (post ++ [op]) (by rw [heq]; simp)
      rw [run_snoc]
      exact perform_apart (h ops op [] rfl) (ih hbefore)

theorem run_search (h : Respects dimension metric format collection ops) :
    SearchIsolated collection ops
      ((VectorSession.new format dimension metric).run ops).store := by
  intro scoring cache query order graphSearch limit searched results hsearch result hresult
  obtain ⟨key, entry, score, hlookup, hwanted, heq⟩ :=
    searchCandidates_result hsearch result hresult
  have hbooked : ((VectorSession.new format dimension metric).run ops).store.Booked :=
    run_booked dimension metric ops
  rw [hbooked.entries] at hlookup
  have hcollection : entry.collection = collection := by
    rcases hwanted with ⟨hann, hbegins⟩ | hsame
    · exact run_apart h hann key entry hlookup hbegins
    · simpa using hsame
  have hadded := run_added dimension metric ops key entry hlookup
  rw [hcollection] at hadded
  rw [heq]
  exact ⟨hcollection, hadded⟩

/-- In every state of a run whose calls do not intrude on a collection, a search of the
collection finds documents added under it only, and a next call for another collection
leaves its documents as they are. -/
theorem run_isolated (format : SnapshotFormat quant) (dimension : Nat) (metric : VectorMetric)
    (collection : String) (ops : List (VectorOp quant))
    (h : Respects dimension metric format collection ops) :
    ∀ pre, pre <+: ops →
      SearchIsolated collection pre
          ((VectorSession.new format dimension metric).run pre).store ∧
        ∀ op other target, pre ++ [op] <+: ops → op.target = some (other, target) →
          other ≠ collection → ∀ path docid,
            Stores ((VectorSession.new format dimension metric).run (pre ++ [op])).store
                collection path docid ↔
              Stores ((VectorSession.new format dimension metric).run pre).store
                collection path docid := by
  intro pre hpre
  constructor
  · rcases hpre with ⟨post, hpost⟩
    apply run_search
    intro first op rest heq
    exact h first op (rest ++ post) (by rw [← hpost, heq]; simp)
  · intro op other target hnext htarget hother path docid
    rcases hnext with ⟨post, hpost⟩
    rw [run_snoc]
    exact perform_stores (h pre op post (by rw [← hpost]; simp)) htarget hother

/-- The collections `docs` and `notes` stay apart. -/
theorem run_isolated_docs :
    SearchIsolated "docs" [.add "docs" "a" "d" 0 [1, 0], .add "notes" "a" "e" 0 [0, 1],
        .remove "notes" "a"]
      ((VectorSession.new intSnapshots 2 .cosine).run [.add "docs" "a" "d" 0 [1, 0],
        .add "notes" "a" "e" 0 [0, 1], .remove "notes" "a"]).store := by
  have hadd : Respects 2 .cosine intSnapshots "docs" [.add "docs" "a" "d" 0 [1, 0]] := by
    refine Respects.nil.snoc ?_
    intro hintrudes
    exact hintrudes.1 rfl
  have hnotes : Respects 2 .cosine intSnapshots "docs"
      [.add "docs" "a" "d" 0 [1, 0], .add "notes" "a" "e" 0 [0, 1]] := by
    refine hadd.snoc ?_
    intro hintrudes
    rcases hintrudes.2 with ⟨entry, hlookup, -⟩ | ⟨-, hbegins⟩
    · cases hlookup
    · exact absurd hbegins (by decide)
  have hremove : Respects 2 .cosine intSnapshots "docs"
      [.add "docs" "a" "d" 0 [1, 0], .add "notes" "a" "e" 0 [0, 1], .remove "notes" "a"] := by
    refine hnotes.snoc ?_
    intro hintrudes
    obtain ⟨entry, hlookup, hentry⟩ := hintrudes.2
    cases hlookup
    exact absurd hentry (by decide)
  exact (run_isolated intSnapshots 2 .cosine "docs" _ hremove _ (List.prefix_refl _)).1

/-- The key of a document of `a:b` begins like the keys of `a`. -/
theorem search_finds_other_collection :
    ¬SearchIsolated "a" [.add "a:b" "p" "d" 0 [1, 0]]
      ((VectorSession.new intSnapshots 2 .cosine).run [.add "a:b" "p" "d" 0 [1, 0]]).store := by
  intro h
  have hresult := h intScoring { capacity := 1000 } [1, 0] .same everyPoint 1 _ _ rfl _
    List.mem_cons_self
  exact absurd hresult.1 (by decide)

end VectorSession

end BenShu.Engram
