import BenShu.Engram.VectorSearch

/-!
# What a stored vector is

An entry stands for its own vector, or for its code and the quantizer that made it.
A quantizer stays the one of its level, so what is stored under a key changes only
with the entry there.
-/

namespace BenShu.Engram

/-- A vector as it is kept. -/
inductive StoredVector (quant : Quantization) where
  | full (vector : quant.Vec)
  | coded (quantizer : DynamicQuantizer quant) (code : quant.Code)

namespace StoredVector

variable {quant : Quantization}

def recover : StoredVector quant → quant.Vec
  | .full vector => vector
  | .coded quantizer code => quantizer.decode code

def Keeps (vector : quant.Vec) : StoredVector quant → Prop
  | .full kept => kept = vector
  | .coded quantizer code => quantizer.encode vector = some code

end StoredVector

namespace VectorStore

variable {quant : Quantization} {store store' : VectorStore quant} {key : String}

def storedVector (quantizers : Quantizers quant) (entry : VectorEntry quant) :
    Option (StoredVector quant) :=
  match entry.embedding with
  | some vector => some (.full vector)
  | none => do
      let code ← entry.quantCode
      let quantizer ← quantizers.find? fun quantizer => quantizer.1 = entry.quantLevel
      some (.coded quantizer.2 code)

def vectorAt (store : VectorStore quant) (key : String) : Option (StoredVector quant) :=
  (store.kv.vectors.lookup key).bind (storedVector store.quantizers)

/-- What adding a vector at a level stores, if it can be encoded. -/
def newVector (store : VectorStore quant) (embedding : quant.Vec) (level : QuantLevel) :
    Option (StoredVector quant) :=
  if level = .full then some (.full embedding)
  else
    let quantizer := (store.quantizerFor level embedding).2
    (quantizer.encode embedding).map fun code => .coded quantizer code

theorem newVector_cache (store : VectorStore quant) (cache : LruCache String quant.Vec)
    (embedding : quant.Vec) (level : QuantLevel) :
    ({ store with decodedCache := cache } : VectorStore quant).newVector embedding level =
      store.newVector embedding level := by
  unfold newVector quantizerFor
  dsimp only
  cases store.quantizers.find? fun quantizer => quantizer.1 = level with
  | none => rfl
  | some found => rfl

/-! ## Quantizers -/

theorem quantizerFor_find (store : VectorStore quant) (level : QuantLevel)
    (embedding : quant.Vec) :
    ∃ found, (store.quantizerFor level embedding).1.quantizers.find?
        (fun quantizer => quantizer.1 = level) = some found ∧
      found.2 = (store.quantizerFor level embedding).2 := by
  unfold quantizerFor
  cases hfind : store.quantizers.find? fun quantizer => quantizer.1 = level with
  | some found => exact ⟨found, hfind, rfl⟩
  | none =>
      dsimp only
      rw [List.find?_append, hfind, Option.none_or, List.find?_cons_of_pos (by simp)]
      exact ⟨_, rfl, rfl⟩

theorem quantize_newVector (store : VectorStore quant) (entry : VectorEntry quant)
    (embedding : quant.Vec) (level : QuantLevel) :
    match store.newVector embedding level with
    | some stored => ∃ entry', (store.quantize entry embedding level).2 = .ok entry' ∧
        storedVector (store.quantize entry embedding level).1.quantizers entry' = some stored
    | none => ∃ failure, (store.quantize entry embedding level).2 = .error failure := by
  unfold newVector quantize
  by_cases hfull : level = .full
  · rw [if_pos hfull, if_pos hfull]
    exact ⟨_, rfl, rfl⟩
  · rw [if_neg hfull, if_neg hfull]
    obtain ⟨found, hfind, hfound⟩ := store.quantizerFor_find level embedding
    generalize store.quantizerFor level embedding = trained at hfind hfound ⊢
    rcases trained with ⟨store₁, quantizer⟩
    dsimp only at hfind hfound ⊢
    cases hencode : quantizer.encode embedding with
    | none => exact ⟨_, rfl⟩
    | some code =>
        refine ⟨_, rfl, ?_⟩
        unfold storedVector
        dsimp only
        rw [hfind, ← hfound]
        rfl

theorem storedVector_prefix {quantizers quantizers' : Quantizers quant}
    {entry : VectorEntry quant} (h : Recoverable quantizers entry)
    (hbegins : quantizers <+: quantizers') :
    storedVector quantizers' entry = storedVector quantizers entry := by
  rcases hbegins with ⟨more, hmore⟩
  unfold storedVector
  cases hembedding : entry.embedding with
  | some vector => rfl
  | none =>
      rcases h with hsome | ⟨-, quantizer, hmem⟩
      · rw [hembedding] at hsome
        cases hsome
      · have hfind : quantizers'.find? (fun quantizer => quantizer.1 = entry.quantLevel) =
            quantizers.find? fun quantizer => quantizer.1 = entry.quantLevel := by
          rw [← hmore, List.find?_append]
          cases hfound : quantizers.find? fun quantizer => quantizer.1 = entry.quantLevel with
          | some found => rfl
          | none => exact absurd (List.find?_eq_none.mp hfound _ hmem) (by simp)
        rw [hfind]

/-! ## Changes -/

theorem SameVectors.vectorAt (h : SameVectors store store') (hkeyed : store.Keyed)
    (key : String) : store'.vectorAt key = store.vectorAt key := by
  unfold VectorStore.vectorAt
  rw [h.vectors]
  cases hlookup : store.kv.vectors.lookup key with
  | none => rfl
  | some entry => exact storedVector_prefix (hkeyed.recoverable key entry hlookup) h.quantizers

theorem Put.vectorAt {entry : VectorEntry quant} {embedding : quant.Vec}
    (h : Put store store' key entry embedding) (hkeyed : store.Keyed) (other : String) :
    store'.vectorAt other =
      if other = key then storedVector store'.quantizers entry else store.vectorAt other := by
  unfold VectorStore.vectorAt
  rw [h.vectors, Table.lookup_insert]
  by_cases hkey : other = key
  · rw [if_pos hkey, if_pos hkey]
    rfl
  · rw [if_neg hkey, if_neg hkey]
    cases hlookup : store.kv.vectors.lookup other with
    | none => rfl
    | some found =>
        exact storedVector_prefix (hkeyed.recoverable other found hlookup) h.quantizers

theorem addAtLevel_vectorAt (hkeyed : store.Keyed) (collection path docid : String)
    (chunkSeq : Nat) (embedding : quant.Vec) (level : QuantLevel) :
    match store.newVector embedding level with
    | some stored =>
        (store.addAtLevel collection path docid chunkSeq embedding level).2 = .ok () ∧
          ∀ key, (store.addAtLevel collection path docid chunkSeq embedding level).1.vectorAt key =
            if key = vectorKey collection path then some stored else store.vectorAt key
    | none =>
        (∃ failure, (store.addAtLevel collection path docid chunkSeq embedding level).2 =
          .error failure) ∧
        ∀ key, (store.addAtLevel collection path docid chunkSeq embedding level).1.vectorAt key =
          store.vectorAt key := by
  have hquantized := store.quantize_newVector
    (VectorEntry.new quant docid collection path chunkSeq level) embedding level
  have hsame := (store.quantize_spec
    (VectorEntry.new quant docid collection path chunkSeq level) embedding level).1
  cases hquantize : store.quantize
      (VectorEntry.new quant docid collection path chunkSeq level) embedding level with
  | mk store₁ result =>
      rw [hquantize] at hquantized hsame
      cases hnew : store.newVector embedding level with
      | none =>
          rw [hnew] at hquantized
          rcases hquantized with ⟨failure, hfailure⟩
          dsimp only at hfailure
          rw [hfailure] at hquantize
          rw [addAtLevel_error hquantize]
          exact ⟨⟨failure, rfl⟩, hsame.vectorAt hkeyed⟩
      | some stored =>
          rw [hnew] at hquantized
          rcases hquantized with ⟨entry, hentry, hstored⟩
          dsimp only at hentry hstored
          rw [hentry] at hquantize
          obtain ⟨hput, -, hquantizers, hok⟩ := addAtLevel_put hquantize
          refine ⟨hok, ?_⟩
          intro key
          rw [hput.vectorAt hkeyed, hquantizers, hstored]

theorem remove_vectorAt (store : VectorStore quant) (collection path key : String) :
    (store.remove collection path).vectorAt key =
      if key = vectorKey collection path then none else store.vectorAt key := by
  have hquantizers : (store.remove collection path).quantizers = store.quantizers := by
    unfold remove
    dsimp only
    split
    · rfl
    · rfl
  have hvectors : (store.remove collection path).kv.vectors =
      store.kv.vectors.erase (vectorKey collection path) := by
    unfold remove
    dsimp only
    split
    · rfl
    · rfl
  unfold vectorAt
  rw [hquantizers, hvectors, Table.lookup_erase]
  by_cases hkey : key = vectorKey collection path
  · rw [if_pos hkey, if_pos hkey]
    rfl
  · rw [if_neg hkey, if_neg hkey]

end VectorStore

end BenShu.Engram
