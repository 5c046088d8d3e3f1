import BenShu.Lib.History
import BenShu.Protocol.Message

/-!
# The response cache

Responses are kept for a while under a digest of the messages that they answer. Times are
readings of the clock, the digest and the text of JSON arguments are parameters, and a
call comes with the order in which the entries are iterated.
-/

namespace BenShu.Agent

open Protocol

structure CacheEntry where
  value : String
  expiresAt : Nat

structure InMemoryCache where
  store : Table String CacheEntry := ∅
  ttl : Nat := 3600
  maxSize : Nat := 1000

/-- What makes keys of messages. -/
structure CacheLibrary where
  digest : String → String
  render : Json → String

def keyText (render : Json → String) (messages : List Message) : String :=
  messages.foldl (fun key message => key ++ message.role.asStr ++ message.text render) ""

def generateKey (library : CacheLibrary) (messages : List Message) : String :=
  library.digest (keyText library.render messages)

namespace InMemoryCache

def cleanupExpired (now : Nat) (cache : InMemoryCache) : InMemoryCache :=
  let expired := cache.store.entries.filter fun entry => !decide (entry.2.expiresAt > now)
  { cache with store := (expired.map (·.1)).foldl (fun t key => t.erase key) cache.store }

def soonestExpiration (sampled : List (String × Nat)) : Option (String × Nat) :=
  sampled.foldl (fun soonest entry =>
    if soonest.all fun best => decide (entry.2 < best.2) then some entry else soonest) none

/-- One of the first ten entries is dropped when there are too many. -/
def enforceCapacity (order : List String) (cache : InMemoryCache) : InMemoryCache :=
  if cache.store.size > cache.maxSize then
    let sampled := (order.filterMap fun key =>
      (cache.store.lookup key).map fun entry => (key, entry.expiresAt)).take 10
    match soonestExpiration sampled with
    | some soonest => { cache with store := cache.store.erase soonest.1 }
    | none => cache
  else cache

def get (library : CacheLibrary) (now : Nat) (messages : List Message) (cache : InMemoryCache) :
    Option String × InMemoryCache :=
  let key := generateKey library messages
  match cache.store.lookup key with
  | some entry =>
      if entry.expiresAt > now then (some entry.value, cache)
      else (none, { cache with store := cache.store.erase key })
  | none => (none, cache)

def set (library : CacheLibrary) (now : Nat) (order : List String) (messages : List Message)
    (response : String) (cache : InMemoryCache) : InMemoryCache :=
  let key := generateKey library messages
  let evicted := cache.enforceCapacity order
  { evicted with store := evicted.store.insert key ⟨response, now + evicted.ttl⟩ }

end InMemoryCache

/-! ## Calls -/

inductive CacheRequest where
  | set (messages : List Message) (response : String) (order : List String)
  | get (messages : List Message)
  | backgroundCleanup

structure CacheCall where
  now : Nat
  request : CacheRequest

/-- The cache, the calls that it has seen and the answer to the last one. -/
structure CacheRun where
  cache : InMemoryCache
  calls : List CacheCall := []
  answer : Option String := none

def CacheRun.step (library : CacheLibrary) (run : CacheRun) (call : CacheCall) : CacheRun :=
  let calls := run.calls ++ [call]
  match call.request with
  | .set messages response order =>
      { cache := run.cache.set library call.now order messages response, calls := calls }
  | .get messages =>
      let got := run.cache.get library call.now messages
      { cache := got.2, calls := calls, answer := got.1 }
  | .backgroundCleanup => { cache := run.cache.cleanupExpired call.now, calls := calls }

/-- A call that has set a response. -/
structure SetCall where
  now : Nat
  messages : List Message
  response : String

def setsOf (calls : List CacheCall) : List SetCall :=
  calls.filterMap fun call =>
    match call.request with
    | .set messages response _ => some ⟨call.now, messages, response⟩
    | _ => none

def lastSet (p : SetCall → Bool) (calls : List CacheCall) : Option SetCall :=
  (setsOf calls).reverse.find? p

def sequenceOf (library : CacheLibrary) (messages : List Message) : List (Role × String) :=
  messages.map fun message => (message.role, message.text library.render)

def sameSequence (library : CacheLibrary) (messages : List Message) (call : SetCall) : Bool :=
  decide (sequenceOf library call.messages = sequenceOf library messages)

def sameText (library : CacheLibrary) (messages : List Message) (call : SetCall) : Bool :=
  decide (keyText library.render call.messages = keyText library.render messages)

/-- The value is that of the latest unexpired call that has set a response for the same
sequence. -/
def AnswersFor (library : CacheLibrary) (ttl now : Nat) (calls : List CacheCall)
    (messages : List Message) (value : String) : Prop :=
  ∃ call, lastSet (fun call => sameSequence library messages call && decide (now < call.now + ttl))
    calls = some call ∧ call.response = value

/-- There are not too many entries, and the answer to the last call is the right one. -/
structure CacheRun.Exact (library : CacheLibrary) (run : CacheRun) : Prop where
  size : run.cache.store.size ≤ run.cache.maxSize
  answer : ∀ before call messages value, run.calls = before ++ [call] →
    call.request = .get messages → run.answer = some value →
    AnswersFor library run.cache.ttl call.now before messages value

/-- A response is set where there is room for it or an entry under its key. A response is
read that was set for the same sequence, if the last one that was set for the same text is
still there, or is the same as the one for the sequence. -/
def CacheRun.Safe (library : CacheLibrary) (run : CacheRun) (call : CacheCall) : Prop :=
  match call.request with
  | .set messages _ _ =>
      run.cache.store.size < run.cache.maxSize ∨ generateKey library messages ∈ run.cache.store
  | .get messages =>
      ∀ last, lastSet (sameText library messages) run.calls = some last →
        generateKey library messages ∈ run.cache.store → call.now < last.now + run.cache.ttl →
        sameSequence library messages last = true ∨
          AnswersFor library run.cache.ttl call.now run.calls messages last.response
  | .backgroundCleanup => True

/-! ## Histories -/

section Sets

variable {library : CacheLibrary} {p q : SetCall → Bool} {calls : List CacheCall} {call : CacheCall}
  {messages : List Message} {response : String} {order : List String} {last : SetCall}

theorem lastSet_snoc_set (h : call.request = .set messages response order) :
    lastSet p (calls ++ [call]) =
      if p ⟨call.now, messages, response⟩ then some ⟨call.now, messages, response⟩
      else lastSet p calls := by
  have hsets : setsOf (calls ++ [call]) = setsOf calls ++ [⟨call.now, messages, response⟩] := by
    simp [setsOf, h]
  unfold lastSet
  rw [hsets, List.reverse_append, List.reverse_singleton, List.singleton_append, List.find?_cons]
  cases p ⟨call.now, messages, response⟩ <;> rfl

theorem lastSet_snoc_other (h : ∀ messages response order, call.request ≠ .set messages response order) :
    lastSet p (calls ++ [call]) = lastSet p calls := by
  have hsets : setsOf (calls ++ [call]) = setsOf calls := by
    unfold setsOf
    rw [List.filterMap_append]
    cases hrequest : call.request with
    | set messages response order => exact absurd hrequest (h _ _ _)
    | get messages => simp [hrequest]
    | backgroundCleanup => simp [hrequest]
  unfold lastSet
  rw [hsets]

theorem lastSet_of_stronger (h : lastSet p calls = some last) (hstronger : ∀ call, q call → p call)
    (hlast : q last = true) : lastSet q calls = some last := by
  unfold lastSet at h ⊢
  obtain ⟨hp, before, after, hsplit, hbefore⟩ := List.find?_eq_some_iff_append.mp h
  refine List.find?_eq_some_iff_append.mpr ⟨hlast, before, after, hsplit, fun call hcall => ?_⟩
  have hnot := hbefore call hcall
  cases hq : q call with
  | false => rfl
  | true =>
      rw [hstronger call hq] at hnot
      cases hnot

theorem keyText_eq_foldl (library : CacheLibrary) (messages : List Message) :
    keyText library.render messages =
      (sequenceOf library messages).foldl (fun key part => key ++ part.1.asStr ++ part.2) "" := by
  unfold keyText sequenceOf
  rw [List.foldl_map]

theorem sameText_of_sameSequence {call : SetCall} (h : sameSequence library messages call = true) :
    sameText library messages call = true := by
  have hsequence := of_decide_eq_true h
  refine decide_eq_true ?_
  rw [keyText_eq_foldl, keyText_eq_foldl, hsequence]

theorem answersFor_of_sameSequence {ttl now : Nat}
    (h : lastSet (sameText library messages) calls = some last)
    (hsequence : sameSequence library messages last = true) (hnow : now < last.now + ttl) :
    AnswersFor library ttl now calls messages last.response := by
  refine ⟨last, lastSet_of_stronger h ?_ ?_, rfl⟩
  · intro call hcall
    rw [Bool.and_eq_true] at hcall
    exact sameText_of_sameSequence hcall.1
  · rw [hsequence, decide_eq_true hnow]
    rfl

end Sets

/-! ## Steps -/

def CacheRun.Tracks (library : CacheLibrary) (run : CacheRun) : Prop :=
  ∀ messages entry, run.cache.store.lookup (generateKey library messages) = some entry →
    ∃ last, lastSet (sameText library messages) run.calls = some last ∧
      entry = ⟨last.response, last.now + run.cache.ttl⟩

variable {library : CacheLibrary} {run : CacheRun} {call : CacheCall} {cache : InMemoryCache}

/-- Every entry of a cache is one of another cache with the same limits. -/
structure Keeps (cache cache' : InMemoryCache) : Prop where
  lookup : ∀ key entry, cache'.store.lookup key = some entry → cache.store.lookup key = some entry
  size : cache'.store.size ≤ cache.store.size
  ttl : cache'.ttl = cache.ttl
  maxSize : cache'.maxSize = cache.maxSize

theorem size_erase_le {β : Type} (t : Table String β) (key : String) :
    Table.size (t.erase key) ≤ Table.size t := by
  have hsize := Table.size_erase t key
  omega

theorem keeps_erase (cache : InMemoryCache) (key : String) :
    Keeps cache { cache with store := cache.store.erase key } := by
  refine ⟨fun key' entry hlookup => ?_, size_erase_le _ _, rfl, rfl⟩
  rw [Table.lookup_erase] at hlookup
  split at hlookup
  · cases hlookup
  · exact hlookup

theorem keeps_refl (cache : InMemoryCache) : Keeps cache cache :=
  ⟨fun _ _ h => h, le_refl _, rfl, rfl⟩

theorem keeps_cleanupExpired (cache : InMemoryCache) (now : Nat) :
    Keeps cache (cache.cleanupExpired now) := by
  refine ⟨fun key entry hlookup => ?_, ?_, rfl, rfl⟩
  · unfold InMemoryCache.cleanupExpired at hlookup
    dsimp only at hlookup
    rw [Table.lookup_foldl_erase] at hlookup
    split at hlookup
    · cases hlookup
    · exact hlookup
  · unfold InMemoryCache.cleanupExpired
    dsimp only
    generalize List.map _ (List.filter _ cache.store.entries) = keys
    generalize cache.store = t
    induction keys generalizing t with
    | nil => exact le_refl _
    | cons key keys ih => exact (ih _).trans (size_erase_le t key)

theorem keeps_enforceCapacity (cache : InMemoryCache) (order : List String) :
    Keeps cache (cache.enforceCapacity order) := by
  unfold InMemoryCache.enforceCapacity
  split
  · dsimp only
    split
    · exact keeps_erase _ _
    · exact keeps_refl cache
  · exact keeps_refl cache

theorem keeps_get (library : CacheLibrary) (cache : InMemoryCache) (now : Nat)
    (messages : List Message) : Keeps cache (cache.get library now messages).2 := by
  unfold InMemoryCache.get
  dsimp only
  split
  · split
    · exact keeps_refl cache
    · exact keeps_erase _ _
  · exact keeps_refl cache

theorem get_answer_iff {now : Nat} {messages : List Message} {value : String} :
    (cache.get library now messages).1 = some value ↔
      ∃ entry, cache.store.lookup (generateKey library messages) = some entry ∧
        now < entry.expiresAt ∧ entry.value = value := by
  unfold InMemoryCache.get
  dsimp only
  cases hlookup : cache.store.lookup (generateKey library messages) with
  | none => simp
  | some entry =>
      by_cases hnow : entry.expiresAt > now
      · simp [hnow]
      · simp [hnow]

theorem tracks_of_keeps {cache' : InMemoryCache} {answer : Option String} (h : run.Tracks library)
    (hkeeps : Keeps run.cache cache')
    (hcall : ∀ messages response order, call.request ≠ .set messages response order) :
    CacheRun.Tracks library { cache := cache', calls := run.calls ++ [call], answer := answer } := by
  intro messages entry hlookup
  obtain ⟨last, hlast, hentry⟩ := h messages entry (hkeeps.lookup _ _ hlookup)
  refine ⟨last, ?_, ?_⟩
  · rw [lastSet_snoc_other hcall]
    exact hlast
  · rw [hentry, hkeeps.ttl]

theorem CacheRun.Tracks.step (hdigest : Function.Injective library.digest) (h : run.Tracks library)
    (call : CacheCall) : (run.step library call).Tracks library := by
  unfold CacheRun.step
  dsimp only
  cases hrequest : call.request with
  | set messages response order =>
      have hkeeps := keeps_enforceCapacity run.cache order
      intro messages' entry hlookup
      dsimp only [InMemoryCache.set] at hlookup ⊢
      rw [Table.lookup_insert] at hlookup
      rw [lastSet_snoc_set hrequest]
      by_cases hkey : generateKey library messages' = generateKey library messages
      · rw [if_pos hkey] at hlookup
        have hsame : sameText library messages' ⟨call.now, messages, response⟩ = true :=
          decide_eq_true (hdigest hkey).symm
        rw [if_pos hsame]
        exact ⟨_, rfl, (Option.some.inj hlookup).symm⟩
      · rw [if_neg hkey] at hlookup
        have hother : ¬sameText library messages' ⟨call.now, messages, response⟩ = true := by
          intro hsame
          exact hkey (congrArg library.digest (of_decide_eq_true hsame).symm)
        rw [if_neg hother, hkeeps.ttl]
        exact h messages' entry (hkeeps.lookup _ _ hlookup)
  | get messages =>
      exact tracks_of_keeps h (keeps_get library run.cache call.now messages) (by simp [hrequest])
  | backgroundCleanup =>
      exact tracks_of_keeps h (keeps_cleanupExpired run.cache call.now) (by simp [hrequest])

theorem size_insert_le_iff {β : Type} {t : Table String β} {bound : Nat} (key : String) (value : β)
    (h : Table.size t ≤ bound) :
    Table.size (t.insert key value) ≤ bound ↔ Table.size t < bound ∨ key ∈ t := by
  have herase := Table.size_erase t key
  rw [Table.size_insert]
  by_cases hmem : key ∈ t
  · rw [if_pos (AList.lookup_isSome.mpr hmem)] at herase
    exact iff_of_true (by omega) (.inr hmem)
  · rw [if_neg (by rwa [AList.lookup_isSome])] at herase
    rw [or_iff_left hmem]
    omega

theorem exact_step_iff (h : run.Tracks library) (hexact : run.Exact library) :
    (run.step library call).Exact library ↔ run.Safe library call := by
  unfold CacheRun.step CacheRun.Safe
  dsimp only
  cases hrequest : call.request with
  | set messages response order =>
      have hroom : run.cache.enforceCapacity order = run.cache := by
        unfold InMemoryCache.enforceCapacity
        rw [if_neg (Nat.not_lt.mpr hexact.size)]
      have hsize : (run.cache.set library call.now order messages response).store.size ≤
          (run.cache.set library call.now order messages response).maxSize ↔
            run.cache.store.size < run.cache.maxSize ∨
              generateKey library messages ∈ run.cache.store := by
        dsimp only [InMemoryCache.set]
        rw [hroom]
        exact size_insert_le_iff _ _ hexact.size
      dsimp only
      rw [← hsize]
      exact ⟨fun hstep => hstep.size, fun hbound => ⟨hbound, fun _ _ _ _ _ _ hnone => nomatch hnone⟩⟩
  | get messages =>
      have hkeeps := keeps_get library run.cache call.now messages
      constructor
      · intro hstep last hlast hmem hnow
        obtain ⟨entry, hlookup⟩ := Option.isSome_iff_exists.mp (AList.lookup_isSome.mpr hmem)
        obtain ⟨last', hlast', hentry⟩ := h messages entry hlookup
        rw [hlast] at hlast'
        rw [← Option.some.inj hlast'] at hentry
        have hanswer : (run.cache.get library call.now messages).1 = some last.response :=
          get_answer_iff.mpr ⟨entry, hlookup, by rw [hentry]; exact hnow, by rw [hentry]⟩
        have hright := hstep.answer run.calls call messages last.response rfl hrequest hanswer
        dsimp only at hright
        rw [hkeeps.ttl] at hright
        exact .inr hright
      · intro hsafe
        refine ⟨(hkeeps.size.trans hexact.size).trans_eq hkeeps.maxSize.symm, ?_⟩
        intro before call' messages' value hcalls hget hanswer
        obtain ⟨rfl, hsame⟩ := List.append_inj' hcalls rfl
        obtain rfl := (List.cons.inj hsame).1
        rw [hrequest] at hget
        obtain rfl := CacheRequest.get.inj hget
        obtain ⟨entry, hlookup, hnow, rfl⟩ := get_answer_iff.mp hanswer
        obtain ⟨last, hlast, rfl⟩ := h messages entry hlookup
        dsimp only at hnow ⊢
        rw [hkeeps.ttl]
        rcases hsafe last hlast (AList.lookup_isSome.mp (by rw [hlookup]; rfl)) hnow with
          hsequence | hright
        · exact answersFor_of_sameSequence hlast hsequence hnow
        · exact hright
  | backgroundCleanup =>
      have hkeeps := keeps_cleanupExpired run.cache call.now
      refine iff_of_true ⟨?_, fun _ _ _ _ _ _ hnone => nomatch hnone⟩ trivial
      exact (hkeeps.size.trans hexact.size).trans_eq hkeeps.maxSize.symm

/-! ## Runs -/

def cacheRun (library : CacheLibrary) (ttl maxSize : Nat) (calls : List CacheCall) : CacheRun :=
  calls.foldl (CacheRun.step library) { cache := { ttl := ttl, maxSize := maxSize } }

/-- The cache is exact all along the calls just when every call is safe. -/
theorem cache_exact_iff (library : CacheLibrary) (hdigest : Function.Injective library.digest)
    (ttl maxSize : Nat) (calls : List CacheCall) :
    (∀ pre, pre <+: calls → (cacheRun library ttl maxSize pre).Exact library) ↔
      History.Preceded (fun pre call => (cacheRun library ttl maxSize pre).Safe library call)
        calls := by
  have hstart : CacheRun.Tracks library { cache := { ttl := ttl, maxSize := maxSize } } := by
    intro messages entry hlookup
    cases hlookup
  have hexact : CacheRun.Exact library { cache := { ttl := ttl, maxSize := maxSize } } :=
    ⟨Nat.zero_le _, fun before call messages value hcalls => by simp at hcalls⟩
  exact History.foldl_throughout_iff hstart hexact fun call _ run htracks =>
    ⟨htracks.step hdigest call, fun hrun => exact_step_iff htracks hrun⟩

def plainLibrary : CacheLibrary where
  digest text := text
  render _ := ""

theorem cache_exact_iff_plain :
    (∀ pre, pre <+: [⟨0, .get [Message.user "hi"]⟩] →
      (cacheRun plainLibrary 60 1 pre).Exact plainLibrary) ↔
      History.Preceded (fun pre call => (cacheRun plainLibrary 60 1 pre).Safe plainLibrary call)
        [⟨0, .get [Message.user "hi"]⟩] :=
  cache_exact_iff plainLibrary (fun _ _ h => h) 60 1 _

/-- The response to another conversation is given, and two responses are kept where one is
the most. -/
theorem other_conversation_answered :
    ¬(cacheRun plainLibrary 60 1 [⟨0, .set [Message.user "a", Message.assistant "b"] "first" []⟩,
        ⟨1, .get [Message.user "aassistantb"]⟩]).Exact plainLibrary ∧
      ¬(cacheRun plainLibrary 60 1 [⟨0, .set [Message.user "a"] "first" []⟩,
        ⟨1, .set [Message.user "b"] "second" []⟩]).Exact plainLibrary := by
  constructor
  · intro h
    have hanswer : (cacheRun plainLibrary 60 1
        [⟨0, .set [Message.user "a", Message.assistant "b"] "first" []⟩,
          ⟨1, .get [Message.user "aassistantb"]⟩]).answer = some "first" := by decide +kernel
    obtain ⟨call, hcall, -⟩ := h.answer
      [⟨0, .set [Message.user "a", Message.assistant "b"] "first" []⟩]
      ⟨1, .get [Message.user "aassistantb"]⟩ _ _ rfl rfl hanswer
    have hnone : sameSequence plainLibrary [Message.user "aassistantb"]
        ⟨0, [Message.user "a", Message.assistant "b"], "first"⟩ = false := by decide
    simp [lastSet, setsOf, hnone] at hcall
  · intro h
    have hsize : (cacheRun plainLibrary 60 1 [⟨0, .set [Message.user "a"] "first" []⟩,
        ⟨1, .set [Message.user "b"] "second" []⟩]).cache.store.size = 2 := by decide +kernel
    have hmax : (cacheRun plainLibrary 60 1 [⟨0, .set [Message.user "a"] "first" []⟩,
        ⟨1, .set [Message.user "b"] "second" []⟩]).cache.maxSize = 1 := by decide +kernel
    have hbound := h.size
    rw [hsize, hmax] at hbound
    omega

end BenShu.Agent
