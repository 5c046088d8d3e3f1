import BenShu.Comm.Protocol
import BenShu.Lib.History
import BenShu.Protocol.AgentSession

/-!
# Bids

The scheduler of agents records when tasks are requested and which bids come in for them.
A result ends the bidding for its request.
-/

namespace BenShu.Comm

open Protocol (DateTime)

inductive SchedulerError where
  | throttled (agentId : String) (limit : UInt32)
  deriving DecidableEq

/-- What the discovery keeps an agent under. -/
structure AgentManifest where
  id : String
  deriving DecidableEq

inductive A2AMessage where
  | announcement (manifest : AgentManifest)
  | taskRequest (requestId : String)
  | bid (requestId bidderId : String) (bidAmount : Rat) (metadata : Option String)
  | result (requestId : String)
  | other
  deriving DecidableEq

structure BidInfo where
  bidderId : String
  amount : Rat
  timestamp : DateTime
  metadata : Option String
  deriving DecidableEq

/-! ## Bidding -/

structure BiddingState where
  activeBids : Table String (List BidInfo) := ∅
  requestTimes : Table String DateTime := ∅

namespace BiddingState

def registerRequest (s : BiddingState) (requestId : String) (now : DateTime) : BiddingState :=
  { s with requestTimes := s.requestTimes.insert requestId now }

def getBids (s : BiddingState) (requestId : String) : List BidInfo :=
  (s.activeBids.lookup requestId).getD []

def addBid (s : BiddingState) (requestId : String) (bid : BidInfo) : BiddingState :=
  { s with activeBids := s.activeBids.insert requestId (s.getBids requestId ++ [bid]) }

def clearRequest (s : BiddingState) (requestId : String) : BiddingState where
  activeBids := s.activeBids.erase requestId
  requestTimes := s.requestTimes.erase requestId

end BiddingState

/-! ## The scheduler -/

structure A2AScheduler where
  throttles : Table String UInt32 := ∅
  tenantThrottles : Table String UInt32 := ∅
  bidding : BiddingState := {}
  registry : Table String AgentManifest := ∅

namespace A2AScheduler

def setThrottle (s : A2AScheduler) (agentId : String) (limit : UInt32) : A2AScheduler :=
  { s with throttles := s.throttles.insert agentId limit }

def setTenantThrottle (s : A2AScheduler) (tenantId : String) (limit : UInt32) : A2AScheduler :=
  { s with tenantThrottles := s.tenantThrottles.insert tenantId limit }

def checkThrottle (s : A2AScheduler) (e : CommEnvelope) : Except SchedulerError Unit :=
  let agentId := e.metadata.source.id
  if s.throttles.lookup agentId = some 0 then .error (.throttled agentId 0)
  else
    match e.metadata.tenantId with
    | none => .ok ()
    | some tenantId =>
        if s.tenantThrottles.lookup tenantId = some 0 then
          .error (.throttled s!"tenant:{tenantId}" 0)
        else .ok ()

/-- The state after a message. -/
def track (s : A2AScheduler) (now : DateTime) : A2AMessage → A2AScheduler
  | .announcement manifest => { s with registry := s.registry.insert manifest.id manifest }
  | .taskRequest requestId => { s with bidding := s.bidding.registerRequest requestId now }
  | .bid requestId bidderId bidAmount metadata =>
      let bid : BidInfo := ⟨bidderId, bidAmount, now, metadata⟩
      { s with bidding := s.bidding.addBid requestId bid }
  | .result requestId => { s with bidding := s.bidding.clearRequest requestId }
  | .other => s

variable (decode : List UInt8 → Option A2AMessage)

/-- A payload that is no message is let through. -/
def handleMessage (s : A2AScheduler) (e : CommEnvelope) (now : DateTime) :
    A2AScheduler × Except SchedulerError Unit :=
  match s.checkThrottle e with
  | .error err => (s, .error err)
  | .ok () =>
      match decode e.payload with
      | some message => (s.track now message, .ok ())
      | none => (s, .ok ())

end A2AScheduler

/-! ## Runs -/

inductive A2ACall where
  | setThrottle (agentId : String) (limit : UInt32)
  | setTenantThrottle (tenantId : String) (limit : UInt32)
  | handleMessage (e : CommEnvelope) (now : DateTime)

/-- The scheduler with the messages it has tracked, and when. -/
structure A2AHistory where
  scheduler : A2AScheduler := {}
  tracked : List (A2AMessage × DateTime) := []

section Runs

variable (decode : List UInt8 → Option A2AMessage)

/-- The message that a call makes the scheduler track. -/
def A2ACall.tracks (s : A2AScheduler) : A2ACall → Option (A2AMessage × DateTime)
  | .handleMessage e now =>
      if (s.checkThrottle e).isOk then (decode e.payload).map (·, now) else none
  | _ => none

def A2AScheduler.perform (s : A2AScheduler) : A2ACall → A2AScheduler
  | .setThrottle agentId limit => s.setThrottle agentId limit
  | .setTenantThrottle tenantId limit => s.setTenantThrottle tenantId limit
  | .handleMessage e now => (s.handleMessage decode e now).1

def A2AHistory.perform (h : A2AHistory) (call : A2ACall) : A2AHistory where
  scheduler := h.scheduler.perform decode call
  tracked := h.tracked ++ (call.tracks decode h.scheduler).toList

def historyOf (calls : List A2ACall) : A2AHistory := calls.foldl (A2AHistory.perform decode) {}

end Runs

/-! ## What is kept of a history -/

def isResult (requestId : String) (entry : A2AMessage × DateTime) : Bool :=
  entry.1 = .result requestId

def sinceResult (requestId : String) (tracked : List (A2AMessage × DateTime)) :
    List (A2AMessage × DateTime) :=
  History.since (isResult requestId) tracked

def bidOf (requestId : String) : A2AMessage × DateTime → Option BidInfo
  | (.bid requestId' bidderId amount metadata, now) =>
      if requestId' = requestId then some ⟨bidderId, amount, now, metadata⟩ else none
  | _ => none

def bidsSince (requestId : String) (tracked : List (A2AMessage × DateTime)) : List BidInfo :=
  (sinceResult requestId tracked).filterMap (bidOf requestId)

def Requested (requestId : String) (tracked : List (A2AMessage × DateTime)) : Prop :=
  ∃ now, (.taskRequest requestId, now) ∈ sinceResult requestId tracked

/-- Bids are kept for requests that were made; they are the bids since the last result,
and nothing is kept of a request that has its result and was not made again. -/
structure BidsKept (h : A2AHistory) : Prop where
  recorded : ∀ requestId ∈ h.scheduler.bidding.activeBids,
    requestId ∈ h.scheduler.bidding.requestTimes
  bids : ∀ requestId,
    h.scheduler.bidding.getBids requestId = bidsSince requestId h.tracked
  cleared : ∀ requestId, (∃ now, (.result requestId, now) ∈ h.tracked) →
    ¬Requested requestId h.tracked →
    requestId ∉ h.scheduler.bidding.activeBids ∧ requestId ∉ h.scheduler.bidding.requestTimes

def BidInTime (decode : List UInt8 → Option A2AMessage) (h : A2AHistory) (call : A2ACall) :
    Prop :=
  ∀ requestId bidderId amount metadata now,
    call.tracks decode h.scheduler = some (.bid requestId bidderId amount metadata, now) →
    Requested requestId h.tracked

theorem bidsSince_snoc (requestId : String) (tracked : List (A2AMessage × DateTime))
    (entry : A2AMessage × DateTime) :
    bidsSince requestId (tracked ++ [entry]) =
      if isResult requestId entry then []
      else bidsSince requestId tracked ++ (bidOf requestId entry).toList := by
  unfold bidsSince sinceResult
  rw [History.since_snoc]
  split
  · rfl
  · rw [List.filterMap_append]
    cases h : bidOf requestId entry <;> simp [h]

theorem requested_snoc_iff {requestId : String} {tracked : List (A2AMessage × DateTime)}
    {message : A2AMessage} {now : DateTime} :
    Requested requestId (tracked ++ [(message, now)]) ↔
      message ≠ .result requestId ∧
        (Requested requestId tracked ∨ message = .taskRequest requestId) := by
  unfold Requested sinceResult
  rw [History.since_snoc]
  by_cases h : message = .result requestId
  · simp [isResult, h]
  · have hresult : isResult requestId (message, now) = false := decide_eq_false h
    rw [if_neg (by rw [hresult]; exact Bool.false_ne_true), and_iff_right h]
    constructor
    · intro ⟨time, hmem⟩
      rcases List.mem_append.mp hmem with hold | hnew
      · exact .inl ⟨time, hold⟩
      · exact .inr (congrArg Prod.fst (List.mem_singleton.mp hnew)).symm
    · intro hrequested
      rcases hrequested with ⟨time, hold⟩ | hnew
      · exact ⟨time, List.mem_append_left _ hold⟩
      · exact ⟨now, List.mem_append_right _ (by rw [hnew]; exact List.mem_singleton.mpr rfl)⟩

/-! ## Tracking -/

/-- What the two maps hold after any messages. -/
structure Tracks (h : A2AHistory) : Prop where
  requested : ∀ requestId,
    requestId ∈ h.scheduler.bidding.requestTimes ↔ Requested requestId h.tracked
  bids : ∀ requestId, h.scheduler.bidding.getBids requestId = bidsSince requestId h.tracked
  active : ∀ requestId,
    requestId ∈ h.scheduler.bidding.activeBids ↔ bidsSince requestId h.tracked ≠ []

theorem bidsKept_iff {h : A2AHistory} (htracks : Tracks h) :
    BidsKept h ↔ ∀ requestId, bidsSince requestId h.tracked ≠ [] →
      Requested requestId h.tracked := by
  constructor
  · intro hkept requestId hbids
    exact (htracks.requested requestId).mp
      (hkept.recorded requestId ((htracks.active requestId).mpr hbids))
  · intro hrequested
    constructor
    · intro requestId hactive
      exact (htracks.requested requestId).mpr
        (hrequested requestId ((htracks.active requestId).mp hactive))
    · exact htracks.bids
    · intro requestId _ hnot
      constructor
      · exact fun hactive => hnot (hrequested requestId ((htracks.active requestId).mp hactive))
      · exact fun htime => hnot ((htracks.requested requestId).mp htime)

theorem BiddingState.getBids_addBid (s : BiddingState) (requestId other : String) (bid : BidInfo) :
    (s.addBid requestId bid).getBids other =
      if other = requestId then s.getBids requestId ++ [bid] else s.getBids other := by
  unfold addBid getBids
  dsimp only
  rw [Table.lookup_insert]
  split <;> rfl

theorem BiddingState.getBids_clearRequest (s : BiddingState) (requestId other : String) :
    (s.clearRequest requestId).getBids other =
      if other = requestId then [] else s.getBids other := by
  unfold clearRequest getBids
  dsimp only
  rw [Table.lookup_erase]
  split <;> rfl

theorem Tracks.track {h : A2AHistory} (htracks : Tracks h) (message : A2AMessage) (now : DateTime) :
    Tracks { scheduler := h.scheduler.track now message,
             tracked := h.tracked ++ [(message, now)] } := by
  rcases h with ⟨s, tracked⟩
  rcases htracks with ⟨hrequested, hbids, hactive⟩
  dsimp only at hrequested hbids hactive
  -- what neither a request, a bid nor a result leaves the maps as they are
  have hsame : ∀ s' : A2AScheduler, s'.bidding = s.bidding →
      (∀ r, message ≠ .taskRequest r) → (∀ r, message ≠ .result r) →
      (∀ r, bidOf r (message, now) = none) →
      Tracks { scheduler := s', tracked := tracked ++ [(message, now)] } := by
    intro s' hs' hnoRequest hnoResult hnoBid
    have hsince : ∀ r, bidsSince r (tracked ++ [(message, now)]) = bidsSince r tracked := by
      intro r
      rw [bidsSince_snoc, hnoBid r, if_neg]
      · simp
      · simpa [isResult] using hnoResult r
    constructor
    · intro r
      dsimp only
      rw [hs', hrequested, requested_snoc_iff]
      simp [hnoRequest r, hnoResult r]
    · intro r
      dsimp only
      rw [hs', hbids, hsince]
    · intro r
      dsimp only
      rw [hs', hactive, hsince]
  cases message with
  | announcement manifest => exact hsame _ rfl nofun nofun fun _ => rfl
  | other => exact hsame _ rfl nofun nofun fun _ => rfl
  | taskRequest requestId =>
      constructor
      · intro r
        rw [requested_snoc_iff]
        show r ∈ s.bidding.requestTimes.insert requestId now ↔ _
        rw [AList.mem_insert, hrequested]
        simp [or_comm, eq_comm]
      · intro r
        rw [bidsSince_snoc]
        show s.bidding.getBids r = _
        rw [hbids]
        simp [isResult, bidOf]
      · intro r
        rw [bidsSince_snoc]
        show r ∈ s.bidding.activeBids ↔ _
        rw [hactive]
        simp [isResult, bidOf]
  | bid requestId bidderId amount metadata =>
      have hsince : ∀ r, bidsSince r
          (tracked ++ [(.bid requestId bidderId amount metadata, now)]) =
          if r = requestId then bidsSince r tracked ++ [⟨bidderId, amount, now, metadata⟩]
          else bidsSince r tracked := by
        intro r
        rw [bidsSince_snoc]
        by_cases h : r = requestId
        · simp [isResult, bidOf, h]
        · simp [isResult, bidOf, h, Ne.symm h]
      constructor
      · intro r
        rw [requested_snoc_iff]
        show r ∈ s.bidding.requestTimes ↔ _
        rw [hrequested]
        simp
      · intro r
        rw [hsince]
        show (s.bidding.addBid requestId _).getBids r = _
        rw [BiddingState.getBids_addBid]
        split
        · rename_i h
          rw [h, hbids]
        · exact hbids r
      · intro r
        rw [hsince]
        show r ∈ s.bidding.activeBids.insert requestId _ ↔ _
        rw [AList.mem_insert, hactive]
        split
        · rename_i h
          simp [h]
        · rename_i h
          simp [h]
  | result requestId =>
      have hsince : ∀ r, bidsSince r (tracked ++ [(.result requestId, now)]) =
          if r = requestId then [] else bidsSince r tracked := by
        intro r
        rw [bidsSince_snoc]
        by_cases h : r = requestId
        · simp [isResult, h]
        · simp [isResult, bidOf, h, Ne.symm h]
      constructor
      · intro r
        rw [requested_snoc_iff]
        show r ∈ s.bidding.requestTimes.erase requestId ↔ _
        rw [AList.mem_erase, hrequested]
        simp [eq_comm]
      · intro r
        rw [hsince]
        show (s.bidding.clearRequest requestId).getBids r = _
        rw [BiddingState.getBids_clearRequest]
        split
        · rfl
        · exact hbids r
      · intro r
        rw [hsince]
        show r ∈ s.bidding.activeBids.erase requestId ↔ _
        rw [AList.mem_erase, hactive]
        split
        · rename_i h
          simp [h]
        · rename_i h
          simp [h]

theorem BidsKept.track_iff {h : A2AHistory} (htracks : Tracks h) (hkept : BidsKept h)
    (message : A2AMessage) (now : DateTime) :
    BidsKept { scheduler := h.scheduler.track now message,
               tracked := h.tracked ++ [(message, now)] } ↔
      ∀ requestId bidderId amount metadata, message = .bid requestId bidderId amount metadata →
        Requested requestId h.tracked := by
  rw [bidsKept_iff (htracks.track message now)]
  have hbefore := (bidsKept_iff htracks).mp hkept
  simp only [bidsSince_snoc, requested_snoc_iff]
  constructor
  · intro h requestId bidderId amount metadata hbid
    subst hbid
    have hrequested := (h requestId (by simp [isResult, bidOf])).2
    exact hrequested.resolve_right nofun
  · intro hinTime requestId hbids
    have hnot : message ≠ .result requestId := by
      intro heq
      simp [isResult, heq] at hbids
    refine ⟨hnot, ?_⟩
    rw [if_neg (by simpa [isResult] using hnot)] at hbids
    by_cases hold : bidsSince requestId h.tracked = []
    · -- the first bid since the last result
      rw [hold, List.nil_append] at hbids
      cases message with
      | bid requestId' bidderId amount metadata =>
          by_cases hsame : requestId' = requestId
          · subst hsame
            exact .inl (hinTime requestId' bidderId amount metadata rfl)
          · simp [bidOf, hsame] at hbids
      | _ => exact absurd rfl hbids
    · exact .inl (hbefore requestId hold)

theorem perform_keeps (decode : List UInt8 → Option A2AMessage) (call : A2ACall) {h : A2AHistory}
    (htracks : Tracks h) :
    Tracks (h.perform decode call) ∧
      (BidsKept h → (BidsKept (h.perform decode call) ↔ BidInTime decode h call)) := by
  have hsame : ∀ s : A2AScheduler, s.bidding = h.scheduler.bidding →
      h.perform decode call = { scheduler := s, tracked := h.tracked } →
      call.tracks decode h.scheduler = none → Tracks (h.perform decode call) ∧
        (BidsKept h → (BidsKept (h.perform decode call) ↔ BidInTime decode h call)) := by
    intro s hs hperform hnone
    rw [hperform]
    constructor
    · constructor
      · rw [hs]
        exact htracks.requested
      · rw [hs]
        exact htracks.bids
      · rw [hs]
        exact htracks.active
    · intro hkept
      refine iff_of_true ?_ ?_
      · constructor
        · rw [hs]
          exact hkept.recorded
        · rw [hs]
          exact hkept.bids
        · rw [hs]
          exact hkept.cleared
      · intro requestId bidderId amount metadata now hbid
        rw [hnone] at hbid
        cases hbid
  have hperform : h.perform decode call = { scheduler := h.scheduler.perform decode call, tracked :=
      h.tracked ++ (call.tracks decode h.scheduler).toList } := rfl
  cases call with
  | setThrottle agentId limit =>
      exact hsame (h.scheduler.setThrottle agentId limit) rfl
        (by simp [A2AHistory.perform, A2AScheduler.perform, A2ACall.tracks]) rfl
  | setTenantThrottle tenantId limit =>
      exact hsame (h.scheduler.setTenantThrottle tenantId limit) rfl
        (by simp [A2AHistory.perform, A2AScheduler.perform, A2ACall.tracks]) rfl
  | handleMessage e now =>
      have hstate : h.scheduler.perform decode (.handleMessage e now) =
          (h.scheduler.handleMessage decode e now).1 := rfl
      rw [hstate] at hperform
      unfold A2AScheduler.handleMessage at hperform
      cases hcheck : h.scheduler.checkThrottle e with
      | error err =>
          have hnone : (A2ACall.handleMessage e now).tracks decode h.scheduler = none := by
            simp [A2ACall.tracks, hcheck, Except.isOk, Except.toBool]
          rw [hcheck, hnone] at hperform
          exact hsame _ rfl (hperform.trans (by simp)) hnone
      | ok _ =>
          cases hdecode : decode e.payload with
          | none =>
              have hnone : (A2ACall.handleMessage e now).tracks decode h.scheduler = none := by
                simp [A2ACall.tracks, hdecode]
              rw [hcheck, hdecode, hnone] at hperform
              exact hsame _ rfl (hperform.trans (by simp)) hnone
          | some message =>
              have hsome : (A2ACall.handleMessage e now).tracks decode h.scheduler =
                  some (message, now) := by
                simp [A2ACall.tracks, hcheck, hdecode, Except.isOk, Except.toBool]
              rw [hcheck, hdecode, hsome] at hperform
              have hafter : h.perform decode (.handleMessage e now) =
                  { scheduler := h.scheduler.track now message,
                    tracked := h.tracked ++ [(message, now)] } := hperform
              rw [hafter]
              refine ⟨htracks.track message now, fun hkept => ?_⟩
              rw [hkept.track_iff htracks]
              unfold BidInTime
              rw [hsome]
              constructor
              · intro hinTime requestId bidderId amount metadata time heq
                cases heq
                exact hinTime requestId bidderId amount metadata rfl
              · intro hinTime requestId bidderId amount metadata heq
                exact hinTime requestId bidderId amount metadata now (by rw [heq])

/-- After every call the bids are kept as they should be if and only if every bid comes in
time. -/
theorem run_bidsKept_iff (decode : List UInt8 → Option A2AMessage) (calls : List A2ACall) :
    (∀ pre, pre <+: calls → BidsKept (historyOf decode pre)) ↔
      History.Preceded (fun pre call => BidInTime decode (historyOf decode pre) call) calls := by
  have hstart : Tracks {} := by
    constructor
    · intro requestId
      refine iff_of_false (AList.notMem_empty requestId) ?_
      intro ⟨_, hmem⟩
      cases hmem
    · intro requestId
      rfl
    · intro requestId
      exact iff_of_false (AList.notMem_empty requestId) (by simp [bidsSince, sinceResult])
  have hkept : BidsKept {} := by
    rw [bidsKept_iff hstart]
    intro requestId hbids
    exact absurd rfl hbids
  exact @History.foldl_throughout_iff _ calls _ (A2AHistory.perform decode) {} Tracks BidsKept
    (BidInTime decode) hstart hkept fun call _ h htracks => perform_keeps decode call htracks

/-- A bid for a request that nobody made is kept. -/
theorem bids_leak :
    let bid : A2ACall :=
      .handleMessage ⟨.agent "b", [1], .new ⟨List.replicate 16 0, rfl⟩ 0 (.agent "a")⟩ 0
    let decode := fun _ : List UInt8 => some (A2AMessage.bid "r" "a" 10 none)
    ¬BidsKept (historyOf decode [bid]) := by
  intro bid decode h
  exact absurd (h.recorded "r" (by decide)) (by decide)

end BenShu.Comm
