import BenShu.Comm.Wire

/-!
# The bridge

A bridge writes the length of an encoded envelope and the envelope to a TCP stream, and
reads one envelope after the other from it. What a read of the stream gives is any part
of what has come in.
-/

namespace BenShu.Comm

open ByteCodec

inductive TransportError where
  | protocol (text : String)
  | network (text : String)
  | routing (text : String)
  | internal (text : String)
  | connectionFailed (text : String)
  | channelClosed
  deriving DecidableEq

/-! ## Streams -/

abbrev Fragment := { bytes : List UInt8 // bytes ≠ [] }

/-- The bytes that come in, part by part, the error at their end, and the bytes written. -/
structure TcpStream where
  incoming : List Fragment
  ending : String := "early eof"
  outgoing : List UInt8 := []

def streamBytes (fragments : List Fragment) : List UInt8 := (fragments.map Subtype.val).flatten

theorem drop_ne_nil {l : List UInt8} {n : Nat} (h : ¬l.length ≤ n) : l.drop n ≠ [] := by
  rw [Ne, List.drop_eq_nil_iff]
  exact h

/-- Reads until the buffer is full or the stream ends. -/
def readExact : Nat → List Fragment → Option (List UInt8) × List Fragment
  | 0, fragments => (some [], fragments)
  | _ + 1, [] => (none, [])
  | n + 1, fragment :: fragments =>
      if h : fragment.val.length ≤ n + 1 then
        let later := readExact (n + 1 - fragment.val.length) fragments
        (later.1.map (fragment.val ++ ·), later.2)
      else (some (fragment.val.take (n + 1)), ⟨fragment.val.drop (n + 1), drop_ne_nil h⟩ :: fragments)
  termination_by structural _ fragments => fragments

/-! ## The transport -/

structure BridgeTransport where
  remoteAddr : String
  stream : Option TcpStream := none

section Transport

variable (lib : ProtoLibrary)

namespace BridgeTransport

def getStream (connect : Except String TcpStream) (bridge : BridgeTransport) :
    Except TransportError TcpStream :=
  match bridge.stream with
  | some stream => .ok stream
  | none =>
      match connect with
      | .ok stream => .ok stream
      | .error e => .error (.network s!"Bridge connection failed to {bridge.remoteAddr}: {e}")

def framed (envelope : CommEnvelope) : List UInt8 :=
  let buf := lib.encode (envelope.toProto lib)
  leBytes 4 (buf.length % 2 ^ 32) ++ buf

def send (connect : Except String TcpStream) (bridge : BridgeTransport) (envelope : CommEnvelope) :
    Except TransportError Unit × BridgeTransport :=
  match bridge.getStream connect with
  | .error e => (.error e, bridge)
  | .ok stream =>
      (.ok (), { bridge with
        stream := some { stream with outgoing := stream.outgoing ++ framed lib envelope } })

/-- Reads one envelope from a stream. -/
def receiveFrom (newId : Uuid) (now : UInt64) (stream : TcpStream) :
    Except TransportError CommEnvelope × TcpStream :=
  let prefixRead := readExact 4 stream.incoming
  match prefixRead.1 with
  | none => (.error (.network s!"TCP read len failed: {stream.ending}"),
      { stream with incoming := prefixRead.2 })
  | some lenBuf =>
      let payloadRead := readExact (ofLeBytes lenBuf) prefixRead.2
      match payloadRead.1 with
      | none => (.error (.network s!"TCP read payload failed: {stream.ending}"),
          { stream with incoming := payloadRead.2 })
      | some payload =>
          match lib.decode payload with
          | none => (.error (.protocol "Proto decode failed"),
              { stream with incoming := payloadRead.2 })
          | some proto => (.ok (.fromProto lib newId now proto),
              { stream with incoming := payloadRead.2 })

def receive (newId : Uuid) (now : UInt64) (connect : Except String TcpStream)
    (bridge : BridgeTransport) : Except TransportError CommEnvelope × BridgeTransport :=
  match bridge.getStream connect with
  | .error e => (.error e, bridge)
  | .ok stream =>
      let received := receiveFrom lib newId now stream
      (received.1, { bridge with stream := some received.2 })

/-- One envelope after the other is sent, until a call fails. -/
def sendAll (connect : Except String TcpStream) (bridge : BridgeTransport) :
    List CommEnvelope → Except TransportError BridgeTransport
  | [] => .ok bridge
  | envelope :: envelopes =>
      match bridge.send lib connect envelope with
      | (.error e, _) => .error e
      | (.ok (), bridge) => sendAll connect bridge envelopes

/-- The answers to calls of receive, each with a fresh identifier and the time. -/
def receiveAll (connect : Except String TcpStream) (bridge : BridgeTransport) :
    List (Uuid × UInt64) → List (Except TransportError CommEnvelope)
  | [] => []
  | call :: calls =>
      let received := bridge.receive lib call.1 call.2 connect
      received.1 :: receiveAll connect received.2 calls

end BridgeTransport

end Transport

/-! ## Reading -/

theorem readExact_eq (n : Nat) (fragments : List Fragment) :
    (n ≤ (streamBytes fragments).length →
      (readExact n fragments).1 = some ((streamBytes fragments).take n) ∧
        streamBytes (readExact n fragments).2 = (streamBytes fragments).drop n) ∧
    ((streamBytes fragments).length < n → readExact n fragments = (none, [])) := by
  induction fragments generalizing n with
  | nil =>
      cases n with
      | zero => simp [readExact, streamBytes]
      | succ n => simp [readExact, streamBytes]
  | cons fragment fragments ih =>
      have hbytes : streamBytes (fragment :: fragments) = fragment.val ++ streamBytes fragments := rfl
      cases n with
      | zero => simp [readExact]
      | succ n =>
          rw [hbytes, List.length_append, readExact]
          by_cases h : fragment.val.length ≤ n + 1
          · rw [dif_pos h]
            obtain ⟨henough, hshort⟩ := ih (n + 1 - fragment.val.length)
            dsimp only
            constructor
            · intro hle
              obtain ⟨hread, hrest⟩ := henough (by omega)
              rw [hread, hrest, List.take_append, List.take_of_length_le h, List.drop_append,
                List.drop_eq_nil_of_le h]
              exact ⟨rfl, rfl⟩
            · intro hlt
              rw [hshort (by omega)]
              rfl
          · rw [dif_neg h]
            constructor
            · intro _
              rw [List.take_append_of_le_length (by omega), List.drop_append_of_le_length (by omega)]
              exact ⟨rfl, rfl⟩
            · intro hlt
              omega

/-! ## Sending -/

section Delivery

variable {lib : ProtoLibrary} {envelope : CommEnvelope} {sent : List CommEnvelope}

open BridgeTransport

/-- The encoding of the envelope is read back, and its length fits into four bytes. -/
structure Sendable (lib : ProtoLibrary) (envelope : CommEnvelope) : Prop where
  wire : lib.decode (lib.encode (envelope.toProto lib)) = some (envelope.toProto lib)
  id : lib.parseUuid (lib.uuidText envelope.metadata.id) = some envelope.metadata.id
  size : (lib.encode (envelope.toProto lib)).length < 2 ^ 32

theorem getStream_sendAll {connect : Except String TcpStream} {sender sender' : BridgeTransport}
    {stream : TcpStream} (hstream : sender.getStream connect = .ok stream)
    (hsend : sender.sendAll lib connect sent = .ok sender') :
    sender'.getStream connect =
      .ok { stream with outgoing := stream.outgoing ++ sent.flatMap (framed lib) } := by
  induction sent generalizing sender stream with
  | nil =>
      cases hsend
      rw [hstream, List.flatMap_nil, List.append_nil]
  | cons envelope sent ih =>
      rw [sendAll, send, hstream] at hsend
      dsimp only at hsend
      rw [ih rfl hsend, List.flatMap_cons, List.append_assoc]

/-! ## Receiving -/

theorem length_framed (lib : ProtoLibrary) (envelope : CommEnvelope) :
    (framed lib envelope).length = 4 + (lib.encode (envelope.toProto lib)).length := by
  unfold framed
  rw [List.length_append, leBytes_length]

theorem Sendable.framed_eq (h : Sendable lib envelope) : framed lib envelope =
    leBytes 4 (lib.encode (envelope.toProto lib)).length ++ lib.encode (envelope.toProto lib) := by
  unfold framed
  dsimp only
  rw [Nat.mod_eq_of_lt h.size]

theorem Sendable.ofLeBytes_length (h : Sendable lib envelope) :
    ofLeBytes (leBytes 4 (lib.encode (envelope.toProto lib)).length) =
      (lib.encode (envelope.toProto lib)).length :=
  ofLeBytes_leBytes (lt_of_lt_of_eq h.size (by decide))

theorem receiveFrom_framed (h : Sendable lib envelope) (newId : Uuid) (now : UInt64)
    {stream : TcpStream} {rest : List UInt8}
    (hbytes : streamBytes stream.incoming = framed lib envelope ++ rest) :
    ∃ incoming, receiveFrom lib newId now stream =
        (.ok envelope.normalized, { stream with incoming := incoming }) ∧
      streamBytes incoming = rest := by
  rw [h.framed_eq, List.append_assoc] at hbytes
  obtain ⟨hlead, hpayloadBytes⟩ := (readExact_eq 4 stream.incoming).1 (by simp [hbytes])
  rw [hbytes, List.take_left' (leBytes_length _ _)] at hlead
  rw [hbytes, List.drop_left' (leBytes_length _ _)] at hpayloadBytes
  obtain ⟨hpayload, hrest⟩ :=
    (readExact_eq (lib.encode (envelope.toProto lib)).length (readExact 4 stream.incoming).2).1
      (by simp [hpayloadBytes])
  rw [hpayloadBytes, List.take_left' rfl] at hpayload
  rw [hpayloadBytes, List.drop_left' rfl] at hrest
  refine ⟨_, ?_, hrest⟩
  have htransported := transported_eq newId now h.wire h.id
  unfold CommEnvelope.transported at htransported
  rw [h.wire, Option.map_some] at htransported
  simp only [receiveFrom, hlead, h.ofLeBytes_length, hpayload, h.wire, Option.some.inj htransported]

theorem receiveFrom_cut (h : Sendable lib envelope) (newId : Uuid) (now : UInt64)
    {stream : TcpStream} {rest : List UInt8} {k : Nat} (hk : k < (framed lib envelope).length)
    (hbytes : streamBytes stream.incoming = (framed lib envelope ++ rest).take k) :
    ∃ text, receiveFrom lib newId now stream =
      (.error (.network text), { stream with incoming := [] }) := by
  rw [List.take_append_of_le_length (Nat.le_of_lt hk)] at hbytes
  rw [length_framed] at hk
  by_cases hleadLength : k < 4
  · have hshort : (streamBytes stream.incoming).length < 4 := by
      rw [hbytes, List.length_take]
      omega
    refine ⟨s!"TCP read len failed: {stream.ending}", ?_⟩
    simp only [receiveFrom, (readExact_eq 4 stream.incoming).2 hshort]
  · have htake : (framed lib envelope).take k =
        leBytes 4 (lib.encode (envelope.toProto lib)).length ++
          (lib.encode (envelope.toProto lib)).take (k - 4) := by
      rw [h.framed_eq, List.take_append, leBytes_length,
        List.take_of_length_le (by rw [leBytes_length]; omega)]
    rw [htake] at hbytes
    obtain ⟨hlead, hpayloadBytes⟩ := (readExact_eq 4 stream.incoming).1 (by simp [hbytes])
    rw [hbytes, List.take_left' (leBytes_length _ _)] at hlead
    rw [hbytes, List.drop_left' (leBytes_length _ _)] at hpayloadBytes
    have hshort : (streamBytes (readExact 4 stream.incoming).2).length <
        (lib.encode (envelope.toProto lib)).length := by
      rw [hpayloadBytes, List.length_take]
      omega
    refine ⟨s!"TCP read payload failed: {stream.ending}", ?_⟩
    simp only [receiveFrom, hlead, h.ofLeBytes_length, (readExact_eq _ _).2 hshort]

/-- How many of the envelopes are wholly within the first bytes. -/
def arrived (lib : ProtoLibrary) : List CommEnvelope → Nat → Nat
  | [], _ => 0
  | envelope :: sent, k =>
      if (framed lib envelope).length ≤ k then
        arrived lib sent (k - (framed lib envelope).length) + 1
      else 0

theorem arrived_le_length (lib : ProtoLibrary) (sent : List CommEnvelope) (k : Nat) :
    arrived lib sent k ≤ sent.length := by
  induction sent generalizing k with
  | nil => exact Nat.le_refl 0
  | cons envelope sent ih =>
      rw [arrived]
      split
      · exact Nat.succ_le_succ (ih _)
      · exact Nat.zero_le _

theorem le_arrived_iff {count k : Nat} (hcount : count ≤ sent.length) :
    count ≤ arrived lib sent k ↔ ((sent.take count).flatMap (framed lib)).length ≤ k := by
  induction sent generalizing count k with
  | nil =>
      have hzero : count = 0 := Nat.le_zero.mp hcount
      simp [hzero]
  | cons envelope sent ih =>
      cases count with
      | zero => simp
      | succ count =>
          rw [arrived, List.take_succ_cons, List.flatMap_cons, List.length_append]
          split
          · have hrest := @ih count (k - (framed lib envelope).length) (Nat.le_of_succ_le_succ hcount)
            omega
          · omega

theorem receiveAll_ended {connect : Except String TcpStream} {receiver : BridgeTransport}
    {stream : TcpStream} (hstream : receiver.getStream connect = .ok stream)
    (hbytes : streamBytes stream.incoming = []) (calls : List (Uuid × UInt64)) :
    ∀ answer ∈ receiver.receiveAll lib connect calls, ∃ text, answer = .error (.network text) := by
  induction calls generalizing receiver stream with
  | nil => simp [receiveAll]
  | cons call calls ih =>
      have hfirst : receiveFrom lib call.1 call.2 stream =
          (.error (.network s!"TCP read len failed: {stream.ending}"),
            { stream with incoming := [] }) := by
        simp only [receiveFrom, (readExact_eq 4 stream.incoming).2 (by simp [hbytes])]
      intro answer hanswer
      rw [receiveAll, receive, hstream] at hanswer
      dsimp only at hanswer
      rw [hfirst] at hanswer
      rcases List.mem_cons.mp hanswer with rfl | hlater
      · exact ⟨_, rfl⟩
      · exact @ih { receiver with stream := some { stream with incoming := [] } } _ rfl rfl answer
          hlater

theorem receiveAll_eq (hsent : ∀ envelope ∈ sent, Sendable lib envelope)
    {connect : Except String TcpStream} {receiver : BridgeTransport} {stream : TcpStream} {k : Nat}
    (hstream : receiver.getStream connect = .ok stream)
    (hbytes : streamBytes stream.incoming = (sent.flatMap (framed lib)).take k)
    (calls : List (Uuid × UInt64)) :
    ∃ errors, receiver.receiveAll lib connect calls =
        ((sent.take (arrived lib sent k)).map fun envelope => .ok envelope.normalized).take
          calls.length ++ errors ∧
      ∀ answer ∈ errors, ∃ text, answer = .error (.network text) := by
  induction sent generalizing receiver stream k calls with
  | nil =>
      refine ⟨receiver.receiveAll lib connect calls, by simp, ?_⟩
      exact receiveAll_ended hstream (by simpa using hbytes) calls
  | cons envelope sent ih =>
      have henvelope := hsent envelope List.mem_cons_self
      rw [List.flatMap_cons] at hbytes
      cases calls with
      | nil => exact ⟨[], by simp [receiveAll], by simp⟩
      | cons call calls =>
          rw [receiveAll, receive, hstream]
          dsimp only
          by_cases hk : (framed lib envelope).length ≤ k
          · rw [List.take_append, List.take_of_length_le hk] at hbytes
            obtain ⟨incoming, hfirst, hrest⟩ :=
              receiveFrom_framed henvelope call.1 call.2 hbytes
            obtain ⟨errors, hlater, herrors⟩ :=
              @ih (fun other hother => hsent other (List.mem_cons_of_mem _ hother))
                { receiver with stream := some { stream with incoming := incoming } }
                { stream with incoming := incoming } _ rfl hrest calls
            refine ⟨errors, ?_, herrors⟩
            rw [hfirst]
            dsimp only
            rw [hlater, arrived, if_pos hk]
            rfl
          · obtain ⟨text, hfirst⟩ :=
              receiveFrom_cut henvelope call.1 call.2 (Nat.lt_of_not_le hk) hbytes
            rw [hfirst, arrived, if_neg hk]
            refine ⟨_, by rw [List.take_zero, List.map_nil, List.take_nil, List.nil_append], ?_⟩
            intro answer hanswer
            rcases List.mem_cons.mp hanswer with rfl | hlater
            · exact ⟨text, rfl⟩
            · exact @receiveAll_ended lib connect
                { receiver with stream := some { stream with incoming := [] } } _ rfl rfl calls answer
                hlater

/-- The bytes that envelopes are sent as, up to any number of them and divided in any way, are
received as the same envelopes, as far as these are wholly there, and every further call
gives an error. -/
theorem receiveAll_sendAll (hsent : ∀ envelope ∈ sent, Sendable lib envelope)
    {connect connect' : Except String TcpStream} {sender sender' receiver : BridgeTransport}
    {stream stream' incoming : TcpStream} {k : Nat}
    (hstream : sender.getStream connect = .ok stream)
    (hsend : sender.sendAll lib connect sent = .ok sender')
    (hstream' : sender'.getStream connect = .ok stream')
    (hreceiver : receiver.getStream connect' = .ok incoming)
    (hbytes : streamBytes incoming.incoming =
      (stream'.outgoing.drop stream.outgoing.length).take k) :
    ∃ count ≤ sent.length,
      (∀ m ≤ sent.length, m ≤ count ↔ ((sent.take m).flatMap (framed lib)).length ≤ k) ∧
      ((stream'.outgoing.drop stream.outgoing.length).length ≤ k → count = sent.length) ∧
      ∀ calls, ∃ errors, receiver.receiveAll lib connect' calls =
          ((sent.take count).map fun envelope => .ok envelope.normalized).take calls.length ++
            errors ∧
        ∀ answer ∈ errors, ∃ text, answer = .error (.network text) := by
  have houtgoing : stream'.outgoing.drop stream.outgoing.length = sent.flatMap (framed lib) := by
    have hall := getStream_sendAll hstream hsend
    rw [hstream'] at hall
    rw [Except.ok.inj hall, List.drop_left' rfl]
  rw [houtgoing] at hbytes ⊢
  refine ⟨arrived lib sent k, arrived_le_length lib sent k, fun m hm => le_arrived_iff hm, ?_,
    fun calls => receiveAll_eq hsent hreceiver hbytes calls⟩
  intro hk
  have hall := (@le_arrived_iff lib sent sent.length k (Nat.le_refl _)).mpr
  rw [List.take_length] at hall
  exact Nat.le_antisymm (arrived_le_length lib sent k) (hall hk)

end Delivery

theorem sendable_sample : Sendable sampleLibrary sampleEnvelope :=
  ⟨by decide, by decide, by decide⟩

/-- The first part of a stream of two envelopes: the first one and two bytes more. -/
def samplePart : Fragment :=
  ⟨BridgeTransport.framed sampleLibrary sampleEnvelope ++ [61, 0], by decide⟩

theorem receiveAll_sendAll_sample : ∃ count errors,
    ({ remoteAddr := "a" } : BridgeTransport).receiveAll sampleLibrary (.ok { incoming := [samplePart] })
        [(sampleId, 0), (sampleId, 0)] =
      (([sampleEnvelope, sampleEnvelope].take count).map fun envelope => .ok envelope.normalized).take
        2 ++ errors ∧ ∀ answer ∈ errors, ∃ text, answer = .error (.network text) := by
  have hsent : ∀ envelope ∈ [sampleEnvelope, sampleEnvelope], Sendable sampleLibrary envelope := by
    intro envelope henvelope
    have hsame : envelope = sampleEnvelope := by simpa using henvelope
    rw [hsame]
    exact sendable_sample
  obtain ⟨count, -, -, -, hcalls⟩ :=
    @receiveAll_sendAll sampleLibrary [sampleEnvelope, sampleEnvelope] hsent
      (.ok { incoming := [] }) (.ok { incoming := [samplePart] }) { remoteAddr := "b" } _
      { remoteAddr := "a" } { incoming := [] } _ { incoming := [samplePart] } 67 rfl rfl rfl rfl
      (by decide)
  obtain ⟨errors, herrors⟩ := hcalls [(sampleId, 0), (sampleId, 0)]
  exact ⟨count, errors, herrors⟩

end BenShu.Comm
