import BenShu.Comm.Protocol

/-!
# Envelopes on the wire

On the wire a text that is missing is an empty one, and times are whole seconds. What is
read back is the envelope in that form, and a further trip changes nothing.
-/

namespace BenShu.Comm

open ByteCodec

/-! ## Messages -/

namespace Proto

inductive AddrType where
  | agent (id : String)
  | user (id : String)
  | system (id : String)
  deriving DecidableEq

structure Address where
  addrType : Option AddrType
  deriving DecidableEq

structure Metadata where
  id : String
  source : Option Address
  priority : UInt32
  timestamp : UInt64
  timeout : UInt64
  signature : String
  signer : Option Address
  tenantId : String
  sessionId : String
  traceId : String
  taskId : String
  parentTaskId : String
  rootTaskId : String
  parentMessageId : String
  rootMessageId : String
  deriving DecidableEq

structure CommEnvelope where
  target : Option Address
  payload : List UInt8
  metadata : Option Metadata
  deriving DecidableEq

end Proto

/-- The encoding of messages and the text of identifiers. -/
structure ProtoLibrary where
  encode : Proto.CommEnvelope → List UInt8
  decode : List UInt8 → Option Proto.CommEnvelope
  uuidText : Uuid → String
  parseUuid : String → Option Uuid

/-! ## Conversions -/

def Address.toProto : Address → Proto.Address
  | .agent id => ⟨some (.agent id)⟩
  | .user id => ⟨some (.user id)⟩
  | .system id => ⟨some (.system id)⟩

def Address.fromProto (p : Proto.Address) : Address :=
  match p.addrType with
  | some (.agent id) => .agent id
  | some (.user id) => .user id
  | some (.system id) => .system id
  | none => .system "unknown"

def present (s : String) : Option String := if s = "" then none else some s

def nonEmpty (x : Option String) : Option String := x.filter fun s => s ≠ ""

def Uuid.nil : Uuid where
  bytes := List.replicate 16 0
  length_bytes := by decide

def Metadata.causalText (m : Metadata) (f : CausalityMetadata → Option String) : String :=
  (m.causality.bind f).getD ""

variable (lib : ProtoLibrary)

def Metadata.toProto (m : Metadata) : Proto.Metadata where
  id := lib.uuidText m.id
  source := some m.source.toProto
  priority := m.priority
  timestamp := m.timestamp.secs
  timeout := (m.timeout.map Duration.secs).getD 0
  signature := m.signature.getD ""
  signer := m.signer.map Address.toProto
  tenantId := m.tenantId.getD ""
  sessionId := m.causalText CausalityMetadata.sessionId
  traceId := m.causalText CausalityMetadata.traceId
  taskId := m.causalText CausalityMetadata.taskId
  parentTaskId := m.causalText CausalityMetadata.parentTaskId
  rootTaskId := m.causalText CausalityMetadata.rootTaskId
  parentMessageId := m.causalText CausalityMetadata.parentMessageId
  rootMessageId := m.causalText CausalityMetadata.rootMessageId

def Metadata.fromProto (p : Proto.Metadata) : Metadata :=
  let causality : CausalityMetadata :=
    { sessionId := present p.sessionId
      traceId := present p.traceId
      taskId := present p.taskId
      parentTaskId := present p.parentTaskId
      rootTaskId := present p.rootTaskId
      parentMessageId := present p.parentMessageId
      rootMessageId := present p.rootMessageId }
  { id := (lib.parseUuid p.id).getD .nil
    source := (p.source.map Address.fromProto).getD (.system "unknown")
    priority := p.priority
    timestamp := .fromSecs p.timestamp
    timeout := if p.timeout > 0 then some (.fromSecs p.timeout) else none
    signature := present p.signature
    signer := p.signer.map Address.fromProto
    tenantId := present p.tenantId
    causality := if causality = {} then none else some causality }

def CommEnvelope.toProto (e : CommEnvelope) : Proto.CommEnvelope where
  target := some e.target.toProto
  payload := e.payload
  metadata := some (e.metadata.toProto lib)

/-- An envelope without metadata gets new ones, from a fresh identifier and the clock. -/
def CommEnvelope.fromProto (newId : Uuid) (now : UInt64) (p : Proto.CommEnvelope) :
    CommEnvelope where
  target := (p.target.map Address.fromProto).getD (.system "unknown")
  payload := p.payload
  metadata := (p.metadata.map (Metadata.fromProto lib)).getD
    (.new newId now (.system "unknown"))

def CommEnvelope.transported (newId : Uuid) (now : UInt64) (e : CommEnvelope) :
    Option CommEnvelope :=
  (lib.decode (lib.encode (e.toProto lib))).map (.fromProto lib newId now)

/-! ## A trip -/

section Trip

variable {lib : ProtoLibrary} {m : Metadata} {e : CommEnvelope}

@[simp] theorem Address.fromProto_toProto (a : Address) : .fromProto a.toProto = a := by
  cases a <;> rfl

@[simp] theorem present_getD (x : Option String) :
    present (x.getD "") = nonEmpty x := by
  cases x with
  | none => rfl
  | some s =>
      unfold present nonEmpty
      by_cases h : s = "" <;> simp [Option.filter, h]

@[simp] theorem getD_present (s : String) : (present s).getD "" = s := by
  unfold present
  split
  · rename_i h
    exact h.symm
  · rfl

variable {f : CausalityMetadata → Option String}

theorem bind_unless_default {c : CausalityMetadata} (hf : f {} = none) :
    (if c = {} then none else some c).bind f = f c := by
  split
  · rename_i h
    rw [h, hf]
    rfl
  · rfl

theorem timeout_read_back (t : UInt64) :
    ((if t > 0 then some (Duration.fromSecs t) else none).map Duration.secs).getD 0 = t := by
  by_cases h : t > 0
  · rw [if_pos h]
    rfl
  · have hzero : t = 0 := by simpa using h
    rw [if_neg h, hzero]
    rfl

/-- The texts of a causality that are not empty. -/
def Metadata.writtenCausality (m : Metadata) : CausalityMetadata where
  sessionId := nonEmpty (m.causality.bind CausalityMetadata.sessionId)
  traceId := nonEmpty (m.causality.bind CausalityMetadata.traceId)
  taskId := nonEmpty (m.causality.bind CausalityMetadata.taskId)
  parentTaskId := nonEmpty (m.causality.bind CausalityMetadata.parentTaskId)
  rootTaskId := nonEmpty (m.causality.bind CausalityMetadata.rootTaskId)
  parentMessageId := nonEmpty (m.causality.bind CausalityMetadata.parentMessageId)
  rootMessageId := nonEmpty (m.causality.bind CausalityMetadata.rootMessageId)

/-- Metadata in the form that they have on the wire: no part of a second, and no empty
texts. -/
def Metadata.normalized (m : Metadata) : Metadata :=
  let timeout := (m.timeout.map Duration.secs).getD 0
  { m with
    timestamp := .fromSecs m.timestamp.secs
    timeout := if timeout > 0 then some (.fromSecs timeout) else none
    signature := nonEmpty m.signature
    tenantId := nonEmpty m.tenantId
    causality := if m.writtenCausality = {} then none else some m.writtenCausality }

theorem Metadata.fromProto_toProto (hid : lib.parseUuid (lib.uuidText m.id) = some m.id) :
    Metadata.fromProto lib (m.toProto lib) = m.normalized := by
  have hsigner : (m.signer.map Address.toProto).map Address.fromProto = m.signer := by
    cases m.signer <;> simp
  simp only [Metadata.fromProto, Metadata.toProto, Metadata.causalText, present_getD, hid, hsigner,
    Option.getD_some, Option.map_some, Address.fromProto_toProto]
  rfl

@[simp] theorem getD_nonEmpty (x : Option String) : (nonEmpty x).getD "" = x.getD "" := by
  cases x with
  | none => rfl
  | some s => by_cases h : s = "" <;> simp [nonEmpty, Option.filter, h]

theorem Metadata.bind_normalized (hf : f {} = none)
    (htext : f m.writtenCausality = nonEmpty (m.causality.bind f)) :
    m.normalized.causality.bind f = nonEmpty (m.causality.bind f) :=
  (bind_unless_default hf).trans htext

theorem Metadata.causalText_normalized (hf : f {} = none)
    (htext : f m.writtenCausality = nonEmpty (m.causality.bind f)) :
    m.normalized.causalText f = m.causalText f := by
  rw [causalText, bind_normalized hf htext, getD_nonEmpty]
  rfl

theorem Metadata.toProto_normalized : m.normalized.toProto lib = m.toProto lib := by
  have htimeout := timeout_read_back ((m.timeout.map Duration.secs).getD 0)
  unfold Metadata.toProto
  rw [causalText_normalized (f := CausalityMetadata.sessionId) rfl rfl,
    causalText_normalized (f := CausalityMetadata.traceId) rfl rfl,
    causalText_normalized (f := CausalityMetadata.taskId) rfl rfl,
    causalText_normalized (f := CausalityMetadata.parentTaskId) rfl rfl,
    causalText_normalized (f := CausalityMetadata.rootTaskId) rfl rfl,
    causalText_normalized (f := CausalityMetadata.parentMessageId) rfl rfl,
    causalText_normalized (f := CausalityMetadata.rootMessageId) rfl rfl]
  simp only [Metadata.normalized, getD_nonEmpty, htimeout]
  rfl

/-! ## Signatures after a trip -/

theorem signingPayload_normalized : m.normalized.signingPayload = m.signingPayload := by
  have htenant : m.normalized.tenantBytes = m.tenantBytes := by
    unfold Metadata.tenantBytes
    have hnormalized : m.normalized.tenantId = nonEmpty m.tenantId := rfl
    rw [hnormalized]
    cases m.tenantId with
    | none => rfl
    | some tid =>
        by_cases h : tid = ""
        · rw [h]
          rfl
        · simp [nonEmpty, Option.filter, h]
  unfold Metadata.signingPayload
  rw [htenant]
  rfl

theorem verify_normalized (hmac : Hmac) (key : List UInt8) :
    m.normalized.verify hmac key = m.verify hmac key := by
  have hpayload := @signingPayload_normalized m
  unfold Metadata.verify
  have hsignature : m.normalized.signature = nonEmpty m.signature := rfl
  have hsigner : m.normalized.signer = m.signer := rfl
  rw [hpayload, hsignature, hsigner]
  cases m.signature with
  | none => rfl
  | some sigHex =>
      by_cases hempty : sigHex = ""
      · subst hempty
        cases m.signer with
        | none => rfl
        | some signer =>
            cases hmac key with
            | error e => rfl
            | ok mac =>
                have hcode : ¬[] = (mac m.signingPayload).toList := by
                  intro h
                  have hlength := congrArg List.length h
                  simp at hlength
                show some false = some (decide ([] = (mac m.signingPayload).toList))
                rw [decide_eq_false hcode]
      · have hsame : nonEmpty (some sigHex) = some sigHex := by
          simp [nonEmpty, Option.filter, hempty]
        rw [hsame]

/-! ## What is read back -/

/-- The envelope that is read back agrees with the one that was sent; texts that are empty
are none. -/
structure CommEnvelope.ReadBack (sent read : CommEnvelope) : Prop where
  id : read.metadata.id = sent.metadata.id
  source : read.metadata.source = sent.metadata.source
  target : read.target = sent.target
  payload : read.payload = sent.payload
  tenantId : read.metadata.tenantId = nonEmpty sent.metadata.tenantId
  sessionId : read.metadata.causality.bind CausalityMetadata.sessionId =
    nonEmpty (sent.metadata.causality.bind CausalityMetadata.sessionId)
  traceId : read.metadata.causality.bind CausalityMetadata.traceId =
    nonEmpty (sent.metadata.causality.bind CausalityMetadata.traceId)
  taskId : read.metadata.causality.bind CausalityMetadata.taskId =
    nonEmpty (sent.metadata.causality.bind CausalityMetadata.taskId)
  parentTaskId : read.metadata.causality.bind CausalityMetadata.parentTaskId =
    nonEmpty (sent.metadata.causality.bind CausalityMetadata.parentTaskId)
  rootTaskId : read.metadata.causality.bind CausalityMetadata.rootTaskId =
    nonEmpty (sent.metadata.causality.bind CausalityMetadata.rootTaskId)
  parentMessageId : read.metadata.causality.bind CausalityMetadata.parentMessageId =
    nonEmpty (sent.metadata.causality.bind CausalityMetadata.parentMessageId)
  rootMessageId : read.metadata.causality.bind CausalityMetadata.rootMessageId =
    nonEmpty (sent.metadata.causality.bind CausalityMetadata.rootMessageId)

def CommEnvelope.normalized (e : CommEnvelope) : CommEnvelope :=
  { e with metadata := e.metadata.normalized }

theorem transported_eq (newId : Uuid) (now : UInt64)
    (hwire : lib.decode (lib.encode (e.toProto lib)) = some (e.toProto lib))
    (hid : lib.parseUuid (lib.uuidText e.metadata.id) = some e.metadata.id) :
    e.transported lib newId now = some e.normalized := by
  unfold CommEnvelope.transported
  rw [hwire]
  simp only [Option.map_some, CommEnvelope.fromProto, CommEnvelope.toProto, Option.getD_some,
    Address.fromProto_toProto, Metadata.fromProto_toProto hid]
  rfl

theorem readBack_normalized : e.ReadBack e.normalized where
  id := rfl
  source := rfl
  target := rfl
  payload := rfl
  tenantId := rfl
  sessionId := Metadata.bind_normalized rfl rfl
  traceId := Metadata.bind_normalized rfl rfl
  taskId := Metadata.bind_normalized rfl rfl
  parentTaskId := Metadata.bind_normalized rfl rfl
  rootTaskId := Metadata.bind_normalized rfl rfl
  parentMessageId := Metadata.bind_normalized rfl rfl
  rootMessageId := Metadata.bind_normalized rfl rfl

/-- An envelope that is decoded stays as it is on a further trip, agrees with the one that
was encoded, and has the same verdict under every key. -/
theorem transported_preserves (newId : Uuid) (now : UInt64)
    (hwire : lib.decode (lib.encode (e.toProto lib)) = some (e.toProto lib))
    (hid : lib.parseUuid (lib.uuidText e.metadata.id) = some e.metadata.id) :
    ∃ read, e.transported lib newId now = some read ∧
      read.transported lib newId now = some read ∧ e.ReadBack read ∧
      ∀ hmac key, read.metadata.verify hmac key = e.metadata.verify hmac key := by
  have hproto : e.normalized.toProto lib = e.toProto lib := by
    unfold CommEnvelope.toProto
    rw [CommEnvelope.normalized, Metadata.toProto_normalized]
  refine ⟨e.normalized, transported_eq newId now hwire hid, ?_, readBack_normalized,
    fun hmac key => verify_normalized hmac key⟩
  have hfirst := transported_eq newId now hwire hid
  unfold CommEnvelope.transported at hfirst ⊢
  rw [hproto]
  exact hfirst

end Trip

/-! ## A message -/

section Sample

def sampleId : Uuid := ⟨List.replicate 16 7, sampleBytes_length⟩

/-- The tenant is there, and its text is empty. -/
def sampleEnvelope : CommEnvelope where
  target := .agent "b"
  payload := [1]
  metadata := { Metadata.new sampleId 1700000000 (.agent "a") with tenantId := some "" }

def sampleProto : Proto.CommEnvelope where
  target := some ⟨some (.agent "b")⟩
  payload := [1]
  metadata := some {
    id := "07070707-0707-0707-0707-070707070707"
    source := some ⟨some (.agent "a")⟩
    priority := 0
    timestamp := 1700000000
    timeout := 30
    signature := ""
    signer := none
    tenantId := ""
    sessionId := ""
    traceId := ""
    taskId := ""
    parentTaskId := ""
    rootTaskId := ""
    parentMessageId := ""
    rootMessageId := "" }

def sampleBytes : List UInt8 :=
  [10, 3, 10, 1, 98, 18, 1, 1, 26, 51, 10, 36, 48, 55, 48, 55, 48, 55, 48, 55, 45, 48, 55, 48,
    55, 45, 48, 55, 48, 55, 45, 48, 55, 48, 55, 45, 48, 55, 48, 55, 48, 55, 48, 55, 48, 55, 48,
    55, 18, 3, 10, 1, 97, 32, 128, 226, 207, 170, 6, 40, 30]

def sampleLibrary : ProtoLibrary where
  encode _ := sampleBytes
  decode _ := some sampleProto
  uuidText _ := "07070707-0707-0707-0707-070707070707"
  parseUuid _ := some sampleId

theorem transported_preserves_sample :
    ∃ read, sampleEnvelope.transported sampleLibrary sampleId 0 = some read ∧
      read.transported sampleLibrary sampleId 0 = some read ∧ sampleEnvelope.ReadBack read ∧
      ∀ hmac key, read.metadata.verify hmac key = sampleEnvelope.metadata.verify hmac key :=
  transported_preserves sampleId 0 (by decide) (by decide)

/-- A tenant with an empty text is sent, and none is read. -/
theorem emptyTenant_lost :
    ¬∀ (lib : ProtoLibrary) (e read : CommEnvelope) (newId : Uuid) (now : UInt64),
      lib.decode (lib.encode (e.toProto lib)) = some (e.toProto lib) →
      lib.parseUuid (lib.uuidText e.metadata.id) = some e.metadata.id →
      e.transported lib newId now = some read →
      read.metadata.tenantId = e.metadata.tenantId := by
  intro h
  have hread := h sampleLibrary sampleEnvelope sampleEnvelope.normalized sampleId 0 (by decide)
    (by decide) (by decide)
  exact absurd hread (by decide)

end Sample

end BenShu.Comm
