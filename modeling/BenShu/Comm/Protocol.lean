import BenShu.Lib.ByteCodec

/-!
# Envelopes

An envelope carries a payload to a target, with metadata that may be signed. A signature
is the code of the identifier, the source, the time in seconds and the tenant.
-/

namespace BenShu.Comm

open ByteCodec

inductive ProtocolError where
  | serialization (text : String)
  | invalidAddress (text : String)
  | unsupportedVersion (version : UInt32)
  | validation (text : String)
  deriving DecidableEq

/-! ## Addresses -/

inductive Address where
  | agent (id : String)
  | user (id : String)
  | system (id : String)
  deriving DecidableEq

namespace Address

def id : Address → String
  | .agent id | .user id | .system id => id

/-- What stands before the identifier in the text of an address. -/
def scheme : Address → String
  | .agent _ => "agent://"
  | .user _ => "user://"
  | .system _ => "system://"

instance : ToString Address where
  toString
    | .agent id => s!"agent://{id}"
    | .user id => s!"user://{id}"
    | .system id => s!"system://{id}"

end Address

/-! ## Metadata -/

/-- The sixteen bytes of an identifier. -/
@[ext] structure Uuid where
  bytes : List UInt8
  length_bytes : bytes.length = 16
  deriving DecidableEq

/-- Whole seconds, and nanoseconds of a second begun. -/
structure Duration where
  secs : UInt64
  nanos : Nat
  nanos_lt : nanos < 1000000000
  deriving DecidableEq

def Duration.fromSecs (secs : UInt64) : Duration where
  secs := secs
  nanos := 0
  nanos_lt := by decide

structure CausalityMetadata where
  sessionId : Option String := none
  traceId : Option String := none
  taskId : Option String := none
  parentTaskId : Option String := none
  rootTaskId : Option String := none
  parentMessageId : Option String := none
  rootMessageId : Option String := none
  deriving DecidableEq

structure Metadata where
  id : Uuid
  source : Address
  priority : UInt32
  timestamp : Duration
  timeout : Option Duration
  signature : Option String
  signer : Option Address
  tenantId : Option String
  causality : Option CausalityMetadata
  deriving DecidableEq

structure CommEnvelope where
  target : Address
  payload : List UInt8
  metadata : Metadata
  deriving DecidableEq

/-- A keyed hash for a key that it accepts, with codes of thirty-two bytes. -/
abbrev Hmac := List UInt8 → Except String (List UInt8 → Vector UInt8 32)

namespace Metadata

def new (id : Uuid) (now : UInt64) (source : Address) : Metadata where
  id := id
  source := source
  priority := 0
  timestamp := .fromSecs now
  timeout := some (.fromSecs 30)
  signature := none
  signer := none
  tenantId := none
  causality := none

def tenantBytes (m : Metadata) : List UInt8 :=
  match m.tenantId with
  | some tid => utf8 tid
  | none => []

def signingPayload (m : Metadata) : List UInt8 :=
  m.id.bytes ++ utf8 (toString m.source) ++ wordBytes m.timestamp.secs ++ m.tenantBytes

def sign (hmac : Hmac) (m : Metadata) (key : List UInt8) (signerAddr : Address) :
    Except ProtocolError Metadata :=
  match hmac key with
  | .error e => .error (.validation s!"Invalid key length: {e}")
  | .ok mac => .ok { m with
      signature := some (hexText (mac m.signingPayload).toList)
      signer := some signerAddr }

end Metadata

/-! ## Verification -/

/-- A byte of two digits. A sign may stand in the place of the first. -/
def fromStrRadix16 (high low : UInt8) : Option UInt8 :=
  if high = 43 then (hexValue low).map UInt8.ofNat
  else
    match hexValue high, hexValue low with
    | some h, some l => some (UInt8.ofNat (16 * h + l))
    | _, _ => none

/-- The bytes that a text of digits stands for, taken two bytes of text at a time: `none`
within is a text that is no number. A slice out of the text or within a letter panics. -/
def decodeHex : List UInt8 → Option (Option (List UInt8))
  | [] => some (some [])
  | [_] => none
  | high :: low :: rest =>
      if (rest.head?.map isContinuation).getD false then none
      else
        match fromStrRadix16 high low with
        | none => some none
        | some byte => (decodeHex rest).map fun bytes => bytes.map fun bytes => byte :: bytes

/-- A verdict, unless the signature makes a slice panic. -/
def Metadata.verify (hmac : Hmac) (m : Metadata) (key : List UInt8) : Option Bool :=
  match m.signature, m.signer with
  | some sigHex, some _ =>
      match hmac key with
      | .error _ => some false
      | .ok mac =>
          (decodeHex (utf8 sigHex)).map fun
            | none => false
            | some sigBytes => decide (sigBytes = (mac m.signingPayload).toList)
  | _, _ => some false

theorem sampleBytes_length : (List.replicate 16 (7 : UInt8)).length = 16 := rfl

end BenShu.Comm
