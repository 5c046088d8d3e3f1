import BenShu.Comm.Protocol

/-!
# What a signature covers

The parts of a signing payload stand one after the other without lengths or separators.
Two payloads are equal if the parts are, or if the source of one goes on into the time and
the tenant of the other.
-/

namespace BenShu.Comm

open ByteCodec

variable {m m' : Metadata} {e e' : CommEnvelope}

/-! ## Addresses -/

theorem Address.toString_eq (a : Address) : toString a = a.scheme ++ a.id := by
  cases a <;> rfl

theorem Address.eq_iff {a b : Address} : a = b ↔ a.scheme = b.scheme ∧ a.id = b.id := by
  constructor
  · intro h
    rw [h]
    exact ⟨rfl, rfl⟩
  · intro ⟨hscheme, hid⟩
    cases a <;> cases b <;> first | exact congrArg _ hid | simp [Address.scheme] at hscheme

def Address.initial : Address → UInt8
  | .agent _ => 97
  | .user _ => 117
  | .system _ => 115

theorem utf8_scheme (a : Address) : ∃ rest, utf8 a.scheme = a.initial :: rest := by
  have hagent : utf8 "agent://" = [97, 103, 101, 110, 116, 58, 47, 47] := by decide
  have huser : utf8 "user://" = [117, 115, 101, 114, 58, 47, 47] := by decide
  have hsystem : utf8 "system://" = [115, 121, 115, 116, 101, 109, 58, 47, 47] := by decide
  cases a with
  | agent _ => exact ⟨_, hagent⟩
  | user _ => exact ⟨_, huser⟩
  | system _ => exact ⟨_, hsystem⟩

theorem scheme_eq_of_append {a b : Address} {rest rest' : List UInt8}
    (h : utf8 a.scheme ++ rest = utf8 b.scheme ++ rest') : a.scheme = b.scheme := by
  rcases utf8_scheme a with ⟨tail, ha⟩
  rcases utf8_scheme b with ⟨tail', hb⟩
  rw [ha, hb, List.cons_append, List.cons_append, List.cons.injEq] at h
  have hfirst := h.1
  cases a <;> cases b <;> first | rfl | simp [Address.initial] at hfirst

/-! ## Equal payloads -/

/-- The texts of all parts are equal. -/
structure SameText (m m' : Metadata) : Prop where
  source : m.source = m'.source
  secs : m.timestamp.secs = m'.timestamp.secs
  tenant : m.tenantId.getD "" = m'.tenantId.getD ""

/-- The source of the second goes on after that of the first, with what the first has for
its time and tenant. -/
def RunsOn (m m' : Metadata) : Prop :=
  ∃ rest : List UInt8, rest ≠ [] ∧ m.source.scheme = m'.source.scheme ∧
    utf8 m'.source.id = utf8 m.source.id ++ rest ∧
    wordBytes m.timestamp.secs ++ utf8 (m.tenantId.getD "") =
      rest ++ (wordBytes m'.timestamp.secs ++ utf8 (m'.tenantId.getD ""))

theorem signingPayload_eq (m : Metadata) :
    m.signingPayload = m.id.bytes ++ (utf8 m.source.scheme ++ (utf8 m.source.id ++
      (wordBytes m.timestamp.secs ++ utf8 (m.tenantId.getD "")))) := by
  have htenant : m.tenantBytes = utf8 (m.tenantId.getD "") := by
    unfold Metadata.tenantBytes
    cases m.tenantId with
    | none => rfl
    | some tid => rfl
  rw [Metadata.signingPayload, htenant, Address.toString_eq, utf8_append]
  simp only [List.append_assoc]

theorem wordBytes_append_inj {secs secs' : UInt64} {tenant tenant' : String}
    (h : wordBytes secs ++ utf8 tenant = wordBytes secs' ++ utf8 tenant') :
    secs = secs' ∧ tenant = tenant' := by
  have hlength : (wordBytes secs).length = (wordBytes secs').length := by
    rw [wordBytes, wordBytes, leBytes_length, leBytes_length]
  rcases List.append_inj h hlength with ⟨hword, htext⟩
  exact ⟨wordBytes_injective hword, utf8_injective htext⟩

theorem SameText.symm (h : SameText m m') : SameText m' m :=
  ⟨h.source.symm, h.secs.symm, h.tenant.symm⟩

/-- Where the second source goes on after the first by nothing, all parts are equal. -/
theorem parts_of_append {rest : List UInt8} (hscheme : m.source.scheme = m'.source.scheme)
    (hsource : utf8 m'.source.id = utf8 m.source.id ++ rest)
    (htail : wordBytes m.timestamp.secs ++ utf8 (m.tenantId.getD "") =
      rest ++ (wordBytes m'.timestamp.secs ++ utf8 (m'.tenantId.getD ""))) :
    SameText m m' ∨ RunsOn m m' := by
  by_cases hempty : rest = []
  · rw [hempty, List.append_nil] at hsource
    rw [hempty, List.nil_append] at htail
    rcases wordBytes_append_inj htail with ⟨hsecs, htenant⟩
    have hid : m.source.id = m'.source.id := utf8_injective hsource.symm
    exact .inl ⟨Address.eq_iff.mpr ⟨hscheme, hid⟩, hsecs, htenant⟩
  · exact .inr ⟨rest, hempty, hscheme, hsource, htail⟩

theorem signingPayload_of_runsOn (hid : m.id = m'.id) (h : RunsOn m m') :
    m.signingPayload = m'.signingPayload := by
  rcases h with ⟨rest, _, hscheme, hsource, htail⟩
  rw [signingPayload_eq, signingPayload_eq, hid, hscheme, hsource, htail]
  simp only [List.append_assoc]

theorem signingPayload_eq_iff :
    m.signingPayload = m'.signingPayload ↔
      m.id = m'.id ∧ (SameText m m' ∨ RunsOn m m' ∨ RunsOn m' m) := by
  constructor
  · intro h
    rw [signingPayload_eq, signingPayload_eq] at h
    have hlength : m.id.bytes.length = m'.id.bytes.length := by
      rw [m.id.length_bytes, m'.id.length_bytes]
    rcases List.append_inj h hlength with ⟨hid, hrest⟩
    have hscheme := scheme_eq_of_append hrest
    rw [hscheme] at hrest
    refine ⟨Uuid.ext hid, ?_⟩
    rcases List.append_eq_append_iff.mp (List.append_cancel_left hrest) with
      ⟨rest, hsource, htail⟩ | ⟨rest, hsource, htail⟩
    · rcases parts_of_append hscheme hsource htail with hsame | hruns
      · exact .inl hsame
      · exact .inr (.inl hruns)
    · rcases parts_of_append hscheme.symm hsource htail with hsame | hruns
      · exact .inl hsame.symm
      · exact .inr (.inr hruns)
  · intro ⟨hid, hparts⟩
    rcases hparts with hsame | hruns | hruns
    · rw [signingPayload_eq, signingPayload_eq, hid, hsame.source, hsame.secs, hsame.tenant]
    · exact signingPayload_of_runsOn hid hruns
    · exact (signingPayload_of_runsOn hid.symm hruns).symm

/-! ## Signatures -/

theorem fromStrRadix16_digits {high low byte : UInt8} (hhigh : hexValue high = some (byte.toNat / 16))
    (hlow : hexValue low = some (byte.toNat % 16)) (hplus : high ≠ 43) :
    fromStrRadix16 high low = some byte := by
  unfold fromStrRadix16
  rw [if_neg hplus, hhigh, hlow]
  dsimp only
  rw [Nat.div_add_mod, UInt8.ofNat_toNat]

theorem decodeHex_hexText (bytes : List UInt8) :
    decodeHex (utf8 (hexText bytes)) = some (some bytes) := by
  induction bytes with
  | nil => rfl
  | cons byte bytes ih =>
      rcases utf8_hexText_cons byte bytes with ⟨high, low, htext, hhigh, hlow, _, hplus⟩
      have hstart : ((utf8 (hexText bytes)).head?.map isContinuation).getD false = false := by
        cases bytes with
        | nil => rfl
        | cons next rest =>
            rcases utf8_hexText_cons next rest with ⟨high', low', htext', _, _, hstart', _⟩
            rw [htext']
            exact hstart'
      rw [htext, decodeHex, hstart, if_neg Bool.false_ne_true,
        fromStrRadix16_digits hhigh hlow hplus]
      dsimp only
      rw [ih]
      rfl

def Metadata.withSignatureOf (m' signed : Metadata) : Metadata :=
  { m' with signature := signed.signature, signer := signed.signer }

theorem verify_withSignatureOf {hmac : Hmac} {key : List UInt8} {signerAddr : Address}
    {mac : List UInt8 → Vector UInt8 32} {signed : Metadata} (hmac_key : hmac key = .ok mac)
    (hsigned : m.sign hmac key signerAddr = .ok signed) :
    (m'.withSignatureOf signed).verify hmac key =
      some (decide (mac m.signingPayload = mac m'.signingPayload)) := by
  unfold Metadata.sign at hsigned
  rw [hmac_key] at hsigned
  cases hsigned
  unfold Metadata.withSignatureOf Metadata.verify
  dsimp only
  rw [hmac_key]
  dsimp only
  rw [decodeHex_hexText]
  have hpayload : ({ m' with
      signature := some (hexText (mac m.signingPayload).toList)
      signer := some signerAddr } : Metadata).signingPayload = m'.signingPayload := rfl
  rw [hpayload]
  simp [Vector.toList_inj]

/-! ## What is covered -/

/-- Agreement on what a signature is to stand for, with the time as it is sent. -/
structure CommEnvelope.Agrees (e e' : CommEnvelope) : Prop where
  id : e.metadata.id = e'.metadata.id
  source : e.metadata.source = e'.metadata.source
  target : e.target = e'.target
  secs : e.metadata.timestamp.secs = e'.metadata.timestamp.secs
  tenant : e.metadata.tenantId = e'.metadata.tenantId
  payload : e.payload = e'.payload

def SigningCovers (e e' : CommEnvelope) : Prop :=
  ¬e.Agrees e' → e.metadata.signingPayload ≠ e'.metadata.signingPayload

/-- With a keyed hash that does not collide on the two, a signature made for the one
envelope verifies for the other only if they agree. -/
def SignatureBinds (e e' : CommEnvelope) : Prop :=
  ∀ (hmac : Hmac) (key : List UInt8) (mac : List UInt8 → Vector UInt8 32) (signerAddr : Address)
    (signed : Metadata), hmac key = .ok mac →
    (mac e.metadata.signingPayload = mac e'.metadata.signingPayload →
      e.metadata.signingPayload = e'.metadata.signingPayload) →
    e.metadata.sign hmac key signerAddr = .ok signed →
    (e'.metadata.withSignatureOf signed).verify hmac key = some true → e.Agrees e'

/-- The identifiers differ; or neither source goes on into the time and tenant of the other,
and envelopes with equal texts have the same target, payload and presence of a tenant. -/
def ToldApart (e e' : CommEnvelope) : Prop :=
  e.metadata.id = e'.metadata.id →
    ¬RunsOn e.metadata e'.metadata ∧ ¬RunsOn e'.metadata e.metadata ∧
      (SameText e.metadata e'.metadata →
        e.target = e'.target ∧ e.payload = e'.payload ∧
          e.metadata.tenantId.isSome = e'.metadata.tenantId.isSome)

theorem option_eq_of_getD {α : Type} {x y : Option α} {a : α} (h : x.getD a = y.getD a)
    (hsome : x.isSome = y.isSome) : x = y := by
  cases x <;> cases y <;> simp_all

theorem agrees_iff : e.Agrees e' ↔ e.metadata.id = e'.metadata.id ∧
    SameText e.metadata e'.metadata ∧ e.target = e'.target ∧ e.payload = e'.payload ∧
    e.metadata.tenantId.isSome = e'.metadata.tenantId.isSome := by
  constructor
  · intro h
    exact ⟨h.id, ⟨h.source, h.secs, by rw [h.tenant]⟩, h.target, h.payload, by rw [h.tenant]⟩
  · intro ⟨hid, hsame, htarget, hpayload, hsome⟩
    exact ⟨hid, hsame.source, htarget, hsame.secs, option_eq_of_getD hsame.tenant hsome, hpayload⟩

theorem RunsOn.source_ne (h : RunsOn m m') : m.source ≠ m'.source := by
  rcases h with ⟨rest, hempty, _, hsource, _⟩
  intro heq
  rw [heq] at hsource
  exact hempty (List.append_right_eq_self.mp hsource.symm)

theorem signingCovers_iff : SigningCovers e e' ↔ ToldApart e e' := by
  unfold SigningCovers ToldApart
  rw [agrees_iff, not_imp_comm, ne_eq, not_not, signingPayload_eq_iff]
  constructor
  · intro h hid
    have hparts := fun hequal => (h ⟨hid, hequal⟩).2
    refine ⟨?_, ?_, fun hsame => (hparts (.inl hsame)).2⟩
    · exact fun hruns => hruns.source_ne (hparts (.inr (.inl hruns))).1.source
    · exact fun hruns => hruns.source_ne (hparts (.inr (.inr hruns))).1.source.symm
  · intro h ⟨hid, hequal⟩
    rcases h hid with ⟨hforth, hback, hsameText⟩
    rcases hequal with hsame | hruns | hruns
    · exact ⟨hid, hsame, hsameText hsame⟩
    · exact absurd hruns hforth
    · exact absurd hruns hback

theorem signatureBinds_iff : SignatureBinds e e' ↔ SigningCovers e e' := by
  constructor
  · intro h hdiffer hequal
    let hmac : Hmac := fun _ => .ok fun _ => Vector.replicate 32 0
    have hverify := @verify_withSignatureOf e.metadata e'.metadata hmac [] e.metadata.source
      (fun _ => Vector.replicate 32 0) _ rfl rfl
    rw [decide_eq_true rfl] at hverify
    exact hdiffer (h hmac [] _ e.metadata.source _ rfl (fun _ => hequal) rfl hverify)
  · intro h hmac key mac signerAddr signed hmac_key hcollision hsigned hverify
    rw [verify_withSignatureOf hmac_key hsigned, Option.some.injEq, decide_eq_true_eq] at hverify
    by_contra hdiffer
    exact h hdiffer (hcollision hverify)

/-- Signing payloads and signatures stand for what they are to stand for exactly if the
envelopes are told apart. -/
theorem signing_sound_iff (e e' : CommEnvelope) :
    SigningCovers e e' ∧ SignatureBinds e e' ↔ ToldApart e e' := by
  rw [signatureBinds_iff, and_self, signingCovers_iff]

/-! ## Envelopes that are not told apart -/

section Forged

def order : CommEnvelope where
  target := .agent "treasury"
  payload := [1, 0]
  metadata := .new ⟨List.replicate 16 7, rfl⟩ 1766015553 (.agent "a")

def forgedOrder : CommEnvelope where
  target := .agent "stranger"
  payload := [9, 9]
  metadata := order.metadata

def tenantOrder : CommEnvelope :=
  { order with metadata := { order.metadata with tenantId := some "BBCi\x00\x00\x00\x00x" } }

def sourceOrder : CommEnvelope :=
  { order with metadata := { order.metadata with
      source := .agent "aABCi\x00\x00\x00\x00"
      timestamp := .fromSecs 1766015554
      tenantId := some "x" } }

/-- Another payload, another source, and an empty tenant for a missing one. -/
theorem signing_unsound :
    ¬SigningCovers order forgedOrder ∧ ¬SignatureBinds order forgedOrder ∧
      ¬SigningCovers tenantOrder sourceOrder ∧
      ¬SigningCovers order
        { order with metadata := { order.metadata with tenantId := some "" } } := by
  have hforged : ¬SigningCovers order forgedOrder := by
    intro h
    refine h (fun hagrees => ?_) rfl
    exact absurd hagrees.payload (by decide)
  refine ⟨hforged, fun h => hforged (signatureBinds_iff.mp h), ?_, ?_⟩
  · intro h
    refine h (fun hagrees => ?_) (by decide)
    exact absurd hagrees.source (by decide)
  · intro h
    refine h (fun hagrees => ?_) rfl
    exact absurd hagrees.tenant (by decide)

end Forged

end BenShu.Comm
