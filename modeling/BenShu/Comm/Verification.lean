import BenShu.Comm.Protocol

/-!
# Verdicts on a signature

The text of a signature is cut every two bytes. A cut within a letter or behind the end panics,
and a sign counts as a digit.
-/

namespace BenShu.Comm

open ByteCodec

/-! ## Texts of digits -/

/-- Two digits of text for every byte. -/
inductive HexEncodes : List UInt8 → List UInt8 → Prop where
  | nil : HexEncodes [] []
  | cons {high low byte : UInt8} {text bytes : List UInt8}
      (hhigh : hexValue high = some (byte.toNat / 16))
      (hlow : hexValue low = some (byte.toNat % 16)) (hrest : HexEncodes text bytes) :
      HexEncodes (high :: low :: text) (byte :: bytes)

def plusAsZero : List UInt8 → List UInt8
  | high :: low :: rest => (if high = 43 then 48 else high) :: low :: plusAsZero rest
  | rest => rest

/-- Pairs that stand for numbers. -/
inductive NumberPairs : List UInt8 → Prop where
  | nil : NumberPairs []
  | cons {high low byte : UInt8} {rest : List UInt8}
      (hpair : fromStrRadix16 high low = some byte) (hrest : NumberPairs rest) :
      NumberPairs (high :: low :: rest)

/-- The first two bytes do not end a letter, or only one is left. -/
inductive CutWithin : List UInt8 → Prop where
  | last (byte : UInt8) : CutWithin [byte]
  | letter (first second : UInt8) {next : UInt8} (rest : List UInt8)
      (hnext : isContinuation next = true) : CutWithin (first :: second :: next :: rest)

/-- Numbers stand in front of a place where the text is not cut between letters. -/
def Misaligned (text : List UInt8) : Prop :=
  ∃ numbers rest, text = numbers ++ rest ∧ NumberPairs numbers ∧ CutWithin rest

/-! ## Digits -/

theorem lt_of_hexValue {byte : UInt8} {value : Nat} (h : hexValue byte = some value) :
    value < 16 := by
  unfold hexValue at h
  dsimp only at h
  split_ifs at h <;> cases h <;> omega

theorem isContinuation_of_hexValue {byte : UInt8} (h : (hexValue byte).isSome = true) :
    isContinuation byte = false := by
  have hall : ∀ n < 256, (hexValue (UInt8.ofNat n)).isSome = true →
      isContinuation (UInt8.ofNat n) = false := by
    decide +kernel
  have hbyte := hall byte.toNat byte.toNat_lt
  rw [UInt8.ofNat_toNat] at hbyte
  exact hbyte h

theorem fromStrRadix16_eq_some_iff {high low byte : UInt8} :
    fromStrRadix16 high low = some byte ↔
      hexValue (if high = 43 then 48 else high) = some (byte.toNat / 16) ∧
        hexValue low = some (byte.toNat % 16) := by
  have hvalue : ∀ {h l : Nat}, h < 16 → l < 16 →
      ((UInt8.ofNat (16 * h + l) = byte) ↔ h = byte.toNat / 16 ∧ l = byte.toNat % 16) := by
    intro h l hh hl
    have hbound := byte.toNat_lt
    rw [← UInt8.toNat_inj, UInt8.toNat_ofNat', Nat.mod_eq_of_lt (by omega)]
    omega
  have hzero : hexValue 48 = some 0 := rfl
  unfold fromStrRadix16
  split
  · cases hlow : hexValue low with
    | none => simp
    | some l =>
        have hnumber := hvalue (Nat.zero_lt_succ 15) (lt_of_hexValue hlow)
        rw [Nat.mul_zero, Nat.zero_add] at hnumber
        rw [hzero, Option.map_some, Option.some.injEq, Option.some.injEq, Option.some.injEq]
        exact hnumber
  · cases hhigh : hexValue high with
    | none => simp
    | some h =>
        cases hlow : hexValue low with
        | none => simp
        | some l =>
            have hnumber := hvalue (lt_of_hexValue hhigh) (lt_of_hexValue hlow)
            dsimp only
            rw [Option.some.injEq, Option.some.injEq, Option.some.injEq]
            exact hnumber

/-! ## Decoding -/

theorem not_misaligned_nil : ¬Misaligned [] := by
  rintro ⟨numbers, rest, happend, -, hcut⟩
  obtain ⟨rfl, rfl⟩ := List.append_eq_nil_iff.mp happend.symm
  cases hcut

theorem misaligned_cons_iff {high low : UInt8} {rest : List UInt8} :
    Misaligned (high :: low :: rest) ↔
      (∃ next ∈ rest.head?, isContinuation next = true) ∨
        (∃ byte, fromStrRadix16 high low = some byte) ∧ Misaligned rest := by
  constructor
  · rintro ⟨numbers, tail, happend, hnumbers, hcut⟩
    cases hnumbers with
    | nil =>
        rw [List.nil_append] at happend
        subst happend
        cases hcut with
        | letter _ _ _ hnext => exact .inl ⟨_, rfl, hnext⟩
    | cons hpair hrest =>
        cases happend
        exact .inr ⟨⟨_, hpair⟩, _, tail, rfl, hrest, hcut⟩
  · rintro (⟨next, hhead, hnext⟩ | ⟨⟨byte, hpair⟩, numbers, tail, rfl, hnumbers, hcut⟩)
    · obtain ⟨rest, rfl⟩ := List.head?_eq_some_iff.mp hhead
      exact ⟨[], _, rfl, .nil, .letter _ _ _ hnext⟩
    · exact ⟨high :: low :: numbers, tail, rfl, .cons hpair hnumbers, hcut⟩

theorem decodeHex_eq_none_iff (text : List UInt8) : decodeHex text = none ↔ Misaligned text := by
  induction text using decodeHex.induct with
  | case1 => exact iff_of_false (by simp [decodeHex]) not_misaligned_nil
  | case2 byte => exact iff_of_true rfl ⟨[], [byte], rfl, .nil, .last byte⟩
  | case3 high low rest hnext =>
      rw [decodeHex, if_pos hnext, misaligned_cons_iff]
      refine iff_of_true rfl (.inl ?_)
      cases hhead : rest.head? with
      | none => rw [hhead] at hnext; cases hnext
      | some next => rw [hhead] at hnext; exact ⟨next, rfl, hnext⟩
  | case4 high low rest hnext hpair =>
      rw [decodeHex, if_neg hnext, hpair, misaligned_cons_iff]
      refine iff_of_false (by simp) ?_
      rintro (⟨next, hhead, hstart⟩ | ⟨⟨byte, hbyte⟩, -⟩)
      · rw [Option.mem_def.mp hhead] at hnext
        exact hnext hstart
      · rw [hpair] at hbyte
        cases hbyte
  | case5 high low rest hnext byte hpair ih =>
      have hhead : ¬∃ next ∈ rest.head?, isContinuation next = true := by
        rintro ⟨next, hhead, hstart⟩
        rw [Option.mem_def.mp hhead] at hnext
        exact hnext hstart
      rw [decodeHex, if_neg hnext, hpair, misaligned_cons_iff]
      dsimp only
      rw [Option.map_eq_none_iff, ih, or_iff_right hhead, and_iff_right ⟨byte, hpair⟩]

theorem head_of_hexEncodes {text bytes : List UInt8} (h : HexEncodes (plusAsZero text) bytes) :
    ((text.head?.map isContinuation).getD false) = false := by
  match text with
  | [] => rfl
  | [_] => cases h
  | high :: low :: rest =>
      cases h with
      | cons hhigh _ _ =>
          rw [List.head?_cons, Option.map_some, Option.getD_some]
          by_cases hplus : high = 43
          · rw [hplus]
            rfl
          · rw [if_neg hplus] at hhigh
            exact isContinuation_of_hexValue (by rw [hhigh]; rfl)

theorem decodeHex_eq_some_iff (text bytes : List UInt8) :
    decodeHex text = some (some bytes) ↔ HexEncodes (plusAsZero text) bytes := by
  constructor
  · intro h
    induction text using decodeHex.induct generalizing bytes with
    | case1 =>
        cases h
        exact .nil
    | case2 byte => cases h
    | case3 high low rest hnext => rw [decodeHex, if_pos hnext] at h; cases h
    | case4 high low rest hnext hpair => rw [decodeHex, if_neg hnext, hpair] at h; cases h
    | case5 high low rest hnext byte hpair ih =>
        rw [decodeHex, if_neg hnext, hpair] at h
        obtain ⟨decoded, hdecoded, hbytes⟩ := Option.map_eq_some_iff.mp h
        obtain ⟨tail, rfl, rfl⟩ := Option.map_eq_some_iff.mp hbytes
        obtain ⟨hhigh, hlow⟩ := fromStrRadix16_eq_some_iff.mp hpair
        exact .cons hhigh hlow (ih tail hdecoded)
  · intro h
    induction text using decodeHex.induct generalizing bytes with
    | case1 =>
        cases h
        rfl
    | case2 byte => cases h
    | case3 high low rest hnext =>
        cases h with
        | cons _ _ hrest =>
            rw [head_of_hexEncodes hrest] at hnext
            cases hnext
    | case4 high low rest hnext hpair =>
        cases h with
        | cons hhigh hlow _ =>
            rw [fromStrRadix16_eq_some_iff.mpr ⟨hhigh, hlow⟩] at hpair
            cases hpair
    | case5 high low rest hnext byte hpair ih =>
        cases h with
        | cons hhigh hlow hrest =>
            have hbyte := fromStrRadix16_eq_some_iff.mpr ⟨hhigh, hlow⟩
            rw [hpair, Option.some.injEq] at hbyte
            rw [decodeHex, if_neg hnext, hpair]
            dsimp only
            rw [ih _ hrest, hbyte]
            rfl

/-! ## Encodings without signs -/

theorem plus_notMem_of_hexEncodes {text bytes : List UInt8} (h : HexEncodes text bytes) :
    43 ∉ text := by
  induction h with
  | nil => simp
  | cons hhigh hlow _ ih =>
      simp only [List.mem_cons, not_or]
      refine ⟨?_, ?_, ih⟩
      · rintro rfl
        cases hhigh
      · rintro rfl
        cases hlow

theorem plusAsZero_of_notMem {text : List UInt8} (h : 43 ∉ text) : plusAsZero text = text := by
  induction text using plusAsZero.induct with
  | case1 high low rest ih =>
      simp only [List.mem_cons, not_or] at h
      rw [plusAsZero, if_neg (Ne.symm h.1), ih h.2.2]
  | case2 text hshort => rw [plusAsZero]; exact hshort

theorem hexEncodes_iff {text bytes : List UInt8} :
    HexEncodes text bytes ↔ HexEncodes (plusAsZero text) bytes ∧ 43 ∉ text := by
  constructor
  · intro h
    have hplain := plus_notMem_of_hexEncodes h
    rw [plusAsZero_of_notMem hplain]
    exact ⟨h, hplain⟩
  · rintro ⟨h, hplain⟩
    rwa [plusAsZero_of_notMem hplain] at h

/-! ## Verdicts -/

def verdictOn (code : List UInt8) : Option (List UInt8) → Bool
  | none => false
  | some sigBytes => decide (sigBytes = code)

theorem verdictOn_eq_true_iff {code : List UInt8} {decoded : Option (List UInt8)} :
    verdictOn code decoded = true ↔ decoded = some code := by
  cases decoded with
  | none => simp [verdictOn]
  | some sigBytes => simp [verdictOn]

theorem verdict_exact_iff (text code : List UInt8) :
    (∃ verdict, (decodeHex text).map (verdictOn code) = some verdict ∧
        (verdict = true ↔ HexEncodes text code)) ↔
      ¬Misaligned text ∧ (HexEncodes (plusAsZero text) code → 43 ∉ text) := by
  rw [hexEncodes_iff, ← decodeHex_eq_none_iff, ← decodeHex_eq_some_iff]
  cases hdecoded : decodeHex text with
  | none => simp
  | some decoded =>
      simp only [Option.map_some, Option.some.injEq, exists_eq_left', verdictOn_eq_true_iff,
        reduceCtorEq, not_false_eq_true, true_and]
      exact ⟨fun h hcode => (h.mp hcode).2, fun h => ⟨fun hcode => ⟨hcode, h hcode⟩, And.left⟩⟩

namespace Metadata

variable (hmac : Hmac) (m : Metadata) (key : List UInt8)

def VerifiesExactly : Prop :=
  ∃ verdict, m.verify hmac key = some verdict ∧
    (verdict = true ↔ ∃ sigHex mac, m.signature = some sigHex ∧ m.signer.isSome = true ∧
      hmac key = .ok mac ∧ HexEncodes (utf8 sigHex) (mac m.signingPayload).toList)

/-- A signature that is compared with a code is never cut within a letter or behind its end, and
it does not stand for the code with a sign for a zero. -/
def PlainSignature : Prop :=
  ∀ sigHex mac, m.signature = some sigHex → m.signer.isSome = true → hmac key = .ok mac →
    ¬Misaligned (utf8 sigHex) ∧
      (HexEncodes (plusAsZero (utf8 sigHex)) (mac m.signingPayload).toList → 43 ∉ utf8 sigHex)

theorem verify_of_signed {sigHex : String} {signer : Address}
    {mac : List UInt8 → Vector UInt8 32} (hsignature : m.signature = some sigHex)
    (hsigner : m.signer = some signer) (hkey : hmac key = .ok mac) :
    m.verify hmac key =
      (decodeHex (utf8 sigHex)).map (verdictOn (mac m.signingPayload).toList) := by
  unfold verify
  rw [hsignature, hsigner, hkey]
  congr 1

theorem verifiesExactly_iff : m.VerifiesExactly hmac key ↔ m.PlainSignature hmac key := by
  unfold VerifiesExactly PlainSignature
  cases hsignature : m.signature with
  | none => simp [verify, hsignature]
  | some sigHex =>
      cases hsigner : m.signer with
      | none => simp [verify, hsignature, hsigner]
      | some signer =>
          cases hkey : hmac key with
          | error _ => simp [verify, hsignature, hsigner, hkey]
          | ok mac =>
              rw [verify_of_signed hmac m key hsignature hsigner hkey]
              simpa using verdict_exact_iff (utf8 sigHex) (mac m.signingPayload).toList

end Metadata

def oneDigit : Metadata :=
  { Metadata.new ⟨List.replicate 16 7, sampleBytes_length⟩ 1766015553 (.agent "a") with
    signature := some "a"
    signer := some (.agent "a") }

/-- The slice behind the end of one digit panics. -/
theorem oneDigit_panics :
    oneDigit.verify (fun _ => .ok fun _ => Vector.replicate 32 0) [] = none ∧
      ¬oneDigit.VerifiesExactly (fun _ => .ok fun _ => Vector.replicate 32 0) [] := by
  have hpanics : oneDigit.verify (fun _ => .ok fun _ => Vector.replicate 32 0) [] = none := by
    decide +kernel
  refine ⟨hpanics, ?_⟩
  rintro ⟨verdict, hverdict, -⟩
  rw [hpanics] at hverdict
  cases hverdict

end BenShu.Comm
