import BenShu.Lib.ByteSlice
import BenShu.Lib.Segments
import Mathlib

/-!
# Document ids

The id of a document is the first six bytes of the hash of its content, written as twelve
hexadecimal digits. Texts are cut at byte offsets, so that a cut within a character panics.
-/

namespace BenShu.Engram

inductive DocIdError where
  | lengthMismatch (expected actual : Nat)
  | invalidFormat
  | empty
  deriving DecidableEq

structure DocId where
  bytes : List.Vector UInt8 6
  deriving DecidableEq

namespace ContentHash

open Text (byteLen slice AlignedAt)

/-! ## Digits -/

/-- `to_digit` for base sixteen. -/
def toDigit (c : Char) : Option Nat :=
  if '0' ≤ c ∧ c ≤ '9' then some (c.toNat - 48)
  else if 'a' ≤ c ∧ c ≤ 'f' then some (c.toNat - 87)
  else if 'A' ≤ c ∧ c ≤ 'F' then some (c.toNat - 55)
  else none

def isAsciiHexdigit (c : Char) : Bool := (toDigit c).isSome

/-- `u8::from_str_radix` for base sixteen. A plus before further characters is passed over. -/
def fromStrRadix16 (src : List Char) : Option UInt8 :=
  let digits := match src with
    | '+' :: digit :: rest => digit :: rest
    | _ => src
  if digits.isEmpty then none
  else
    let value? := digits.foldlM (fun value c => (toDigit c).bind fun digit =>
      if 16 * value + digit < 256 then some (16 * value + digit) else none) 0
    value?.map UInt8.ofNat

def hexChars : List Char := "0123456789abcdef".toList

def hexPair (byte : UInt8) : List Char :=
  [hexChars.getD (byte >>> 4).toNat '0', hexChars.getD (byte &&& 0x0f).toNat '0']

/-! ## Ids -/

def strip (s : String) : List Char := Text.trimChars (s.toList.dropWhile (· == '#'))

/-- The bytes that `n` chunks of two bytes stand for, from chunk `i` on: `none` where a slice
panics. -/
def readChunks (clean : List Char) :
    (n i : Nat) → Option (Except DocIdError (List.Vector UInt8 n))
  | 0, _ => some (.ok .nil)
  | n + 1, i =>
      match slice clean (i * 2) (i * 2 + 2) with
      | none => none
      | some chunk =>
          match fromStrRadix16 chunk with
          | none => some (.error .invalidFormat)
          | some byte => (readChunks clean n (i + 1)).map (Except.map (byte ::ᵥ ·))

/-- `none` is a panic, as in all that follows. -/
def fromHex (s : String) : Option (Except DocIdError DocId) :=
  let clean := strip s
  if clean.isEmpty then some (.error .empty)
  else if byteLen clean < 12 then some (.error (.lengthMismatch 12 (byteLen clean)))
  else (readChunks clean 6 0).map (Except.map DocId.mk)

def fromHash (hash : String) : Option (Except DocIdError DocId) :=
  if byteLen hash.toList < 12 then
    some (.error (.lengthMismatch 12 (byteLen hash.toList)))
  else (slice hash.toList 0 12).bind fun front => fromHex (.ofList front)

def docIdToString (id : DocId) : String := .ofList (id.bytes.toList.flatMap hexPair)

/-- The hash itself is cut where it has no id. -/
def getDocid (hash : String) : Option String :=
  (fromHash hash).map fun
    | .ok id => docIdToString id
    | .error _ => .ofList (hash.toList.take 12)

def normalizeDocid (toLowercase : String → String) (docid : String) : String :=
  toLowercase (.ofList ((strip docid).take 12))

def validateDocid (docid : String) : Option Bool :=
  let clean := strip docid
  if 12 ≤ byteLen clean then (slice clean 0 12).map (·.all isAsciiHexdigit) else some false

/-! ## What is promised -/

def LeadingDigits (cs : List Char) : Prop :=
  12 ≤ cs.length ∧ ∀ c ∈ cs.take 12, isAsciiHexdigit c = true

def TwelveDigits (cs : List Char) : Prop :=
  cs.length = 12 ∧ ∀ c ∈ cs, isAsciiHexdigit c = true

/-- Nothing panics, and just the texts that have an id are accepted, with the digits of the
id. -/
structure Exact (toLowercase : String → String) (isDocid : List Char → Prop) (s : String) :
    Prop where
  fromHex_total : fromHex s ≠ none
  validate_total : validateDocid s ≠ none
  normalized_total : validateDocid (normalizeDocid toLowercase s) ≠ none
  fromHex_iff : (∃ id, fromHex s = some (.ok id)) ↔ isDocid (strip s)
  digits : ∀ id, fromHex s = some (.ok id) →
    docIdToString id = .ofList (((strip s).take 12).map Char.toLower)
  normalized_iff : validateDocid (normalizeDocid toLowercase s) = some true ↔ isDocid (strip s)

/-- What the lower-case form of a text is known to be: every character is replaced by characters
of its own, an ASCII letter by its lower-case letter, and no other character by a digit. -/
structure Lowercase (toLowercase : String → String) : Prop where
  images : ∀ s, ∃ images : List (List Char),
    (toLowercase s).toList = images.flatten ∧
      List.Forall₂ (fun c image =>
        (c.toNat < 128 → image = [c.toLower]) ∧
          (128 ≤ c.toNat → ∀ d ∈ image, isAsciiHexdigit d = false)) s.toList images

def DigitPair (pair : Char × Char) : Prop :=
  (isAsciiHexdigit pair.1 = true ∨ pair.1 = '+') ∧ isAsciiHexdigit pair.2 = true

def chars (pairs : List (Char × Char)) : List Char := pairs.flatMap fun pair => [pair.1, pair.2]

/-- The cuts fall between characters, and there is no sign among the digits. -/
structure Sliceable (toLowercase : String → String) (s : String) : Prop where
  whole : byteLen (strip s) < 12 ∨ AlignedAt 12 (strip s)
  normalized : byteLen (strip (normalizeDocid toLowercase s)) < 12 ∨
    AlignedAt 12 (strip (normalizeDocid toLowercase s))
  chunks : 12 ≤ byteLen (strip s) → ∀ pairs rest, strip s = chars pairs ++ rest →
    pairs.length < 6 → (∀ pair ∈ pairs, DigitPair pair) → AlignedAt 2 rest
  unsigned : ∀ pairs rest, strip s = chars pairs ++ rest → pairs.length = 6 →
    (∀ pair ∈ pairs, DigitPair pair) → ∀ pair ∈ pairs, pair.1 ≠ '+'

/-! ## Digits -/

theorem toNat_of_digit {c : Char} (h : isAsciiHexdigit c = true) : c.toNat < 128 := by
  have hle : ∀ d : Char, c ≤ d → c.toNat ≤ d.toNat := fun d hd => hd
  unfold isAsciiHexdigit toDigit at h
  split_ifs at h with hdecimal hlower hupper
  · exact (hle _ hdecimal.2).trans_lt (by decide)
  · exact (hle _ hlower.2).trans_lt (by decide)
  · exact (hle _ hupper.2).trans_lt (by decide)
  · cases h

theorem toNat_of_utf8Size {c : Char} : c.utf8Size = 1 ↔ c.toNat < 128 := by
  rw [Char.utf8Size_eq_one_iff, UInt32.le_iff_toNat_le]
  exact Nat.lt_succ_iff.symm

theorem utf8Size_of_digit {c : Char} (h : isAsciiHexdigit c = true) : c.utf8Size = 1 :=
  toNat_of_utf8Size.mpr (toNat_of_digit h)

/-- What holds of the ASCII characters, checked one by one: a digit is neither white space nor
`#`, its lower-case form is a digit, and a digit of sixteen stands for its value. -/
structure AsciiChecked (c : Char) : Prop where
  kept : isAsciiHexdigit c = true → (c == '#') = false ∧ Text.isWhitespace c = false
  lower : isAsciiHexdigit c.toLower = isAsciiHexdigit c
  value : ∀ n ∈ toDigit c, n < 16 ∧ hexChars.getD n '0' = c.toLower

theorem asciiChecked {c : Char} (h : c.toNat < 128) : AsciiChecked c := by
  have hall : ∀ n < 128, (isAsciiHexdigit (Char.ofNat n) = true →
      (Char.ofNat n == '#') = false ∧ Text.isWhitespace (Char.ofNat n) = false) ∧
        isAsciiHexdigit (Char.ofNat n).toLower = isAsciiHexdigit (Char.ofNat n) ∧
          ∀ m ∈ toDigit (Char.ofNat n),
            m < 16 ∧ hexChars.getD m '0' = (Char.ofNat n).toLower := by
    decide +kernel
  obtain ⟨hkept, hlower, hvalue⟩ := hall c.toNat h
  rw [Char.ofNat_toNat] at hkept hlower hvalue
  exact ⟨hkept, hlower, hvalue⟩

theorem kept_of_digit {c : Char} (h : isAsciiHexdigit c = true) :
    (c == '#') = false ∧ Text.isWhitespace c = false :=
  (asciiChecked (toNat_of_digit h)).kept h

theorem isAsciiHexdigit_toLower {c : Char} (h : c.toNat < 128) :
    isAsciiHexdigit c.toLower = isAsciiHexdigit c := (asciiChecked h).lower

theorem hexChars_toDigit {c : Char} {n : Nat} (h : toDigit c = some n) :
    n < 16 ∧ hexChars.getD n '0' = c.toLower := by
  have hdigit : isAsciiHexdigit c = true := by rw [isAsciiHexdigit, h]; rfl
  exact (asciiChecked (toNat_of_digit hdigit)).value n h

theorem hexPair_ofNat {high low : Nat} (hhigh : high < 16) (hlow : low < 16) :
    hexPair (UInt8.ofNat (16 * high + low)) =
      [hexChars.getD high '0', hexChars.getD low '0'] := by
  have hall : ∀ high < 16, ∀ low < 16, hexPair (UInt8.ofNat (16 * high + low)) =
      [hexChars.getD high '0', hexChars.getD low '0'] := by decide +kernel
  exact hall high hhigh low hlow

/-! ## Chunks -/

theorem fromStrRadix16_pair (a b : Char) :
    fromStrRadix16 [a, b] =
      if a = '+' then (toDigit b).map UInt8.ofNat
      else (toDigit a).bind fun high => (toDigit b).map fun low =>
        UInt8.ofNat (16 * high + low) := by
  have hsmall : ∀ {c n}, toDigit c = some n → n < 16 := fun h => (hexChars_toDigit h).1
  by_cases hplus : a = '+'
  · subst hplus
    rw [if_pos rfl]
    cases hb : toDigit b with
    | none => simp [fromStrRadix16, hb]
    | some low =>
        have hlow := hsmall hb
        have hfits : low < 256 := by omega
        simp [fromStrRadix16, hb, hfits]
  · rw [if_neg hplus, fromStrRadix16.eq_2 _ (by simp [hplus])]
    cases ha : toDigit a with
    | none => simp [ha]
    | some high =>
        have hhigh := hsmall ha
        have hfits : high < 256 := by omega
        cases hb : toDigit b with
        | none => simp [ha, hb]
        | some low =>
            have hlow := hsmall hb
            have hfits' : 16 * high + low < 256 := by omega
            simp [ha, hb, hfits, hfits']

theorem fromStrRadix16_isSome (a b : Char) :
    (fromStrRadix16 [a, b]).isSome ↔ DigitPair (a, b) := by
  rw [fromStrRadix16_pair]
  unfold DigitPair isAsciiHexdigit
  split
  · rename_i hplus
    simp [hplus]
  · rename_i hplus
    cases toDigit a <;> simp [hplus]

theorem chunk_cases {chunk : List Char} (hlen : byteLen chunk = 2) :
    (∃ a b, chunk = [a, b]) ∨ fromStrRadix16 chunk = none := by
  cases chunk with
  | nil => simp at hlen
  | cons a chunk =>
      have ha := a.utf8Size_pos
      rw [Text.byteLen_cons] at hlen
      cases chunk with
      | nil =>
          right
          rw [Text.byteLen_nil] at hlen
          have hnot : toDigit a = none := by
            have hdigit : ¬isAsciiHexdigit a = true := fun h => by
              rw [utf8Size_of_digit h] at hlen
              cases hlen
            simpa [isAsciiHexdigit] using hdigit
          simp [fromStrRadix16, hnot]
      | cons b chunk =>
          have hb := b.utf8Size_pos
          rw [Text.byteLen_cons] at hlen
          cases chunk with
          | nil => exact .inl ⟨a, b, rfl⟩
          | cons c chunk =>
              have hc := c.utf8Size_pos
              rw [Text.byteLen_cons] at hlen
              omega

theorem digitPair_byteLen {pair : Char × Char} (h : DigitPair pair) :
    byteLen [pair.1, pair.2] = 2 := by
  have hfirst : pair.1.utf8Size = 1 := by
    rcases h.1 with hdigit | hplus
    · exact utf8Size_of_digit hdigit
    · rw [hplus]
      rfl
  simp [hfirst, utf8Size_of_digit h.2]

/-- A chunk is cut within a character, or it is no number, or it is a pair of digits. -/
theorem readChunks_step {front : List Char} (rest : List Char) (n : Nat) {i : Nat}
    (hi : byteLen front = i * 2) :
    (¬AlignedAt 2 rest ∧ readChunks (front ++ rest) (n + 1) i = none) ∨
      (AlignedAt 2 rest ∧ (∀ pair back, rest = chars [pair] ++ back → ¬DigitPair pair) ∧
        readChunks (front ++ rest) (n + 1) i = some (.error .invalidFormat)) ∨
      ∃ pair back byte, rest = chars [pair] ++ back ∧ DigitPair pair ∧
        fromStrRadix16 [pair.1, pair.2] = some byte ∧
        readChunks (front ++ rest) (n + 1) i =
          (readChunks (front ++ rest) n (i + 1)).map (Except.map (byte ::ᵥ ·)) := by
  rw [readChunks, ← hi, Text.slice_append]
  cases hchunk : Text.takeBytes 2 rest with
  | none => exact .inl ⟨Text.takeBytes_eq_none_iff.mp hchunk, rfl⟩
  | some chunk =>
      obtain ⟨⟨back, hback⟩, hlen⟩ := Text.takeBytes_eq_some_iff.mp hchunk
      right
      dsimp only
      cases hbyte : fromStrRadix16 chunk with
      | none =>
          refine .inl ⟨⟨chunk, ⟨back, hback⟩, hlen⟩, fun pair back' hrest hpair => ?_, rfl⟩
          have htake : Text.takeBytes 2 rest = some [pair.1, pair.2] :=
            Text.takeBytes_eq_some_iff.mpr ⟨⟨back', hrest.symm⟩, digitPair_byteLen hpair⟩
          have hsome := (fromStrRadix16_isSome pair.1 pair.2).mpr hpair
          rw [hchunk] at htake
          rw [← Option.some.inj htake, hbyte] at hsome
          cases hsome
      | some byte =>
          rcases chunk_cases hlen with ⟨a, b, rfl⟩ | hnone
          · have hpair := (fromStrRadix16_isSome a b).mp (by rw [hbyte]; rfl)
            exact .inr ⟨(a, b), back, byte, hback.symm, hpair, hbyte, rfl⟩
          · rw [hbyte] at hnone
            cases hnone

theorem chars_cons (pair : Char × Char) (pairs : List (Char × Char)) (back : List Char) :
    chars (pair :: pairs) ++ back = chars [pair] ++ (chars pairs ++ back) := by
  simp [chars]

theorem chars_inj {pair other : Char × Char} {back back' : List Char}
    (h : chars [pair] ++ back = chars [other] ++ back') : pair = other ∧ back = back' := by
  obtain ⟨hfirst, htail⟩ := List.cons.inj h
  obtain ⟨hsecond, hback⟩ := List.cons.inj htail
  exact ⟨Prod.ext hfirst hsecond, hback⟩

theorem byteLen_front {front : List Char} {pair : Char × Char} {i : Nat}
    (hi : byteLen front = i * 2) (hpair : DigitPair pair) :
    byteLen (front ++ chars [pair]) = (i + 1) * 2 := by
  have hlen : byteLen (chars [pair]) = 2 := digitPair_byteLen hpair
  rw [Text.byteLen_append, hi, hlen]
  omega

/-- Chunks are read up to the first that is no number; there the cut may panic. -/
theorem readChunks_eq_none_iff {front rest : List Char} {n i : Nat}
    (hi : byteLen front = i * 2) :
    readChunks (front ++ rest) n i = none ↔
      ∃ pairs back, rest = chars pairs ++ back ∧ pairs.length < n ∧
        (∀ pair ∈ pairs, DigitPair pair) ∧ ¬AlignedAt 2 back := by
  induction n generalizing front rest i with
  | zero => simp [readChunks]
  | succ n ih =>
      rcases readChunks_step rest n hi with ⟨hbad, heq⟩ | ⟨haligned, hno, heq⟩ |
        ⟨pair, back, byte, rfl, hpair, -, heq⟩
      · exact iff_of_true heq ⟨[], rest, rfl, n.succ_pos, by simp, hbad⟩
      · rw [heq]
        refine iff_of_false (by simp) ?_
        rintro ⟨pairs, back, rfl, -, hpairs, hbad⟩
        cases pairs with
        | nil => exact hbad haligned
        | cons pair pairs =>
            exact hno pair _ (chars_cons pair pairs back) (hpairs pair List.mem_cons_self)
      · have hrest := @ih _ back _ (byteLen_front hi hpair)
        rw [List.append_assoc] at hrest
        rw [heq, Option.map_eq_none_iff, hrest]
        constructor
        · rintro ⟨pairs, last, rfl, hlt, hpairs, hbad⟩
          exact ⟨pair :: pairs, last, (chars_cons pair pairs last).symm, Nat.succ_lt_succ hlt,
            List.forall_mem_cons.mpr ⟨hpair, hpairs⟩, hbad⟩
        · rintro ⟨pairs, last, happend, hlt, hpairs, hbad⟩
          cases pairs with
          | nil =>
              have haligned : AlignedAt 2 last :=
                ⟨chars [pair], ⟨back, happend⟩, digitPair_byteLen hpair⟩
              exact absurd haligned hbad
          | cons other pairs =>
              obtain ⟨rfl, hback⟩ := chars_inj (happend.trans (chars_cons other pairs last))
              exact ⟨pairs, last, hback, Nat.lt_of_succ_lt_succ hlt,
                (List.forall_mem_cons.mp hpairs).2, hbad⟩

theorem readChunks_eq_ok_iff {front rest : List Char} {n i : Nat}
    (hi : byteLen front = i * 2) (bytes : List.Vector UInt8 n) :
    readChunks (front ++ rest) n i = some (.ok bytes) ↔
      ∃ pairs back, rest = chars pairs ++ back ∧ pairs.length = n ∧
        (∀ pair ∈ pairs, DigitPair pair) ∧
        pairs.map (fun pair => fromStrRadix16 [pair.1, pair.2]) = bytes.toList.map some := by
  induction n generalizing front rest i with
  | zero =>
      refine iff_of_true ?_ ⟨[], rest, rfl, rfl, by simp, ?_⟩
      · rw [readChunks, bytes.eq_nil]
      · rw [bytes.eq_nil]
        rfl
  | succ n ih =>
      rcases readChunks_step rest n hi with ⟨hbad, heq⟩ | ⟨haligned, hno, heq⟩ |
        ⟨pair, back, byte, rfl, hpair, hbyte, heq⟩
      · rw [heq]
        refine iff_of_false (by simp) ?_
        rintro ⟨pairs, back, rfl, hlength, hpairs, -⟩
        cases pairs with
        | nil => cases hlength
        | cons pair pairs =>
            have hlen := digitPair_byteLen (hpairs pair List.mem_cons_self)
            exact hbad ⟨chars [pair], ⟨_, (chars_cons pair pairs back).symm⟩, hlen⟩
      · rw [heq]
        refine iff_of_false (by simp) ?_
        rintro ⟨pairs, back, rfl, hlength, hpairs, -⟩
        cases pairs with
        | nil => cases hlength
        | cons pair pairs =>
            exact hno pair _ (chars_cons pair pairs back) (hpairs pair List.mem_cons_self)
      · have hrest := fun more => @ih _ back _ (byteLen_front hi hpair) more
        rw [List.append_assoc] at hrest
        rw [heq]
        constructor
        · intro h
          obtain ⟨result, hresult, hmap⟩ := Option.map_eq_some_iff.mp h
          cases result with
          | error e => cases hmap
          | ok more =>
              cases hmap
              obtain ⟨pairs, last, rfl, hlength, hpairs, hbytes⟩ := (hrest more).mp hresult
              refine ⟨pair :: pairs, last, (chars_cons pair pairs last).symm, by simp [hlength],
                List.forall_mem_cons.mpr ⟨hpair, hpairs⟩, ?_⟩
              simp [hbyte, hbytes]
        · rintro ⟨pairs, last, happend, hlength, hpairs, hbytes⟩
          cases pairs with
          | nil => cases hlength
          | cons other pairs =>
              obtain ⟨rfl, hback⟩ := chars_inj (happend.trans (chars_cons other pairs last))
              obtain ⟨first, more, rfl⟩ := bytes.exists_eq_cons
              rw [List.map_cons, hbyte, List.Vector.toList_cons, List.map_cons] at hbytes
              obtain ⟨hfirst, hmore⟩ := List.cons.inj hbytes
              cases hfirst
              have hread := (hrest more).mpr ⟨pairs, last, hback, by simpa using hlength,
                (List.forall_mem_cons.mp hpairs).2, hmore⟩
              rw [hread]
              rfl

/-! ## Reading an id -/

variable {s : String}

theorem chars_length (pairs : List (Char × Char)) : (chars pairs).length = pairs.length * 2 := by
  induction pairs with
  | nil => rfl
  | cons pair pairs ih =>
      rw [List.length_cons, Nat.succ_mul, ← ih]
      rfl

theorem chars_byteLen {pairs : List (Char × Char)} (h : ∀ pair ∈ pairs, DigitPair pair) :
    byteLen (chars pairs) = pairs.length * 2 := by
  induction pairs with
  | nil => rfl
  | cons pair pairs ih =>
      have hpair : byteLen (chars [pair]) = 2 := digitPair_byteLen (h pair List.mem_cons_self)
      have hcons := chars_cons pair pairs []
      rw [List.append_nil, List.append_nil] at hcons
      rw [hcons, Text.byteLen_append, hpair, ih fun x hx => h x (List.mem_cons_of_mem _ hx),
        List.length_cons]
      omega

theorem fromHex_eq (hlen : 12 ≤ byteLen (strip s)) :
    fromHex s = (readChunks ([] ++ strip s) 6 0).map (Except.map DocId.mk) := by
  have hne : (strip s).isEmpty = false := by
    cases hstrip : strip s with
    | nil =>
        rw [hstrip] at hlen
        cases hlen
    | cons c cs => rfl
  rw [fromHex, hne, if_neg Bool.false_ne_true, if_neg (by omega)]
  rfl

theorem fromHex_eq_none_iff :
    fromHex s = none ↔ 12 ≤ byteLen (strip s) ∧ ∃ pairs back, strip s = chars pairs ++ back ∧
      pairs.length < 6 ∧ (∀ pair ∈ pairs, DigitPair pair) ∧ ¬AlignedAt 2 back := by
  by_cases hlen : 12 ≤ byteLen (strip s)
  · rw [fromHex_eq hlen, Option.map_eq_none_iff, readChunks_eq_none_iff (by rfl)]
    exact ⟨fun h => ⟨hlen, h⟩, fun h => h.2⟩
  · refine iff_of_false ?_ fun h => hlen h.1
    unfold fromHex
    dsimp only
    split
    · simp
    · rw [if_pos (by omega)]
      simp

theorem fromHex_eq_ok_iff {id : DocId} :
    fromHex s = some (.ok id) ↔ ∃ pairs back, strip s = chars pairs ++ back ∧
      pairs.length = 6 ∧ (∀ pair ∈ pairs, DigitPair pair) ∧
      pairs.map (fun pair => fromStrRadix16 [pair.1, pair.2]) = id.bytes.toList.map some := by
  by_cases hlen : 12 ≤ byteLen (strip s)
  · rw [fromHex_eq hlen, ← @readChunks_eq_ok_iff [] _ 6 0 rfl id.bytes]
    constructor
    · intro h
      obtain ⟨result, hresult, hmap⟩ := Option.map_eq_some_iff.mp h
      cases result with
      | error e => cases hmap
      | ok bytes =>
          cases hmap
          exact hresult
    · intro h
      rw [h]
      rfl
  · constructor
    · intro h
      unfold fromHex at h
      dsimp only at h
      split_ifs at h
      · cases h
      · cases h
      · omega
    · rintro ⟨pairs, back, happend, hlength, hpairs, -⟩
      have hbytes := congrArg byteLen happend
      rw [Text.byteLen_append, chars_byteLen hpairs, hlength] at hbytes
      omega

theorem validateDocid_eq_none_iff :
    validateDocid s = none ↔ ¬(byteLen (strip s) < 12 ∨ AlignedAt 12 (strip s)) := by
  unfold validateDocid
  dsimp only
  split
  · rename_i hlen
    rw [Option.map_eq_none_iff, Text.slice_zero, Text.takeBytes_eq_none_iff, not_or]
    exact ⟨fun h => ⟨by omega, h⟩, fun h => h.2⟩
  · rename_i hlen
    simp [Nat.lt_of_not_le hlen]

theorem leadingDigits_iff {cs : List Char} :
    LeadingDigits cs ↔
      ∃ front, front <+: cs ∧ byteLen front = 12 ∧ ∀ c ∈ front, isAsciiHexdigit c = true := by
  constructor
  · rintro ⟨hlength, hdigits⟩
    refine ⟨cs.take 12, List.take_prefix _ _, ?_, hdigits⟩
    rw [Text.byteLen_of_ascii fun c hc => utf8Size_of_digit (hdigits c hc), List.length_take]
    omega
  · rintro ⟨front, hstarts, hlen, hdigits⟩
    rw [Text.byteLen_of_ascii fun c hc => utf8Size_of_digit (hdigits c hc)] at hlen
    have htake : cs.take 12 = front := by
      rw [← hlen]
      exact (List.prefix_iff_eq_take.mp hstarts).symm
    exact ⟨hlen ▸ hstarts.length_le, htake ▸ hdigits⟩

theorem validateDocid_eq_true_iff : validateDocid s = some true ↔ LeadingDigits (strip s) := by
  rw [leadingDigits_iff]
  unfold validateDocid
  dsimp only
  constructor
  · intro h
    split_ifs at h with hlen
    · obtain ⟨front, hfront, hall⟩ := Option.map_eq_some_iff.mp h
      rw [Text.slice_zero] at hfront
      obtain ⟨hstarts, hbytes⟩ := Text.takeBytes_eq_some_iff.mp hfront
      exact ⟨front, hstarts, hbytes, List.all_eq_true.mp hall⟩
    · cases h
  · rintro ⟨front, hstarts, hbytes, hdigits⟩
    obtain ⟨back, hback⟩ := id hstarts
    have hlen : 12 ≤ byteLen (strip s) := by
      rw [← hback, Text.byteLen_append, hbytes]
      omega
    rw [if_pos hlen, Text.slice_zero, Text.takeBytes_eq_some_iff.mpr ⟨hstarts, hbytes⟩,
      Option.map_some, List.all_eq_true.mpr hdigits]

/-! ## Normal ids -/

theorem strip_sublist (s : String) : (strip s).Sublist s.toList :=
  (List.rdropWhile_prefix _ _).sublist.trans
    ((List.dropWhile_sublist _).trans (List.dropWhile_sublist _))

theorem strip_of_digits {cs : List Char} (h : ∀ c ∈ cs, isAsciiHexdigit c = true) :
    strip (.ofList cs) = cs := by
  have hhash : cs.dropWhile (· == '#') = cs := by
    cases cs with
    | nil => rfl
    | cons c cs =>
        exact List.dropWhile_cons_of_neg (by simp [(kept_of_digit (h c List.mem_cons_self)).1])
  have hblank : ∀ c ∈ cs, Text.isWhitespace c = false := fun c hc => (kept_of_digit (h c hc)).2
  have htrim := Text.trimMatches_eq_self (p := Text.isWhitespace) (s := .ofList cs)
    (fun c hc => hblank c (by simpa using List.mem_of_head? hc))
    (fun c hc => hblank c (by simpa using List.mem_of_getLast? hc))
  rw [strip, String.toList_ofList, hhash]
  have hlist := congrArg String.toList htrim
  rwa [Text.trimMatches, String.toList_ofList, String.toList_ofList] at hlist

variable {toLowercase : String → String}

theorem countP_toLowercase (laws : Lowercase toLowercase) (s : String) :
    (toLowercase s).toList.countP isAsciiHexdigit = s.toList.countP isAsciiHexdigit := by
  obtain ⟨images, himages, hall⟩ := laws.images s
  rw [himages]
  clear himages
  generalize s.toList = cs at hall ⊢
  induction hall with
  | nil => rfl
  | @cons c image cs images hc _ ih =>
      have himage : image.countP isAsciiHexdigit = [c].countP isAsciiHexdigit := by
        by_cases hascii : c.toNat < 128
        · rw [hc.1 hascii, List.countP_singleton, List.countP_singleton,
            isAsciiHexdigit_toLower hascii]
        · have hnot : ¬isAsciiHexdigit c = true := fun h => hascii (toNat_of_digit h)
          have hnone := List.countP_eq_zero.mpr fun d hd =>
            Bool.eq_false_iff.mp (hc.2 (Nat.le_of_not_lt hascii) d hd)
          rw [hnone, List.countP_singleton, if_neg hnot]
      rw [List.flatten_cons, List.countP_append, himage, ih, ← List.countP_append,
        List.singleton_append]

theorem toLowercase_digits (laws : Lowercase toLowercase) {cs : List Char}
    (h : ∀ c ∈ cs, isAsciiHexdigit c = true) :
    (toLowercase (.ofList cs)).toList = cs.map Char.toLower := by
  obtain ⟨images, himages, hall⟩ := laws.images (.ofList cs)
  rw [himages]
  rw [String.toList_ofList] at hall
  clear himages
  induction hall with
  | nil => rfl
  | @cons c image cs images hc _ ih =>
      rw [List.flatten_cons, hc.1 (toNat_of_digit (h c List.mem_cons_self)),
        ih fun x hx => h x (List.mem_cons_of_mem _ hx), List.map_cons, List.singleton_append]

theorem leadingDigits_normalizeDocid_iff (laws : Lowercase toLowercase) :
    LeadingDigits (strip (normalizeDocid toLowercase s)) ↔ LeadingDigits (strip s) := by
  constructor
  · rintro ⟨hlength, hdigits⟩
    have hcount : 12 ≤ (strip (normalizeDocid toLowercase s)).countP isAsciiHexdigit := by
      have htake := List.countP_eq_length.mpr hdigits
      have hle := (List.take_sublist 12 (strip (normalizeDocid toLowercase s))).countP_le
        (p := isAsciiHexdigit)
      rw [htake, List.length_take] at hle
      omega
    have hsame := countP_toLowercase laws (.ofList ((strip s).take 12))
    have hstrip := (strip_sublist (normalizeDocid toLowercase s)).countP_le
      (p := isAsciiHexdigit)
    rw [normalizeDocid] at hstrip hcount
    rw [hsame, String.toList_ofList] at hstrip
    have hbound := List.countP_le_length (p := isAsciiHexdigit) (l := (strip s).take 12)
    have htwelve := List.length_take_le 12 (strip s)
    have hlen : ((strip s).take 12).length = 12 := by omega
    rw [List.length_take] at hlen
    refine ⟨by omega, List.countP_eq_length.mp ?_⟩
    rw [List.length_take]
    omega
  · rintro ⟨hlength, hdigits⟩
    have hlower : ∀ c ∈ ((strip s).take 12).map Char.toLower, isAsciiHexdigit c = true := by
      intro c hc
      obtain ⟨d, hd, rfl⟩ := List.mem_map.mp hc
      rw [isAsciiHexdigit_toLower (toNat_of_digit (hdigits d hd))]
      exact hdigits d hd
    have htext : normalizeDocid toLowercase s =
        .ofList (((strip s).take 12).map Char.toLower) := by
      rw [← toLowercase_digits laws hdigits, String.ofList_toList, normalizeDocid]
    rw [htext, strip_of_digits hlower]
    refine ⟨?_, fun c hc => hlower c (List.mem_of_mem_take hc)⟩
    rw [List.length_map, List.length_take]
    omega

/-! ## Exact ids -/

theorem exists_pairs {cs : List Char} {n : Nat} (h : n * 2 ≤ cs.length) :
    ∃ pairs back, cs = chars pairs ++ back ∧ pairs.length = n := by
  induction n generalizing cs with
  | zero => exact ⟨[], cs, rfl, rfl⟩
  | succ n ih =>
      cases cs with
      | nil => simp at h
      | cons a cs =>
          cases cs with
          | nil =>
              rw [List.length_singleton] at h
              omega
          | cons b cs =>
              rw [List.length_cons, List.length_cons] at h
              have hrest : n * 2 ≤ cs.length := by omega
              obtain ⟨pairs, back, rfl, hlength⟩ := ih hrest
              exact ⟨(a, b) :: pairs, back, rfl, by rw [List.length_cons, hlength]⟩

theorem mem_chars {c : Char} {pairs : List (Char × Char)} :
    c ∈ chars pairs ↔ ∃ pair ∈ pairs, c = pair.1 ∨ c = pair.2 := by
  simp [chars]

/-- An id without signs begins with twelve digits. -/
theorem leadingDigits_of_pairs {cs back : List Char} {pairs : List (Char × Char)}
    (happend : cs = chars pairs ++ back) (hlength : pairs.length = 6)
    (hpairs : ∀ pair ∈ pairs, DigitPair pair) (hunsigned : ∀ pair ∈ pairs, pair.1 ≠ '+') :
    LeadingDigits cs := by
  refine leadingDigits_iff.mpr ⟨chars pairs, ⟨back, happend.symm⟩, ?_, fun c hc => ?_⟩
  · rw [chars_byteLen hpairs, hlength]
  · obtain ⟨pair, hpair, rfl | rfl⟩ := mem_chars.mp hc
    · exact (hpairs pair hpair).1.resolve_right (hunsigned pair hpair)
    · exact (hpairs pair hpair).2

theorem take_chars {cs back : List Char} {pairs : List (Char × Char)}
    (happend : cs = chars pairs ++ back) (hlength : pairs.length = 6) :
    cs.take 12 = chars pairs := by
  have hlen : (chars pairs).length = 12 := by rw [chars_length, hlength]
  rw [happend, ← hlen, List.take_left]

theorem unsigned_of_leadingDigits {cs back : List Char} {pairs : List (Char × Char)}
    (h : LeadingDigits cs) (happend : cs = chars pairs ++ back) (hlength : pairs.length = 6) :
    ∀ pair ∈ pairs, pair.1 ≠ '+' := by
  rintro pair hpair hplus
  obtain ⟨-, hdigits⟩ := h
  rw [take_chars happend hlength] at hdigits
  have hdigit := hdigits pair.1 (mem_chars.mpr ⟨pair, hpair, .inl rfl⟩)
  rw [hplus] at hdigit
  cases hdigit

theorem leadingDigits_iff_pairs {cs : List Char} :
    LeadingDigits cs ↔ ∃ pairs back, cs = chars pairs ++ back ∧ pairs.length = 6 ∧
      (∀ pair ∈ pairs, DigitPair pair) ∧ ∀ pair ∈ pairs, pair.1 ≠ '+' := by
  constructor
  · intro h
    have hunsigned := fun pairs back => @unsigned_of_leadingDigits cs back pairs h
    obtain ⟨hlength, hdigits⟩ := h
    obtain ⟨pairs, back, happend, hpairs⟩ := exists_pairs (n := 6) hlength
    rw [take_chars happend hpairs] at hdigits
    have hpair : ∀ pair ∈ pairs, DigitPair pair := fun pair hpair =>
      ⟨.inl (hdigits pair.1 (mem_chars.mpr ⟨pair, hpair, .inl rfl⟩)),
        hdigits pair.2 (mem_chars.mpr ⟨pair, hpair, .inr rfl⟩)⟩
    exact ⟨pairs, back, happend, hpairs, hpair, hunsigned pairs back happend hpairs⟩
  · rintro ⟨pairs, back, happend, hlength, hpairs, hunsigned⟩
    exact leadingDigits_of_pairs happend hlength hpairs hunsigned

theorem exists_fromHex {pairs : List (Char × Char)} {back : List Char}
    (happend : strip s = chars pairs ++ back) (hlength : pairs.length = 6)
    (hpairs : ∀ pair ∈ pairs, DigitPair pair) : ∃ id, fromHex s = some (.ok id) := by
  have hbytes : ∃ bytes : List UInt8,
      pairs.map (fun pair => fromStrRadix16 [pair.1, pair.2]) = bytes.map some := by
    clear happend hlength
    induction pairs with
    | nil => exact ⟨[], rfl⟩
    | cons pair pairs ih =>
        obtain ⟨bytes, hrest⟩ := ih fun x hx => hpairs x (List.mem_cons_of_mem _ hx)
        obtain ⟨byte, hbyte⟩ := Option.isSome_iff_exists.mp
          ((fromStrRadix16_isSome pair.1 pair.2).mpr (hpairs pair List.mem_cons_self))
        exact ⟨byte :: bytes, by rw [List.map_cons, hbyte, hrest, List.map_cons]⟩
  obtain ⟨bytes, hread⟩ := hbytes
  have hsix : bytes.length = 6 := by
    have hlen := congrArg List.length hread
    rw [List.length_map, List.length_map] at hlen
    omega
  exact ⟨⟨bytes, hsix⟩, fromHex_eq_ok_iff.mpr ⟨pairs, back, happend, hlength, hpairs, hread⟩⟩

theorem hexPair_fromStrRadix16 {a b : Char} {byte : UInt8} (hplus : a ≠ '+')
    (h : fromStrRadix16 [a, b] = some byte) : hexPair byte = [a.toLower, b.toLower] := by
  rw [fromStrRadix16_pair, if_neg hplus] at h
  obtain ⟨high, ha, hrest⟩ := Option.bind_eq_some_iff.mp h
  obtain ⟨low, hb, rfl⟩ := Option.map_eq_some_iff.mp hrest
  obtain ⟨hhigh, hhighChar⟩ := hexChars_toDigit ha
  obtain ⟨hlow, hlowChar⟩ := hexChars_toDigit hb
  rw [hexPair_ofNat hhigh hlow, hhighChar, hlowChar]

theorem docIdToString_eq {id : DocId} {pairs : List (Char × Char)}
    (hunsigned : ∀ pair ∈ pairs, pair.1 ≠ '+')
    (hbytes : pairs.map (fun pair => fromStrRadix16 [pair.1, pair.2]) =
      id.bytes.toList.map some) :
    docIdToString id = .ofList ((chars pairs).map Char.toLower) := by
  rw [docIdToString]
  congr 1
  generalize id.bytes.toList = bytes at hbytes
  induction pairs generalizing bytes with
  | nil =>
      cases bytes with
      | nil => rfl
      | cons byte bytes => cases hbytes
  | cons pair pairs ih =>
      cases bytes with
      | nil => cases hbytes
      | cons byte bytes =>
          obtain ⟨hbyte, hrest⟩ := List.cons.inj hbytes
          rw [List.flatMap_cons, ih (fun x hx => hunsigned x (List.mem_cons_of_mem _ hx)) _ hrest,
            hexPair_fromStrRadix16 (hunsigned pair List.mem_cons_self) hbyte]
          rfl

theorem docIdToString_of_fromHex {id : DocId} (h : LeadingDigits (strip s))
    (hid : fromHex s = some (.ok id)) :
    docIdToString id = .ofList (((strip s).take 12).map Char.toLower) := by
  obtain ⟨pairs, back, happend, hlength, -, hbytes⟩ := fromHex_eq_ok_iff.mp hid
  rw [take_chars happend hlength]
  exact docIdToString_eq (unsigned_of_leadingDigits h happend hlength) hbytes

theorem fromHex_total_iff :
    fromHex s ≠ none ↔ (12 ≤ byteLen (strip s) → ∀ pairs rest, strip s = chars pairs ++ rest →
      pairs.length < 6 → (∀ pair ∈ pairs, DigitPair pair) → AlignedAt 2 rest) := by
  rw [ne_eq, fromHex_eq_none_iff]
  constructor
  · intro h hlen pairs rest happend hlt hpairs
    by_contra hbad
    exact h ⟨hlen, pairs, rest, happend, hlt, hpairs, hbad⟩
  · rintro h ⟨hlen, pairs, rest, happend, hlt, hpairs, hbad⟩
    exact hbad (h hlen pairs rest happend hlt hpairs)

theorem fromHex_isOk_iff (hunsigned : ∀ pairs rest, strip s = chars pairs ++ rest →
    pairs.length = 6 → (∀ pair ∈ pairs, DigitPair pair) → ∀ pair ∈ pairs, pair.1 ≠ '+') :
    (∃ id, fromHex s = some (.ok id)) ↔ LeadingDigits (strip s) := by
  rw [leadingDigits_iff_pairs]
  constructor
  · rintro ⟨id, hid⟩
    obtain ⟨pairs, back, happend, hlength, hpairs, -⟩ := fromHex_eq_ok_iff.mp hid
    exact ⟨pairs, back, happend, hlength, hpairs, hunsigned pairs back happend hlength hpairs⟩
  · rintro ⟨pairs, back, happend, hlength, hpairs, -⟩
    exact exists_fromHex happend hlength hpairs

theorem exact_iff_of (laws : Lowercase toLowercase) {isDocid : List Char → Prop}
    (hleading : isDocid (strip s) → LeadingDigits (strip s)) :
    Exact toLowercase isDocid s ↔
      Sliceable toLowercase s ∧ (LeadingDigits (strip s) → isDocid (strip s)) := by
  constructor
  · intro h
    have hread : ∀ pairs rest, strip s = chars pairs ++ rest → pairs.length = 6 →
        (∀ pair ∈ pairs, DigitPair pair) → isDocid (strip s) :=
      fun pairs rest happend hlength hpairs =>
        h.fromHex_iff.mp (exists_fromHex happend hlength hpairs)
    refine ⟨⟨?_, ?_, fromHex_total_iff.mp h.fromHex_total, ?_⟩, fun hdigits => ?_⟩
    · exact not_not.mp (mt validateDocid_eq_none_iff.mpr h.validate_total)
    · exact not_not.mp (mt validateDocid_eq_none_iff.mpr h.normalized_total)
    · intro pairs rest happend hlength hpairs
      have hdigits := hleading (hread pairs rest happend hlength hpairs)
      exact unsigned_of_leadingDigits hdigits happend hlength
    · obtain ⟨pairs, back, happend, hlength, hpairs, -⟩ := leadingDigits_iff_pairs.mp hdigits
      exact hread pairs back happend hlength hpairs
  · rintro ⟨h, hdocid⟩
    have hsame : LeadingDigits (strip s) ↔ isDocid (strip s) := ⟨hdocid, hleading⟩
    refine ⟨fromHex_total_iff.mpr h.chunks, ?_, ?_, ?_, fun id hid => ?_, ?_⟩
    · exact fun hnone => validateDocid_eq_none_iff.mp hnone h.whole
    · exact fun hnone => validateDocid_eq_none_iff.mp hnone h.normalized
    · rw [fromHex_isOk_iff h.unsigned, hsame]
    · exact docIdToString_of_fromHex ((fromHex_isOk_iff h.unsigned).mp ⟨id, hid⟩) hid
    · rw [validateDocid_eq_true_iff, leadingDigits_normalizeDocid_iff laws, hsame]

/-- Ids are exact just where the cuts fall between characters and no digit has a sign. Where ids
are to have nothing behind their digits, there must be nothing. -/
theorem exact_iff (laws : Lowercase toLowercase) (s : String) :
    (Exact toLowercase LeadingDigits s ↔ Sliceable toLowercase s) ∧
      (Exact toLowercase TwelveDigits s ↔
        Sliceable toLowercase s ∧ (LeadingDigits (strip s) → (strip s).length = 12)) := by
  have htwelve : TwelveDigits (strip s) ↔
      LeadingDigits (strip s) ∧ (strip s).length = 12 := by
    constructor
    · rintro ⟨hlength, hdigits⟩
      exact ⟨⟨hlength.ge, fun c hc => hdigits c (List.mem_of_mem_take hc)⟩, hlength⟩
    · rintro ⟨⟨-, hdigits⟩, hlength⟩
      rw [List.take_of_length_le hlength.le] at hdigits
      exact ⟨hlength, hdigits⟩
  constructor
  · rw [exact_iff_of laws id]
    exact ⟨fun h => h.1, fun h => ⟨h, id⟩⟩
  · rw [exact_iff_of laws fun h => (htwelve.mp h).1]
    exact and_congr_right fun _ =>
      ⟨fun h hdigits => (htwelve.mp (h hdigits)).2, fun h hdigits =>
        htwelve.mpr ⟨hdigits, h hdigits⟩⟩

def asciiLowercase (s : String) : String := .ofList (s.toList.map Char.toLower)

theorem lowercase_ascii : Lowercase asciiLowercase := by
  refine ⟨fun s => ⟨s.toList.map fun c => [c.toLower], ?_, ?_⟩⟩
  · rw [asciiLowercase, String.toList_ofList]
    generalize s.toList = cs
    induction cs with
    | nil => rfl
    | cons c cs ih =>
        rw [List.map_cons, List.map_cons, List.flatten_cons, ← ih, List.singleton_append]
  · rw [List.forall₂_map_right_iff, List.forall₂_same]
    refine fun c _ => ⟨fun _ => rfl, fun hlarge d hd => ?_⟩
    rw [List.mem_singleton.mp hd, Bool.eq_false_iff]
    intro hdigit
    have hsame : c.toLower = c := by
      rw [Char.toLower, dif_neg]
      rintro ⟨-, hle⟩
      have hsmall : c.toNat ≤ 90 := hle
      omega
    rw [hsame] at hdigit
    exact absurd (toNat_of_digit hdigit) (Nat.not_lt.mpr hlarge)

theorem exact_iff_deadbeef :
    (Exact asciiLowercase LeadingDigits "#DEADBEEF1234" ↔
        Sliceable asciiLowercase "#DEADBEEF1234") ∧
      (Exact asciiLowercase TwelveDigits "#DEADBEEF1234" ↔
        Sliceable asciiLowercase "#DEADBEEF1234" ∧
          (LeadingDigits (strip "#DEADBEEF1234") → (strip "#DEADBEEF1234").length = 12)) :=
  exact_iff lowercase_ascii "#DEADBEEF1234"

/-- The identifier of a document is the start of its hash, in lower case. -/
theorem getDocid_of_digits {hash : String} (hlength : 12 ≤ hash.toList.length)
    (hdigits : ∀ c ∈ hash.toList, isAsciiHexdigit c = true) :
    getDocid hash = some (.ofList ((hash.toList.take 12).map Char.toLower)) := by
  have hbytes : byteLen hash.toList = hash.toList.length :=
    Text.byteLen_of_ascii fun c hc => utf8Size_of_digit (hdigits c hc)
  have htaken : ∀ c ∈ hash.toList.take 12, isAsciiHexdigit c = true := fun c hc =>
    hdigits c (List.mem_of_mem_take hc)
  have hlen : (hash.toList.take 12).length = 12 := by rw [List.length_take]; omega
  have hslice : slice hash.toList 0 12 = some (hash.toList.take 12) := by
    rw [Text.slice_zero, Text.takeBytes_eq_some_iff]
    refine ⟨List.take_prefix _ _, ?_⟩
    rw [Text.byteLen_of_ascii fun c hc => utf8Size_of_digit (htaken c hc), hlen]
  have hleading : LeadingDigits (strip (.ofList (hash.toList.take 12))) := by
    rw [strip_of_digits htaken]
    exact ⟨hlen.ge, fun c hc => htaken c (List.mem_of_mem_take hc)⟩
  obtain ⟨pairs, back, happend, hpairs, hdigit, hunsigned⟩ := leadingDigits_iff_pairs.mp hleading
  obtain ⟨id, hid⟩ := exists_fromHex happend hpairs hdigit
  have htext := docIdToString_of_fromHex hleading hid
  rw [strip_of_digits htaken, List.take_of_length_le hlen.le] at htext
  rw [getDocid, fromHash, if_neg (by omega), hslice, Option.bind_some, hid, Option.map_some]
  exact congrArg some htext

theorem getDocid_of_digits_hash :
    getDocid "DEADBEEF12345678" =
      some (.ofList (("DEADBEEF12345678".toList.take 12).map Char.toLower)) :=
  getDocid_of_digits (by decide +kernel) (List.all_eq_true.mp (by decide +kernel))

/-- A character of two bytes may lie across a cut, and a plus is read as part of a number. -/
theorem fromHex_panics :
    fromHex "0é0000000000" = none ∧ validateDocid "00000000000é" = none ∧
      fromHex "+f+f+f+f+f+f" = some (.ok ⟨[15, 15, 15, 15, 15, 15], rfl⟩) := by
  decide +kernel

end ContentHash

end BenShu.Engram
