import Mathlib.Data.List.Forall2
import BenShu.Protocol.Message

/-!
# Trimming of contents

A text over the limit keeps its two ends. The marker between them says how many characters are
left out, and it is not counted towards the limit.
-/

namespace BenShu.Protocol

/-! ## The marker -/

def omissionMarker (notice : Nat → String) (omittedChars : Nat) : String :=
  "\n\n[" ++ notice omittedChars ++ "]\n\n"

theorem toList_contextSafetyNotice (n : Nat) :
    (contextSafetyNotice n).toList =
      "... ".toList ++ Nat.toDigits 10 n ++
        " characters truncated for context safety ...".toList := by
  have hdigits : (toString n).toList = Nat.toDigits 10 n := Nat.toList_repr
  rw [← hdigits, ← String.toList_append, ← String.toList_append]
  rfl

theorem charCount_omissionMarker (n : Nat) :
    Text.charCount (omissionMarker contextSafetyNotice n) = 54 + (Nat.toDigits 10 n).length := by
  rw [Text.charCount, omissionMarker, String.toList_append, String.toList_append,
    toList_contextSafetyNotice]
  simp
  omega

theorem omissionMarker_injective {n m : Nat}
    (h : omissionMarker contextSafetyNotice n = omissionMarker contextSafetyNotice m) :
    n = m := by
  have hlist := congrArg String.toList h
  rw [omissionMarker, omissionMarker, String.toList_append, String.toList_append,
    String.toList_append (t := "]\n\n"), String.toList_append, toList_contextSafetyNotice,
    toList_contextSafetyNotice] at hlist
  have hdigits : Nat.toDigits 10 n = Nat.toDigits 10 m := by
    simpa using hlist
  have hvalue := congrArg (Nat.ofDigitChars 10 · 0) hdigits
  simpa [Nat.ofDigitChars_ten_toDigits] using hvalue

theorem charCount_omissionMarker_cases (n : Nat) :
    n < Text.charCount (omissionMarker contextSafetyNotice n) ∧ n < 56 ∨
      Text.charCount (omissionMarker contextSafetyNotice n) = n ∧ n = 56 ∨
        Text.charCount (omissionMarker contextSafetyNotice n) < n ∧ 56 < n := by
  rw [charCount_omissionMarker]
  have hpos : 0 < (Nat.toDigits 10 n).length := Nat.length_toDigits_pos
  have hone : (Nat.toDigits 10 n).length ≤ 1 ↔ n < 10 ^ 1 :=
    Nat.length_toDigits_le_iff (by decide) (by decide)
  have htwo : (Nat.toDigits 10 n).length ≤ 2 ↔ n < 10 ^ 2 :=
    Nat.length_toDigits_le_iff (by decide) (by decide)
  by_cases hlarge : n < 100
  · omega
  · -- A number of three or more digits has fewer digits than 55 below it.
    have hmany : (Nat.toDigits 10 n).length ≤ n - 55 ↔ n < 10 ^ (n - 55) :=
      Nat.length_toDigits_le_iff (by decide) (by omega)
    have hpow : n - 57 < 10 ^ (n - 57) := Nat.lt_pow_self (by decide)
    have hsplit : 10 ^ (n - 55) = 10 ^ (n - 57) * 10 ^ 2 := by
      have hexp : n - 55 = n - 57 + 2 := by omega
      rw [hexp, pow_add]
    omega

/-! ## Texts -/

/-- A text that fits, or one that keeps its two ends with the marker between them. -/
inductive CutTo (notice : Nat → String) (limit : Nat) (text : String) : String → Prop where
  | fits (hfits : Text.charCount text ≤ limit) : CutTo notice limit text text
  | cut (head omitted tail : List Char) {result : String} (hhead : head.length = limit / 2)
      (htail : tail.length = limit - limit / 2) (homitted : omitted ≠ [])
      (htext : text.toList = head ++ omitted ++ tail)
      (hresult : result.toList =
        head ++ (omissionMarker notice omitted.length).toList ++ tail) :
      CutTo notice limit text result

theorem cutTo_headTailWithNotice (notice : Nat → String) (text : String) {limit : Nat}
    (hpos : 0 < limit) : CutTo notice limit text (headTailWithNotice text limit notice) := by
  unfold headTailWithNotice
  dsimp only
  split
  · rename_i hfits
    exact .fits (hfits.resolve_left (Nat.pos_iff_ne_zero.mp hpos))
  · rename_i hlong
    rw [not_or, Nat.not_le] at hlong
    obtain ⟨-, hlong⟩ := hlong
    have homitted : ((text.toList.drop (limit / 2)).take (text.toList.length - limit)).length =
        text.toList.length - limit := by
      rw [List.length_take, List.length_drop]
      omega
    have htail : text.toList.drop (text.toList.length - (limit - limit / 2)) =
        (text.toList.drop (limit / 2)).drop (text.toList.length - limit) := by
      rw [List.drop_drop]
      congr 1
      omega
    refine .cut (text.toList.take (limit / 2))
      ((text.toList.drop (limit / 2)).take (text.toList.length - limit))
      (text.toList.drop (text.toList.length - (limit - limit / 2))) ?_ ?_ ?_ ?_ ?_
    · rw [List.length_take]
      omega
    · rw [List.length_drop]
      omega
    · rw [← List.length_pos_iff, homitted]
      omega
    · rw [htail, List.append_assoc, List.take_append_drop, List.take_append_drop]
    · rw [homitted, omissionMarker]
      simp only [toString, String.toList_append, String.toList_ofList, List.append_assoc]

variable {limit : Nat} {text result result' : String}

theorem CutTo.longer_iff (h : CutTo contextSafetyNotice limit text result) :
    Text.charCount text < Text.charCount result ↔
      limit < Text.charCount text ∧ Text.charCount text < limit + 56 := by
  cases h with
  | fits hfits => omega
  | cut head omitted tail hhead htail homitted htext hresult =>
      have hmarker := charCount_omissionMarker_cases omitted.length
      have hpos := List.length_pos_iff.mpr homitted
      unfold Text.charCount at *
      rw [htext, hresult]
      simp only [List.length_append]
      omega

theorem CutTo.twice_iff (hpos : 0 < limit) (h : CutTo contextSafetyNotice limit text result)
    (hagain : CutTo contextSafetyNotice limit result result') :
    result' = result ↔ Text.charCount text ≤ limit ∨ Text.charCount text = limit + 56 := by
  cases h with
  | fits hfits =>
      refine iff_of_true ?_ (.inl hfits)
      cases hagain with
      | fits => rfl
      | cut head omitted tail hhead htail homitted htext =>
          have hlong := List.length_pos_iff.mpr homitted
          rw [Text.charCount, htext] at hfits
          simp only [List.length_append] at hfits
          omega
  | cut head omitted tail hhead htail homitted htext hresult =>
      have hmarker := charCount_omissionMarker_cases omitted.length
      have hcount : Text.charCount text = limit + omitted.length := by
        rw [Text.charCount, htext]
        simp only [List.length_append]
        omega
      have hsolid := List.length_pos_iff.mpr homitted
      have hlength := charCount_omissionMarker omitted.length
      unfold Text.charCount at hmarker hlength
      generalize hmark : omissionMarker contextSafetyNotice omitted.length = marker
        at hmarker hlength hresult
      cases hagain with
      | fits hfits =>
          rw [Text.charCount, hresult] at hfits
          simp only [List.length_append] at hfits
          omega
      | cut head' omitted' tail' hhead' htail' _ htext' hresult' =>
          rw [hresult, List.append_assoc, List.append_assoc] at htext'
          obtain ⟨rfl, hrest⟩ := List.append_inj htext' (hhead.trans hhead'.symm)
          obtain ⟨hmarked, rfl⟩ := List.append_inj' hrest (htail.trans htail'.symm)
          subst hmarked
          rw [← String.toList_inj, hresult, hresult', List.append_cancel_right_eq,
            List.append_cancel_left_eq, String.toList_inj, hcount]
          constructor
          · intro hsame
            have hnumber := omissionMarker_injective (hsame.trans hmark.symm)
            omega
          · rintro (hfits | hexact)
            · omega
            · have hnumber : marker.toList.length = omitted.length := by omega
              rw [hnumber, hmark]

/-! ## Contents -/

/-- A tool result is cut, every other part stays. -/
inductive PartCutTo (limit : Nat) : ContentPart → ContentPart → Prop where
  | toolResult (toolCallId : String) (name : Option String) {content content' : String}
      (hcut : CutTo contextSafetyNotice limit content content') :
      PartCutTo limit (.toolResult toolCallId name content) (.toolResult toolCallId name content')
  | other {part : ContentPart}
      (hother : ∀ toolCallId name content, part ≠ .toolResult toolCallId name content) :
      PartCutTo limit part part

/-- A text is cut, the parts of a content are, and every other content stays. -/
inductive ContentCutTo (limit : Nat) : Content → Content → Prop where
  | text {value value' : String} (hcut : CutTo contextSafetyNotice limit value value') :
      ContentCutTo limit (.text value) (.text value')
  | parts {list list' : List ContentPart} (hcut : List.Forall₂ (PartCutTo limit) list list') :
      ContentCutTo limit (.parts list) (.parts list')
  | fact (fact : Memory.Fact) : ContentCutTo limit (.fact fact) (.fact fact)
  | systemNotification (notice : String) :
      ContentCutTo limit (.systemNotification notice) (.systemNotification notice)
  | cancelled (reason : String) : ContentCutTo limit (.cancelled reason) (.cancelled reason)

def ContentPart.resultText : ContentPart → Option String
  | .toolResult _ _ content => some content
  | _ => none

def Content.trimmedTexts : Content → List String
  | .text value => [value]
  | .parts list => list.filterMap ContentPart.resultText
  | _ => []

def Settled (limit : Nat) (text : String) : Prop :=
  Text.charCount text ≤ limit ∨ Text.charCount text = limit + 56

theorem headTailWithNotice_twice_iff (text : String) (hpos : 0 < limit) :
    headTailWithNotice (headTailWithNotice text limit contextSafetyNotice) limit
          contextSafetyNotice =
        headTailWithNotice text limit contextSafetyNotice ↔ Settled limit text :=
  (cutTo_headTailWithNotice _ text hpos).twice_iff hpos (cutTo_headTailWithNotice _ _ hpos)

theorem partCutTo_softTrim (part : ContentPart) (hpos : 0 < limit) :
    PartCutTo limit part (part.softTrim limit) := by
  cases part with
  | toolResult toolCallId name content =>
      exact .toolResult toolCallId name (cutTo_headTailWithNotice _ content hpos)
  | _ => exact .other (by simp)

theorem contentCutTo_softTrim (content : Content) (hlimit : 100 ≤ limit) :
    ContentCutTo limit content (content.softTrim limit) := by
  have hpos : 0 < limit := by omega
  unfold Content.softTrim
  rw [if_neg (Nat.not_lt.mpr hlimit)]
  cases content with
  | text value => exact .text (cutTo_headTailWithNotice _ value hpos)
  | parts list =>
      refine .parts ?_
      rw [List.forall₂_map_right_iff]
      exact List.forall₂_same.mpr fun part _ => partCutTo_softTrim part hpos
  | fact known => exact .fact known
  | systemNotification notice => exact .systemNotification notice
  | cancelled reason => exact .cancelled reason

theorem softTrim_part_twice_iff (part : ContentPart) (hpos : 0 < limit) :
    (part.softTrim limit).softTrim limit = part.softTrim limit ↔
      ∀ text ∈ part.resultText, Settled limit text := by
  cases part with
  | toolResult toolCallId name content =>
      simp [ContentPart.softTrim, ContentPart.resultText, headTailWithNotice_twice_iff _ hpos]
  | _ => simp [ContentPart.softTrim, ContentPart.resultText]

theorem softTrim_twice_iff (content : Content) (hlimit : 100 ≤ limit) :
    (content.softTrim limit).softTrim limit = content.softTrim limit ↔
      ∀ text ∈ content.trimmedTexts, Settled limit text := by
  have hpos : 0 < limit := by omega
  have hnot : ¬limit < 100 := Nat.not_lt.mpr hlimit
  cases content with
  | text value =>
      simp [Content.softTrim, hnot, Content.trimmedTexts, headTailWithNotice_twice_iff _ hpos]
  | parts list =>
      simp only [Content.softTrim, hnot, if_false, List.map_map, Content.parts.injEq,
        Content.trimmedTexts, List.mem_filterMap, List.map_inj_left, Function.comp_apply,
        softTrim_part_twice_iff _ hpos, Option.mem_def]
      constructor
      · rintro h text ⟨part, hpart, htext⟩
        exact h part hpart text htext
      · exact fun h part hpart text htext => h text ⟨part, hpart, htext⟩
  | _ => simp [Content.softTrim, hnot, Content.trimmedTexts]

/-- What is over the limit is cut once, with the number of characters that are left out. The
marker stands on top of the limit: it makes a text longer that is over the limit by fewer than 56
characters, and it is cut itself the next time. -/
theorem softTrim_spec (content : Content) (limit : Nat) (hlimit : 100 ≤ limit) :
    ContentCutTo limit content (content.softTrim limit) ∧
      (∀ text result, CutTo contextSafetyNotice limit text result →
        (Text.charCount text < Text.charCount result ↔
          limit < Text.charCount text ∧ Text.charCount text < limit + 56)) ∧
      ((content.softTrim limit).softTrim limit = content.softTrim limit ↔
        ∀ text ∈ content.trimmedTexts, Settled limit text) :=
  ⟨contentCutTo_softTrim content hlimit, fun _ _ h => h.longer_iff,
    softTrim_twice_iff content hlimit⟩

theorem softTrim_spec_hundred :
    ((Content.text "a").softTrim 100).softTrim 100 = (Content.text "a").softTrim 100 :=
  (softTrim_spec (.text "a") 100 (by decide)).2.2.mpr (by simp [Content.trimmedTexts, Settled,
    Text.charCount])

/-- One character over the limit makes a text longer, and it is cut again. -/
theorem softTrim_hundred_and_one :
    let content := Content.text (.ofList (List.replicate 101 'a'))
    (∃ result, content.softTrim 100 = .text result ∧ 101 < Text.charCount result) ∧
      (content.softTrim 100).softTrim 100 ≠ content.softTrim 100 := by
  have hcount : Text.charCount (.ofList (List.replicate 101 'a')) = 101 := by
    rw [Text.charCount, String.toList_ofList, List.length_replicate]
  refine ⟨⟨_, rfl, ?_⟩, fun hsame => ?_⟩
  · have hcut := cutTo_headTailWithNotice contextSafetyNotice (.ofList (List.replicate 101 'a'))
      (Nat.zero_lt_succ 99)
    have hlonger := hcut.longer_iff
    rw [hcount] at hlonger
    exact hlonger.mpr (by decide)
  · have hsettled := (softTrim_twice_iff _ (Nat.le_refl 100)).mp hsame _ List.mem_cons_self
    rw [Settled, hcount] at hsettled
    omega

end BenShu.Protocol
