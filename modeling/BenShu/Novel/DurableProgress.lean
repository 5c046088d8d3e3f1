import BenShu.Lib.FileTree
import BenShu.Lib.Lines
import BenShu.Novel.Project

/-!
# Durable progress

How many chapters from the first one on are trusted, read off the manifest and the files. The loop
stops at the first chapter that is not.
-/

namespace Text

theorem mem_of_mem_linesAux {l cur line : List Char} {c : Char} (hline : line ∈ linesAux l cur)
    (hc : c ∈ line) : c ∈ l ∨ c ∈ cur := by
  fun_induction linesAux l cur with
  | case1 => cases hline
  | case2 cur _ =>
      rw [List.mem_singleton.mp hline] at hc
      exact .inr (List.mem_reverse.mp hc)
  | case3 rest cur ih =>
      rcases List.mem_cons.mp hline with rfl | hrest
      · have hkept : c ∈ stripReturn cur := List.mem_reverse.mp hc
        unfold stripReturn at hkept
        split at hkept
        · exact .inr (List.mem_cons_of_mem _ hkept)
        · exact .inr hkept
      · exact (ih hrest).imp (List.mem_cons_of_mem _) fun h => nomatch h
  | case4 first rest cur _ ih =>
      rcases ih hline with hrest | hcur
      · exact .inl (List.mem_cons_of_mem _ hrest)
      · rcases List.mem_cons.mp hcur with rfl | hold
        · exact .inl List.mem_cons_self
        · exact .inr hold

theorem splitAux_of_all {sep : Char → Bool} {l : List Char} (h : ∀ c ∈ l, sep c = true) :
    ∀ piece ∈ splitAux sep l [], piece = [] := by
  induction l with
  | nil => simp [splitAux]
  | cons c l ih =>
      obtain ⟨hc, hl⟩ := List.forall_mem_cons.mp h
      rw [splitAux, if_pos hc]
      exact List.forall_mem_cons.mpr ⟨rfl, ih hl⟩

end Text

namespace BenShu.Novel

open Files

/-! ## Units -/

def placeholderMarkers : List String :=
  ["此处省略", "此处应为", "省略后续", "以下省略", "略去", "待补充", "占位", "具体正文",
    "后续剧情", "未完待续", "omitted", "placeholder", "todo", "to be continued",
    "specific body text", "current recovery stage", "should contain the actual",
    "due to character limit", "due to the character limit", "character limit constraints",
    "content ends at", "full body is truncated", "truncated here", "not shown in full",
    "cannot provide the full", "in a production environment", "would continue to complete",
    "完整内容受限", "篇幅限制", "无法完整展示", "受输出限制", "由于字数限制", "由于篇幅限制"]

def lineContainsPlaceholderOrOmissionMarker (line : String) : Bool :=
  placeholderMarkers.any fun marker => Text.contains line marker ||
    Text.contains (Text.toAsciiLowercase line) (Text.toAsciiLowercase marker)

def countableContentWithoutPlaceholderLines (content : String) : String :=
  "\n".intercalate ((Text.lines content).filter fun line =>
    !lineContainsPlaceholderOrOmissionMarker (Text.trim line))

def countUnits (content language : String) : Nat :=
  let countable := countableContentWithoutPlaceholderLines content
  if Text.startsWith language "en" then (Text.splitWhitespace countable).length
  else (countable.toList.filter fun c => !Text.isWhitespace c).length

theorem countUnits_of_isBlank {content : String} (language : String)
    (h : isBlank content = true) : countUnits content language = 0 := by
  have hblank := Text.trim_eq_empty_iff.mp (String.isEmpty_iff.mp h)
  have hwhite : ∀ c ∈ (countableContentWithoutPlaceholderLines content).toList,
      Text.isWhitespace c = true := by
    intro c hc
    rcases Text.mem_intercalate hc with hbreak | ⟨line, hline, hmem⟩
    · rw [show c = '\n' by simpa using hbreak]
      rfl
    · obtain ⟨chars, hchars, rfl⟩ := List.mem_map.mp (List.mem_filter.mp hline).1
      rw [String.toList_ofList] at hmem
      rcases Text.mem_of_mem_linesAux hchars hmem with hcontent | hnil
      · exact hblank c hcontent
      · cases hnil
  unfold countUnits Text.splitWhitespace Text.split
  dsimp only
  split_ifs
  · rw [List.length_eq_zero_iff, List.filter_eq_nil_iff]
    intro word hword
    obtain ⟨chars, hchars, rfl⟩ := List.mem_map.mp hword
    rw [Text.splitAux_of_all hwhite chars hchars]
    simp
  · rw [List.length_eq_zero_iff, List.filter_eq_nil_iff]
    intro c hc
    simp [hwhite c hc]

/-! ## Progress -/

structure DurableChapterProgress where
  approvedPrefixChapters : Nat := 0
  approvedPrefixUnits : Nat := 0
  nextChapter : Nat := 0
  firstUnapprovedChapter : Option Nat := none
  blockers : List String := []
  latestReceiptPresent : Bool := false
  latestReceiptMatchesBody : Bool := false
  latestReceiptMatchesTruth : Bool := false
  latestReceiptLegacy : Bool := false
  deriving DecidableEq, Repr

/-- What may be read in the directory of a project, or why not. -/
structure ChapterFiles where
  readToString : String → Except String String
  readApprovalReceipt : Nat → Except String (Option ApprovalReceipt)

/-- Of 64 bits. -/
def saturatingAdd (m n : Nat) : Nat := min (m + n) (2 ^ 64 - 1)

def indexChapters (chapters : List ChapterRecord) : Table Nat ChapterRecord × List Nat :=
  chapters.foldl (fun index chapter =>
    (index.1.insert chapter.number chapter,
      if (index.1.lookup chapter.number).isSome then index.2 ++ [chapter.number] else index.2))
    (∅, [])

def highestRecorded (records : Table Nat ChapterRecord) : Nat := records.keys.max?.getD 0

section Progress

variable {ρ : Type} (lib : NovelLibrary ρ) (files : ChapterFiles) (language : String)
  (manifest : NovelProjectManifest ρ)

/-- The units and the receipt of a trusted chapter, or what blocks it. -/
def inspectChapter (duplicateNumbers : List Nat) (expected : Nat) (chapter : ChapterRecord) :
    Except (Option String) (Nat × ApprovalReceipt) :=
  if expected ∈ duplicateNumbers then
    .error (some s!"chapter {expected} has duplicate manifest records and cannot establish progress authority")
  else if !chapterIsApproved chapter then .error none
  else if Text.startsWith chapter.path "/" || decide (PathStep.up ∈ RawPath.ofText chapter.path) then
    .error (some s!"chapter {expected} has an unsafe body path and cannot establish progress authority")
  else match files.readToString chapter.path with
    | .error error => .error (some s!"chapter {expected} body is unavailable on disk: {error}")
    | .ok raw =>
        let body := lib.chapterBody raw chapter.title
        let units := countUnits body language
        if isBlank body || units == 0 then
          .error (some s!"chapter {expected} body is empty on disk and cannot establish progress authority")
        else match files.readApprovalReceipt expected with
          | .error error =>
              .error (some s!"chapter {expected} approval receipt is unreadable: {error}")
          | .ok none => .error
              (some s!"chapter {expected} approval receipt is missing from the approved prefix")
          | .ok (some receipt) =>
              if receipt.legacy then
                .error (some s!"chapter {expected} has a legacy approval receipt and cannot establish trusted progress")
              else if receipt.bodyFingerprint != lib.bodyFingerprint body then
                .error (some s!"chapter {expected} approval receipt does not match its final body on disk")
              else .ok (units, receipt)

theorem le_highestRecorded {records : Table Nat ChapterRecord} {number : Nat}
    (h : number ∈ records.keys) : number ≤ highestRecorded records := by
  unfold highestRecorded
  obtain ⟨highest, hhighest⟩ := Option.isSome_iff_exists.mp (List.isSome_max?_of_mem h)
  rw [hhighest]
  exact List.le_max?_get_of_mem h |>.trans (by simp [hhighest])

/-- One turn of the loop after another. -/
def advanceProgress (records : Table Nat ChapterRecord) (duplicateNumbers : List Nat)
    (progress : DurableChapterProgress) : DurableChapterProgress :=
  let expected := progress.approvedPrefixChapters + 1
  match _h : records.lookup expected with
  | none =>
      if highestRecorded records ≥ expected then
        { progress with
          nextChapter := expected
          firstUnapprovedChapter := some expected
          blockers := progress.blockers ++
            [s!"chapter {expected} is missing from the manifest before later chapter records"] }
      else { progress with nextChapter := expected }
  | some chapter =>
      match inspectChapter lib files language duplicateNumbers expected chapter with
      | .error blocker =>
          { progress with
            nextChapter := expected
            firstUnapprovedChapter := some expected
            blockers := progress.blockers ++ blocker.toList }
      | .ok (units, receipt) =>
          advanceProgress records duplicateNumbers
            { progress with
              latestReceiptPresent := true
              latestReceiptMatchesBody := true
              latestReceiptMatchesTruth := !receipt.truthFingerprint.isEmpty &&
                receipt.truthFingerprint == lib.approvalTruthFingerprint manifest
              latestReceiptLegacy := false
              approvedPrefixChapters := expected
              approvedPrefixUnits := saturatingAdd progress.approvedPrefixUnits units
              nextChapter := expected + 1 }
termination_by highestRecorded records - progress.approvedPrefixChapters
decreasing_by
  have hmem := le_highestRecorded (Table.mem_keys_iff.mpr ⟨_, _h⟩)
  omega

def durableChapterProgress : DurableChapterProgress :=
  let index := indexChapters manifest.chapters
  advanceProgress lib files language manifest index.1 index.2 { nextChapter := 1 }

/-! ## The trusted prefix -/

/-- The chapter has exactly one record, which is approved and names a file below the project,
whose body has so many units and is the one of a receipt that is not a legacy one. -/
def TrustedChapter (number units : Nat) : Prop :=
  ∃ chapter raw receipt,
    manifest.chapters.filter (·.number == number) = [chapter] ∧
    chapterIsApproved chapter = true ∧ RawPath.Confined chapter.path ∧
    files.readToString chapter.path = .ok raw ∧
    units = countUnits (lib.chapterBody raw chapter.title) language ∧ 0 < units ∧
    files.readApprovalReceipt number = .ok (some receipt) ∧ receipt.legacy = false ∧
    receipt.bodyFingerprint = lib.bodyFingerprint (lib.chapterBody raw chapter.title)

theorem indexChapters_spec (chapters : List ChapterRecord) (number : Nat) :
    (indexChapters chapters).1.lookup number =
        (chapters.filter (·.number == number)).getLast? ∧
      (number ∈ (indexChapters chapters).2 ↔
        2 ≤ (chapters.filter (·.number == number)).length) := by
  induction chapters using List.reverseRecOn with
  | nil => exact ⟨AList.lookup_empty _, by simp [indexChapters]⟩
  | append_singleton chapters chapter ih =>
      obtain ⟨hlookup, hduplicate⟩ := ih
      unfold indexChapters at hlookup hduplicate ⊢
      rw [List.foldl_append, List.foldl_cons, List.foldl_nil, List.filter_append]
      set index := chapters.foldl _ _ with hindex
      by_cases hsame : chapter.number = number
      · subst hsame
        have hsome : (index.1.lookup chapter.number).isSome =
            !(chapters.filter (·.number == chapter.number)).isEmpty := by
          rw [hlookup]
          cases chapters.filter (·.number == chapter.number) <;> simp
        simp only [AList.lookup_insert, List.filter_cons, beq_self_eq_true, if_true,
          List.filter_nil, List.getLast?_concat, List.length_append, List.length_singleton]
        refine ⟨trivial, ?_⟩
        rw [hsome]
        rcases hcases : chapters.filter (·.number == chapter.number) with _ | ⟨first, rest⟩
        · rw [hcases] at hduplicate ⊢
          simpa using hduplicate
        · rw [hcases]
          simp
      · simp only [Table.lookup_insert, List.filter_cons, beq_iff_eq, hsame, if_false,
          List.filter_nil, List.append_nil]
        refine ⟨by rw [if_neg (Ne.symm hsame)]; exact hlookup, ?_⟩
        split_ifs
        · rw [List.mem_append, List.mem_singleton, hduplicate]
          exact or_iff_left (Ne.symm hsame)
        · exact hduplicate

theorem trustedChapter_iff {number units : Nat} :
    TrustedChapter lib files language manifest number units ↔
      ∃ chapter receipt, (indexChapters manifest.chapters).1.lookup number = some chapter ∧
        inspectChapter lib files language (indexChapters manifest.chapters).2 number chapter =
          .ok (units, receipt) := by
  obtain ⟨hlookup, hduplicate⟩ := indexChapters_spec manifest.chapters number
  rw [hlookup]
  constructor
  · rintro ⟨chapter, raw, receipt, hfilter, happroved, hconfined, hraw, rfl, hpositive, hreceipt,
      hlegacy, hfingerprint⟩
    have hsingle : number ∉ (indexChapters manifest.chapters).2 := by
      rw [hduplicate, hfilter]
      simp
    have hbody : isBlank (lib.chapterBody raw chapter.title) = false := by
      rw [← Bool.not_eq_true]
      exact fun hblank => absurd (countUnits_of_isBlank language hblank) (Nat.ne_of_gt hpositive)
    refine ⟨chapter, receipt, by rw [hfilter]; rfl, ?_⟩
    unfold inspectChapter
    simp [hsingle, happroved, hconfined.1, hconfined.2, hraw, hbody, Nat.ne_of_gt hpositive,
      hreceipt, hlegacy, hfingerprint]
  · rintro ⟨chapter, receipt, hlast, hinspect⟩
    unfold inspectChapter at hinspect
    split_ifs at hinspect with hsingle happroved hpath
    split at hinspect
    · cases hinspect
    next raw hraw =>
    dsimp only at hinspect
    split_ifs at hinspect with hbody
    split at hinspect
    · cases hinspect
    · cases hinspect
    next found hreceipt =>
    split_ifs at hinspect with hlegacy hfingerprint
    cases hinspect
    rw [hduplicate] at hsingle
    simp only [Bool.or_eq_true, not_or, Bool.not_eq_true, decide_eq_true_eq,
      beq_eq_false_iff_ne] at hpath hbody
    refine ⟨chapter, raw, receipt, ?_, by simpa using happroved, hpath, hraw, rfl,
      Nat.pos_of_ne_zero hbody.2, hreceipt, by simpa using hlegacy, by simpa using hfingerprint⟩
    rcases hcases : manifest.chapters.filter (·.number == number) with _ | ⟨first, _ | ⟨second, rest⟩⟩
    · rw [hcases] at hlast
      cases hlast
    · rw [hcases] at hlast
      exact hcases.trans (congrArg (fun last => [last]) (Option.some.inj hlast))
    · rw [hcases] at hsingle
      simp at hsingle

theorem le_highestRecorded_iff {number : Nat} (hpositive : 0 < number) :
    number ≤ highestRecorded (indexChapters manifest.chapters).1 ↔
      ∃ chapter ∈ manifest.chapters, number ≤ chapter.number := by
  have hkeys (n : Nat) : n ∈ (indexChapters manifest.chapters).1.keys ↔
      ∃ chapter ∈ manifest.chapters, chapter.number = n := by
    rw [Table.mem_keys_iff, (indexChapters_spec manifest.chapters n).1,
      ← Option.isSome_iff_exists, List.getLast?_isSome, Ne, List.filter_eq_nil_iff]
    simp
  constructor
  · intro h
    unfold highestRecorded at h
    rcases hmax : (indexChapters manifest.chapters).1.keys.max? with _ | highest
    · rw [hmax] at h
      exact absurd h (Nat.not_le.mpr hpositive)
    · rw [hmax] at h
      obtain ⟨chapter, hmem, rfl⟩ := (hkeys highest).mp (List.max?_mem hmax)
      exact ⟨chapter, hmem, h⟩
  · rintro ⟨chapter, hmem, hle⟩
    exact hle.trans (le_highestRecorded ((hkeys _).mpr ⟨chapter, hmem, rfl⟩))

def PrefixTrusted (progress : DurableChapterProgress) : Prop :=
  ∃ units : List Nat, units.length = progress.approvedPrefixChapters ∧
    (∀ (i : Nat) (h : i < units.length),
      TrustedChapter lib files language manifest (i + 1) units[i]) ∧
    progress.approvedPrefixUnits = units.foldl saturatingAdd 0

theorem advanceProgress_spec (progress : DurableChapterProgress)
    (h : PrefixTrusted lib files language manifest progress)
    (hnone : progress.firstUnapprovedChapter = none) :
    let final := advanceProgress lib files language manifest (indexChapters manifest.chapters).1
      (indexChapters manifest.chapters).2 progress
    PrefixTrusted lib files language manifest final ∧
      (∀ units, ¬TrustedChapter lib files language manifest
        (final.approvedPrefixChapters + 1) units) ∧
      final.nextChapter = final.approvedPrefixChapters + 1 ∧
      final.firstUnapprovedChapter =
        if ∃ chapter ∈ manifest.chapters, final.approvedPrefixChapters < chapter.number then
          some (final.approvedPrefixChapters + 1)
        else none := by
  fun_induction advanceProgress lib files language manifest (indexChapters manifest.chapters).1
    (indexChapters manifest.chapters).2 progress with
  | case1 progress expected hlookup hhighest =>
      refine ⟨h, ?_, rfl, ?_⟩
      · rintro units htrusted
        obtain ⟨chapter, -, hsome, -⟩ := (trustedChapter_iff lib files language manifest).mp htrusted
        cases hlookup.symm.trans hsome
      · exact (if_pos ((le_highestRecorded_iff manifest (Nat.succ_pos _)).mp hhighest)).symm
  | case2 progress expected hlookup hhighest =>
      refine ⟨h, ?_, rfl, ?_⟩
      · rintro units htrusted
        obtain ⟨chapter, -, hsome, -⟩ := (trustedChapter_iff lib files language manifest).mp htrusted
        cases hlookup.symm.trans hsome
      · refine hnone.trans (if_neg fun hlater => hhighest ?_).symm
        exact (le_highestRecorded_iff manifest (Nat.succ_pos _)).mpr hlater
  | case3 progress expected chapter hlookup blocker hinspect =>
      refine ⟨h, ?_, rfl, ?_⟩
      · rintro units htrusted
        obtain ⟨other, receipt, hsome, hok⟩ :=
          (trustedChapter_iff lib files language manifest).mp htrusted
        cases hlookup.symm.trans hsome
        cases hinspect.symm.trans hok
      · refine (if_pos ((le_highestRecorded_iff manifest (Nat.succ_pos _)).mp ?_)).symm
        exact le_highestRecorded (Table.mem_keys_iff.mpr ⟨chapter, hlookup⟩)
  | case4 progress expected chapter hlookup units receipt hinspect ih =>
      refine ih ?_ hnone
      obtain ⟨earlier, hlength, htrusted, hsum⟩ := h
      refine ⟨earlier ++ [units], by simp [hlength, expected], fun i hi => ?_, ?_⟩
      · rcases Nat.lt_or_ge i earlier.length with hold | hnew
        · rw [List.getElem_append_left hold]
          exact htrusted i hold
        · have heq : i = earlier.length := by
            rw [List.length_append, List.length_singleton] at hi
            omega
          subst heq
          rw [List.getElem_concat_length rfl]
          exact (trustedChapter_iff lib files language manifest).mpr
            ⟨chapter, receipt, by rw [hlength]; exact hlookup, by rw [hlength]; exact hinspect⟩
      · rw [List.foldl_append, ← hsum]
        rfl

/-- Progress is up to the largest chapter with only trusted ones up to it. -/
structure LongestTrustedPrefix (progress : DurableChapterProgress) : Prop where
  longest : ∀ count, (∀ number, 1 ≤ number → number ≤ count →
    ∃ units, TrustedChapter lib files language manifest number units) ↔
      count ≤ progress.approvedPrefixChapters
  units : PrefixTrusted lib files language manifest progress
  next : progress.nextChapter = progress.approvedPrefixChapters + 1
  firstUnapproved : progress.firstUnapprovedChapter =
    if ∃ chapter ∈ manifest.chapters, progress.approvedPrefixChapters < chapter.number then
      some (progress.approvedPrefixChapters + 1)
    else none

theorem durable_progress_is_longest_trusted_prefix :
    LongestTrustedPrefix lib files language manifest
      (durableChapterProgress lib files language manifest) := by
  obtain ⟨htrust, hstop, hnext, hfirst⟩ := advanceProgress_spec lib files language manifest
    { nextChapter := 1 } ⟨[], rfl, fun _ hi => absurd hi (Nat.not_lt_zero _), rfl⟩ rfl
  refine ⟨fun count => ⟨fun hall => ?_, fun hle number hpositive hnumber => ?_⟩, htrust, hnext,
    hfirst⟩
  · by_contra hless
    obtain ⟨units, htrusted⟩ := hall _ (Nat.succ_pos _) (Nat.not_le.mp hless)
    exact hstop units htrusted
  · obtain ⟨units, hlength, htrusted, -⟩ := htrust
    have hindex : number - 1 < units.length := by
      rw [hlength]
      exact Nat.lt_of_lt_of_le (by omega) hle
    have hsame : number - 1 + 1 = number := by omega
    exact ⟨_, hsame ▸ htrusted (number - 1) hindex⟩

end Progress

end BenShu.Novel
