import BenShu.Lib.FirstMatch
import BenShu.Lib.Lines

/-!
# Names of called tools

The name of a call is matched with the registered tools: as it is, in lower case, as an
extension of a registered name, through a table of other names and by what follows its
last dot. The tools come in the order in which a hash map is iterated.
-/

namespace BenShu.Agent

/-- Other names of the tools. -/
def toolAliases : List (List String × String) :=
  [(["runtime_surface.command_exec", "runtime.command_exec", "terminal.command_exec",
      "shell.command_exec", "execute_command", "run_command", "command"], "command_exec"),
    (["browser.browse", "browser.open", "browser.navigate", "browse"], "browser_browse"),
    (["web.search", "browser.search", "search_web"], "web_search"),
    (["web.fetch", "browser.fetch", "fetch_url", "fetch_web"], "web_fetch"),
    (["filesystem.read_file", "fs.read_file", "file.read", "read_path"], "read_file"),
    (["filesystem.write_file", "fs.write_file", "file.write"], "write_file"),
    (["filesystem.list_directory", "fs.list_directory", "list_files"], "list_directory"),
    (["image_gen", "image.generate", "image.generate_image", "generate_image_tool"],
      "generate_image"),
    (["ocr.ocr", "image.ocr", "vision.ocr"], "text_extract"),
    (["office.parse", "document.office_parse", "parse_office"], "office_parse"),
    (["pdf.parse", "document.pdf_parse", "parse_pdf"], "pdf_parse"),
    (["data.transform", "transform_data"], "data_transform"),
    (["chart.generate", "chart.create", "generate_chart"], "chart"),
    (["repo.git_ops", "git.status", "git.diff", "git.log"], "git_ops"),
    (["voice.transcribe", "voice.transcribe_audio", "stt", "speech_to_text"], "transcribe_audio"),
    (["voice.speak", "voice.text_to_speech", "tts", "speak"], "text_to_speech"),
    (["knowledge.search_knowledge", "knowledge.search", "knowledge.lookup", "knowledge.recall",
      "knowledge_search_knowledge", "search_knowledge", "search_memory", "knowledge_lookup"],
      "tiered_search"),
    (["knowledge.fetch_document", "knowledge.fetch", "knowledge_fetch_document"],
      "fetch_document"),
    (["knowledge.import_url", "knowledge.import", "knowledge_import"], "knowledge_import_url"),
    (["knowledge.manage", "knowledge.update", "knowledge.delete", "knowledge.remove",
      "knowledge_manage", "knowledge_update", "update_knowledge", "knowledge_delete",
      "delete_knowledge", "remove_knowledge"], "knowledge_manage_document")]

def aliasedTool (normalized : String) : Option String :=
  (toolAliases.find? fun entry => entry.1.contains normalized).map (·.2)

/-- A name without quotation marks around it, in lower case, with one separator. -/
def normalizedCallName (trimmed : String) : String :=
  let bare := Text.trimMatches trimmed fun c => c == '\x60' || c == '\x22' || c == '\x27'
  .ofList ((Text.toAsciiLowercase bare).toList.map fun c =>
    if c == '-' || c == ' ' || c == ':' then '_' else c)

/-- The name is the tool's in lower case, or extends it after a dot or an underscore. -/
def callsTool (normalized toolName : String) : Bool :=
  let normalizedTool := Text.toAsciiLowercase toolName
  normalized == normalizedTool || Text.startsWith normalized (normalizedTool ++ ".") ||
    Text.startsWith normalized (normalizedTool ++ "_")

def afterLastDot (normalized : String) : String :=
  (Text.split normalized (· == '.')).getLastD normalized

def canonicalToolCallNameForTools (tools : List String) (requested : String) : String :=
  let trimmed := Text.trim requested
  if tools.contains trimmed then trimmed
  else
    let normalized := normalizedCallName trimmed
    match tools.find? (callsTool normalized) with
    | some toolName => toolName
    | none =>
        match (aliasedTool normalized).filter tools.contains with
        | some candidate => candidate
        | none =>
            let suffix := afterLastDot normalized
            if suffix != normalized && tools.contains suffix then suffix else trimmed

/-! ## What is found -/

variable {tools : List String} {requested normalized name : String}

/-- What is found for a name that no tool's name begins. -/
def fallbackTool (tools : List String) (normalized : String) : Option String :=
  ((aliasedTool normalized).filter tools.contains).or
    (if afterLastDot normalized != normalized && tools.contains (afterLastDot normalized) then
      some (afterLastDot normalized) else none)

theorem canonical_registered (h : Text.trim requested ∈ tools) :
    canonicalToolCallNameForTools tools requested = Text.trim requested := by
  unfold canonicalToolCallNameForTools
  rw [if_pos (by simpa using h)]

theorem canonical_unregistered (h : Text.trim requested ∉ tools) :
    canonicalToolCallNameForTools tools requested =
      ((tools.find? (callsTool (normalizedCallName (Text.trim requested)))).or
        (fallbackTool tools (normalizedCallName (Text.trim requested)))).getD
          (Text.trim requested) := by
  unfold canonicalToolCallNameForTools fallbackTool
  rw [if_neg (by simpa using h)]
  dsimp only
  generalize normalizedCallName (Text.trim requested) = normalized
  cases tools.find? (callsTool normalized) with
  | some toolName => rfl
  | none =>
      cases (aliasedTool normalized).filter tools.contains with
      | some candidate => rfl
      | none =>
          dsimp only
          split <;> rfl

theorem canonical_trim (tools : List String) (requested : String) :
    canonicalToolCallNameForTools tools (Text.trim requested) =
      canonicalToolCallNameForTools tools requested := by
  unfold canonicalToolCallNameForTools
  rw [Text.trim_trim]

theorem fallbackTool_perm {order : List String} (h : order.Perm tools) (normalized : String) :
    fallbackTool order normalized = fallbackTool tools normalized := by
  have hcontains : order.contains = tools.contains := by
    funext toolName
    rw [Bool.eq_iff_iff, List.contains_iff_mem, List.contains_iff_mem, h.mem_iff]
  unfold fallbackTool
  rw [hcontains]

theorem mem_of_fallbackTool (h : fallbackTool tools normalized = some name) : name ∈ tools := by
  unfold fallbackTool at h
  rcases Option.or_eq_some_iff.mp h with halias | ⟨-, hsuffix⟩
  · simpa using (Option.filter_eq_some_iff.mp halias).2
  · split at hsuffix
    · next hmem =>
        rw [Bool.and_eq_true] at hmem
        cases hsuffix
        simpa using hmem.2
    · cases hsuffix

/-! ## Lengths -/

theorem trimMatches_length_le (s : String) (p : Char → Bool) :
    (Text.trimMatches s p).toList.length ≤ s.toList.length := by
  unfold Text.trimMatches
  rw [String.toList_ofList, List.length_reverse]
  exact (List.length_dropWhile_le _ _).trans
    (by rw [List.length_reverse]; exact List.length_dropWhile_le _ _)

theorem trim_eq_of_length_le {s : String} (h : s.toList.length ≤ (Text.trim s).toList.length) :
    Text.trim s = s := by
  have hsublist : (Text.trim s).toList.Sublist s.toList := by
    unfold Text.trim Text.trimChars
    rw [String.toList_ofList]
    refine (List.Sublist.trans ?_ (List.dropWhile_sublist Text.isWhitespace))
    conv_rhs => rw [← List.reverse_reverse (s.toList.dropWhile Text.isWhitespace)]
    exact (List.dropWhile_sublist _).reverse
  exact String.toList_inj.mp (hsublist.eq_of_length_le h)

theorem normalizedCallName_length_le (s : String) :
    (normalizedCallName s).toList.length ≤ s.toList.length := by
  unfold normalizedCallName Text.toAsciiLowercase
  dsimp only
  rw [String.toList_ofList, List.length_map, String.toList_ofList, List.length_map]
  exact trimMatches_length_le _ _

theorem length_le_of_callsTool (h : callsTool normalized name = true) :
    name.toList.length ≤ normalized.toList.length := by
  have hlower : (Text.toAsciiLowercase name).toList.length = name.toList.length := by
    unfold Text.toAsciiLowercase
    rw [String.toList_ofList, List.length_map]
  have hextends : ∀ tail : String, Text.startsWith normalized (Text.toAsciiLowercase name ++ tail) →
      name.toList.length ≤ normalized.toList.length := by
    intro tail hstarts
    have hlength := (Text.startsWith_iff.mp hstarts).length_le
    rw [String.toList_append, List.length_append, hlower] at hlength
    omega
  unfold callsTool at h
  simp only [Bool.or_eq_true, beq_iff_eq] at h
  rcases h with (hsame | hdot) | hunderscore
  · rw [hsame, hlower]
  · exact hextends _ hdot
  · exact hextends _ hunderscore

theorem splitAux_length_le {sep : Char → Bool} {l cur piece : List Char}
    (h : piece ∈ Text.splitAux sep l cur) : piece.length ≤ l.length + cur.length := by
  induction l generalizing cur with
  | nil =>
      rw [Text.splitAux, List.mem_singleton] at h
      simp [h]
  | cons c l ih =>
      rw [Text.splitAux] at h
      split at h
      · rcases List.mem_cons.mp h with rfl | hrest
        · simp
        · have hle := ih hrest
          simp only [List.length_nil, List.length_cons] at hle ⊢
          omega
      · have hle := ih h
        simp only [List.length_cons] at hle ⊢
        omega

theorem afterLastDot_length_le (normalized : String) :
    (afterLastDot normalized).toList.length ≤ normalized.toList.length := by
  unfold afterLastDot
  cases hlast : (Text.split normalized (· == '.')).getLast? with
  | none =>
      rw [List.getLast?_eq_none_iff.mp hlast]
      exact le_refl _
  | some last =>
      have hmem := List.mem_of_getLast? hlast
      obtain ⟨piece, hpiece, rfl⟩ := List.mem_map.mp hmem
      rw [List.getLastD_eq_getLast?, hlast, Option.getD_some, String.toList_ofList]
      exact splitAux_length_le hpiece

/-! ## Order, equal names and repetition -/

def Names (requested name : String) : Prop :=
  name = requested ∨ name = Text.trim requested ∨
    Text.toAsciiLowercase name = normalizedCallName (Text.trim requested)

/-- The answer is the same in every order, is a tool of the called name if there is one, and
is its own answer. -/
structure CanonicalIn (tools : List String) (requested : String) : Prop where
  everyOrder : ∀ order : List String, order.Perm tools →
    canonicalToolCallNameForTools order requested = canonicalToolCallNameForTools tools requested
  named : (∃ name ∈ tools, Names requested name) →
    canonicalToolCallNameForTools tools requested ∈ tools ∧
      Names requested (canonicalToolCallNameForTools tools requested)
  idempotent : ∀ order : List String, order.Perm tools →
    canonicalToolCallNameForTools order (canonicalToolCallNameForTools tools requested) =
      canonicalToolCallNameForTools tools requested

/-- At most one tool is called by the name, it is the registered one if the name itself is
registered, and no white space stands at the ends of the tool's name. -/
structure SingleTool (tools : List String) (requested normalized : String) : Prop where
  only : ∀ x ∈ tools, ∀ y ∈ tools, callsTool normalized x = true → callsTool normalized y = true →
    x = y
  registered : requested ∈ tools → ∃ x ∈ tools, Text.toAsciiLowercase x = normalized
  called : ∀ x ∈ tools, callsTool normalized x = true → Text.trim x = x
  suffix : (∀ x ∈ tools, callsTool normalized x = false) →
    (∀ candidate ∈ aliasedTool normalized, candidate ∉ tools) →
    afterLastDot normalized ∈ tools → afterLastDot normalized ≠ normalized →
    Text.trim (afterLastDot normalized) = afterLastDot normalized

theorem callsTool_of_lower (h : Text.toAsciiLowercase name = normalized) :
    callsTool normalized name = true := by
  unfold callsTool
  simp [h]

theorem trim_of_mem_aliasedTool (h : aliasedTool normalized = some name) : Text.trim name = name := by
  have hall : ∀ entry ∈ toolAliases, Text.trim entry.2 = entry.2 := by decide +kernel
  obtain ⟨entry, hentry, rfl⟩ := Option.map_eq_some_iff.mp h
  exact hall entry (List.mem_of_find?_eq_some hentry)

theorem trim_of_canonical_self (h : canonicalToolCallNameForTools tools requested = requested) :
    Text.trim requested = requested := by
  by_cases hmem : Text.trim requested ∈ tools
  · rwa [canonical_registered hmem] at h
  · rw [canonical_unregistered hmem] at h
    have hnormalized := normalizedCallName_length_le (Text.trim requested)
    generalize hn : normalizedCallName (Text.trim requested) = normalized at h hnormalized
    cases hfind : tools.find? (callsTool normalized) with
    | some toolName =>
        rw [hfind, Option.some_or, Option.getD_some] at h
        have hlength := length_le_of_callsTool (List.find?_some hfind)
        rw [h] at hlength
        exact trim_eq_of_length_le (hlength.trans hnormalized)
    | none =>
        rw [hfind, Option.none_or] at h
        cases hfallback : fallbackTool tools normalized with
        | none => rwa [hfallback] at h
        | some toolName =>
            rw [hfallback, Option.getD_some] at h
            subst h
            unfold fallbackTool at hfallback
            rcases Option.or_eq_some_iff.mp hfallback with halias | ⟨-, hsuffix⟩
            · exact trim_of_mem_aliasedTool (Option.filter_eq_some_iff.mp halias).1
            · split at hsuffix
              · have hlength := afterLastDot_length_le normalized
                rw [Option.some.inj hsuffix] at hlength
                exact trim_eq_of_length_le (hlength.trans hnormalized)
              · cases hsuffix

theorem canonical_called (hmem : Text.trim requested ∉ tools) (hname : name ∈ tools)
    (hcalls : callsTool (normalizedCallName (Text.trim requested)) name = true)
    (honly : ∀ x ∈ tools, callsTool (normalizedCallName (Text.trim requested)) x = true → x = name) :
    canonicalToolCallNameForTools tools requested = name := by
  rw [canonical_unregistered hmem, FirstMatch.find?_eq_some_of_only hname hcalls honly,
    Option.some_or, Option.getD_some]

/-- The answer has no white space at its ends, and is a tool or the trimmed name. -/
theorem SingleTool.trim_canonical (hmem : Text.trim requested ∉ tools)
    (h : SingleTool tools requested (normalizedCallName (Text.trim requested))) :
    Text.trim (canonicalToolCallNameForTools tools requested) =
        canonicalToolCallNameForTools tools requested ∧
      (canonicalToolCallNameForTools tools requested ∈ tools ∨
        canonicalToolCallNameForTools tools requested = Text.trim requested) := by
  rw [canonical_unregistered hmem]
  generalize normalizedCallName (Text.trim requested) = normalized at h
  cases hfind : tools.find? (callsTool normalized) with
  | some toolName =>
      rw [Option.some_or, Option.getD_some]
      have htool := List.mem_of_find?_eq_some hfind
      exact ⟨h.called toolName htool (List.find?_some hfind), .inl htool⟩
  | none =>
      rw [Option.none_or]
      have hnone : ∀ x ∈ tools, callsTool normalized x = false := by
        simpa using hfind
      cases hfallback : fallbackTool tools normalized with
      | none =>
          rw [Option.getD_none]
          exact ⟨Text.trim_trim _, .inr rfl⟩
      | some toolName =>
          rw [Option.getD_some]
          refine ⟨?_, .inl (mem_of_fallbackTool hfallback)⟩
          unfold fallbackTool at hfallback
          rcases Option.or_eq_some_iff.mp hfallback with halias | ⟨halias, hsuffix⟩
          · exact trim_of_mem_aliasedTool (Option.filter_eq_some_iff.mp halias).1
          · split at hsuffix
            · next hboth =>
                rw [Bool.and_eq_true, bne_iff_ne, List.contains_iff_mem] at hboth
                rw [← Option.some.inj hsuffix]
                refine h.suffix hnone ?_ hboth.2 hboth.1
                intro candidate hcandidate hregistered
                have hsome : (aliasedTool normalized).filter tools.contains = some candidate :=
                  Option.filter_eq_some_iff.mpr ⟨hcandidate, by simpa using hregistered⟩
                rw [halias] at hsome
                cases hsome
            · cases hsuffix

theorem canonicalIn_of_registered (hmem : Text.trim requested ∈ tools) :
    CanonicalIn tools requested := by
  have hcanonical : ∀ order : List String, order.Perm tools →
      canonicalToolCallNameForTools order requested = Text.trim requested :=
    fun order hperm => canonical_registered (hperm.mem_iff.mpr hmem)
  have hown := hcanonical tools (List.Perm.refl _)
  refine ⟨fun order hperm => (hcanonical order hperm).trans hown.symm, fun _ => ?_, ?_⟩
  · rw [hown]
    exact ⟨hmem, .inr (.inl rfl)⟩
  · intro order hperm
    rw [hown, canonical_trim]
    exact hcanonical order hperm

theorem SingleTool.canonicalIn (hmem : Text.trim requested ∉ tools)
    (h : SingleTool tools requested (normalizedCallName (Text.trim requested))) :
    CanonicalIn tools requested := by
  have hevery : ∀ order : List String, order.Perm tools →
      canonicalToolCallNameForTools order requested =
        canonicalToolCallNameForTools tools requested := by
    intro order hperm
    rw [canonical_unregistered hmem, canonical_unregistered fun h => hmem (hperm.mem_iff.mp h),
      FirstMatch.find?_perm_iff.mpr h.only order hperm, fallbackTool_perm hperm]
  refine ⟨hevery, ?_, ?_⟩
  · rintro ⟨name, hname, hnames⟩
    have hlower : ∃ x ∈ tools, Text.toAsciiLowercase x = normalizedCallName (Text.trim requested) := by
      rcases hnames with rfl | rfl | hlower
      · exact h.registered hname
      · exact absurd hname hmem
      · exact ⟨name, hname, hlower⟩
    obtain ⟨x, hx, hlower⟩ := hlower
    have hcalls := callsTool_of_lower hlower
    rw [canonical_called hmem hx hcalls fun y hy hcalls' => h.only y hy x hx hcalls' hcalls]
    exact ⟨hx, .inr (.inr hlower)⟩
  · intro order hperm
    obtain ⟨htrim, hregistered | hsame⟩ := h.trim_canonical hmem
    · rw [canonical_registered (by rwa [htrim, hperm.mem_iff]), htrim]
    · rw [hsame, canonical_trim, hevery order hperm, hsame]

theorem CanonicalIn.singleTool (hmem : Text.trim requested ∉ tools)
    (h : CanonicalIn tools requested) :
    SingleTool tools requested (normalizedCallName (Text.trim requested)) := by
  have hself := trim_of_canonical_self (h.idempotent tools (List.Perm.refl _))
  -- a called tool is the answer, since there is an order in which it comes first
  have hfirst : ∀ x ∈ tools, callsTool (normalizedCallName (Text.trim requested)) x = true →
      canonicalToolCallNameForTools tools requested = x := by
    intro x hx hcalls
    have hperm := (List.perm_cons_erase hx).symm
    rw [← h.everyOrder _ hperm, canonical_unregistered fun h => hmem (hperm.mem_iff.mp h),
      List.find?_cons_of_pos hcalls, Option.some_or, Option.getD_some]
  refine ⟨?_, ?_, ?_, ?_⟩
  · intro x hx y hy hcalls hcalls'
    rw [← hfirst x hx hcalls, ← hfirst y hy hcalls']
  · intro hrequested
    obtain ⟨hregistered, hsame | hsame | hlower⟩ := h.named ⟨requested, hrequested, .inl rfl⟩
    · rw [hsame] at hself
      rw [hself] at hmem
      exact absurd hrequested hmem
    · rw [hsame] at hregistered
      exact absurd hregistered hmem
    · exact ⟨_, hregistered, hlower⟩
  · intro x hx hcalls
    rw [hfirst x hx hcalls] at hself
    exact hself
  · intro hnone halias hregistered hne
    have hfind : tools.find? (callsTool (normalizedCallName (Text.trim requested))) = none :=
      List.find?_eq_none.mpr fun x hx => by simp [hnone x hx]
    have hfilter : (aliasedTool (normalizedCallName (Text.trim requested))).filter tools.contains =
        none := by
      cases hcandidate : aliasedTool (normalizedCallName (Text.trim requested)) with
      | none => rfl
      | some candidate =>
          rw [Option.filter_some, if_neg (by simpa using halias candidate hcandidate)]
    have hcanonical : canonicalToolCallNameForTools tools requested =
        afterLastDot (normalizedCallName (Text.trim requested)) := by
      rw [canonical_unregistered hmem, hfind, Option.none_or, fallbackTool, hfilter, Option.none_or,
        if_pos (by simp [hne, hregistered]), Option.getD_some]
    rw [hcanonical] at hself
    exact hself

/-- The answer is as it should be exactly when the trimmed name is registered or at most one
tool is called by it. -/
theorem canonicalIn_iff (tools : List String) (requested : String) :
    CanonicalIn tools requested ↔ Text.trim requested ∈ tools ∨
      SingleTool tools requested (normalizedCallName (Text.trim requested)) := by
  by_cases hmem : Text.trim requested ∈ tools
  · exact iff_of_true (canonicalIn_of_registered hmem) (.inl hmem)
  · rw [or_iff_right hmem]
    exact ⟨fun h => h.singleTool hmem, fun h => h.canonicalIn hmem⟩

/-- A tool whose name begins the name of another is taken for it, in one of the orders. -/
theorem webSearch_order_dependent :
    canonicalToolCallNameForTools ["web_search", "web"] "Web-Search" = "web_search" ∧
      canonicalToolCallNameForTools ["web", "web_search"] "Web-Search" = "web" ∧
      ¬CanonicalIn ["web", "web_search"] "Web-Search" := by
  have hsearch : canonicalToolCallNameForTools ["web_search", "web"] "Web-Search" = "web_search" := by
    decide +kernel
  have hweb : canonicalToolCallNameForTools ["web", "web_search"] "Web-Search" = "web" := by
    decide +kernel
  refine ⟨hsearch, hweb, fun h => ?_⟩
  have hsame := h.everyOrder ["web_search", "web"] (List.Perm.swap _ _ _)
  rw [hsearch, hweb] at hsame
  exact absurd hsame (by decide)

end BenShu.Agent
