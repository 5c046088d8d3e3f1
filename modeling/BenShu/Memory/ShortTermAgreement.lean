import BenShu.Memory.ShortTerm
import Mathlib.Data.Set.Function

/-!
# The layers of short-term memory

The memory against one plain list for each user: what reading and undoing answer, and what
maintenance leaves of the persisted history.
-/

namespace BenShu.Memory

open Protocol RecentWindow

/-! ## Plain lists -/

abbrev PlainMemory := Partition → List StoredMessage

namespace MemoryOp

/-- The same operation on plain lists. Neither a window's capacity nor the end of a process
concerns them. -/
def runPlain (score : RetentionScore) (plain : PlainMemory) : MemoryOp → PlainMemory
  | store who message _ _ => Function.update plain who (plain who ++ [message])
  | storeBatch who messages _ _ => Function.update plain who (plain who ++ messages)
  | undo who => Function.update plain who (plain who).dropLast
  | maintenance _ utcNow _ => fun who =>
      if ShortTermMemory.expired (utcNow - expiredAfter) (plain who) then []
      else (plain who).filter (retained score utcNow)
  | pruneMessages threshold => fun who =>
      if ShortTermMemory.expired threshold (plain who) then [] else plain who
  | _ => plain

end MemoryOp

/-- Reading gives the latest messages, as many as are asked for and the window may hold, and
undoing gives the last one. -/
def LayersAgree (names : Set Partition) (memory : ShortTermMemory) (plain : PlainMemory) : Prop :=
  ∀ who ∈ names,
    (∀ limit, memory.retrieve who limit = recent (min limit memory.maxMessages) (plain who)) ∧
      memory.undone who = (plain who).getLast?

/-- Of a history that is not expired, maintenance deletes no message its criterion keeps. -/
def KeepsRetained (names : Set Partition) (score : RetentionScore) (memory : ShortTermMemory) :
    MemoryOp → Prop
  | .maintenance now utcNow entries => ∀ who ∈ names,
      ShortTermMemory.expired (utcNow - expiredAfter) (memory.persisted (key who)) = false →
        List.Sublist ((memory.persisted (key who)).filter (retained score utcNow))
          ((memory.maintenance score now utcNow entries).persisted (key who))
  | _ => True

def RunAgrees (names : Set Partition) (score : RetentionScore) :
    ShortTermMemory → PlainMemory → List MemoryOp → Prop
  | memory, plain, [] => LayersAgree names memory plain
  | memory, plain, op :: ops =>
      LayersAgree names memory plain ∧ KeepsRetained names score memory op ∧
        RunAgrees names score (op.run score memory) (op.runPlain score plain) ops

/-! ## Where they agree -/

def EvictionSpares (names : Set Partition) (memory : ShortTermMemory) (now : Nat)
    (entries : List String) : Prop :=
  ∀ who ∈ names, memory.evictedKey now entries = some (key who) → memory.window (key who) = []

/-- The window may hold a message, and making room for it takes none from another session. -/
def StoreSpares (names : Set Partition) (memory : ShortTermMemory) (who : Partition)
    (messages : List StoredMessage) (now : Nat) (entries : List String) : Prop :=
  (messages ≠ [] → 0 < memory.maxMessages) ∧
    (key who ∉ memory.store → EvictionSpares names memory now entries)

/-- Maintenance drops the window of a session: it was not accessed for a week, or the
capacity is used up. -/
def WindowGone (memory : ShortTermMemory) (now : Nat) (entries : List String) (who : Partition) :
    Prop :=
  key who ∈ memory.inactiveKeys now ∨
    (memory.pruneInactive now).evictedKey now entries = some (key who)

instance (memory : ShortTermMemory) (now : Nat) (entries : List String) (who : Partition) :
    Decidable (WindowGone memory now entries who) := inferInstanceAs (Decidable (_ ∨ _))

structure MaintenanceSpares (score : RetentionScore) (memory : ShortTermMemory)
    (plain : List StoredMessage) (now : Nat) (utcNow : DateTime) (entries : List String)
    (who : Partition) : Prop where
  /-- A window that goes had nothing left to keep. -/
  gone : WindowGone memory now entries who →
    ShortTermMemory.expired (utcNow - expiredAfter) plain = false →
      ∀ message ∈ plain, retained score utcNow message = false
  /-- A window that stays goes empty when the history is expired. -/
  expired : ¬WindowGone memory now entries who →
    ShortTermMemory.expired (utcNow - expiredAfter) plain = true →
      ∀ message ∈ memory.window (key who), retained score utcNow message = false
  /-- Otherwise it loses no message, or there is none to take its place. -/
  stays : ¬WindowGone memory now entries who →
    ShortTermMemory.expired (utcNow - expiredAfter) plain = false →
      (∀ message ∈ memory.window (key who), retained score utcNow message = true) ∨
        ∀ message ∈ plain.take (plain.length - memory.maxMessages),
          retained score utcNow message = false
  /-- A window that loses a message holds all that is to be kept of the persisted history. -/
  rewritten : ¬WindowGone memory now entries who →
    ShortTermMemory.expired (utcNow - expiredAfter) (memory.persisted (key who)) = false →
      (∃ message ∈ memory.window (key who), retained score utcNow message = false) →
        List.Sublist ((memory.persisted (key who)).filter (retained score utcNow))
          ((memory.window (key who)).filter (retained score utcNow))

def Spares (names : Set Partition) (score : RetentionScore) (memory : ShortTermMemory)
    (plain : PlainMemory) : MemoryOp → Prop
  | .store who message now entries => StoreSpares names memory who [message] now entries
  | .storeBatch who messages now entries => StoreSpares names memory who messages now entries
  | .retrieve _ _ => True
  | .undo who => (plain who).length ≤ memory.maxMessages
  | .maintenance now utcNow entries =>
      ∀ who ∈ names, MaintenanceSpares score memory (plain who) now utcNow entries who
  | .pruneMessages threshold =>
      ∀ who ∈ names, ShortTermMemory.expired threshold (plain who) = false
  | .enforceUserCapacity now entries => EvictionSpares names memory now entries
  | .reopen => ∀ who ∈ names, plain who = []

def RunSpares (names : Set Partition) (score : RetentionScore) :
    ShortTermMemory → PlainMemory → List MemoryOp → Prop
  | _, _, [] => True
  | memory, plain, op :: ops =>
      Spares names score memory plain op ∧
        RunSpares names score (op.run score memory) (op.runPlain score plain) ops

/-! ## What the operations do to a window -/

namespace ShortTermMemory

variable {memory : ShortTermMemory} {now : Nat} {entries : List String}

@[simp] theorem window_updateL2History (k k' : String) (messages : List StoredMessage)
    (isUndo : Bool) : (memory.updateL2History k messages isUndo).window k' = memory.window k' := rfl

@[simp] theorem maxMessages_updateL2History (k : String) (messages : List StoredMessage)
    (isUndo : Bool) : (memory.updateL2History k messages isUndo).maxMessages = memory.maxMessages :=
  rfl

theorem window_enforceUserCapacity (k : String) :
    (memory.enforceUserCapacity now entries).window k =
      if memory.evictedKey now entries = some k then [] else memory.window k := by
  unfold enforceUserCapacity
  rcases memory.evictedKey now entries with _ | evicted
  · rw [if_neg (by simp)]
  · simp only [window, Table.lookup_erase, Option.some.injEq, eq_comm (a := k)]
    split_ifs <;> rfl

@[simp] theorem maxMessages_enforceUserCapacity :
    (memory.enforceUserCapacity now entries).maxMessages = memory.maxMessages := by
  unfold enforceUserCapacity
  cases memory.evictedKey now entries <;> rfl

theorem window_of_notMem {k : String} (h : k ∉ memory.store) : memory.window k = [] := by
  rw [window, AList.lookup_eq_none.mpr h]
  rfl

theorem window_storeBatch (who : Partition) (messages : List StoredMessage) (k : String) :
    (memory.storeBatch who messages now entries).window k =
      if k = key who then messages.foldl (push memory.maxMessages) (memory.window k)
      else if key who ∉ memory.store ∧ memory.evictedKey now entries = some k then []
      else memory.window k := by
  by_cases hmem : key who ∈ memory.store
  · have hwindow : (memory.storeBatch who messages now entries).window k =
        ((memory.store.insert (key who) (messages.foldl (push memory.maxMessages)
          (memory.window (key who)))).lookup k).getD [] := by
      simp only [storeBatch, if_pos hmem]
      rfl
    rw [hwindow, Table.lookup_insert]
    by_cases hk : k = key who
    · simp [hk]
    · simp [hk, hmem, window]
  · have hbase : (memory.enforceUserCapacity now entries).window (key who) = [] := by
      rw [window_enforceUserCapacity, window_of_notMem hmem, ite_self]
    have hwindow : (memory.storeBatch who messages now entries).window k =
        (((memory.enforceUserCapacity now entries).store.insert (key who)
          (messages.foldl (push memory.maxMessages) [])).lookup k).getD [] := by
      simp only [storeBatch, if_neg hmem, hbase, maxMessages_enforceUserCapacity]
      rfl
    rw [hwindow, Table.lookup_insert]
    by_cases hk : k = key who
    · simp [hk, window_of_notMem hmem]
    · rw [if_neg hk, if_neg hk, ← window, window_enforceUserCapacity]
      simp [hmem]

@[simp] theorem maxMessages_storeBatch (who : Partition) (messages : List StoredMessage) :
    (memory.storeBatch who messages now entries).maxMessages = memory.maxMessages := by
  unfold storeBatch
  dsimp only
  rw [maxMessages_updateL2History]
  split_ifs
  · rfl
  · exact maxMessages_enforceUserCapacity

@[simp] theorem maxMessages_undo (who : Partition) :
    (memory.undo who).maxMessages = memory.maxMessages := by
  unfold undo
  cases memory.undone who <;> rfl

theorem window_undo (who : Partition) (k : String) :
    (memory.undo who).window k =
      if k = key who then (memory.window k).dropLast else memory.window k := by
  unfold undo
  rcases hlast : memory.undone who with _ | last
  · split_ifs with hk
    · rw [hk, List.getLast?_eq_none_iff.mp hlast]
      rfl
    · rfl
  · show (((memory.store.insert (key who) (memory.window (key who)).dropLast).lookup k).getD [] = _)
    rw [Table.lookup_insert]
    split_ifs with hk
    · rw [hk]
      rfl
    · rfl

theorem window_pruneInactive (k : String) :
    (memory.pruneInactive now).window k =
      if k ∈ memory.inactiveKeys now then [] else memory.window k := by
  unfold window pruneInactive
  rw [Table.lookup_foldl_erase]
  split_ifs <;> rfl

theorem window_retainMessages (keep : StoredMessage → Bool) (k : String) :
    (memory.retainMessages keep).window k = (memory.window k).filter keep := by
  unfold window retainMessages
  rw [Table.lookup_collect]
  cases memory.store.lookup k <;> rfl

theorem persisted_pruneMessages (threshold : DateTime) (k : String) :
    (memory.pruneMessages threshold).persisted k =
      if expired threshold (memory.persisted k) then [] else memory.persisted k := by
  unfold persisted pruneMessages
  dsimp only
  rw [Table.lookup_foldl_erase]
  change _ = if expired threshold (memory.persisted k) = true then [] else memory.persisted k
  by_cases hexpired : expired threshold (memory.persisted k) = true
  · rw [if_pos hexpired]
    split_ifs with hmem
    · rfl
    · have hkey : k ∉ memory.messages := fun hkey =>
        hmem (List.mem_filter.mpr ⟨hkey, hexpired⟩)
      rw [AList.lookup_eq_none.mpr hkey]
      rfl
  · have hnot : k ∉ memory.messages.keys.filter
        (fun key => expired threshold (memory.persisted key)) :=
      fun hmem => hexpired (List.mem_filter.mp hmem).2
    rw [if_neg hexpired, if_neg hnot]
    rfl

@[simp] theorem window_pruneMessages (threshold : DateTime) (k : String) :
    (memory.pruneMessages threshold).window k = memory.window k := rfl

theorem persisted_retainMessages (keep : StoredMessage → Bool) (k : String) :
    (memory.retainMessages keep).persisted k =
      if ∃ message ∈ memory.window k, keep message = false then (memory.window k).filter keep
      else memory.persisted k := by
  have hdirty : ∀ window : List StoredMessage,
      dirtySnapshot keep window = if ∃ message ∈ window, keep message = false then
        some (window.filter keep) else none := by
    intro window
    unfold dirtySnapshot
    have hiff : (window.filter keep).length ≠ window.length ↔
        ∃ message ∈ window, keep message = false := by
      rw [ne_eq, List.length_filter_eq_length_iff]
      simp
    simp only [hiff]
  show (AList.lookup k (Table.collect (dirtySnapshot keep) memory.store ∪ memory.messages)).getD []
    = _
  rw [Table.lookup_union, Table.lookup_collect]
  unfold window
  rcases memory.store.lookup k with _ | window
  · simp [persisted]
  · rw [Option.bind_some, hdirty, Option.getD_some]
    split_ifs
    · rfl
    · rfl

end ShortTermMemory

/-! ## One step -/

section Step

variable {names : Set Partition} {score : RetentionScore} {memory : ShortTermMemory}
  {plain : PlainMemory}

theorem layersAgree_iff :
    LayersAgree names memory plain ↔ ∀ who ∈ names,
      memory.window (key who) = recent memory.maxMessages (plain who) ∧
        (plain who ≠ [] → 0 < memory.maxMessages) := by
  refine forall₂_congr fun who _ => ?_
  unfold ShortTermMemory.retrieve ShortTermMemory.undone
  constructor
  · rintro ⟨hretrieve, hundone⟩
    have hwindow : memory.window (key who) = recent memory.maxMessages (plain who) := by
      have hall := hretrieve (max (memory.window (key who)).length memory.maxMessages)
      rwa [recent_of_length_le (Nat.le_max_left _ _),
        Nat.min_eq_right (Nat.le_max_right _ _)] at hall
    refine ⟨hwindow, fun hne => ?_⟩
    by_contra hzero
    rw [Nat.not_lt, Nat.le_zero] at hzero
    rw [hwindow, hzero, recent_zero] at hundone
    exact hne (List.getLast?_eq_none_iff.mp hundone.symm)
  · rintro ⟨hwindow, hpositive⟩
    refine ⟨fun limit => by rw [hwindow, recent_recent], ?_⟩
    rw [hwindow]
    by_cases hne : plain who = []
    · rw [hne, recent_nil]
    · exact getLast?_recent (hpositive hne) _

/-- A window that goes is the window of an empty list. -/
theorem evictionSpares_iff (hagree : LayersAgree names memory plain) {now : Nat}
    {entries : List String} :
    EvictionSpares names memory now entries ↔
      LayersAgree names (memory.enforceUserCapacity now entries) plain := by
  rw [layersAgree_iff] at hagree ⊢
  refine forall₂_congr fun who hwho => ?_
  obtain ⟨hwindow, hpositive⟩ := hagree who hwho
  rw [ShortTermMemory.window_enforceUserCapacity,
    ShortTermMemory.maxMessages_enforceUserCapacity, and_iff_left hpositive]
  split_ifs with hevicted
  · rw [← hwindow]
    exact ⟨fun h => (h hevicted).symm, fun h _ => h.symm⟩
  · exact ⟨fun _ => hwindow, fun _ h => absurd h hevicted⟩

/-- Storing is right for the session when the window may hold a message, and for the others
when none of them is evicted. -/
theorem storeSpares_iff (hkeys : Set.InjOn key names) (hagree : LayersAgree names memory plain)
    {who : Partition} (hwho : who ∈ names) {messages : List StoredMessage} {now : Nat}
    {entries : List String} :
    StoreSpares names memory who messages now entries ↔
      LayersAgree names (memory.storeBatch who messages now entries)
        (Function.update plain who (plain who ++ messages)) := by
  rw [layersAgree_iff] at hagree ⊢
  rw [ShortTermMemory.maxMessages_storeBatch]
  constructor
  · rintro ⟨hpositive, hspares⟩ other hother
    rw [ShortTermMemory.window_storeBatch]
    by_cases heq : other = who
    · subst heq
      obtain ⟨hwindow, hne⟩ := hagree other hother
      rw [if_pos rfl, Function.update_self, hwindow]
      by_cases hmessages : messages = []
      · subst hmessages
        rw [List.append_nil]
        exact ⟨rfl, hne⟩
      · exact ⟨foldl_push_recent (hpositive hmessages) _ _, fun _ => hpositive hmessages⟩
    · obtain ⟨hwindow, hne⟩ := hagree other hother
      rw [if_neg fun hkey => heq (hkeys hother hwho hkey), Function.update_of_ne heq]
      refine ⟨?_, hne⟩
      split_ifs with hevicted
      · rw [← hwindow, hspares hevicted.1 other hother hevicted.2]
      · exact hwindow
  · intro hafter
    refine ⟨fun hmessages => ?_, fun hnew other hother hevicted => ?_⟩
    · have hne := (hafter who hwho).2
      rw [Function.update_self] at hne
      exact hne (List.append_ne_nil_of_right_ne_nil _ hmessages)
    · obtain ⟨hwindow, -⟩ := hafter other hother
      rw [ShortTermMemory.window_storeBatch] at hwindow
      by_cases heq : other = who
      · rw [heq]
        exact ShortTermMemory.window_of_notMem hnew
      · rw [if_neg fun hkey => heq (hkeys hother hwho hkey), if_pos ⟨hnew, hevicted⟩,
          Function.update_of_ne heq] at hwindow
        rw [(hagree other hother).1, ← hwindow]

/-- Undoing is right as long as the window holds the whole list. -/
theorem undo_spares_iff (hkeys : Set.InjOn key names) (hagree : LayersAgree names memory plain)
    {who : Partition} (hwho : who ∈ names) :
    (plain who).length ≤ memory.maxMessages ↔
      LayersAgree names (memory.undo who) (Function.update plain who (plain who).dropLast) := by
  rw [layersAgree_iff] at hagree ⊢
  rw [ShortTermMemory.maxMessages_undo]
  obtain ⟨hwindow, hne⟩ := hagree who hwho
  by_cases hempty : plain who = []
  · have hsame : Function.update plain who (plain who).dropLast = plain := by
      rw [hempty, List.dropLast_nil, ← hempty, Function.update_eq_self]
    rw [hsame, hempty]
    refine iff_of_true (Nat.zero_le _) fun other hother => ?_
    rw [ShortTermMemory.window_undo]
    refine ⟨?_, (hagree other hother).2⟩
    split_ifs with hkey
    · rw [hkeys hother hwho hkey, hwindow, hempty, recent_nil, List.dropLast_nil]
    · exact (hagree other hother).1
  · rw [← dropLast_recent_iff (hne hempty)]
    constructor
    · intro hdrop other hother
      rw [ShortTermMemory.window_undo]
      by_cases heq : other = who
      · subst heq
        rw [if_pos rfl, Function.update_self, hwindow]
        exact ⟨hdrop, fun _ => hne hempty⟩
      · rw [if_neg fun hkey => heq (hkeys hother hwho hkey), Function.update_of_ne heq]
        exact hagree other hother
    · intro hafter
      have hself := (hafter who hwho).1
      rwa [ShortTermMemory.window_undo, if_pos rfl, Function.update_self, hwindow] at hself

theorem prune_spares_iff (hagree : LayersAgree names memory plain) {threshold : DateTime} :
    (∀ who ∈ names, ShortTermMemory.expired threshold (plain who) = false) ↔
      LayersAgree names (memory.pruneMessages threshold) (fun who =>
        if ShortTermMemory.expired threshold (plain who) then [] else plain who) := by
  rw [layersAgree_iff] at hagree ⊢
  refine forall₂_congr fun who hwho => ?_
  obtain ⟨hwindow, hne⟩ := hagree who hwho
  show _ ↔ memory.window (key who) = _ ∧ _
  cases hexpired : ShortTermMemory.expired threshold (plain who) with
  | false =>
      simp only [if_neg Bool.false_ne_true]
      exact iff_of_true trivial ⟨hwindow, hne⟩
  | true =>
      have hnonempty : plain who ≠ [] := by
        intro hempty
        rw [hempty] at hexpired
        cases hexpired
      refine iff_of_false Bool.noConfusion fun h => ?_
      have hnil := h.1
      rw [if_pos rfl, recent_nil, hwindow] at hnil
      rcases recent_eq_nil_iff.mp hnil with hzero | hempty
      · exact Nat.lt_irrefl 0 (hzero ▸ hne hnonempty)
      · exact hnonempty hempty

theorem reopen_spares_iff (hagree : LayersAgree names memory plain) :
    (∀ who ∈ names, plain who = []) ↔ LayersAgree names memory.reopen plain := by
  rw [layersAgree_iff] at hagree ⊢
  refine forall₂_congr fun who hwho => ?_
  obtain ⟨-, hne⟩ := hagree who hwho
  show _ ↔ [] = recent memory.maxMessages (plain who) ∧ (_ → 0 < memory.maxMessages)
  constructor
  · intro hempty
    rw [hempty]
    exact ⟨(recent_nil _).symm, fun h => absurd rfl h⟩
  · rintro ⟨hnil, -⟩
    by_contra hnonempty
    rcases recent_eq_nil_iff.mp hnil.symm with hzero | hempty
    · exact Nat.lt_irrefl 0 (hzero ▸ hne hnonempty)
    · exact hnonempty hempty

theorem window_cleared (now : Nat) (entries : List String) (who : Partition) :
    ((memory.pruneInactive now).enforceUserCapacity now entries).window (key who) =
      if WindowGone memory now entries who then [] else memory.window (key who) := by
  rw [ShortTermMemory.window_enforceUserCapacity, ShortTermMemory.window_pruneInactive]
  by_cases hevicted : (memory.pruneInactive now).evictedKey now entries = some (key who)
  · rw [if_pos hevicted, if_pos (show WindowGone memory now entries who from .inr hevicted)]
  · rw [if_neg hevicted]
    by_cases hinactive : key who ∈ memory.inactiveKeys now
    · rw [if_pos hinactive, if_pos (show WindowGone memory now entries who from .inl hinactive)]
    · have hstays : ¬WindowGone memory now entries who := not_or.mpr ⟨hinactive, hevicted⟩
      rw [if_neg hinactive, if_neg hstays]

theorem window_maintenance (now : Nat) (utcNow : DateTime) (entries : List String)
    (who : Partition) :
    (memory.maintenance score now utcNow entries).window (key who) =
      if WindowGone memory now entries who then []
      else (memory.window (key who)).filter (retained score utcNow) := by
  unfold ShortTermMemory.maintenance
  rw [ShortTermMemory.window_retainMessages]
  show (((memory.pruneInactive now).enforceUserCapacity now entries).window (key who)).filter _ = _
  rw [window_cleared]
  split_ifs <;> rfl

theorem persisted_cleared (now : Nat) (entries : List String) (k : String) :
    ((memory.pruneInactive now).enforceUserCapacity now entries).persisted k =
      memory.persisted k := by
  unfold ShortTermMemory.enforceUserCapacity
  cases (memory.pruneInactive now).evictedKey now entries <;> rfl

/-- A window that stays and loses a message is written over the persisted history. -/
theorem persisted_maintenance (now : Nat) (utcNow : DateTime) (entries : List String)
    (who : Partition) :
    (memory.maintenance score now utcNow entries).persisted (key who) =
      if ¬WindowGone memory now entries who ∧
        ∃ message ∈ memory.window (key who), retained score utcNow message = false then
        (memory.window (key who)).filter (retained score utcNow)
      else if ShortTermMemory.expired (utcNow - expiredAfter) (memory.persisted (key who)) then []
      else memory.persisted (key who) := by
  unfold ShortTermMemory.maintenance
  rw [ShortTermMemory.persisted_retainMessages, ShortTermMemory.persisted_pruneMessages,
    persisted_cleared]
  simp only [ShortTermMemory.window_pruneMessages, window_cleared]
  by_cases hgone : WindowGone memory now entries who
  · simp [hgone]
  · simp only [hgone, if_false, not_false_eq_true, true_and]

/-- Filtering a window is filtering the list where the window stays and loses no message, or
the list has no other one to keep. -/
theorem maintenance_agrees_iff (hagree : LayersAgree names memory plain) {now : Nat}
    {utcNow : DateTime} {entries : List String} {who : Partition} (hwho : who ∈ names) :
    (memory.maintenance score now utcNow entries).window (key who) =
        recent memory.maxMessages ((MemoryOp.maintenance now utcNow entries).runPlain score plain
          who) ↔
      (WindowGone memory now entries who →
        ShortTermMemory.expired (utcNow - expiredAfter) (plain who) = false →
          ∀ message ∈ plain who, retained score utcNow message = false) ∧
      (¬WindowGone memory now entries who →
        ShortTermMemory.expired (utcNow - expiredAfter) (plain who) = true →
          ∀ message ∈ memory.window (key who), retained score utcNow message = false) ∧
      (¬WindowGone memory now entries who →
        ShortTermMemory.expired (utcNow - expiredAfter) (plain who) = false →
          (∀ message ∈ memory.window (key who), retained score utcNow message = true) ∨
            ∀ message ∈ (plain who).take ((plain who).length - memory.maxMessages),
              retained score utcNow message = false) := by
  obtain ⟨hwindow, hne⟩ := layersAgree_iff.mp hagree who hwho
  rw [window_maintenance]
  show _ = recent _ (if _ then [] else _) ↔ _
  by_cases hgone : WindowGone memory now entries who
  · cases hexpired : ShortTermMemory.expired (utcNow - expiredAfter) (plain who) with
    | true => simp [hgone]
    | false =>
        simp only [hgone, if_true, if_neg Bool.false_ne_true, not_true_eq_false, false_implies,
          true_implies, and_true]
        rw [eq_comm, recent_eq_nil_iff, List.filter_eq_nil_iff]
        simp only [Bool.not_eq_true]
        refine or_iff_right_of_imp fun hzero => ?_
        have hempty : plain who = [] := by
          by_contra hnonempty
          exact Nat.lt_irrefl 0 (hzero ▸ hne hnonempty)
        simp [hempty]
  · cases hexpired : ShortTermMemory.expired (utcNow - expiredAfter) (plain who) with
    | true =>
        simp only [hgone, if_false, if_true, recent_nil]
        simp
    | false =>
        simp only [hgone, if_false, if_neg Bool.false_ne_true]
        rw [hwindow, filter_recent_iff]
        simp

@[simp] theorem maxMessages_maintenance (now : Nat) (utcNow : DateTime) (entries : List String) :
    (memory.maintenance score now utcNow entries).maxMessages = memory.maxMessages :=
  ShortTermMemory.maxMessages_enforceUserCapacity

/-- Maintenance is right where the windows and the persisted histories are spared. -/
theorem maintenance_spares_iff (hagree : LayersAgree names memory plain) {now : Nat}
    {utcNow : DateTime} {entries : List String} :
    (∀ who ∈ names, MaintenanceSpares score memory (plain who) now utcNow entries who) ↔
      KeepsRetained names score memory (.maintenance now utcNow entries) ∧
        LayersAgree names (memory.maintenance score now utcNow entries)
          ((MemoryOp.maintenance now utcNow entries).runPlain score plain) := by
  rw [layersAgree_iff, maxMessages_maintenance]
  show _ ↔ (∀ who ∈ names, _) ∧ _
  rw [← forall₂_and]
  refine forall₂_congr fun who hwho => ?_
  obtain ⟨-, hne⟩ := layersAgree_iff.mp hagree who hwho
  have hpositive : (MemoryOp.maintenance now utcNow entries).runPlain score plain who ≠ [] →
      0 < memory.maxMessages := by
    intro hafter
    refine hne fun hempty => hafter ?_
    show (if _ then [] else _) = _
    rw [hempty]
    rfl
  rw [maintenance_agrees_iff hagree hwho, and_iff_left hpositive, persisted_maintenance]
  have hrewritten : (ShortTermMemory.expired (utcNow - expiredAfter) (memory.persisted (key who)) =
      false → List.Sublist ((memory.persisted (key who)).filter (retained score utcNow))
        (if ¬WindowGone memory now entries who ∧
          ∃ message ∈ memory.window (key who), retained score utcNow message = false then
          (memory.window (key who)).filter (retained score utcNow)
        else if ShortTermMemory.expired (utcNow - expiredAfter) (memory.persisted (key who)) then []
        else memory.persisted (key who))) ↔
      (¬WindowGone memory now entries who →
        ShortTermMemory.expired (utcNow - expiredAfter) (memory.persisted (key who)) = false →
          (∃ message ∈ memory.window (key who), retained score utcNow message = false) →
            List.Sublist ((memory.persisted (key who)).filter (retained score utcNow))
              ((memory.window (key who)).filter (retained score utcNow))) := by
    constructor
    · intro h hstays hexpired hloses
      have hsub := h hexpired
      rwa [if_pos ⟨hstays, hloses⟩] at hsub
    · intro h hexpired
      split_ifs with hcase hcase'
      · exact h hcase.1 hexpired hcase.2
      · rw [hexpired] at hcase'
        cases hcase'
      · exact List.filter_sublist
  rw [hrewritten]
  constructor
  · rintro ⟨hgone, hexpired, hstays, hrewrites⟩
    exact ⟨hrewrites, hgone, hexpired, hstays⟩
  · rintro ⟨hrewrites, hgone, hexpired, hstays⟩
    exact ⟨hgone, hexpired, hstays, hrewrites⟩

/-- A step is right exactly where it spares what the windows hold. -/
theorem step_spares_iff (hkeys : Set.InjOn key names) (hagree : LayersAgree names memory plain)
    {op : MemoryOp} (hwho : ∀ who, op.who? = some who → who ∈ names) :
    Spares names score memory plain op ↔
      KeepsRetained names score memory op ∧
        LayersAgree names (op.run score memory) (op.runPlain score plain) := by
  cases op with
  | store who message now entries =>
      exact (storeSpares_iff hkeys hagree (hwho who rfl)).trans (and_iff_right trivial).symm
  | storeBatch who messages now entries =>
      exact (storeSpares_iff hkeys hagree (hwho who rfl)).trans (and_iff_right trivial).symm
  | retrieve who now => exact iff_of_true trivial ⟨trivial, hagree⟩
  | undo who =>
      exact (undo_spares_iff hkeys hagree (hwho who rfl)).trans (and_iff_right trivial).symm
  | maintenance now utcNow entries => exact maintenance_spares_iff hagree
  | pruneMessages threshold => exact (prune_spares_iff hagree).trans (and_iff_right trivial).symm
  | enforceUserCapacity now entries =>
      exact (evictionSpares_iff hagree).trans (and_iff_right trivial).symm
  | reopen => exact (reopen_spares_iff hagree).trans (and_iff_right trivial).symm

theorem runAgrees_iff (hkeys : Set.InjOn key names) {ops : List MemoryOp}
    (hwho : ∀ op ∈ ops, ∀ who, op.who? = some who → who ∈ names)
    (hagree : LayersAgree names memory plain) :
    RunAgrees names score memory plain ops ↔ RunSpares names score memory plain ops := by
  induction ops generalizing memory plain with
  | nil => exact iff_of_true hagree trivial
  | cons op ops ih =>
      obtain ⟨hop, hops⟩ := List.forall_mem_cons.mp hwho
      have hstep : Spares names score memory plain op ↔ _ := step_spares_iff hkeys hagree hop
      show LayersAgree names memory plain ∧ KeepsRetained names score memory op ∧ _ ↔ _ ∧ _
      constructor
      · rintro ⟨-, hkeeps, hrest⟩
        have hafter : LayersAgree names (op.run score memory) (op.runPlain score plain) := by
          cases ops with
          | nil => exact hrest
          | cons next ops => exact hrest.1
        exact ⟨hstep.mpr ⟨hkeeps, hafter⟩, (ih hops hafter).mp hrest⟩
      · rintro ⟨hspares, hrest⟩
        obtain ⟨hkeeps, hafter⟩ := hstep.mp hspares
        exact ⟨hagree, hkeeps, (ih hops hafter).mpr hrest⟩

end Step

/-- From a fresh memory, over any users and agents whose keys differ, the layers agree in every
state of a run exactly where every step spares what the windows hold. -/
theorem layersAgree_run_iff {names : Set Partition} (hkeys : Set.InjOn key names)
    (score : RetentionScore) (maxMessages maxUsers : Nat) (ops : List MemoryOp)
    (hwho : ∀ op ∈ ops, ∀ who, op.who? = some who → who ∈ names) :
    RunAgrees names score { maxMessages := maxMessages, maxUsers := maxUsers } (fun _ => []) ops ↔
      RunSpares names score { maxMessages := maxMessages, maxUsers := maxUsers } (fun _ => [])
        ops := by
  refine runAgrees_iff hkeys hwho (layersAgree_iff.mpr fun who _ => ?_)
  exact ⟨(recent_nil _).symm, fun h => absurd rfl h⟩

def sampleMessage (text : String) : StoredMessage :=
  { Message.user text with createdAt := 0, lastAccessed := 0, utilityScore := 1 / 2 }

theorem key_injOn_users : Set.InjOn key { who | who.agentId = none } := by
  rintro ⟨user, agent⟩ hnone ⟨user', agent'⟩ hnone' hkey
  obtain rfl : agent = none := hnone
  obtain rfl : agent' = none := hnone'
  rw [show user = user' from hkey]

theorem storedAndUndone_agree :
    RunAgrees { who | who.agentId = none } (fun _ _ => 1) { maxMessages := 50, maxUsers := 1000 }
      (fun _ => [])
      [.store ⟨"alice", none⟩ (sampleMessage "Hello.") 1 [], .undo ⟨"alice", none⟩] := by
  refine (layersAgree_run_iff key_injOn_users _ 50 1000 _ ?_).mpr ⟨⟨?_, ?_⟩, ?_, trivial⟩
  · simp [MemoryOp.who?]
  · exact fun _ => by decide
  · intro _ who _ hevicted
    cases hevicted
  · show (_ : List StoredMessage).length ≤ 50
    simp [MemoryOp.runPlain]

/-- With a window of one message, undoing the second one leaves nothing to read of the first. -/
theorem undone_windowEmpty :
    ¬RunAgrees { who | who.agentId = none } (fun _ _ => 1) { maxMessages := 1, maxUsers := 1000 }
      (fun _ => []) [.store ⟨"alice", none⟩ (sampleMessage "Hello.") 1 [],
        .store ⟨"alice", none⟩ (sampleMessage "Bye.") 2 [], .undo ⟨"alice", none⟩] := by
  rintro ⟨-, -, -, -, -, -, hagree⟩
  have hretrieve := congrArg List.length ((hagree ⟨"alice", none⟩ rfl).1 1)
  revert hretrieve
  decide +kernel

end BenShu.Memory
