import BenShu.Agent.Executor
import Mathlib.Data.List.Perm.Subperm
import Mathlib.Data.Option.Basic

/-!
# One answer for every tool call

A call that is planned and done is answered by one message and one receipt under its own
id. A call that planning reuses or stops is answered without a receipt, and a call whose
task is left early loses its id. Nothing else goes wrong.
-/

namespace BenShu.Agent

open Interaction Protocol

/-! ## Tasks left early -/

/-- The answer makes the task of a call return at once. -/
def ExecutorEvent.leavesTask : ExecutorEvent → Bool
  | ⟨.getTool _, false⟩ => true
  | ⟨.preCheckTool _ _, .error _⟩ => true
  | ⟨.checkpoint _ _ _ _, .error _⟩ => true
  | ⟨.fire event, .abort _⟩ => event.timing = .afterToolCall
  | _ => false

abbrev LeavesTask (e : ExecutorEvent) : Prop := ExecutorEvent.leavesTask e = true

variable {library : ExecutorLibrary} {executor : ActionExecutor}

theorem toolSetCall_avoids (name arguments : String) :
    Avoids LeavesTask (ToolSet.call library name arguments) := by
  refine Avoids.request (by simp [LeavesTask, ExecutorEvent.leavesTask]) fun found => ?_
  rcases found with _ | (definition | _)
  · exact .pure _
  · refine Avoids.request (by simp [LeavesTask, ExecutorEvent.leavesTask]) fun answer => ?_
    rcases answer with (_ | _) | _
    · exact .pure _
    · exact .request (by simp [LeavesTask, ExecutorEvent.leavesTask]) fun _ => .pure _
    · exact .pure _
  · exact .pure _

theorem applyToolErrorHook_avoids (name argsStr error : String) :
    Avoids LeavesTask (applyToolErrorHook executor name argsStr error) := by
  refine Avoids.request ?_ fun answer => ?_
  · intro answer
    cases answer <;> simp [LeavesTask, ExecutorEvent.leavesTask, buildHookEvent]
  · cases answer <;> exact .pure _

theorem failedCall_failsAt (name argsStr error : String) :
    FailsAt LeavesTask (failedCall executor name argsStr error) :=
  .bind (applyToolErrorHook_avoids name argsStr error) fun _ => .ok _

theorem invokeTool_failsAt (name argsStr : String) :
    FailsAt LeavesTask (invokeTool library executor name argsStr) := by
  refine .bind (toolSetCall_avoids name argsStr) fun answer => ?_
  rcases answer with (error | output) | _
  · exact failedCall_failsAt name argsStr error
  · refine .request fun hook => ?_
    cases hook with
    | abort reason => exact .inl ⟨rfl, _, rfl⟩
    | «continue» => exact .inr ⟨by simp [LeavesTask, ExecutorEvent.leavesTask], .ok _⟩
    | modify value => exact .inr ⟨by simp [LeavesTask, ExecutorEvent.leavesTask], .ok _⟩
    | skip => exact .inr ⟨by simp [LeavesTask, ExecutorEvent.leavesTask], .ok _⟩
  · exact failedCall_failsAt name argsStr _

theorem runUnderPolicy_failsAt (messages : List Message) (step : Nat) (policy : ToolPolicy)
    (name argsStr : String) (safety : SafetyLevel) :
    FailsAt LeavesTask
      (runUnderPolicy library executor messages step policy name argsStr safety) := by
  cases policy with
  | auto => exact invokeTool_failsAt name argsStr
  | disabled => exact .ok _
  | requiresApproval =>
      refine .request fun saved => ?_
      cases saved with
      | error error => exact .inl ⟨rfl, _, rfl⟩
      | ok _ =>
          refine .inr ⟨by simp [LeavesTask, ExecutorEvent.leavesTask], ?_⟩
          refine .request_of_good (by simp [LeavesTask, ExecutorEvent.leavesTask]) fun answer => ?_
          rcases answer with (error | _ | _) | _
          · exact .ok _
          · exact .ok _
          · exact invokeTool_failsAt name argsStr
          · exact .ok _

theorem finishCall_avoids (messages : List Message) (id name argsStr : String)
    (definition : ToolDefinition) (result : Except ExecutorError String) :
    Avoids LeavesTask (finishCall library executor messages id name argsStr definition result) := by
  cases result with
  | error error => exact .pure _
  | ok output =>
      refine .request (by simp [LeavesTask, ExecutorEvent.leavesTask]) fun filtered => ?_
      refine .request (by simp [LeavesTask, ExecutorEvent.leavesTask]) fun checked => ?_
      refine .request (by simp [LeavesTask, ExecutorEvent.leavesTask]) fun seen => ?_
      cases seen with
      | true => exact .pure _
      | false => exact .request (by simp [LeavesTask, ExecutorEvent.leavesTask]) fun _ => .pure _

theorem runCall_failsAt (messages : List Message) (step : Nat) (call : PlannedCall) :
    FailsAt LeavesTask (runCall library executor messages step call) := by
  refine .request fun found => ?_
  cases found with
  | false => exact .inl ⟨rfl, _, rfl⟩
  | true =>
      refine .inr ⟨by simp [LeavesTask, ExecutorEvent.leavesTask], ?_⟩
      refine .request_of_good (by simp [LeavesTask, ExecutorEvent.leavesTask]) fun definition => ?_
      refine .request fun checked => ?_
      cases checked with
      | error error => exact .inl ⟨rfl, _, rfl⟩
      | ok _ =>
          refine .inr ⟨by simp [LeavesTask, ExecutorEvent.leavesTask], ?_⟩
          refine .andThen (runUnderPolicy_failsAt messages step _ _ _ _) fun result => ?_
          exact .bind (finishCall_avoids messages _ _ _ _ result) fun outcome => .ok outcome

theorem finishCall_id {messages : List Message} {id name argsStr : String}
    {definition : ToolDefinition} {result : Except ExecutorError String} {t : ExecutorTrace}
    {outcome : CallOutcome}
    (h : Runs (finishCall library executor messages id name argsStr definition result) t outcome) :
    outcome.id = id := by
  cases result with
  | error error =>
      rcases h with ⟨-, rfl⟩
      rfl
  | ok output =>
      rcases h with ⟨filtered, t, rfl, checked, t, rfl, seen, t, rfl, h⟩
      cases seen with
      | true =>
          rcases h with ⟨-, rfl⟩
          rfl
      | false =>
          rcases h with ⟨marked, t, rfl, -, rfl⟩
          rfl

theorem runCall_id {messages : List Message} {step : Nat} {call : PlannedCall} {t : ExecutorTrace}
    {outcome : CallOutcome} (h : Runs (runCall library executor messages step call) t (.ok outcome)) :
    outcome.id = call.id := by
  rcases h with ⟨found, t, rfl, h⟩
  cases found with
  | false => cases h.2
  | true =>
      rcases h with ⟨definition, t, rfl, checked, t, rfl, h⟩
      cases checked with
      | error error => cases h.2
      | ok _ =>
          obtain ⟨t₁, t₂, result, -, -, hthen⟩ := runs_andThen_ok.mp h
          obtain ⟨t₃, t₄, finished, -, hfinish, -, heq⟩ := runs_bind.mp hthen
          cases heq
          exact finishCall_id hfinish

/-! ## Ids -/

def answeredId (message : Message) : Option String := (message.results.head?).map (·.1)

def isToolMessage (message : Message) : Bool := message.role = .tool

def toolMessageIds (messages : List Message) : List (Option String) :=
  (messages.filter isToolMessage).map answeredId

theorem toolMessageIds_append (messages messages' : List Message) :
    toolMessageIds (messages ++ messages') = toolMessageIds messages ++ toolMessageIds messages' := by
  simp [toolMessageIds]

/-- The message is one tool result under the id. -/
structure Answers (message : Message) (id : String) : Prop where
  role : message.role = .tool
  results : ∃ content, message.results = [(id, content)]

theorem Answers.toolMessageIds {message : Message} {id : String} (h : Answers message id) :
    toolMessageIds [message] = [some id] := by
  obtain ⟨content, hcontent⟩ := h.results
  simp [BenShu.Agent.toolMessageIds, isToolMessage, answeredId, h.role, hcontent]

namespace Disposition

/-- What planning made of the call with the id. -/
def IsFor (id : String) : Disposition → Prop
  | .unavailable call message => call.id = id ∧ Answers message id
  | .reused message => Answers message id
  | .guarded message => Answers message id
  | .duplicate call message => call.id = id ∧ Answers message id
  | .planned call _ => call.id = id

end Disposition

theorem unavailableCall_isFor (id name argsStr : String) (toolNames : List String) :
    (unavailableCall id name argsStr toolNames).IsFor id := ⟨rfl, rfl, _, rfl⟩

theorem reusedCall_isFor (id name argsStr previousResult : String) :
    (reusedCall id name argsStr previousResult).IsFor id := ⟨rfl, _, rfl⟩

theorem guardedCall_isFor (id name argsStr kind text : String) :
    (guardedCall id name argsStr kind text).IsFor id := ⟨rfl, _, rfl⟩

theorem duplicateCall_isFor (id name argsStr dedupeKey : String) :
    (duplicateCall id name argsStr dedupeKey).IsFor id := ⟨rfl, rfl, _, rfl⟩

theorem planArgs_isFor {messages : List Message} {seen : List String} {id name : String}
    {current : CallArgs} {t : ExecutorTrace} {disposition : Disposition}
    (h : Runs (planArgs library messages seen id name current) t disposition) :
    disposition.IsFor id := by
  rcases h with ⟨cached, t, rfl, h⟩
  dsimp only at h
  split at h
  · rcases h with ⟨-, rfl⟩
    exact duplicateCall_isFor ..
  · rcases h with ⟨recorded, t, rfl, -, rfl⟩
    rfl

theorem planHooked_isFor {messages : List Message} {seen : List String} {id name : String}
    {current : CallArgs} {loopAlert : Option LoopAlert} {t : ExecutorTrace}
    {disposition : Disposition}
    (h : Runs (planHooked library executor messages seen id name current loopAlert) t disposition) :
    disposition.IsFor id := by
  rcases h with ⟨hook, t, rfl, h⟩
  cases hook with
  | «continue» => exact planArgs_isFor h
  | modify modifiedArgs =>
      dsimp only at h
      split at h
      · exact planArgs_isFor h
      · exact planArgs_isFor h
  | abort reason =>
      rcases h with ⟨-, rfl⟩
      exact guardedCall_isFor ..
  | skip =>
      rcases h with ⟨-, rfl⟩
      exact guardedCall_isFor ..

theorem planCall_isFor {messages : List Message} {seen : List String} {call : ToolCall}
    {t : ExecutorTrace} {disposition : Disposition}
    (h : Runs (planCall library executor messages seen call) t disposition) :
    disposition.IsFor call.id := by
  rcases h with ⟨name, t, rfl, contained, t, rfl, h⟩
  cases contained with
  | false =>
      rcases h with ⟨toolNames, t, rfl, -, rfl⟩
      exact unavailableCall_isFor ..
  | true =>
      rcases h with ⟨loopAlert, t, rfl, h⟩
      dsimp only at h
      split at h
      · rcases h with ⟨-, rfl⟩
        exact reusedCall_isFor ..
      · exact planHooked_isFor h

theorem planCalls_isFor {messages : List Message} {seen : List String} {calls : List ToolCall}
    {t : ExecutorTrace} {dispositions : List Disposition}
    (h : Runs (planCalls library executor messages seen calls) t dispositions) :
    List.Forall₂ (fun call disposition => Disposition.IsFor call.id disposition) calls
      dispositions := by
  induction calls generalizing messages seen t dispositions with
  | nil =>
      rcases h with ⟨-, rfl⟩
      exact .nil
  | cons call calls ih =>
      obtain ⟨t₁, t₂, disposition, rfl, hcall, h⟩ := runs_bind.mp h
      obtain ⟨t₃, t₄, rest, rfl, hrest, -, rfl⟩ := runs_bind.mp h
      exact .cons (planCall_isFor hcall) (ih hrest)

/-! ## Counting -/

section Planned

variable {calls : List ToolCall} {dispositions : List Disposition}
  (h : List.Forall₂ (fun call disposition => Disposition.IsFor call.id disposition) calls
    dispositions)

def callIds (calls : List ToolCall) : List (Option String) := calls.map fun call => some call.id

def answeredCallIds (calls : List AnsweredCall) : List (Option String) :=
  calls.map fun call => some call.id

def plannedCallIds (calls : List PlannedCall) : List (Option String) :=
  calls.map fun call => some call.id

include h

theorem planned_messages :
    (toolMessageIds (dispositions.filterMap Disposition.message) ++
      plannedCallIds (dispositions.filterMap Disposition.processedCall)).Perm (callIds calls) := by
  induction h with
  | nil => exact .refl _
  | @cons call disposition calls dispositions hfor hrest ih =>
      have hanswered : ∀ message, disposition.message = some message →
          disposition.processedCall = none → Answers message call.id →
          (toolMessageIds ((disposition :: dispositions).filterMap Disposition.message) ++
            plannedCallIds ((disposition :: dispositions).filterMap
              Disposition.processedCall)).Perm (callIds (call :: calls)) := by
        intro message hmessage hprocessed hanswers
        rw [List.filterMap_cons_some hmessage, List.filterMap_cons_none hprocessed,
          ← List.singleton_append, toolMessageIds_append, hanswers.toolMessageIds]
        exact ih.cons _
      cases disposition with
      | unavailable _ message => exact hanswered message rfl rfl hfor.2
      | reused message => exact hanswered message rfl rfl hfor
      | guarded message => exact hanswered message rfl rfl hfor
      | duplicate _ message => exact hanswered message rfl rfl hfor.2
      | planned planned dedupeKey =>
          have hid : planned.id = call.id := hfor
          show (toolMessageIds (dispositions.filterMap Disposition.message) ++
            some planned.id :: plannedCallIds
              (dispositions.filterMap Disposition.processedCall)).Perm (some call.id :: callIds calls)
          rw [hid]
          exact List.perm_middle.trans (ih.cons _)

theorem planned_records (hrecorded : ∀ d ∈ dispositions, d.unrecorded = false) :
    (answeredCallIds (dispositions.filterMap Disposition.skippedDuplicateCall) ++
      answeredCallIds (dispositions.filterMap Disposition.unavailableToolCall) ++
      plannedCallIds (dispositions.filterMap Disposition.processedCall)).Perm (callIds calls) := by
  induction h with
  | nil => exact .refl _
  | @cons call disposition calls dispositions hfor hrest ih =>
      have ih := ih fun d hd => hrecorded d (List.mem_cons_of_mem _ hd)
      have hfirst := hrecorded disposition List.mem_cons_self
      cases disposition with
      | reused message => cases hfirst
      | guarded message => cases hfirst
      | duplicate answered message =>
          have hid : answered.id = call.id := hfor.1
          show (some answered.id :: _).Perm (some call.id :: callIds calls)
          rw [hid]
          exact ih.cons _
      | unavailable answered message =>
          have hid : answered.id = call.id := hfor.1
          show (answeredCallIds (dispositions.filterMap Disposition.skippedDuplicateCall) ++
            some answered.id :: answeredCallIds (dispositions.filterMap
              Disposition.unavailableToolCall) ++ plannedCallIds (dispositions.filterMap
              Disposition.processedCall)).Perm (some call.id :: callIds calls)
          rw [hid]
          exact (List.perm_middle.append_right _).trans (ih.cons _)
      | planned planned dedupeKey =>
          have hid : planned.id = call.id := hfor
          show (_ ++ some planned.id :: plannedCallIds (dispositions.filterMap
            Disposition.processedCall)).Perm (some call.id :: callIds calls)
          rw [hid]
          exact List.perm_middle.trans (ih.cons _)

theorem planned_length :
    (dispositions.filterMap Disposition.skippedDuplicateCall).length +
      (dispositions.filterMap Disposition.unavailableToolCall).length +
      (dispositions.filterMap Disposition.processedCall).length +
      dispositions.countP Disposition.unrecorded = calls.length := by
  induction h with
  | nil => rfl
  | @cons call disposition calls dispositions hfor hrest ih =>
      cases disposition <;>
        simp [List.filterMap_cons, List.countP_cons, Disposition.skippedDuplicateCall,
          Disposition.unavailableToolCall, Disposition.processedCall, Disposition.unrecorded] <;>
        omega

end Planned

/-! ## Results -/

variable {replayReceipts : Table String ToolCallReplayReceipt}

def resultId : Except ExecutorError CallOutcome → Option String
  | .ok outcome => some outcome.id
  | .error _ => none

def receiptIds (receipts : List ToolCallData) : List (Option String) :=
  receipts.map (·.toolCallId)

theorem answeredReceipts_ids {status : String} {safety : SafetyLevel} {calls : List AnsweredCall}
    {t : ExecutorTrace} {receipts : List ToolCallData}
    (h : Runs (answeredReceipts library executor replayReceipts status safety calls) t receipts) :
    receiptIds receipts = answeredCallIds calls := by
  induction calls generalizing t receipts with
  | nil =>
      rcases h with ⟨-, rfl⟩
      rfl
  | cons call calls ih =>
      rcases h with ⟨receiptId, t, rfl, h⟩
      obtain ⟨t₁, t₂, rest, rfl, hrest, -, rfl⟩ := runs_bind.mp h
      show some call.id :: receiptIds rest = some call.id :: answeredCallIds calls
      rw [ih hrest]

theorem spillIfTruncated_pure {α : Type} {toolName rawOutput : String} {truncated : Bool}
    {f : Option String → ExecutorProg α} {t : ExecutorTrace} {a : α}
    (h : Runs (spillIfTruncated toolName rawOutput truncated >>= f) t a) :
    ∃ fullArtifactRef t', Runs (f fullArtifactRef) t' a := by
  obtain ⟨t₁, t₂, fullArtifactRef, -, -, hrest⟩ := runs_bind.mp h
  exact ⟨fullArtifactRef, t₂, hrest⟩

/-- What a result becomes: a receipt under its id and a tool message under the same id, or a
receipt without one and a message under a fresh one. -/
structure Settles (library : ExecutorLibrary) (executor : ActionExecutor)
    (result : Except ExecutorError CallOutcome) (processed : ToolCallData × Message) : Prop where
  receiptId : processed.1.toolCallId = resultId result
  answers : ∃ id, Answers processed.2 id ∧ (resultId result = some id ∨ resultId result = none)

theorem completedMessage_answers (outcome : CallOutcome) (guarded : ToolOutputCompression) :
    Answers (completedMessage library outcome guarded) outcome.id := by
  unfold completedMessage
  split
  · exact ⟨rfl, _, rfl⟩
  · exact ⟨rfl, _, rfl⟩

theorem processResult_settles {result : Except ExecutorError CallOutcome} {t : ExecutorTrace}
    {processed : ToolCallData × Message}
    (h : Runs (processResult library executor replayReceipts result) t processed) :
    Settles library executor result processed := by
  cases result with
  | ok outcome =>
      obtain ⟨fullArtifactRef, t, receiptId, t', -, -, rfl⟩ := spillIfTruncated_pure h
      exact ⟨rfl, outcome.id, completedMessage_answers outcome _, .inl rfl⟩
  | error error =>
      obtain ⟨fullArtifactRef, t, receiptId, t', -, id, t'', -, -, rfl⟩ := spillIfTruncated_pure h
      exact ⟨rfl, id, ⟨rfl, _, rfl⟩, .inr rfl⟩

theorem processResults_settles {results : List (Except ExecutorError CallOutcome)}
    {t : ExecutorTrace} {processed : List (ToolCallData × Message)}
    (h : Runs (processResults library executor replayReceipts results) t processed) :
    List.Forall₂ (Settles library executor) results processed := by
  induction results generalizing t processed with
  | nil =>
      rcases h with ⟨-, rfl⟩
      exact .nil
  | cons result results ih =>
      obtain ⟨t₁, t₂, first, rfl, hfirst, h⟩ := runs_bind.mp h
      obtain ⟨t₃, t₄, rest, rfl, hrest, -, rfl⟩ := runs_bind.mp h
      exact .cons (processResult_settles hfirst) (ih hrest)

theorem settled_receiptIds {results : List (Except ExecutorError CallOutcome)}
    {processed : List (ToolCallData × Message)}
    (h : List.Forall₂ (Settles library executor) results processed) :
    receiptIds (processed.map (·.1)) = results.map resultId := by
  induction h with
  | nil => rfl
  | @cons result first results processed hfirst hrest ih =>
      show first.1.toolCallId :: receiptIds _ = resultId result :: results.map resultId
      rw [hfirst.receiptId, ih]

theorem settled_messageIds {results : List (Except ExecutorError CallOutcome)}
    {processed : List (ToolCallData × Message)}
    (h : List.Forall₂ (Settles library executor) results processed)
    (hdone : ∀ result ∈ results, resultId result ≠ none) :
    toolMessageIds (processed.map (·.2)) = results.map resultId := by
  induction h with
  | nil => rfl
  | @cons result first results processed hfirst hrest ih =>
      have hrest := ih fun r hr => hdone r (List.mem_cons_of_mem _ hr)
      obtain ⟨id, hanswers, hid | hid⟩ := hfirst.answers
      · rw [List.map_cons, ← List.singleton_append, toolMessageIds_append,
          hanswers.toolMessageIds, hrest, List.map_cons, hid]
        rfl
      · exact absurd hid (hdone result List.mem_cons_self)

/-! ## Batches -/

variable {calls : List ToolCall} {messages : List Message} {step : Nat}

theorem Executed.Runs.task {batch : Executed}
    (h : batch.Runs library executor replayReceipts calls messages step)
    {i : Nat} {result : Except ExecutorError CallOutcome} (hentry : (i, result) ∈ batch.results) :
    ∃ call, batch.processed[i]? = some call ∧
      Interaction.Runs
        (runCall library executor (messages ++ batch.plannedMessages) step call)
        (threadLog i batch.log) result := by
  obtain ⟨programs, hstarted, hresults⟩ := h.started
  have hi : i < batch.processed.length := by
    have hmem : i ∈ batch.results.map (·.1) := List.mem_map.mpr ⟨(i, result), hentry, rfl⟩
    exact List.mem_range.mp (h.order.subset hmem)
  refine ⟨batch.processed[i], List.getElem?_eq_getElem hi, ?_⟩
  have hruns := hstarted.interleaved.runs (hresults (i, result) hentry)
  simpa only [callTask, List.getElem?_eq_getElem hi] using hruns

theorem Started.Runs.planned {batch : Started}
    {programs : Nat → ExecutorProg (Except ExecutorError CallOutcome)}
    (h : batch.Runs library executor calls messages step programs) {i : Nat} {e : ExecutorEvent}
    (hentry : (i, e) ∈ batch.log) : i < batch.processed.length := by
  by_contra hi
  have hnone : batch.processed[i]? = none := List.getElem?_eq_none (not_lt.mp hi)
  have hreaches := h.interleaved.reaches i
  simp only [callTask, hnone] at hreaches
  have hlog : threadLog i batch.log = [] := by
    generalize threadLog i batch.log = t at hreaches
    generalize programs i = program at hreaches
    cases hreaches
    rfl
  obtain ⟨l₁, l₂, hsplit⟩ := List.append_of_mem hentry
  rw [hsplit, threadLog_append, threadLog_cons_self] at hlog
  exact List.cons_ne_nil _ _ (List.append_eq_nil_iff.mp hlog).2

theorem mem_threadLog_iff {log : ThreadLog Nat ExecutorOp ExecutorAns} {i : Nat}
    {e : ExecutorEvent} : e ∈ threadLog i log ↔ (i, e) ∈ log := by
  simp only [threadLog, List.mem_filterMap, Option.ite_none_right_eq_some, Option.some.injEq]
  constructor
  · intro hmem
    rcases hmem with ⟨⟨j, e'⟩, hmem, rfl, rfl⟩
    exact hmem
  · intro hmem
    exact ⟨(i, e), hmem, rfl, rfl⟩

theorem Executed.Runs.all_done_iff {batch : Executed}
    (h : batch.Runs library executor replayReceipts calls messages step) :
    (∀ entry ∈ batch.log, ¬LeavesTask entry.2) ↔
      ∀ entry ∈ batch.results, resultId entry.2 ≠ none := by
  constructor
  · intro hquiet entry hentry hnone
    rcases entry with ⟨i, result⟩
    obtain ⟨call, -, hrun⟩ := h.task hentry
    have hfailed : ∃ failure, result = .error failure := by
      cases result with
      | ok outcome => cases hnone
      | error failure => exact ⟨failure, rfl⟩
    obtain ⟨e, he, hleaves⟩ := (runCall_failsAt _ _ _ _ _ hrun).mp hfailed
    exact hquiet (i, e) (mem_threadLog_iff.mp he) hleaves
  · intro hdone entry hentry hleaves
    rcases entry with ⟨i, e⟩
    obtain ⟨programs, hstarted, -⟩ := h.started
    have hi : i ∈ batch.results.map (·.1) :=
      h.order.symm.subset (List.mem_range.mpr (hstarted.planned hentry))
    obtain ⟨⟨j, result⟩, hresult, rfl⟩ := List.mem_map.mp hi
    obtain ⟨call, -, hrun⟩ := h.task hresult
    obtain ⟨failure, rfl⟩ :=
      (runCall_failsAt _ _ _ _ _ hrun).mpr ⟨e, mem_threadLog_iff.mpr hentry, hleaves⟩
    exact hdone _ hresult rfl

theorem Executed.Runs.resultIds {batch : Executed}
    (h : batch.Runs library executor replayReceipts calls messages step)
    (hdone : ∀ entry ∈ batch.results, resultId entry.2 ≠ none) :
    ((batch.results.map (·.2)).map resultId).Perm (plannedCallIds batch.processed) := by
  have hids : (batch.results.map (·.2)).map resultId =
      (batch.results.map (·.1)).map fun i => (batch.processed[i]?).map (·.id) := by
    rw [List.map_map, List.map_map]
    refine List.map_congr_left fun entry hentry => ?_
    rcases entry with ⟨i, result⟩
    obtain ⟨call, hcall, hrun⟩ := h.task hentry
    show resultId result = (batch.processed[i]?).map (·.id)
    rw [hcall]
    cases result with
    | error failure => exact absurd rfl (hdone _ hentry)
    | ok outcome =>
        show some outcome.id = some call.id
        rw [runCall_id hrun]
  have hrange : (List.range batch.processed.length).map
      (fun i => (batch.processed[i]?).map (·.id)) = plannedCallIds batch.processed := by
    refine List.ext_getElem? fun k => ?_
    by_cases hk : k < batch.processed.length
    · simp [plannedCallIds, hk]
    · simp [plannedCallIds, hk]
  rw [hids, ← hrange]
  exact h.order.map _

/-- Every call is answered by one tool message and one receipt, and there is no other tool
message. -/
structure AnsweredOnce (calls : List ToolCall) (batch : Executed) : Prop where
  messages : (toolMessageIds batch.messages).Perm (callIds calls)
  receipts : ∀ call ∈ calls, (receiptIds batch.receipts).count (some call.id) = 1

theorem callIds_nodup (hids : (calls.map (·.id)).Nodup) : (callIds calls).Nodup := by
  have heq : callIds calls = (calls.map (·.id)).map some := by
    simp [callIds]
  rw [heq]
  exact List.Nodup.map (Option.some_injective _) hids

theorem count_of_perm {ids : List (Option String)} (hids : (calls.map (·.id)).Nodup)
    (h : ids.Perm (callIds calls)) {call : ToolCall} (hcall : call ∈ calls) :
    ids.count (some call.id) = 1 := by
  rw [h.count_eq]
  exact List.count_eq_one_of_mem (callIds_nodup hids) (List.mem_map.mpr ⟨call, hcall, rfl⟩)

theorem answered_isSome (calls : List AnsweredCall) :
    ((answeredCallIds calls).filter Option.isSome).length = calls.length := by
  induction calls with
  | nil => rfl
  | cons call calls ih => simpa [answeredCallIds] using ih

/-- One receipt for each call leaves no call unrecorded and no result without its id. -/
theorem recorded_of_receipts {dispositions : List Disposition}
    {results : List (Except ExecutorError CallOutcome)} {receipts : List ToolCallData}
    (hids : (calls.map (·.id)).Nodup)
    (hplanned : List.Forall₂ (fun call disposition => Disposition.IsFor call.id disposition) calls
      dispositions)
    (hresults : results.length = (dispositions.filterMap Disposition.processedCall).length)
    (hreceipts : receiptIds receipts =
      answeredCallIds (dispositions.filterMap Disposition.skippedDuplicateCall) ++
        answeredCallIds (dispositions.filterMap Disposition.unavailableToolCall) ++
        results.map resultId)
    (hone : ∀ call ∈ calls, (receiptIds receipts).count (some call.id) = 1) :
    (∀ d ∈ dispositions, d.unrecorded = false) ∧ ∀ result ∈ results, resultId result ≠ none := by
  have hsubset : callIds calls ⊆ (receiptIds receipts).filter Option.isSome := by
    intro id hid
    obtain ⟨call, hcall, rfl⟩ := List.mem_map.mp hid
    have hpos : 0 < (receiptIds receipts).count (some call.id) := by
      rw [hone call hcall]
      exact Nat.one_pos
    exact List.mem_filter.mpr ⟨List.count_pos_iff.mp hpos, rfl⟩
  have hle : calls.length ≤ ((receiptIds receipts).filter Option.isSome).length := by
    have hsub := (List.Nodup.subperm (callIds_nodup hids) hsubset).length_le
    simpa [callIds] using hsub
  have hcount : ((receiptIds receipts).filter Option.isSome).length =
      (dispositions.filterMap Disposition.skippedDuplicateCall).length +
        (dispositions.filterMap Disposition.unavailableToolCall).length +
        ((results.map resultId).filter Option.isSome).length := by
    rw [hreceipts, List.filter_append, List.filter_append, List.length_append, List.length_append,
      answered_isSome, answered_isSome]
  have hkept : ((results.map resultId).filter Option.isSome).length ≤ results.length := by
    simpa using List.length_filter_le Option.isSome (results.map resultId)
  have htotal := planned_length hplanned
  constructor
  · have hzero : dispositions.countP Disposition.unrecorded = 0 := by omega
    intro d hd
    simpa using List.countP_eq_zero.mp hzero d hd
  · have hall : ((results.map resultId).filter Option.isSome).length =
        (results.map resultId).length := by
      rw [List.length_map]
      omega
    intro result hresult hnone
    have hsome := (List.filter_eq_self.mp (List.filter_sublist.eq_of_length hall))
      (resultId result) (List.mem_map.mpr ⟨result, hresult, rfl⟩)
    rw [hnone] at hsome
    cases hsome

/-- A batch of calls under distinct ids answers each once just when the loop guard reuses no
result, no hook stops a call before it runs and no task is left early. -/
theorem executed_answersOnce_iff {batch : Executed} (hids : (calls.map (·.id)).Nodup)
    (h : batch.Runs library executor replayReceipts calls messages step) :
    AnsweredOnce calls batch ↔
      (∀ d ∈ batch.dispositions, d.unrecorded = false) ∧
        ∀ entry ∈ batch.log, ¬LeavesTask entry.2 := by
  rw [h.all_done_iff]
  obtain ⟨programs, hstarted, -⟩ := h.started
  obtain ⟨t, hplan⟩ := hstarted.plans
  have hfor := planCalls_isFor hplan
  obtain ⟨skipped, unavailable, processed, t₁, t₂, t₃, hskipped, hunavailable, hprocessed,
    hreceipts, hmessages⟩ := h.settled
  have hsettled := processResults_settles hprocessed
  have hids' : receiptIds batch.receipts =
      answeredCallIds (batch.dispositions.filterMap Disposition.skippedDuplicateCall) ++
        answeredCallIds (batch.dispositions.filterMap Disposition.unavailableToolCall) ++
        (batch.results.map (·.2)).map resultId := by
    rw [← answeredReceipts_ids hskipped, ← answeredReceipts_ids hunavailable,
      ← settled_receiptIds hsettled, hreceipts]
    simp [receiptIds]
  have hlength : (batch.results.map (·.2)).length = batch.processed.length := by
    have horder := h.order.length_eq
    simpa using horder
  constructor
  · intro hanswered
    have hrecorded := recorded_of_receipts hids hfor hlength hids' hanswered.receipts
    refine ⟨hrecorded.1, fun entry hentry => ?_⟩
    exact hrecorded.2 entry.2 (List.mem_map.mpr ⟨entry, hentry, rfl⟩)
  · intro hgood
    rcases hgood with ⟨hrecorded, hdone⟩
    have hresultIds := h.resultIds hdone
    refine ⟨?_, fun call hcall => ?_⟩
    · have hdone' : ∀ result ∈ batch.results.map (·.2), resultId result ≠ none := by
        intro result hresult
        obtain ⟨entry, hentry, rfl⟩ := List.mem_map.mp hresult
        exact hdone entry hentry
      rw [hmessages, toolMessageIds_append, settled_messageIds hsettled hdone']
      exact (hresultIds.append_left _).trans (planned_messages hfor)
    · refine count_of_perm hids ?_ hcall
      rw [hids']
      exact (hresultIds.append_left _).trans (planned_records hfor hrecorded)

/-! ## A batch of one call -/

def sampleLibrary : ExecutorLibrary where
  json := ⟨fun _ => none, fun _ => "null"⟩
  normalizeToolCallArgs _ args _ := args
  compactToolArgsForSecurityBoundary _ args := args
  compressToolOutput output _ := ⟨output, Text.charCount output, Text.charCount output, 0, false⟩
  runtimeFingerprint text := text
  toolSchemaInjection _ := ""
  appendsReflexion _ _ _ := false
  reflexionPrompt _ := ""
  signToolCall _ _ := ""
  debugDuration _ := "120s"

def sampleExecutor : ActionExecutor :=
  ⟨⟨⟨.requiresApproval, ∅⟩, 0, 5, 4 / 5, 8192, false, 120000⟩, none, ∅⟩

def lookupTool : ToolDefinition :=
  ⟨"lookup", "", .object [], none, false, false, .green, none⟩

/-- Surroundings in which everything goes well, but for the check before the tool and what the
tool answers. -/
def sampleSurroundings (preCheck : Except String Unit) (answer : Except String String) :
    Handler ExecutorOp ExecutorAns Unit
  | .canonicalToolCallName name, _ => some (name, ())
  | .containsTool _, _ => some (true, ())
  | .toolNames, _ => some (["lookup"], ())
  | .cachedDefinition _, _ => some (none, ())
  | .checkLoop _ _, _ => some (none, ())
  | .recordCall _ _, _ => some ((), ())
  | .fire _, _ => some (.continue, ())
  | .getTool _, _ => some (true, ())
  | .definition _, _ => some (lookupTool, ())
  | .preCheckTool _ _, _ => some (preCheck, ())
  | .checkpoint _ _ _ _, _ => some (.ok (), ())
  | .approve _ _ _, _ => some (.done (.ok true), ())
  | .toolForCall _, _ => some (some (.done lookupTool), ())
  | .preCall _ _, _ => some (.done (.ok ()), ())
  | .callTool _ _, _ => some (.done answer, ())
  | .postFilterResult output, _ => some (output, ())
  | .checkOutput output, _ => some ((output, []), ())
  | .seenTool _, _ => some (true, ())
  | .markSeen _, _ => some ((), ())
  | .spillFullToolOutput _ _, _ => some (none, ())
  | .newUuid, _ => some ("fresh", ())

def sampleCalls : List ToolCall := [⟨"call-1", "lookup", .null⟩]

def sampleLog (preCheck : Except String Unit) (answer : Except String String) :
    ThreadLog Nat ExecutorOp ExecutorAns :=
  (((exec (sampleSurroundings preCheck answer)
    (runCall sampleLibrary sampleExecutor [] 0 ⟨"call-1", "lookup", .null⟩) ()).map
      (·.1)).getD []).map fun e => (0, e)

def sampleStarted (preCheck : Except String Unit) (answer : Except String String) : Started :=
  ⟨[.planned ⟨"call-1", "lookup", .null⟩ "lookup::null"], sampleLog preCheck answer⟩

def sampleBatch (preCheck : Except String Unit) (answer : Except String String)
    (result : Except ExecutorError CallOutcome) (processed : ToolCallData × Message) : Executed :=
  ⟨sampleStarted preCheck answer, [(0, result)], [processed.1], [processed.2]⟩

theorem sample_runs {preCheck : Except String Unit} {answer : Except String String}
    {result : Except ExecutorError CallOutcome} {processed : ToolCallData × Message}
    {t t' : ExecutorTrace}
    (htask : exec (sampleSurroundings preCheck answer)
      (runCall sampleLibrary sampleExecutor [] 0 ⟨"call-1", "lookup", .null⟩) () =
        some (t, result, ()))
    (hprocess : exec (sampleSurroundings preCheck answer)
      (processResult sampleLibrary sampleExecutor ∅ result) () = some (t', processed, ())) :
    (sampleBatch preCheck answer result processed).Runs sampleLibrary sampleExecutor ∅ sampleCalls
      [] 0 := by
  have hlog : sampleLog preCheck answer = t.map fun e => (0, e) := by
    unfold sampleLog
    rw [htask]
    rfl
  have hrun : Runs (callTask sampleLibrary sampleExecutor [] 0 [⟨"call-1", "lookup", .null⟩] 0) t
      result := exec_runs _ () htask
  obtain ⟨programs, hinterleaved, hdone⟩ :=
    Interleaved.alone (R := anyOrder) (s := ()) (i := 0) (fun _ _ => trivial) hrun
  refine ⟨⟨programs, ⟨by decide +kernel, ?_, ?_⟩, ?_⟩, .refl _, ?_⟩
  · exact ⟨_, exec_runs (sampleSurroundings preCheck answer) () rfl⟩
  · show Interleaved _ _ _ (sampleLog preCheck answer) _
    rw [hlog]
    exact hinterleaved
  · intro entry hentry
    rw [List.mem_singleton.mp hentry]
    exact hdone
  · exact ⟨[], [], [processed], [], [], _, ⟨rfl, rfl⟩, ⟨rfl, rfl⟩,
      runs_bind.mpr ⟨_, _, _, rfl, exec_runs _ () hprocess, runs_bind.mpr
        ⟨[], [], [], rfl, ⟨rfl, rfl⟩, rfl, rfl⟩⟩, rfl, rfl⟩

def answeredResult : CallOutcome := ⟨"call-1", "lookup", "fine", "null", .green⟩

def answeredProcessed : ToolCallData × Message :=
  let guarded := sampleLibrary.compressToolOutput "fine" 8192
  (completedReceipt sampleLibrary sampleExecutor ∅ answeredResult guarded none "fresh",
    completedMessage sampleLibrary answeredResult guarded)

def answeredBatch : Executed :=
  sampleBatch (.ok ()) (.ok "fine") (.ok answeredResult) answeredProcessed

theorem answeredBatch_runs :
    answeredBatch.Runs sampleLibrary sampleExecutor ∅ sampleCalls [] 0 :=
  @sample_runs (.ok ()) (.ok "fine") (.ok answeredResult) answeredProcessed _ _ rfl rfl

theorem answeredBatch_answeredOnce : AnsweredOnce sampleCalls answeredBatch :=
  (executed_answersOnce_iff (by decide) answeredBatch_runs).mpr
    ⟨by decide +kernel, by decide +kernel⟩

def refusal : ExecutorError := .toolExecution "lookup" "Security violation: blocked"

def refusedProcessed : ToolCallData × Message :=
  let guarded := sampleLibrary.compressToolOutput (failureText refusal) 8192
  (failedReceipt sampleLibrary sampleExecutor refusal guarded none "fresh",
    failedMessage refusal guarded "fresh")

def refusedBatch : Executed :=
  sampleBatch (.error "blocked") (.ok "fine") (.error refusal) refusedProcessed

/-- A call that the check before the tool refuses is answered under an id of its own. -/
theorem refusedBatch_unanswered :
    (sampleCalls.map (·.id)).Nodup ∧
      refusedBatch.Runs sampleLibrary sampleExecutor ∅ sampleCalls [] 0 ∧
      toolMessageIds refusedBatch.messages = [some "fresh"] ∧
      receiptIds refusedBatch.receipts = [none] ∧ ¬AnsweredOnce sampleCalls refusedBatch := by
  refine ⟨by decide, @sample_runs (.error "blocked") (.ok "fine") (.error refusal) refusedProcessed
    _ _ rfl rfl, by decide +kernel, rfl, fun h => ?_⟩
  exact absurd h.messages (by decide +kernel)

end BenShu.Agent
