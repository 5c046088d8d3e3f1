import BenShu.Lib.Json
import BenShu.Lib.RecentWindow
import BenShu.Lib.Text

/-!
# Runtime events

Events carry a topic, the actor and scope they concern and a JSON payload. Two
tests read a task's events: which required topics are missing, and whether a
signature repeats among the recent ones.
-/

namespace BenShu

abbrev Uuid := String

namespace State

structure RuntimeEventRecord where
  topic : String
  taskId : Option Uuid := none
  actor : Option String := none
  scope : Option String := none
  payload : Json := .object []

namespace RuntimeEventRecord

def signature (event : RuntimeEventRecord) : String :=
  let step := (((event.payload.get "step").bind Json.asU64).map toString).getD ""
  let actor := event.actor.getD ""
  let scope := event.scope.getD ""
  s!"{event.topic}|{actor}|{scope}|{step}"

end RuntimeEventRecord

def listByTask (events : List RuntimeEventRecord) (taskId : Uuid) : List RuntimeEventRecord :=
  events.filter fun event => event.taskId == some taskId

def missingRequiredTopics (events : List RuntimeEventRecord) (requiredTopics : List String) :
    List String :=
  requiredTopics.filter fun topic => !events.any fun event => event.topic == topic

/-- The counting loop over signatures; `seen` holds those already counted. -/
def repeatedSignatureAux (threshold : Nat) : List String → List String → Option String
  | _, [] => none
  | seen, signature :: rest =>
      if seen.count signature + 1 ≥ threshold then some signature
      else repeatedSignatureAux threshold (signature :: seen) rest

def repeatedEventSignature (events : List RuntimeEventRecord) (recentLimit repeatThreshold : Nat) :
    Option String :=
  if repeatThreshold = 0 then none
  else
    let start := events.length - recentLimit
    repeatedSignatureAux repeatThreshold [] ((events.drop start).map (·.signature))

theorem missingRequiredTopics_eq_nil {events : List RuntimeEventRecord}
    {requiredTopics : List String} :
    missingRequiredTopics events requiredTopics = [] ↔
      ∀ topic ∈ requiredTopics, ∃ event ∈ events, event.topic = topic := by
  simp [missingRequiredTopics, List.filter_eq_nil_iff]

theorem repeatedSignatureAux_eq_none {threshold : Nat} {seen signatures : List String}
    (hseen : ∀ signature, seen.count signature < threshold) :
    repeatedSignatureAux threshold seen signatures = none ↔
      ∀ signature, seen.count signature + signatures.count signature < threshold := by
  induction signatures generalizing seen with
  | nil => simpa [repeatedSignatureAux] using hseen
  | cons first rest ih =>
      rw [repeatedSignatureAux]
      split
      · rename_i hfull
        refine iff_of_false (by intro h; cases h) fun hall => ?_
        have hfirst := hall first
        rw [List.count_cons_self] at hfirst
        omega
      · rename_i hfree
        rw [ih]
        · constructor <;> intro hall signature <;> have h := hall signature <;>
            simp only [List.count_cons] at h ⊢ <;> omega
        · intro signature
          rw [List.count_cons]
          split
          · rename_i heq
            rw [beq_iff_eq] at heq
            subst heq
            omega
          · simpa using hseen signature

theorem repeatedEventSignature_eq_none {events : List RuntimeEventRecord}
    {recentLimit repeatThreshold : Nat} (hpos : 0 < repeatThreshold) :
    repeatedEventSignature events recentLimit repeatThreshold = none ↔
      ∀ signature, (RecentWindow.recent recentLimit (events.map (·.signature))).count signature <
        repeatThreshold := by
  rw [repeatedEventSignature, if_neg (Nat.pos_iff_ne_zero.mp hpos),
    repeatedSignatureAux_eq_none (by simpa using hpos)]
  simp [RecentWindow.recent]

example : repeatedEventSignature
    (List.replicate 4
      { topic := "delegate.called", actor := some "researcher",
        payload := .object [("step", .number 1)] }) 8 3 =
    some "delegate.called|researcher||1" := by decide

end State

end BenShu
