import HelixRpc.Runtime.Go.BatchDelivery
import HelixRpc.Runtime.Python.BatchDelivery

/-!
# Batches with a wrong number of responses

What the four batch schedulers do with the result of the handler (`runtimes/go/batching.go`,
`runtimes/rust/src/batching.rs`, `runtimes/python/helix_rt/batching.py`, `runtimes/node/src/batching.ts`).
-/

namespace HelixRpc.Runtime

open Foundation Runtime.Go List
variable {Payload Err : Type}

namespace Rust.Batching

structure BatchRequest (Payload : Type) where
  caller : Nat
  payload : Payload
  isJson : Bool

abbrev Reply (Payload : Type) := Except Text (Payload × Text)

def contentType (batch : List (BatchRequest Payload)) : Text :=
  if batch.head?.any BatchRequest.isJson then "application/json".toList else "application/grpc".toList

/-- The `match results` of the dispatch: a result of the handler, or the error of a handler that panicked. -/
def dispatch (batch : List (BatchRequest Payload)) :
    Except Text (Except Text (List Payload)) → List (Nat × Reply Payload)
  | .ok (.ok resps) =>
    if resps.length = batch.length then
      (batch.zip resps).map fun pair => (pair.1.caller, .ok (pair.2, contentType batch))
    else
      batch.map fun req => (req.caller, .error "batch handler returned mismatched response count".toList)
  | .ok (.error e) => batch.map fun req => (req.caller, .error e)
  | .error msg => batch.map fun req => (req.caller, .error msg)

end Rust.Batching

namespace Node.Batching

structure BatchJob (Payload : Type) where
  caller : Nat
  req : Payload

inductive Reason (Err : Type) where
  | thrown (err : Err)
  | error (message : Text)

abbrev Settled (Payload Err : Type) := Except (Reason Err) Payload

def settleLoop (responses : List Payload) : Nat → List (BatchJob Payload) → List (Nat × Settled Payload Err)
  | _, [] => []
  | i, job :: jobs =>
    (job.caller, match responses[i]? with
      | some response => .ok response
      | none => .error (.error "No response returned for batch item".toList)) ::
      settleLoop responses (i + 1) jobs

def flush (batch : List (BatchJob Payload)) : Except Err (List Payload) → List (Nat × Settled Payload Err)
  | .ok responses => settleLoop responses 0 batch
  | .error err => batch.map fun job => (job.caller, .error (.thrown err))

theorem map_fst_settleLoop (responses : List Payload) (i : Nat) (jobs : List (BatchJob Payload)) :
    (settleLoop responses i jobs : List (Nat × Settled Payload Err)).map Prod.fst = jobs.map BatchJob.caller := by
  induction jobs generalizing i with
  | nil => rfl
  | cons job jobs ih => exact congrArg (job.caller :: ·) (ih (i + 1))

theorem settleLoop_nil (i : Nat) (jobs : List (BatchJob Payload)) :
    ∀ answer ∈ (settleLoop [] i jobs : List (Nat × Settled Payload Err)), ∃ reason, answer.2 = .error reason := by
  induction jobs generalizing i with
  | nil => exact nofun
  | cons job jobs ih =>
    intro answer hmem
    rcases mem_cons.1 hmem with rfl | hlater
    · exact ⟨_, rfl⟩
    · exact ih (i + 1) answer hlater

end Node.Batching

structure BatchedCall (Payload : Type) where
  caller : Nat
  payload : Payload
  isJson : Bool

def AllRefused {α : Type} (IsError : α → Prop) (calls : List (BatchedCall Payload)) (answers : List (Nat × α)) : Prop :=
  answers.map Prod.fst = calls.map BatchedCall.caller ∧ ∀ answer ∈ answers, IsError answer.2

def IsError {ε α : Type} (result : Except ε α) : Prop := ∃ err, result = .error err

def Go.Batching.BatchResponse.IsError (res : Go.Batching.BatchResponse Payload) : Prop :=
  res.resp = none ∧ res.err.isSome

section
variable (calls : List (BatchedCall Payload)) (resps : List Payload)

def goAnswers : List (Nat × Go.Batching.BatchResponse Payload) :=
  Go.Batching.Flush.replies ⟨calls.map fun call => ⟨call.caller, call.payload⟩, resps, none⟩

def rustAnswers : List (Nat × Rust.Batching.Reply Payload) :=
  Rust.Batching.dispatch (calls.map fun call => ⟨call.caller, call.payload, call.isJson⟩) (.ok (.ok resps))

def pythonAnswers : List (Nat × Python.Batching.Answer Payload Err) :=
  Python.Batching.Flush.replies ⟨calls.map fun call => ⟨call.caller, call.payload⟩, .ok resps⟩

def nodeAnswers : List (Nat × Node.Batching.Settled Payload Err) :=
  Node.Batching.flush (calls.map fun call => ⟨call.caller, call.payload⟩) (.ok resps)

variable {calls resps}

theorem goAnswers_refused (h : resps.length ≠ calls.length) :
    AllRefused Go.Batching.BatchResponse.IsError calls (goAnswers calls resps) := by
  refine ⟨?_, fun answer hmem => ?_⟩
  · rw [goAnswers, Go.Batching.map_fst_replies, map_map]
    rfl
  · obtain ⟨i, res⟩ := answer
    obtain ⟨k, -, hanswers⟩ := Go.Batching.Flush.answers_of_mem hmem
    rwa [if_neg (by simp [h])] at hanswers

theorem pythonAnswers_refused (h : resps.length ≠ calls.length) :
    AllRefused IsError calls (pythonAnswers calls resps : List (Nat × Python.Batching.Answer Payload Err)) := by
  refine ⟨?_, fun answer hmem => ?_⟩
  · rw [pythonAnswers, Python.Batching.map_fst_replies, map_map]
    rfl
  · obtain ⟨i, answer⟩ := answer
    obtain ⟨k, -, hanswers⟩ := Python.Batching.Flush.answers_of_mem hmem
    dsimp only at hanswers
    rwa [if_neg (by simpa using h)] at hanswers

theorem rustAnswers_refused (h : resps.length ≠ calls.length) : AllRefused IsError calls (rustAnswers calls resps) := by
  simp only [rustAnswers, Rust.Batching.dispatch]
  rw [if_neg (by simpa using h), map_map]
  refine ⟨?_, fun answer hmem => ?_⟩
  · rw [map_map]
    rfl
  · obtain ⟨call, -, rfl⟩ := mem_map.1 hmem
    exact ⟨_, rfl⟩

theorem nodeAnswers_refused_iff :
    AllRefused IsError calls (nodeAnswers calls resps : List (Nat × Node.Batching.Settled Payload Err)) ↔
      resps = [] ∨ calls = [] := by
  constructor
  · rintro ⟨-, hall⟩
    by_contra hboth
    obtain ⟨hresps, hcalls⟩ := not_or.1 hboth
    obtain ⟨response, later, rfl⟩ := exists_cons_of_ne_nil hresps
    obtain ⟨call, rest, rfl⟩ := exists_cons_of_ne_nil hcalls
    -- the first caller gets the first response
    obtain ⟨reason, hreason⟩ := hall (call.caller, .ok response) mem_cons_self
    cases hreason
  · rintro (rfl | rfl)
    · refine ⟨?_, Node.Batching.settleLoop_nil 0 _⟩
      rw [nodeAnswers, Node.Batching.flush, Node.Batching.map_fst_settleLoop, map_map]
      rfl
    · exact ⟨rfl, nofun⟩
end

/-- If the handler returns a wrong number of responses, every caller of the batch gets an
error in Go, in Rust and in Python, and in Node exactly if there is no response at all. -/
theorem miscounted_refused_iff (calls : List (BatchedCall Payload)) (resps : List Payload)
    (h : resps.length ≠ calls.length) : AllRefused Go.Batching.BatchResponse.IsError calls (goAnswers calls resps) ∧
    AllRefused IsError calls (rustAnswers calls resps) ∧ AllRefused IsError calls
    (pythonAnswers calls resps : List (Nat × Python.Batching.Answer Payload Err)) ∧
    (AllRefused IsError calls (nodeAnswers calls resps : List (Nat × Node.Batching.Settled Payload Err)) ↔ resps = [] ∨
    calls = []) :=
  ⟨goAnswers_refused h, rustAnswers_refused h, pythonAnswers_refused h, nodeAnswers_refused_iff⟩

def twoCalls : List (BatchedCall Nat) := [⟨0, 7, false⟩, ⟨1, 8, false⟩]

theorem miscounted_refused_iff_empty : ([] : List Nat).length ≠ twoCalls.length ∧
      (AllRefused Go.Batching.BatchResponse.IsError twoCalls (goAnswers twoCalls []) ∧
        AllRefused IsError twoCalls (rustAnswers twoCalls []) ∧
        AllRefused IsError twoCalls (pythonAnswers twoCalls [] : List (Nat × Python.Batching.Answer Nat Unit)) ∧
        (AllRefused IsError twoCalls (nodeAnswers twoCalls [] : List (Nat × Node.Batching.Settled Nat Unit)) ↔
          ([] : List Nat) = [] ∨ twoCalls = [])) :=
  ⟨by decide, miscounted_refused_iff twoCalls [] (by decide)⟩

theorem node_answers_miscounted :
    ((0, .ok 70) ∈ (nodeAnswers twoCalls [70] : List (Nat × Node.Batching.Settled Nat Unit)) ∧
        ¬ AllRefused IsError twoCalls (nodeAnswers twoCalls [70] : List (Nat × Node.Batching.Settled Nat Unit))) ∧
      (nodeAnswers twoCalls [70, 80, 90] : List (Nat × Node.Batching.Settled Nat Unit)) =
        [(0, .ok 70), (1, .ok 80)] := by
  refine ⟨⟨mem_cons_self, fun h => ?_⟩, rfl⟩
  obtain ⟨reason, hreason⟩ := h.2 (0, .ok 70) mem_cons_self
  cases hreason

end HelixRpc.Runtime
