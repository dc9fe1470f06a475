import HelixRpc.Runtime.BatchFanOut

/-!
# Encodings in the batches of the Rust scheduler

Model of the task of `BatchScheduler` (`runtimes/rust/src/batching.rs`).
-/

namespace HelixRpc.Runtime.Rust.Batching

open Foundation Runtime.Go List
variable {Payload : Type}

structure Scheduler (Payload : Type) where
  channel : List (BatchRequest Payload)
  batch : List (BatchRequest Payload)

structure HandlerCall (Payload : Type) where
  batch : List (BatchRequest Payload)
  results : Except Text (Except Text (List Payload))

namespace HandlerCall

variable (call : HandlerCall Payload)

def payloads : List Payload := call.batch.map BatchRequest.payload

def isJson : Bool := call.batch.head?.any BatchRequest.isJson

def replies : List (Nat × Reply Payload) := dispatch call.batch call.results

end HandlerCall

inductive Event (Payload : Type) where
  | invoke (req : BatchRequest Payload)
  | receive
  | dispatch (results : Except Text (Except Text (List Payload)))

inductive Report (Payload : Type) where
  | invoked (req : BatchRequest Payload)
  | called (call : HandlerCall Payload)

def Scheduler.next (maxSize : Nat) (s : Scheduler Payload) :
    Event Payload → Option (Scheduler Payload × Option (Report Payload))
  | .invoke req =>
    if s.channel.length < maxSize * 100 then some (⟨s.channel ++ [req], s.batch⟩, some (.invoked req)) else none
  | .receive =>
    match s.channel with
    | req :: channel =>
      if s.batch = [] ∨ s.batch.length < maxSize then some (⟨channel, s.batch ++ [req]⟩, none) else none
    | [] => none
  | .dispatch results => if s.batch = [] then none else some (⟨s.channel, []⟩, some (.called ⟨s.batch, results⟩))

def scheduler (maxSize : Nat) : Machine (Scheduler Payload) (Event Payload) (Option (Report Payload)) :=
  fun s e => (s.next maxSize e).getD (s, none)

variable (reports : List (Option (Report Payload)))

def invoked : List (BatchRequest Payload) := reports.filterMap fun
    | some (.invoked req) => some req
    | _ => none

def calls : List (HandlerCall Payload) := reports.filterMap fun
    | some (.called call) => some call
    | _ => none

def typeOf (isJson : Bool) : Text := if isJson then "application/json".toList else "application/grpc".toList

/-- The handler gets each payload with the flag of its request, and each response has the content type of this flag. -/
def HandlerCall.Respects (call : HandlerCall Payload) : Prop := ∀ req ∈ call.batch, call.isJson = req.isJson ∧
    ∀ payload contentType, (req.caller, .ok (payload, contentType)) ∈ call.replies → contentType = typeOf req.isJson

theorem contentType_of_reply {call : HandlerCall Payload} {caller : Nat} {payload : Payload} {type : Text}
    (h : (caller, .ok (payload, type)) ∈ call.replies) : type = typeOf call.isJson := by
  unfold HandlerCall.replies dispatch at h
  split at h
  · split_ifs at h
    · obtain ⟨pair, -, heq⟩ := mem_map.1 h
      cases heq
      rfl
    · obtain ⟨req, -, heq⟩ := mem_map.1 h
      cases heq
  · obtain ⟨req, -, heq⟩ := mem_map.1 h
    cases heq
  · obtain ⟨req, -, heq⟩ := mem_map.1 h
    cases heq

theorem HandlerCall.respects_iff (call : HandlerCall Payload) :
    call.Respects ↔ ∀ req ∈ call.batch, req.isJson = call.isJson := by
  constructor
  · intro h req hreq
    exact (h req hreq).1.symm
  · intro h req hreq
    refine ⟨(h req hreq).symm, fun payload type hreply => ?_⟩
    rw [h req hreq]
    exact contentType_of_reply hreply

/-- The requests that were made are in calls of the handler, in the batch and in the channel, in their order. -/
def Kept (s : Scheduler Payload) : Prop :=
  invoked reports = (calls reports).flatMap HandlerCall.batch ++ (s.batch ++ s.channel)

theorem Kept.step {reports : List (Option (Report Payload))} {s : Scheduler Payload} (h : Kept reports s)
    (maxSize : Nat) (e : Event Payload) : Kept (reports ++ [(scheduler maxSize s e).2]) (scheduler maxSize s e).1 := by
  have hstay : Kept (reports ++ [none]) s := by simpa [Kept, invoked, calls] using h
  obtain ⟨channel, batch⟩ := s
  unfold scheduler Scheduler.next
  cases e with
  | invoke req =>
    dsimp only
    split_ifs
    · simp only [Kept, invoked, calls, filterMap_append] at h ⊢
      simp [h]
    · exact hstay
  | receive =>
    cases channel with
    | nil => exact hstay
    | cons req channel =>
      dsimp only
      split_ifs
      · simpa [Kept, invoked, calls] using h
      · exact hstay
  | dispatch results =>
    dsimp only
    split_ifs
    · exact hstay
    · simp only [Kept, invoked, calls, filterMap_append] at h ⊢
      simp [h]

/-- In every run, the handler gets the payloads of all requests, in their order; and each request is
handled and answered by its own flag exactly if the requests of a batch all have the flag of the first one. -/
theorem encodings_respected_iff (maxSize : Nat) (events : List (Event Payload)) :
    let reports := (scheduler maxSize).answers ⟨[], []⟩ events
    let s := (scheduler maxSize).after ⟨[], []⟩ events
    (calls reports).flatMap HandlerCall.payloads ++ (s.batch ++ s.channel).map BatchRequest.payload =
        (invoked reports).map BatchRequest.payload ∧ ((∀ call ∈ calls reports, call.Respects) ↔
        ∀ call ∈ calls reports, ∀ req ∈ call.batch, req.isJson = call.isJson) := by
  intro reports s
  have hsteps : (scheduler maxSize).AllSteps (fun _ _ => True) (⟨[], []⟩ : Scheduler Payload) events :=
    Machine.allSteps_of_forall_mem fun _ _ _ => trivial
  have hkept : Kept reports s := hsteps.ledger (fun reports s e (hs : Kept reports s) _ => hs.step maxSize e) [] rfl
  refine ⟨?_, forall₂_congr fun call _ => call.respects_iff⟩
  rw [Kept] at hkept
  simp only [hkept, map_append, map_flatMap]
  rfl

theorem mixed_batch_one_encoding :
    let reports := (scheduler 2).answers ⟨[], []⟩
      [.invoke ⟨0, 10, true⟩, .invoke ⟨1, 20, false⟩, .receive, .receive, .dispatch (.ok (.ok [11, 21]))]
    calls reports = [⟨[⟨0, 10, true⟩, ⟨1, 20, false⟩], .ok (.ok [11, 21])⟩] ∧
      ∀ call ∈ calls reports, call.isJson = true ∧
        call.replies = [(0, .ok (11, "application/json".toList)), (1, .ok (21, "application/json".toList))] ∧
        ¬ call.Respects := by
  intro reports
  refine ⟨rfl, fun call hcall => ?_⟩
  rw [mem_singleton.1 hcall]
  refine ⟨rfl, rfl, fun h => ?_⟩
  cases (h ⟨1, 20, false⟩ (mem_cons_of_mem _ mem_cons_self)).1

end HelixRpc.Runtime.Rust.Batching
