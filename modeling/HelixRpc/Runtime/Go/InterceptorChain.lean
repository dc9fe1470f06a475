import HelixRpc.Runtime.Go.GrpcHandler
import Mathlib.Data.List.Induction

/-!
# The chain of interceptors

Model of `AddInterceptor`, `chainInterceptors` and `getChainHandler`
(`runtimes/go/grpc_handler.go`).
-/

namespace HelixRpc.Runtime.Go.InterceptorChain

open List
variable {Ctx Req Info Out : Type}

abbrev Handler (Ctx Req Out : Type) := Ctx → Req → Out

abbrev ServerInterceptor (Ctx Req Info Out : Type) := Ctx → Req → Info → Handler Ctx Req Out → Out

section
-- what a call with an index out of range ends with
variable (outOfRange : Out)

def getChainHandler (interceptors : List (ServerInterceptor Ctx Req Info Out)) (curr : Nat) (info : Info)
    (finalHandler : Handler Ctx Req Out) : Handler Ctx Req Out :=
  if curr + 1 = interceptors.length then finalHandler
  else fun ctx req =>
    match h : interceptors[curr + 1]? with
    | none => outOfRange
    | some interceptor => interceptor ctx req info (getChainHandler interceptors (curr + 1) info finalHandler)
  termination_by interceptors.length - curr
  decreasing_by
    have := (List.getElem?_eq_some_iff.1 h).1
    omega

def chainInterceptors (interceptors : List (ServerInterceptor Ctx Req Info Out)) :
    Option (ServerInterceptor Ctx Req Info Out) :=
  match interceptors with
  | [] => none
  | [interceptor] => some interceptor
  | first :: _ => some fun ctx req info handler =>
    first ctx req info (getChainHandler outOfRange interceptors 0 info handler)

structure Registered (Ctx Req Info Out : Type) where
  interceptors : List (ServerInterceptor Ctx Req Info Out)
  chained : Option (ServerInterceptor Ctx Req Info Out)

def Registered.addInterceptor (h : Registered Ctx Req Info Out) (interceptor : ServerInterceptor Ctx Req Info Out) :
    Registered Ctx Req Info Out :=
  let interceptors := h.interceptors ++ [interceptor]
  ⟨interceptors, chainInterceptors outOfRange interceptors⟩

def registered (ics : List (ServerInterceptor Ctx Req Info Out)) : Registered Ctx Req Info Out :=
  ics.foldl (Registered.addInterceptor outOfRange) ⟨[], none⟩
end

def Registered.call (h : Registered Ctx Req Info Out) (info : Info) (handler : Handler Ctx Req Out) :
    Handler Ctx Req Out :=
  fun ctx req =>
    match h.chained with
    | some chained => chained ctx req info handler
    | none => handler ctx req

def compose (info : Info) (ics : List (ServerInterceptor Ctx Req Info Out)) (handler : Handler Ctx Req Out) :
    Handler Ctx Req Out :=
  ics.foldr (fun ic next ctx req => ic ctx req info next) handler

section
variable (outOfRange : Out) (info : Info) (ics : List (ServerInterceptor Ctx Req Info Out))
  (handler : Handler Ctx Req Out)

theorem getChainHandler_eq (passed : List (ServerInterceptor Ctx Req Info Out))
    (ic : ServerInterceptor Ctx Req Info Out) :
    getChainHandler outOfRange (passed ++ ic :: ics) passed.length info handler = compose info ics handler := by
  -- the interceptors behind the current one, which is the last of the ones that have been passed
  induction ics generalizing passed ic with
  | nil =>
    rw [getChainHandler, if_pos (by rw [length_append, length_singleton])]
    rfl
  | cons next ics ih =>
    have hnext := ih (passed ++ [ic]) next
    rw [append_assoc, singleton_append, length_append, length_singleton] at hnext
    have hget : (passed ++ ic :: next :: ics)[passed.length + 1]? = some next := by
      rw [getElem?_append_right (Nat.le_add_right _ 1), Nat.add_sub_cancel_left]
      rfl
    rw [getChainHandler, if_neg (by simp only [length_append, length_cons]; omega)]
    funext ctx req
    split
    · rename_i hnone
      rw [hget] at hnone
      cases hnone
    · rename_i found hsome
      obtain rfl := Option.some.inj (hget.symm.trans hsome)
      rw [hnext]
      rfl

theorem chainInterceptors_eq : chainInterceptors outOfRange ics =
    if ics = [] then none else some fun ctx req info handler => compose info ics handler ctx req := by
  match ics with
  | [] => rfl
  | [ic] => rfl
  | first :: second :: rest =>
    rw [chainInterceptors, if_neg (cons_ne_nil _ _)]
    · congr 1
      funext ctx req info handler
      exact congrArg (first ctx req info) (getChainHandler_eq outOfRange info (second :: rest) handler [] first)
    · exact nofun

theorem registered_append (ic : ServerInterceptor Ctx Req Info Out) :
    registered outOfRange (ics ++ [ic]) = (registered outOfRange ics).addInterceptor outOfRange ic := by
  rw [registered, foldl_append]
  rfl

theorem registered_eq : registered outOfRange ics = ⟨ics, chainInterceptors outOfRange ics⟩ := by
  induction ics using reverseRecOn with
  | nil => rfl
  | append_singleton ics ic ih => rw [registered_append, ih, Registered.addInterceptor]

theorem call_registered : (registered outOfRange ics).call info handler = compose info ics handler := by
  funext ctx req
  rw [Registered.call, registered_eq, chainInterceptors_eq]
  cases ics <;> rfl
end

/-- A call of a server is the composition of its interceptors in the order of their registration
around the handler, and `chained` is that composition. -/
theorem interceptors_compose (outOfRange : Out) (ics : List (ServerInterceptor Ctx Req Info Out)) (info : Info)
    (handler : Handler Ctx Req Out) :
    (registered outOfRange ics).call info handler = compose info ics handler ∧ ((registered outOfRange ics).chained =
        if ics = [] then none else some fun ctx req info handler => compose info ics handler ctx req) ∧
      ∀ before ic after, ics = before ++ ic :: after → (registered outOfRange ics).call info handler =
          compose info before fun ctx req => ic ctx req info (compose info after handler) := by
  refine ⟨call_registered outOfRange info ics handler, ?_, ?_⟩
  · rw [registered_eq, chainInterceptors_eq]
  · rintro before ic after rfl
    rw [call_registered, compose, foldr_append]
    rfl

theorem getChainHandler_compose {Resp : Type} (fullMethod : Text) (final : UnaryHandler Ctx Req Resp)
    (ics : List (UnaryServerInterceptor Ctx Req Resp)) (ctx : Ctx) (req : Req) : Go.getChainHandler fullMethod final ics
    (ctx, req) = compose fullMethod (ics.map fun ic ctx req info next => ic ctx req info fun a => next a.1 a.2)
    (fun ctx req => final (ctx, req)) ctx req := by
  induction ics generalizing ctx req with
  | nil => rfl
  | cons ic ics ih =>
    have hnext : Go.getChainHandler fullMethod final ics = fun a => compose fullMethod
        (ics.map fun ic ctx req info next => ic ctx req info fun a => next a.1 a.2)
        (fun ctx req => final (ctx, req)) a.1 a.2 := funext fun a => ih a.1 a.2
    rw [Go.getChainHandler, hnext]
    rfl

end HelixRpc.Runtime.Go.InterceptorChain
