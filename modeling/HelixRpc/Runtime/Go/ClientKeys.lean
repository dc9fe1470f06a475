import HelixRpc.Runtime.Go.Errors
import HelixRpc.Runtime.Go.Metadata
import HelixRpc.Runtime.Go.RateLimiter

/-!
# The bucket that a request is charged to

Model of the Go server with `RateLimiter.Interceptor` in its chain (`runtimes/go/grpc_handler.go`,
`runtimes/go/ratelimit.go`).
-/

namespace HelixRpc.Runtime.Go

open Foundation List

structure Incoming (Values : Type) where
  verb : Text
  path : Text
  query : Params
  header : Header
  remoteAddr : Text
  isWebSocketUpgrade : Bool
  upgradeError : Option Text
  body : Body
  context : Context Values

def ipKeyFunc (remoteAddr : Text) : Text :=
  match remoteAddr.reverse.dropWhile (· ≠ ':') with
  | [] => remoteAddr
  | _ :: host => host.reverse

namespace Incoming

variable {Values : Type}

def peer (r : Incoming Values) : Text := ipKeyFunc r.remoteAddr

/-- What `ServeHTTP` reads of a request, with the context that it makes; `withDeadline` is
`contextWithDeadlineFromHeaders`. -/
def request (withDeadline : Header → Values → Values) (r : Incoming Values) : Request (Context Values) :=
  let baseCtx := newContext r.context (metadata r.header.fields)
  { verb := r.verb
    path := r.path
    query := r.query
    contentType := r.header.get "content-type".toList
    accept := r.header.get "accept".toList
    grpcEncoding := r.header.get "grpc-encoding".toList
    isWebSocketUpgrade := r.isWebSocketUpgrade
    upgradeError := r.upgradeError
    body := r.body
    requestCtx := r.context
    ctx := { baseCtx with values := withDeadline r.header baseCtx.values } }

end Incoming

structure LimitedServer (Values Req Resp : Type) where
  lib : Library Resp
  table : MethodTable (MethodInfo (Context Values) Req Resp)
  before : List (Check (Context Values))
  keepsMetadata : ∀ check ∈ before, ∀ ctx ctx', check ctx = .ok ctx' → ctx'.md = ctx.md
  behind : List (Interceptor (Context Values) Req Resp)
  withDeadline : Header → Values → Values
  retryAfter : Text
  outside : Float64 → Int64

structure Arrival (Values : Type) where
  request : Incoming Values
  created : Int64
  now : Int64

namespace LimitedServer

variable {Values Req Resp : Type} (srv : LimitedServer Values Req Resp)

def handler (rl : RateLimiter) (created now : Int64) : GRPCHandler (Context Values) Req Resp where
  table := srv.table
  interceptors := srv.before.map guardWith ++
    guardWith (checkRate fromContext (fun key => (rl.allow srv.outside key created now).2.2) srv.retryAfter)
      :: srv.behind

def charged (r : Request (Context Values)) (events : List (Event Invocation)) : Option Text :=
  match runChecks srv.before r.ctx with
  | .error _ => none
  | .ok ctx => if .enter srv.before.length ∈ events then some (clientKey fromContext ctx) else none

def serve : Machine RateLimiter (Arrival Values) (Response × Option Text) := fun rl a =>
  let r := a.request.request srv.withDeadline
  let (events, response) := serveHTTP srv.lib (srv.handler rl a.created a.now) r
  match srv.charged r events with
  | none => (rl, response, none)
  | some key => ((rl.allow srv.outside key a.created a.now).1, response, some key)

end LimitedServer

def Header.forwardedKey (h : Header) : Text := (h.values "x-forwarded-for".toList).headD "unknown".toList

theorem clientKey_of_md {Values : Type} {ctx : Context Values} {h : Header} (hctx : ctx.md = some h.values) :
    clientKey fromContext ctx = h.forwardedKey := by
  have hmd : fromContext ctx = h.values := by
    rw [fromContext, hctx]
    rfl
  -- the key that is looked for first begins with a colon
  have hremote : h.values ":remote-addr".toList = [] := h.values_of_colon (by decide)
  rw [clientKey, hmd, hremote, Header.forwardedKey]
  cases h.values "x-forwarded-for".toList <;> rfl

theorem runChecks_keepsMetadata {Values : Type} {checks : List (Check (Context Values))}
    (hkeeps : ∀ check ∈ checks, ∀ ctx ctx', check ctx = .ok ctx' → ctx'.md = ctx.md)
    {ctx ctx' : Context Values} (h : runChecks checks ctx = .ok ctx') : ctx'.md = ctx.md := by
  induction checks generalizing ctx with
  | nil =>
    cases h
    rfl
  | cons check checks ih =>
    rw [runChecks] at h
    cases hcheck : check ctx with
    | error err =>
      rw [hcheck] at h
      cases h
    | ok ctx₁ =>
      rw [hcheck] at h
      have hrest := ih (fun c hc => hkeeps c (mem_cons_of_mem check hc)) h
      exact hrest.trans (hkeeps check mem_cons_self ctx ctx₁ hcheck)

namespace LimitedServer

variable {Values Req Resp : Type} (srv : LimitedServer Values Req Resp)

theorem charged_eq (r : Incoming Values) {events : List (Event Invocation)} {key : Text}
    (h : srv.charged (r.request srv.withDeadline) events = some key) : key = r.header.forwardedKey := by
  unfold charged at h
  split at h
  · cases h
  · rename_i ctx hchecks
    split_ifs at h with hentered
    cases h
    have hmd : ctx.md = some r.header.values := by
      rw [runChecks_keepsMetadata srv.keepsMetadata hchecks, ← r.header.metadata_eq (.refl _)]
      rfl
    exact clientKey_of_md hmd

variable (rl : RateLimiter) (a : Arrival Values)

theorem serve_charged : (srv.serve rl a).2.2 = srv.charged (a.request.request srv.withDeadline)
    (serveHTTP srv.lib (srv.handler rl a.created a.now) (a.request.request srv.withDeadline)).1 := by
  rw [serve]
  dsimp only
  split
  · rename_i hcharged
    exact hcharged.symm
  · rename_i key hcharged
    exact hcharged.symm

end LimitedServer

section
variable {Values Req Resp : Type} (srv : LimitedServer Values Req Resp) (rl : RateLimiter)
  (arrivals : List (Arrival Values))

/-- The buckets of a run belong to clients: each peer has one, whatever headers it sends, and no two peers
have the same. -/
structure PerClient : Prop where
  separate : ∀ x ∈ srv.serve.trace rl arrivals, ∀ y ∈ srv.serve.trace rl arrivals, ∀ b c,
    x.answer.2 = some b → y.answer.2 = some c → x.input.request.peer ≠ y.input.request.peer → b ≠ c
  stable : ∀ x ∈ srv.serve.trace rl arrivals, ∀ y ∈ srv.serve.trace rl arrivals, ∀ b c,
    x.answer.2 = some b → y.answer.2 = some c → x.input.request.peer = y.input.request.peer → b = c

/-- The requests that are charged have the same `X-Forwarded-For` exactly if they come from the same peer. -/
def ForwardedByPeer : Prop := ∀ x ∈ srv.serve.trace rl arrivals, ∀ y ∈ srv.serve.trace rl arrivals,
    x.answer.2.isSome → y.answer.2.isSome → (x.input.request.header.forwardedKey = y.input.request.header.forwardedKey ↔
        x.input.request.peer = y.input.request.peer)

variable {srv rl arrivals}

theorem eq_forwardedKey_of_mem_trace {call : Observed RateLimiter (Arrival Values) (Response × Option Text)}
    (hcall : call ∈ srv.serve.trace rl arrivals) {key : Text} (h : call.answer.2 = some key) :
    key = call.input.request.header.forwardedKey := by
  obtain ⟨before, hanswer⟩ := Machine.exists_of_mem_trace hcall
  rw [hanswer, LimitedServer.serve_charged] at h
  exact srv.charged_eq _ h
end

/-- The buckets of a run belong to clients exactly if the headers of the requests tell the peers
apart, and only the peers. -/
theorem perClient_iff {Values Req Resp : Type} (srv : LimitedServer Values Req Resp) (rl : RateLimiter)
    (arrivals : List (Arrival Values)) : PerClient srv rl arrivals ↔ ForwardedByPeer srv rl arrivals := by
  constructor
  · intro h x hx y hy hxsome hysome
    obtain ⟨b, hb⟩ := Option.isSome_iff_exists.1 hxsome
    obtain ⟨c, hc⟩ := Option.isSome_iff_exists.1 hysome
    rw [← eq_forwardedKey_of_mem_trace hx hb, ← eq_forwardedKey_of_mem_trace hy hc]
    constructor
    · intro heq
      by_contra hpeers
      exact h.separate x hx y hy b c hb hc hpeers heq
    · exact h.stable x hx y hy b c hb hc
  · intro h
    have hkeys : ∀ x ∈ srv.serve.trace rl arrivals, ∀ y ∈ srv.serve.trace rl arrivals, ∀ b c,
        x.answer.2 = some b → y.answer.2 = some c → (b = c ↔ x.input.request.peer = y.input.request.peer) := by
      intro x hx y hy b c hb hc
      rw [eq_forwardedKey_of_mem_trace hx hb, eq_forwardedKey_of_mem_trace hy hc]
      exact h x hx y hy (hb ▸ rfl) (hc ▸ rfl)
    exact ⟨fun x hx y hy b c hb hc hpeers heq => hpeers ((hkeys x hx y hy b c hb hc).1 heq),
      fun x hx y hy b c hb hc => (hkeys x hx y hy b c hb hc).2⟩

def openMethod : MethodInfo (Context Unit) Unit Unit :=
  ⟨fun _ _ => .ok (), fun _ _ => .ok (), none, false, fun _ => none⟩

def openServer : LimitedServer Unit Unit Unit where
  lib := plainLibrary
  table := MethodTable.empty.registerMethod "/demo.Chat/Say".toList openMethod
  before := []
  keepsMetadata := fun _ hcheck => absurd hcheck not_mem_nil
  behind := []
  withDeadline := fun _ values => values
  retryAfter := "1".toList
  outside := fun _ => 0

def oneLimiter : RateLimiter := newRateLimiter (fun _ => 0) ⟨.finite 1, 1⟩

def forwardedHeader (forwarded : Option Text) : Header where
  fields := forwarded.toList.map fun value => ("X-Forwarded-For".toList, [value])
  distinct := by cases forwarded <;> simp
  names := by cases forwarded <;> simp

def sayFrom (remoteAddr : Text) (forwarded : Option Text) : Arrival Unit :=
  ⟨⟨"POST".toList, "/demo.Chat/Say".toList, [], forwardedHeader forwarded, remoteAddr, false, none, ([], none),
    ⟨none, ()⟩⟩, 0, 0⟩

def quietPeers : List (Arrival Unit) :=
  [sayFrom "10.0.0.1:4000".toList none, sayFrom "10.0.0.2:4000".toList none]

def forwardingPeer : List (Arrival Unit) :=
  [sayFrom "10.0.0.1:4000".toList (some "a".toList), sayFrom "10.0.0.1:4000".toList (some "b".toList)]

theorem buckets_not_perClient : ((openServer.serve.answers oneLimiter quietPeers).map Prod.snd =
          [some "unknown".toList, some "unknown".toList] ∧ ¬ PerClient openServer oneLimiter quietPeers) ∧
      (openServer.serve.answers oneLimiter forwardingPeer).map Prod.snd = [some "a".toList, some "b".toList] ∧
        ¬ PerClient openServer oneLimiter forwardingPeer := by
  have hquiet : (openServer.serve.answers oneLimiter quietPeers).map Prod.snd =
      [some "unknown".toList, some "unknown".toList] := by decide +kernel
  have hforwarding : (openServer.serve.answers oneLimiter forwardingPeer).map Prod.snd =
      [some "a".toList, some "b".toList] := by decide +kernel
  refine ⟨⟨hquiet, fun h => ?_⟩, hforwarding, fun h => ?_⟩
  · obtain ⟨hfirst, hsecond⟩ := cons.inj hquiet
    exact h.separate _ mem_cons_self _ (mem_cons_of_mem _ mem_cons_self) _ _ hfirst (cons.inj hsecond).1 (by decide) rfl
  · obtain ⟨hfirst, hsecond⟩ := cons.inj hforwarding
    have heq := h.stable _ mem_cons_self _ (mem_cons_of_mem _ mem_cons_self) _ _ hfirst (cons.inj hsecond).1 rfl
    exact absurd heq (by decide)

end HelixRpc.Runtime.Go
