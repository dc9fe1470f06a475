import HelixRpc.Runtime.Go.GrpcHandler

/-!
# Errors of the Go server and the interceptors that return them

Model of `HelixError` with its two mappings (`runtimes/go/errors.go`).
-/

namespace HelixRpc.Runtime.Go

open Foundation
variable {Ctx Req Resp : Type}

structure HelixError where
  code : Int
  message : Text
  deriving DecidableEq

def formatInt : Int → Text
  | .ofNat n => Nat.toDigits 10 n
  | .negSucc n => '-' :: Nat.toDigits 10 (n + 1)

def HelixError.error (e : HelixError) : Text :=
  "helix error: code=".toList ++ (formatInt e.code ++ (" message=".toList ++ e.message))

inductive GoError where
  | helix (e : HelixError)
  | other (text : Text)

def GoError.error : GoError → Text
  | .helix e => e.error
  | .other text => text

def mapToHTTPStatus (code : Int) : Nat :=
  if code = 0 then 200
  else if code = 3 then 400
  else if code = 5 then 404
  else if code = 6 then 409
  else if code = 7 then 403
  else if code = 8 then 429
  else if code = 12 then 501
  else if code = 13 then 500
  else if code = 14 then 503
  else if code = 16 then 401
  else 500

def toGRPCStatus : GoError → Text × Text
  | .helix e => (formatInt e.code, e.message)
  | .other text => ("13".toList, text)

abbrev Check (Ctx : Type) := Ctx → Except GoError Ctx

def guardWith (check : Check Ctx) : Interceptor Ctx Req Resp := fun ctx req _ =>
  match check ctx with
  | .error err => .ret (.error err.error)
  | .ok ctx => .call (ctx, req) .ret

def reject (code : Int) (message : Text) : Except GoError Ctx := .error (.helix ⟨code, message⟩)

section
variable (md : Ctx → Text → List Text)

def clientKey (ctx : Ctx) : Text :=
  match md ctx ":remote-addr".toList with
  | ip :: _ => ip
  | [] =>
    match md ctx "x-forwarded-for".toList with
    | fwd :: _ => fwd
    | [] => "unknown".toList

def checkRate (allow : Text → Bool) (retryAfter : Text) : Check Ctx := fun ctx =>
  if allow (clientKey md ctx) then .ok ctx
  else reject 14 ("rate limit exceeded; retry after ".toList ++ (retryAfter ++ "s".toList))

def trimBearer (value : Text) : Text :=
  if "Bearer ".toList.isPrefixOf value then value.drop 7 else value

def apiKey (ctx : Ctx) : Text :=
  match md ctx "x-api-key".toList with
  | value :: _ => trimBearer value
  | [] =>
    match md ctx "authorization".toList with
    | value :: _ => trimBearer value
    | [] => []

def checkAPIKey (validKeys : Text → Bool) : Check Ctx := fun ctx =>
  if apiKey md ctx = [] then reject 16 "missing API key".toList
  else if validKeys (apiKey md ctx) then .ok ctx
  else reject 16 "invalid API key".toList

inductive Parsed (Claims : Type) where
  | expired
  | invalid (err : Text)
  | badClaims
  | token (claims : Claims)

structure JWTAuth (Ctx Claims : Type) where
  tokenExtractor : (Text → List Text) → Except GoError Text
  parse : Text → Parsed Claims
  hasClaim : Claims → Text → Bool
  requiredClaims : List Text
  quote : Text → Text
  contextWithClaims : Ctx → Claims → Ctx

def defaultBearerExtractor (headers : Text → List Text) : Except GoError Text :=
  let auth := (headers "authorization".toList).headD []
  if auth = [] then
    let key := (headers "x-api-key".toList).headD []
    if key ≠ [] then .ok key
    else .error (.helix ⟨16, "missing Authorization header".toList⟩)
  else
    -- `strings.SplitN(auth, " ", 2)`
    let scheme := auth.takeWhile (· ≠ ' ')
    let malformed : GoError :=
      .helix ⟨16, "malformed Authorization header; expected 'Bearer <token>'".toList⟩
    match auth.dropWhile (· ≠ ' ') with
    | [] => .error malformed
    | _ :: token => if toUpper scheme = "BEARER".toList then .ok token else .error malformed

def checkJWT {Claims : Type} (cfg : JWTAuth Ctx Claims) : Check Ctx := fun ctx =>
  match cfg.tokenExtractor (md ctx) with
  | .error err => .error err
  | .ok rawToken =>
    match cfg.parse rawToken with
    | .expired => reject 16 "token expired".toList
    | .invalid err => reject 16 ("invalid token: ".toList ++ err)
    | .badClaims => reject 16 "invalid token claims".toList
    | .token claims =>
      match cfg.requiredClaims.find? fun required => !cfg.hasClaim claims required with
      | some required => reject 7 ("missing required claim ".toList ++ cfg.quote required)
      | none => .ok (cfg.contextWithClaims ctx claims)
end

def runChecks : List (Check Ctx) → Check Ctx
  | [], ctx => .ok ctx
  | check :: checks, ctx => check ctx >>= runChecks checks

def guardedResult (checks : List (Check Ctx)) (handler : Ctx → CallResult Resp) (ctx : Ctx) : CallResult Resp :=
  match runChecks checks ctx with
  | .error err => .error err.error
  | .ok ctx => handler ctx

theorem getChainHandler_guards (methodPath : Text) (final : UnaryHandler Ctx Req Resp)
    (checks : List (Check Ctx)) (k : Nat) (ctx : Ctx) (req : Req) :
    (getChainHandler methodPath final ((checks.map guardWith).mapIdx fun i => interceptorAt (i + k)) (ctx, req)).2 =
      guardedResult checks (fun ctx => (final (ctx, req)).2) ctx := by
  -- the context that a check returns is the one of the rest of the chain
  induction checks generalizing k ctx with
  | nil => rfl
  | cons check checks ih =>
    have hplaces : (fun (i : Nat) (ic : Interceptor Ctx Req Resp) => interceptorAt (i + 1 + k) ic) =
        fun i => interceptorAt (i + (k + 1)) := by
      funext i
      rw [Nat.add_assoc, Nat.add_comm 1 k]
    rw [List.map_cons, List.mapIdx_cons, hplaces]
    simp only [getChainHandler, interceptorAt, Script.runAs, guardWith, guardedResult, runChecks]
    cases check ctx with
    | error err => rfl
    | ok ctx' => exact ih (k + 1) ctx'

theorem callMethod_guards {h : GRPCHandler Ctx Req Resp} {checks : List (Check Ctx)}
    (hchecks : h.interceptors = checks.map guardWith) (methodPath : Text) (methodInfo : MethodInfo Ctx Req Resp)
    (ctx : Ctx) (req : Req) : (callMethod h methodPath methodInfo ctx req).2 = guardedResult checks
    (fun ctx => methodInfo.handler ctx req) ctx := by
  rw [callMethod_eq, hchecks]
  exact getChainHandler_guards methodPath (finalHandler methodPath methodInfo) checks 0 ctx req

end HelixRpc.Runtime.Go
