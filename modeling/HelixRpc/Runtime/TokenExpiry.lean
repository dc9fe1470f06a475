import HelixRpc.Runtime.Go.RateLimiter

/-!
# The expiry of tokens in four runtimes

Model of the verifiers of HS256 tokens: `decodeAndVerifyJWT` (`runtimes/node/src/auth.ts`), which is written by hand,
and the ones that call a library: `NewJWTAuthInterceptor` (`runtimes/go/auth.go`), `JwtValidator`
(`runtimes/rust/src/auth.rs`) and `jwt_middleware` (`runtimes/python/helix_rt/auth.py`). The libraries are not
part of the repository: they are parameters, and what is assumed of them is `ExpiryChecked`.
-/

namespace HelixRpc.Runtime.Tokens

open Foundation Runtime.Go List

inductive Json where
  | null
  | bool (b : Bool)
  | number (q : ℚ)
  | string (s : Text)
  | array (items : List Json)
  | object (members : List (Text × Json))

namespace Json

def get? (name : Text) : Json → Option Json
  | .object members => (members.reverse.find? fun m => decide (m.1 = name)).map Prod.snd
  | _ => none

def exp (payload : Json) : Option Json := payload.get? "exp".toList

def isTruthy : Json → Bool
  | .null => false
  | .bool b => b
  | .number q => decide (q ≠ 0)
  | .string s => decide (s ≠ [])
  | .array _ => true
  | .object _ => true

end Json

def jsLess (n : Int) : Float64 → Bool
  | .finite q => decide (q < n)
  | .infinite negative => negative
  | .notANumber => false

inductive Verifier where
  | go
  | rust
  | python
  | node
  deriving DecidableEq

/-- What the verifiers call: the HMAC of Node with `JSON.parse`, and the decoders of golang-jwt, jsonwebtoken
and PyJWT, each with its leeway. -/
structure Libraries where
  digest : Text → Text
  digest_dots : ∀ s, '.' ∉ digest s
  parsePayload : Text → Option Json
  toNumber : Json → Float64
  /-- Whether the library accepts these claims of a correctly signed token, at a time. -/
  decode : Verifier → ℚ → Json → Bool
  leeway : Verifier → ℚ
  /-- The checks of PyJWT apart from the one of `exp`. -/
  otherChecks : Json → Bool
  requiredClaims : Verifier → List Text

namespace Libraries

variable (lib : Libraries) (now : ℚ)

def jsNumber : Json → Float64
  | .null => .finite 0
  | .bool b => .finite (if b then 1 else 0)
  | .number q => .finite q
  | v => lib.toNumber v

def checkExpiration (payload : Json) : Option Json :=
  match payload with
  | .null => none  -- the access to `exp` throws
  | payload =>
    match payload.exp with
    | none => some payload
    | some exp => if exp.isTruthy && jsLess ⌊now⌋ (lib.jsNumber exp) then none else some payload

def decodeAndVerifyJWT (token : Text) : Option Json :=
  match token.splitOn '.' with
  | [headerB64, payloadB64, signatureB64] =>
    if lib.digest (headerB64 ++ '.' :: payloadB64) ≠ signatureB64 then none
    else lib.parsePayload payloadB64 >>= lib.checkExpiration now
  | _ => none

/-- The loop over the required claims, after the token was decoded. -/
def hasRequired (verifier : Verifier) (payload : Json) : Bool :=
  (lib.requiredClaims verifier).all fun claim => (payload.get? claim).isSome

end Libraries

structure SignedToken (lib : Libraries) where
  headerB64 : Text
  payloadB64 : Text
  header_dots : '.' ∉ headerB64
  payload_dots : '.' ∉ payloadB64
  payload : Json
  decoded : lib.parsePayload payloadB64 = some payload

def SignedToken.text {lib : Libraries} (token : SignedToken lib) : Text :=
  token.headerB64 ++ '.' :: (token.payloadB64 ++ '.' :: lib.digest (token.headerB64 ++ '.' :: token.payloadB64))

section
variable {lib : Libraries} (now : ℚ) (token : SignedToken lib)

def accepts : Verifier → Bool
  | .node => (lib.decodeAndVerifyJWT now token.text).isSome
  | verifier => lib.decode verifier now token.payload && lib.hasRequired verifier token.payload

def leeway (lib : Libraries) : Verifier → ℚ
  | .node => 0
  | verifier => lib.leeway verifier

def Live (leeway now : ℚ) (payload : Json) : Prop := ∃ q, payload.exp = some (.number q) ∧ now < q + leeway

end

section
variable {lib : Libraries} {now : ℚ} {token : SignedToken lib}

variable {payload : Json}

end

/-- Libraries that check nothing but `exp`. -/
def expiryOnly (required : Bool) (now : ℚ) (payload : Json) : Bool :=
  match payload.exp with
  | some (.number q) => decide (now < q)
  | some _ => false
  | none => !required

def threePayloads : Libraries where
  digest := fun _ => "sig".toList
  digest_dots := fun _ => by decide
  parsePayload := fun payloadB64 =>
    if payloadB64 = "none".toList then some (.object [("sub".toList, .string "a".toList)])
    else if payloadB64 = "zero".toList then
      some (.object [("sub".toList, .string "a".toList), ("exp".toList, .number 0)])
    else some (.object [("sub".toList, .string "a".toList), ("exp".toList, .number 1800000000)])
  toNumber := fun _ => .notANumber
  decode := fun verifier => expiryOnly (verifier ≠ .python)
  leeway := fun _ => 0
  otherChecks := fun _ => true
  requiredClaims := fun _ => ["sub".toList]

def signed (payloadB64 : Text) (h : '.' ∉ payloadB64) : SignedToken threePayloads :=
  ⟨"h".toList, payloadB64, by decide, h, (threePayloads.parsePayload payloadB64).getD .null, by
    simp only [threePayloads]
    split_ifs <;> rfl⟩

end HelixRpc.Runtime.Tokens
