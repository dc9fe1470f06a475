import HelixRpc.Foundation.Double
import HelixRpc.Foundation.ExpiringStore
import HelixRpc.Foundation.TokenBucket
import HelixRpc.Runtime.Go.Router

/-!
# The shared bucket in Redis

Model of the script that the Redis rate limiters of Go (`runtimes/go/ratelimit.go`), Java (`RedisRateLimiter.java`) and
Rust (`runtimes/rust/src/ratelimit.rs`) run, over exact numbers.
-/

namespace HelixRpc.Runtime.Redis

open Foundation Runtime.Go List Function Option Machine

def tokensKey (key : Text) : Text := key ++ ":tokens".toList

def timestampKey (key : Text) : Text := key ++ ":ts".toList

structure SharedBucket where
  key : Text
  rate : ℚ
  burst : ℚ

structure ScriptRun where
  now : ℚ
  clock : ℚ

namespace SharedBucket

variable (a : SharedBucket)

def filledTokens (lastTokens lastRefreshed : Option ℚ) (now : ℚ) : ℚ :=
  let lastTokens := lastTokens.getD a.burst
  let lastRefreshed := lastRefreshed.getD 0
  let delta := max 0 (now - lastRefreshed)
  min a.burst (lastTokens + delta * a.rate)

def newTokens (filledTokens : ℚ) : ℚ × Bool :=
  if 1 ≤ filledTokens then (filledTokens - 1, true) else (filledTokens, false)

/-- The time to live. -/
def ttl : ℤ := ⌈a.burst / a.rate⌉

end SharedBucket

def luaTokenBucket (e : Expiry) (a : SharedBucket) :
    Machine (ExpiringStore Text ℚ) ScriptRun (Option (ℚ × Bool)) := fun s r =>
  let lastTokens := s.get e r.clock (tokensKey a.key)
  let lastRefreshed := s.get e r.clock (timestampKey a.key)
  let new := SharedBucket.newTokens (a.filledTokens lastTokens lastRefreshed r.now)
  if 0 < a.ttl then
    ((s.setex r.clock (tokensKey a.key) a.ttl new.1).setex r.clock (timestampKey a.key) a.ttl r.now, some new)
  else (s, none)

structure Stored where
  tokens : ℚ
  timestamp : ℚ
  expiresAt : ℚ

structure Holds (a : SharedBucket) (s : ExpiringStore Text ℚ) (b : Stored) : Prop where
  tokens : s (tokensKey a.key) = some ⟨b.tokens, b.expiresAt⟩
  timestamp : s (timestampKey a.key) = some ⟨b.timestamp, b.expiresAt⟩
  nonneg : 0 ≤ b.tokens

def Unused (a : SharedBucket) (s : ExpiringStore Text ℚ) : Prop :=
  s (tokensKey a.key) = none ∧ s (timestampKey a.key) = none

section
variable {e : Expiry} {a : SharedBucket} {s : ExpiringStore Text ℚ} {r : ScriptRun} {b : Stored}

theorem tokensKey_ne_timestampKey (key : Text) : tokensKey key ≠ timestampKey key := by
  intro h
  exact absurd (append_cancel_left h) (by decide)

theorem filledTokens_none (hrate : 0 ≤ a.rate) (now : ℚ) : a.filledTokens none none now = a.burst := by
  have hcredit : 0 ≤ max 0 (now - 0) * a.rate := mul_nonneg (le_max_left _ _) hrate
  exact min_eq_left (by simpa using hcredit)

theorem filledTokens_nonneg (hrate : 0 ≤ a.rate) (hburst : 0 ≤ a.burst) {tokens : ℚ} (h : 0 ≤ tokens)
    (timestamp now : ℚ) : 0 ≤ a.filledTokens (some tokens) (some timestamp) now :=
  le_min hburst (add_nonneg h (mul_nonneg (le_max_left _ _) hrate))

def found (e : Expiry) (a : SharedBucket) (s : ExpiringStore Text ℚ) (r : ScriptRun) : ℚ :=
  a.filledTokens (s.get e r.clock (tokensKey a.key)) (s.get e r.clock (timestampKey a.key)) r.now

theorem found_unused (hrate : 0 ≤ a.rate) (h : Unused a s) : found e a s r = a.burst := by
  rw [found, ExpiringStore.get_of_none h.1, ExpiringStore.get_of_none h.2, filledTokens_none hrate]

theorem found_gone (hrate : 0 ≤ a.rate) (h : Holds a s b) (hgone : e.gone b.expiresAt r.clock = true) :
    found e a s r = a.burst := by
  rw [found, ExpiringStore.get_of_gone h.tokens hgone, ExpiringStore.get_of_gone h.timestamp hgone,
    filledTokens_none hrate]

theorem found_kept (h : Holds a s b) (hgone : e.gone b.expiresAt r.clock = false) :
    found e a s r = a.filledTokens (some b.tokens) (some b.timestamp) r.now := by
  rw [found, ExpiringStore.get_of_not_gone h.tokens hgone, ExpiringStore.get_of_not_gone h.timestamp hgone]

theorem luaTokenBucket_of_ttl (httl : 0 < a.ttl) : luaTokenBucket e a s r =
      ((s.setex r.clock (tokensKey a.key) a.ttl (SharedBucket.newTokens (found e a s r)).1).setex
          r.clock (timestampKey a.key) a.ttl r.now, some (SharedBucket.newTokens (found e a s r))) := if_pos httl

theorem luaTokenBucket_of_not_ttl (httl : ¬ 0 < a.ttl) : luaTokenBucket e a s r = (s, none) := if_neg httl

theorem newTokens_nonneg {filled : ℚ} (h : 0 ≤ filled) : 0 ≤ (SharedBucket.newTokens filled).1 := by
  rw [SharedBucket.newTokens]
  split
  · rename_i hone
    exact sub_nonneg.2 hone
  · exact h

theorem newTokens_add (filled : ℚ) :
    (SharedBucket.newTokens filled).1 + (if (SharedBucket.newTokens filled).2 then 1 else 0) = filled := by
  rw [SharedBucket.newTokens]
  split <;> simp

theorem holds_after (httl : 0 < a.ttl) (hfound : 0 ≤ found e a s r) : Holds a (luaTokenBucket e a s r).1
      ⟨(SharedBucket.newTokens (found e a s r)).1, r.now, r.clock + a.ttl⟩ := by
  have hne := tokensKey_ne_timestampKey a.key
  rw [luaTokenBucket_of_ttl httl]
  refine ⟨?_, ?_, newTokens_nonneg hfound⟩
  · simp [ExpiringStore.setex, update_of_ne hne]
  · simp [ExpiringStore.setex]

theorem found_nonneg (hrate : 0 ≤ a.rate) (hburst : 0 ≤ a.burst) (h : Unused a s ∨ ∃ b, Holds a s b) :
    0 ≤ found e a s r := by
  rcases h with hunused | ⟨b, hb⟩
  · rw [found_unused hrate hunused]
    exact hburst
  · cases hgone : e.gone b.expiresAt r.clock with
    | true =>
      rw [found_gone hrate hb hgone]
      exact hburst
    | false =>
      rw [found_kept hb hgone]
      exact filledTokens_nonneg hrate hburst hb.nonneg _ _
end

section
variable {a : SharedBucket}

theorem burst_le_ttl_mul (hrate : 0 < a.rate) : a.burst ≤ a.ttl * a.rate := (div_le_iff₀ hrate).1 (Int.le_ceil _)

theorem ttl_pos (hrate : 0 < a.rate) (hburst : 0 < a.burst) : 0 < a.ttl := Int.ceil_pos.2 (div_pos hburst hrate)

/-- The keys have not been set, or they were set when the clock of Redis read what the caller sent. -/
def OnTime (a : SharedBucket) (s : ExpiringStore Text ℚ) : Prop :=
  Unused a s ∨ ∃ b, Holds a s b ∧ b.expiresAt = b.timestamp + a.ttl

variable {s : ExpiringStore Text ℚ}

theorem found_eq_never (e : Expiry) (hrate : 0 < a.rate) (h : OnTime a s) (now : ℚ) :
    found e a s ⟨now, now⟩ = found .never a s ⟨now, now⟩ := by
  rcases h with hunused | ⟨b, hb, hexpires⟩
  · rw [found_unused hrate.le hunused, found_unused hrate.le hunused]
  · rw [found_kept (e := .never) hb rfl]
    cases hgone : e.gone b.expiresAt now with
    | false => exact found_kept hb hgone
    | true =>
      have hlate := e.le_of_gone hgone
      rw [hexpires] at hlate
      rw [found_gone hrate.le hb hgone]
      have hdelta : (a.ttl : ℚ) ≤ max 0 (now - b.timestamp) := le_max_of_le_right (by linarith)
      have hfull : a.burst ≤ b.tokens + max 0 (now - b.timestamp) * a.rate := by
        have hcredit := mul_le_mul_of_nonneg_right hdelta hrate.le
        linarith [burst_le_ttl_mul hrate, hb.nonneg]
      exact (min_eq_left hfull).symm

theorem luaTokenBucket_eq_never (e : Expiry) (hrate : 0 < a.rate) (h : OnTime a s) (now : ℚ) :
    luaTokenBucket e a s ⟨now, now⟩ = luaTokenBucket .never a s ⟨now, now⟩ := by
  by_cases httl : 0 < a.ttl
  · rw [luaTokenBucket_of_ttl httl, luaTokenBucket_of_ttl httl, found_eq_never e hrate h]
  · rw [luaTokenBucket_of_not_ttl httl, luaTokenBucket_of_not_ttl httl]

theorem answers_eq_never (e : Expiry) (hrate : 0 < a.rate) (hburst : 0 < a.burst) (h : OnTime a s) (nows : List ℚ) :
    (luaTokenBucket e a).answers s (nows.map fun now => ⟨now, now⟩) =
      (luaTokenBucket .never a).answers s (nows.map fun now => ⟨now, now⟩) := by
  induction nows generalizing s with
  | nil => rfl
  | cons now nows ih =>
    have hstep := luaTokenBucket_eq_never e hrate h now
    have hbefore : Unused a s ∨ ∃ b, Holds a s b := h.imp_right fun ⟨b, hb, _⟩ => ⟨b, hb⟩
    have hafter : OnTime a (luaTokenBucket e a s ⟨now, now⟩).1 :=
      .inr ⟨_, holds_after (ttl_pos hrate hburst) (found_nonneg hrate.le hburst.le hbefore), rfl⟩
    rw [map_cons, answers, answers, ih hafter, hstep]
end

/-- If the callers send the time of Redis, the replies are those of a bucket
whose keys never expire. -/
theorem expiry_unobservable (e : Expiry) (a : SharedBucket) (hrate : 0 < a.rate) (hburst : 1 ≤ a.burst)
    (nows : List ℚ) : (luaTokenBucket e a).answers .empty (nows.map fun now => ⟨now, now⟩) =
    (luaTokenBucket .never a).answers .empty (nows.map fun now => ⟨now, now⟩) :=
  answers_eq_never e hrate (one_pos.trans_le hburst) (.inl ⟨rfl, rfl⟩) nows

def oneToken : SharedBucket := ⟨"ratelimit:a".toList, 1, 1⟩

theorem expiry_unobservable_gone :
    (luaTokenBucket .afterTime oneToken).answers .empty ([1, 3].map fun now => ⟨now, now⟩) =
      (luaTokenBucket .never oneToken).answers .empty ([1, 3].map fun now => ⟨now, now⟩) :=
  expiry_unobservable .afterTime oneToken one_pos le_rfl [1, 3]

inductive RedisValue where
  | int (n : ℤ)
  | nil
  | array (values : List RedisValue)
  | error

inductive RedisClient where
  | go (unixNano : ℤ)
  | java (currentTimeMillis : ℤ)
  | rust (unixNano : ℤ)

namespace RedisClient

def now : RedisClient → ℚ
  | go unixNano => unixNano / 10 ^ 9
  | java currentTimeMillis => (currentTimeMillis.tdiv 1000 : ℤ)
  | rust unixNano => (max 0 unixNano : ℤ) / 10 ^ 9

/-- The reply to the script of a caller. -/
def reply : RedisClient → Option (ℚ × Bool) → RedisValue
  | _, none => .error
  | go _, some (newTokens, allowed) =>
    .array [.int (Double.truncate newTokens), .int (if allowed then 1 else 0)]
  | java _, some (_, allowed) => .int (if allowed then 1 else 0)
  | rust _, some (newTokens, allowed) =>
    .array [.int (Double.truncate newTokens), if allowed then .int 1 else .nil]

def goAllow : RedisValue → ℤ × Bool
  | .array [.int newTokens, .int isAllowed] => (newTokens, isAllowed == 1)
  | _ => (0, false)

def javaAllow : RedisValue → Option Bool
  | .int result => some (result == 1)
  | _ => none

def rustAllow : RedisValue → Option (ℤ × Bool)
  | .array [.int newTokens, .int allowed] => some (newTokens, allowed == 1)
  | _ => none

def admits (client : RedisClient) (value : RedisValue) : Bool :=
  match client with
  | go _ => (goAllow value).2
  | java _ => (javaAllow value).getD false
  | rust _ => ((rustAllow value).map Prod.snd).getD false

theorem admits_reply (client : RedisClient) (result : Option (ℚ × Bool)) :
    client.admits (client.reply result) = (result.map Prod.snd).getD false := by
  cases result with
  | none => cases client <;> rfl
  | some new =>
    obtain ⟨newTokens, allowed⟩ := new
    cases client <;> cases allowed <;> rfl

end RedisClient

structure SharedRequest where
  client : RedisClient
  clock : ℚ

def SharedRequest.run (r : SharedRequest) : ScriptRun := ⟨r.client.now, r.clock⟩

def sharedBucket (e : Expiry) (a : SharedBucket) : Machine (ExpiringStore Text ℚ) SharedRequest Bool :=
  fun s r =>
    let (s, result) := luaTokenBucket e a s r.run
    (s, r.client.admits (r.client.reply result))

def spread (nows : List ℚ) : ℚ := nows.max?.getD 0 - nows.min?.getD 0

/-- The number of admitted requests is at most the burst and what the rate gives from the smallest to the
largest time. -/
def AdmissionsBounded (e : Expiry) (a : SharedBucket) (requests : List SharedRequest) : Prop :=
  (TokenBucket.admitted (sharedBucket e a) id .empty requests : ℚ) ≤
    a.burst + a.rate * spread (requests.map fun r => r.client.now)

/-- A request that does not come before the stored time; and if the keys are gone, the bucket would be
full. -/
def InTime (e : Expiry) (a : SharedBucket) (s : ExpiringStore Text ℚ) (r : SharedRequest) : Prop :=
  ∀ entry, s (timestampKey a.key) = some entry → entry.value ≤ r.client.now ∧
    (e.gone entry.expiresAt r.clock = true → a.burst ≤ (r.client.now - entry.value) * a.rate)

section
variable {e : Expiry} {a : SharedBucket} {s : ExpiringStore Text ℚ} {r : SharedRequest}

def storedLevel (a : SharedBucket) (s : ExpiringStore Text ℚ) : ℚ :=
  match s (tokensKey a.key) with
  | none => a.burst
  | some entry => entry.value

def storedTime (a : SharedBucket) (first : ℚ) (s : ExpiringStore Text ℚ) : ℚ :=
  match s (timestampKey a.key) with
  | none => first
  | some entry => entry.value

def SetTogether (a : SharedBucket) (s : ExpiringStore Text ℚ) : Prop := Unused a s ∨ ∃ b, Holds a s b

theorem SetTogether.step (hrate : 0 ≤ a.rate) (hburst : 0 ≤ a.burst) (h : SetTogether a s) :
    SetTogether a (sharedBucket e a s r).1 := by
  by_cases httl : 0 < a.ttl
  · exact .inr ⟨_, holds_after httl (found_nonneg hrate hburst h)⟩
  · change SetTogether a (luaTokenBucket e a s r.run).1
    rw [luaTokenBucket_of_not_ttl httl]
    exact h

theorem found_le (hrate : 0 ≤ a.rate) (h : SetTogether a s) (htime : InTime e a s r) {first : ℚ}
    (hfirst : first ≤ r.client.now) :
    found e a s r.run ≤ storedLevel a s + (r.client.now - storedTime a first s) * a.rate := by
  rcases h with hunused | ⟨b, hb⟩
  · rw [found_unused hrate hunused, storedLevel, hunused.1, storedTime, hunused.2]
    exact le_add_of_nonneg_right (mul_nonneg (sub_nonneg.2 hfirst) hrate)
  · obtain ⟨hforward, hfull⟩ := htime _ hb.timestamp
    rw [storedLevel, hb.tokens, storedTime, hb.timestamp]
    dsimp only
    cases hgone : e.gone b.expiresAt r.clock with
    | true =>
      rw [found_gone (r := r.run) hrate hb hgone]
      linarith [hfull hgone, hb.nonneg]
    | false =>
      rw [found_kept (r := r.run) hb hgone]
      refine (min_le_right _ _).trans ?_
      change b.tokens + max 0 (r.client.now - b.timestamp) * a.rate ≤ _
      rw [max_eq_right (sub_nonneg.2 hforward)]

theorem run_pays (hrate : 0 ≤ a.rate) (h : SetTogether a s) (htime : InTime e a s r) {first : ℚ}
    (hfirst : first ≤ r.client.now) :
    storedLevel a (sharedBucket e a s r).1 + 1 * (if id (sharedBucket e a s r).2 then 1 else 0) ≤ storedLevel a s +
        (storedTime a first (sharedBucket e a s r).1 * a.rate - storedTime a first s * a.rate) := by
  by_cases httl : 0 < a.ttl
  · have hle := found_le hrate h htime hfirst
    have hne := tokensKey_ne_timestampKey a.key
    have hadd := newTokens_add (found e a s r.run)
    have hlevel : storedLevel a (sharedBucket e a s r).1 = (SharedBucket.newTokens (found e a s r.run)).1 := by
      simp [storedLevel, sharedBucket, luaTokenBucket_of_ttl httl, ExpiringStore.setex, update_of_ne hne]
    have hstored : storedTime a first (sharedBucket e a s r).1 = r.client.now := by
      simp [storedTime, sharedBucket, luaTokenBucket_of_ttl httl, ExpiringStore.setex, SharedRequest.run]
    have hanswer : id (sharedBucket e a s r).2 = (SharedBucket.newTokens (found e a s r.run)).2 := by
      simp [sharedBucket, luaTokenBucket_of_ttl httl, RedisClient.admits_reply]
    rw [hlevel, hstored, hanswer, one_mul]
    linarith
  · have hnone : sharedBucket e a s r = (s, false) := by
      simp [sharedBucket, luaTokenBucket_of_not_ttl httl, RedisClient.admits_reply]
    rw [hnone]
    simp

theorem storedLevel_nonneg (hburst : 0 ≤ a.burst) (h : SetTogether a s) : 0 ≤ storedLevel a s := by
  rcases h with hunused | ⟨b, hb⟩
  · rw [storedLevel, hunused.1]
    exact hburst
  · rw [storedLevel, hb.tokens]
    exact hb.nonneg

theorem storedTime_step (first : ℚ) : storedTime a first (sharedBucket e a s r).1 = r.client.now ∨
      storedTime a first (sharedBucket e a s r).1 = storedTime a first s := by
  by_cases httl : 0 < a.ttl
  · exact .inl (by simp [storedTime, sharedBucket, luaTokenBucket_of_ttl httl, ExpiringStore.setex, SharedRequest.run])
  · exact .inr (by simp only [sharedBucket, luaTokenBucket_of_not_ttl httl])

theorem admitted_le_between (hrate : 0 ≤ a.rate) (hburst : 0 ≤ a.burst) {requests : List SharedRequest}
    (h : (sharedBucket e a).AllSteps (InTime e a) .empty requests) {smallest largest : ℚ}
    (hsmallest : ∀ r ∈ requests, smallest ≤ r.client.now)
    (hlargest : ∀ r ∈ requests, r.client.now ≤ largest) (hle : smallest ≤ largest) :
    (TokenBucket.admitted (sharedBucket e a) id .empty requests : ℚ) ≤ a.burst + a.rate * (largest - smallest) := by
  have hbounds : (sharedBucket e a).AllSteps
      (fun _ r => smallest ≤ r.client.now ∧ r.client.now ≤ largest) .empty requests :=
    allSteps_of_forall_mem fun r hr _ => ⟨hsmallest r hr, hlargest r hr⟩
  have hempty : SetTogether a .empty := .inl ⟨rfl, rfl⟩
  have hsteps : (sharedBucket e a).AllSteps
      (fun s r => SetTogether a s ∧ InTime e a s r ∧ smallest ≤ r.client.now) .empty requests :=
    (h.and hbounds).imp
      (fun s r hs hr => ⟨⟨hs, hr.1, hr.2.1⟩, hs.step hrate hburst⟩) hempty
  have hpaid := TokenBucket.unit_mul_admitted_le (sharedBucket e a) id (storedLevel a)
    (fun s => storedTime a smallest s * a.rate) 1 (fun s r hr => run_pays hrate hr.1 hr.2.1 hr.2.2) hsteps
  have hend : 0 ≤ storedLevel a ((sharedBucket e a).after .empty requests) :=
    storedLevel_nonneg hburst (h.invariant (fun s r hs _ => hs.step hrate hburst) hempty)
  have hkeep : ∀ s r, storedTime a smallest s ≤ largest → smallest ≤ r.client.now ∧ r.client.now ≤ largest →
      storedTime a smallest (sharedBucket e a s r).1 ≤ largest := by
    intro s r hs hr
    rcases storedTime_step (e := e) (a := a) (s := s) (r := r) smallest with heq | heq
    · rw [heq]
      exact hr.2
    · rw [heq]
      exact hs
  have hlast : storedTime a smallest ((sharedBucket e a).after .empty requests) ≤ largest := hbounds.invariant hkeep hle
  have hcredit := mul_le_mul_of_nonneg_right hlast hrate
  have hstart : storedLevel a .empty = a.burst ∧ storedTime a smallest .empty = smallest := ⟨rfl, rfl⟩
  rw [hstart.1, hstart.2] at hpaid
  linarith
end

/-- If no request comes before the stored time, and keys are gone only when the bucket would be
full, the servers together admit at most what burst and rate allow. -/
theorem admissions_le_of_inTime (e : Expiry) (a : SharedBucket) (requests : List SharedRequest)
    (hrate : 0 ≤ a.rate) (hburst : 0 ≤ a.burst)
    (h : (sharedBucket e a).AllSteps (InTime e a) .empty requests) : AdmissionsBounded e a requests := by
  rw [AdmissionsBounded, spread]
  cases requests with
  | nil => simpa [TokenBucket.admitted, answers] using hburst
  | cons r requests =>
    have hne : (r :: requests).map (fun r => r.client.now) ≠ [] := cons_ne_nil _ _
    obtain ⟨smallest, hmin⟩ := ne_none_iff_exists'.1 (mt min?_eq_none_iff.1 hne)
    obtain ⟨largest, hmax⟩ := ne_none_iff_exists'.1 (mt max?_eq_none_iff.1 hne)
    have hsmallest := min?_eq_some_iff.1 hmin
    have hlargest := max?_eq_some_iff.1 hmax
    rw [hmin, hmax]
    refine admitted_le_between hrate hburst h ?_ ?_ (hsmallest.2 _ hlargest.1)
    · exact fun r' hr' => hsmallest.2 _ (mem_map_of_mem hr')
    · exact fun r' hr' => hlargest.2 _ (mem_map_of_mem hr')

theorem admissions_le_of_inTime_agreeing :
    AdmissionsBounded .afterTime oneToken [⟨.go 1500000000, 3 / 2⟩, ⟨.java 2000, 2⟩] := by
  refine admissions_le_of_inTime .afterTime oneToken _ one_pos.le one_pos.le ⟨?_, ?_, trivial⟩
  · intro entry hentry
    cases hentry
  · have hfirst := holds_after (e := .afterTime) (a := oneToken) (s := .empty)
      (r := SharedRequest.run ⟨.go 1500000000, 3 / 2⟩) (by decide +kernel) (by decide +kernel)
    intro entry hentry
    cases hfirst.timestamp.symm.trans hentry
    exact ⟨by decide +kernel, by decide +kernel⟩

/-- A Go server and a Java server whose clock is a second behind: the Java server takes the stored time
back, and the Go server is credited the second once more. -/
def laggingServers : List SharedRequest :=
  [⟨.go 1000000000, 1⟩, ⟨.java 0, 1⟩, ⟨.go 1000000000, 1⟩, ⟨.java 0, 1⟩, ⟨.go 1000000000, 1⟩]

theorem lagging_servers_exceed : (sharedBucket .afterTime oneToken).answers .empty laggingServers = [true, false, true,
    false, true] ∧ ¬ AdmissionsBounded .afterTime oneToken laggingServers := by
  refine ⟨by decide +kernel, ?_⟩
  unfold AdmissionsBounded
  decide +kernel

end HelixRpc.Runtime.Redis
