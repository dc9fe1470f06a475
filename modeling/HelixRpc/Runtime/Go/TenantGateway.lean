import HelixRpc.Foundation.Noninterference
import HelixRpc.Runtime.Go.RateLimiter

/-!
# The rate limiter for tenants

Model of `MultiTenantRateLimiter.HTTPMiddleware` (`runtimes/go/tenant_gateway.go`).
-/

namespace HelixRpc.Runtime.Go.Tenants

open Foundation List Function

structure TenantConfig where
  requestsPerSecond : Float64
  burstSize : Int64

structure Limiters where
  table : Text → Option Nat
  heap : List RateLimiter
  inRange : ∀ tenant a, table tenant = some a → a < heap.length
  separate : ∀ tenant tenant' a, table tenant = some a → table tenant' = some a → tenant = tenant'

namespace Limiters

def empty : Limiters where
  table := fun _ => none
  heap := []
  inRange := by
    intro _ _ h
    cases h
  separate := by
    intro _ _ _ h
    cases h

def add (ls : Limiters) (tenant : Text) (rl : RateLimiter) : Limiters where
  table := update ls.table tenant (some ls.heap.length)
  heap := ls.heap ++ [rl]
  inRange := by
    intro tenant' a h
    rw [length_append, length_singleton]
    rw [update_apply] at h
    split_ifs at h with heq
    · cases h
      exact Nat.lt_succ_self _
    · exact Nat.lt_succ_of_lt (ls.inRange tenant' a h)
  separate := by
    intro tenant₁ tenant₂ a h₁ h₂
    rw [update_apply] at h₁ h₂
    -- the new address is not in the table
    split_ifs at h₁ h₂ with heq₁ heq₂ heq₂
    · exact heq₁.trans heq₂.symm
    · cases h₁
      exact absurd (ls.inRange _ _ h₂) (Nat.lt_irrefl _)
    · cases h₂
      exact absurd (ls.inRange _ _ h₁) (Nat.lt_irrefl _)
    · exact ls.separate _ _ a h₁ h₂

def store (ls : Limiters) (a : Nat) (rl : RateLimiter) : Limiters where
  table := ls.table
  heap := ls.heap.set a rl
  inRange := by
    intro tenant a' h
    rw [length_set]
    exact ls.inRange tenant a' h
  separate := ls.separate

def get (ls : Limiters) (tenant : Text) : Option RateLimiter := (ls.table tenant).bind (ls.heap[·]?)

variable {ls : Limiters} {tenant other : Text} {a : Nat}

theorem get_of_none (h : ls.table tenant = none) : ls.get tenant = none := by
  rw [get, h]
  rfl

theorem get_of_some (h : ls.table tenant = some a) : ls.get tenant = ls.heap[a]? := by
  rw [get, h]
  rfl

theorem exists_limiter (h : ls.table tenant = some a) : ∃ rl, ls.heap[a]? = some rl :=
  ⟨_, getElem?_eq_getElem (ls.inRange tenant a h)⟩

theorem get_add_self (rl : RateLimiter) : (ls.add tenant rl).get tenant = some rl := by
  rw [get_of_some (update_self tenant _ _)]
  exact getElem?_concat_length

theorem get_add_of_ne (h : other ≠ tenant) (rl : RateLimiter) : (ls.add tenant rl).get other = ls.get other := by
  have htable : (ls.add tenant rl).table other = ls.table other := update_of_ne h _ _
  cases hother : ls.table other with
  | none => rw [get_of_none (htable.trans hother), get_of_none hother]
  | some a =>
    rw [get_of_some (htable.trans hother), get_of_some hother]
    exact getElem?_append_left (ls.inRange other a hother)

theorem get_store_self (h : ls.table tenant = some a) (rl : RateLimiter) : (ls.store a rl).get tenant = some rl := by
  have htable : (ls.store a rl).table tenant = some a := h
  rw [get_of_some htable]
  exact getElem?_set_self (ls.inRange tenant a h)

theorem get_store_of_ne (h : ls.table tenant = some a) (hne : other ≠ tenant) (rl : RateLimiter) :
    (ls.store a rl).get other = ls.get other := by
  have htable : (ls.store a rl).table other = ls.table other := rfl
  cases hother : ls.table other with
  | none => rw [get_of_none (htable.trans hother), get_of_none hother]
  | some a' =>
    rw [get_of_some (htable.trans hother), get_of_some hother]
    refine getElem?_set_ne fun heq => hne ?_
    exact ls.separate other tenant a' hother (heq ▸ h)

end Limiters

inductive AllowPoint where
  | swap
  | refillLoad (refill : Int64)
  | refillSwap (refill cur : Int64)
  | takeLoad
  | takeSwap (cur : Int64)

def allowStep (cfg : BucketConfig) (b : ClientBucket) (point : AllowPoint) (now : Int64) :
    ClientBucket × (AllowPoint ⊕ Bool) :=
  match point with
  | .swap =>
    let elapsed := now - b.lastSeen
    ({ b with lastSeen := now }, if 0 < elapsed then .inl (.refillLoad (elapsed * cfg.refillNs)) else .inl .takeLoad)
  | .refillLoad refill => (b, .inl (.refillSwap refill b.tokens))
  | .refillSwap refill cur =>
    if b.tokens = cur then
      ({ b with tokens := TokenBucket.refilled cfg.capacity cur refill }, .inl .takeLoad)
    else (b, .inl (.refillLoad refill))
  | .takeLoad => if b.tokens < nanoToken then (b, .inr false) else (b, .inl (.takeSwap b.tokens))
  | .takeSwap cur =>
    if b.tokens = cur then ({ b with tokens := cur - nanoToken }, .inr true) else (b, .inl .takeLoad)

inductive Stage where
  | load
  | allow (point : AllowPoint)

inductive Decision where
  | unauthorized
  | passed
  | allowed
  | rejected
  deriving DecidableEq

inductive Point where
  | lookup
  | create
  | use (limiter : Nat) (stage : Stage)
  | finished

section
variable (outside : Float64 → Int64) (defaultLimit : TenantConfig)

def tenantLimiter (cfg : TenantConfig) : RateLimiter :=
  let cfg := if cfg.requestsPerSecond.nonpos then defaultLimit else cfg
  newRateLimiter outside ⟨cfg.requestsPerSecond, cfg.burstSize⟩

def limiterStep (tenant : Text) (rl : RateLimiter) (stage : Stage) (now : Int64) : RateLimiter × (Stage ⊕ Bool) :=
  let cfg := rl.cfg.bucketConfig outside
  match stage with
  | .load => ((rl.loadOrStore tenant (newClientBucket cfg now)).1, .inl (.allow .swap))
  | .allow point =>
    match rl.buckets tenant with
    | none => (rl, .inl (.allow point))
    | some b =>
      let (b, next) := allowStep cfg b point now
      ({ rl with buckets := update rl.buckets tenant (some b) }, next.map .allow id)

/-- The next step of a request with a tenant, by the configuration that the resolver returned for it. -/
def Limiters.next (ls : Limiters) (tenant : Text) (cfg : TenantConfig) (point : Point) (now : Int64) :
    Limiters × Point × Option Decision :=
  match point with
  | .lookup =>
    match ls.table tenant with
    | some a => (ls, .use a .load, none)
    | none => (ls, .create, none)
  | .create =>
    -- the second check, under the lock
    match ls.table tenant with
    | some a => (ls, .use a .load, none)
    | none => (ls.add tenant (tenantLimiter outside defaultLimit cfg), .use ls.heap.length .load, none)
  | .use a stage =>
    match ls.heap[a]? with
    | none => (ls, .use a stage, none)
    | some rl =>
      let (rl, next) := limiterStep outside tenant rl stage now
      match next with
      | .inl stage => (ls.store a rl, .use a stage, none)
      | .inr true => (ls.store a rl, .finished, some .allowed)
      | .inr false => (ls.store a rl, .finished, some .rejected)
  | .finished => (ls, .finished, none)

structure Gateway where
  limiters : Limiters
  requests : Text → List (TenantConfig × Point)

def newGateway : Gateway := ⟨.empty, fun _ => []⟩

inductive Event where
  | arrive (resolved : Except Unit (Text × TenantConfig))
  | go (tenant : Text) (request : Nat) (now : Int64)

def Event.tenant : Event → Option Text
  | .arrive (.error _) => none
  | .arrive (.ok (tenant, _)) => some tenant
  | .go tenant _ _ => some tenant

def gateway : Machine Gateway Event (Option Decision) := fun s e =>
  match e with
  | .arrive (.error _) => (s, some .unauthorized)
  | .arrive (.ok (tenant, cfg)) =>
    if tenant = [] then (s, some .passed)
    else
      ({ s with
          requests := update s.requests tenant (s.requests tenant ++ [(cfg, .lookup)]) }, none)
  | .go tenant i now =>
    match (s.requests tenant)[i]? with
    | none => (s, none)
    | some (cfg, point) =>
      let (limiters, point, decision) := s.limiters.next outside defaultLimit tenant cfg point now
      (⟨limiters, update s.requests tenant ((s.requests tenant).set i (cfg, point))⟩, decision)

inductive Phase where
  | lookup
  | create
  | use (stage : Stage)
  | finished

structure Tenant where
  limiter : Option RateLimiter
  requests : List (TenantConfig × Phase)

def tenantNext (tenant : Text) (limiter : Option RateLimiter) (cfg : TenantConfig) (phase : Phase)
    (now : Int64) : Option RateLimiter × Phase × Option Decision :=
  match phase with
  | .lookup =>
    match limiter with
    | some rl => (some rl, .use .load, none)
    | none => (none, .create, none)
  | .create =>
    match limiter with
    | some rl => (some rl, .use .load, none)
    | none => (some (tenantLimiter outside defaultLimit cfg), .use .load, none)
  | .use stage =>
    match limiter with
    | none => (none, .use stage, none)
    | some rl =>
      let (rl, next) := limiterStep outside tenant rl stage now
      match next with
      | .inl stage => (some rl, .use stage, none)
      | .inr true => (some rl, .finished, some .allowed)
      | .inr false => (some rl, .finished, some .rejected)
  | .finished => (limiter, .finished, none)

def tenantGateway (tenant : Text) : Machine Tenant Event (Option Decision) := fun s e =>
  match e with
  | .arrive (.error _) => (s, some .unauthorized)
  | .arrive (.ok (_, cfg)) =>
    if tenant = [] then (s, some .passed)
    else ({ s with requests := s.requests ++ [(cfg, .lookup)] }, none)
  | .go _ i now =>
    match s.requests[i]? with
    | none => (s, none)
    | some (cfg, phase) =>
      let (limiter, phase, decision) := tenantNext outside defaultLimit tenant s.limiter cfg phase now
      (⟨limiter, s.requests.set i (cfg, phase)⟩, decision)
end

def Point.phase : Point → Phase
  | .lookup => .lookup
  | .create => .create
  | .use _ stage => .use stage
  | .finished => .finished

def Gateway.view (tenant : Text) (s : Gateway) : Tenant :=
  ⟨s.limiters.get tenant, (s.requests tenant).map fun r => (r.1, r.2.phase)⟩

def Holds (ls : Limiters) (tenant : Text) (point : Point) : Prop :=
  ∀ a stage, point = .use a stage → ls.table tenant = some a

section
variable {outside : Float64 → Int64} {defaultLimit : TenantConfig} {ls : Limiters} {tenant : Text}
  {cfg : TenantConfig} {point : Point} {now : Int64}

theorem next_view (hpoint : Holds ls tenant point) :
    tenantNext outside defaultLimit tenant (ls.get tenant) cfg point.phase now =
      ((ls.next outside defaultLimit tenant cfg point now).1.get tenant,
        (ls.next outside defaultLimit tenant cfg point now).2.1.phase,
        (ls.next outside defaultLimit tenant cfg point now).2.2) := by
  unfold Limiters.next tenantNext
  cases point with
  | lookup =>
    cases htable : ls.table tenant with
    | none => simp [Point.phase, Limiters.get_of_none htable]
    | some a =>
      obtain ⟨rl, hrl⟩ := ls.exists_limiter htable
      simp [Point.phase, Limiters.get_of_some htable, hrl]
  | create =>
    cases htable : ls.table tenant with
    | none => simp [Point.phase, Limiters.get_of_none htable, Limiters.get_add_self]
    | some a =>
      obtain ⟨rl, hrl⟩ := ls.exists_limiter htable
      simp [Point.phase, Limiters.get_of_some htable, hrl]
  | use a stage =>
    -- the address that the request holds is the one in the table, so both machines step the same limiter
    have htable := hpoint a stage rfl
    obtain ⟨rl, hrl⟩ := ls.exists_limiter htable
    simp only [Point.phase, Limiters.get_of_some htable, hrl]
    cases hnext : (limiterStep outside tenant rl stage now).2 with
    | inl stage' => simp [Limiters.get_store_self htable]
    | inr allowed => cases allowed <;> simp [Limiters.get_store_self htable]
  | finished => rfl

theorem next_table {a : Nat} (h : ls.table tenant = some a) :
    (ls.next outside defaultLimit tenant cfg point now).1.table tenant = some a := by
  unfold Limiters.next
  cases point with
  | lookup => simp only [h]
  | create => simp only [h]
  | use a' stage =>
    dsimp only
    split
    · exact h
    · split <;> exact h
  | finished => exact h

theorem next_holds (hpoint : Holds ls tenant point) : Holds (ls.next outside defaultLimit tenant cfg point now).1 tenant
      (ls.next outside defaultLimit tenant cfg point now).2.1 := by
  intro a stage hnext
  cases point with
  | lookup =>
    cases htable : ls.table tenant with
    | none => simp [Limiters.next, htable] at hnext
    | some a' =>
      simp [Limiters.next, htable] at hnext ⊢
      exact hnext.1
  | create =>
    cases htable : ls.table tenant with
    | none =>
      simp [Limiters.next, htable] at hnext ⊢
      rw [← hnext.1]
      exact update_self tenant _ _
    | some a' =>
      simp [Limiters.next, htable] at hnext ⊢
      exact hnext.1
  | use a' stage' =>
    have htable := hpoint a' stage' rfl
    have hsame : a' = a := by
      unfold Limiters.next at hnext
      dsimp only at hnext
      split at hnext
      · cases hnext
        rfl
      · split at hnext <;> cases hnext
        rfl
    exact next_table (hsame ▸ htable)
  | finished => cases hnext

theorem next_other (hpoint : Holds ls tenant point) {other : Text} (hne : other ≠ tenant) :
    (ls.next outside defaultLimit tenant cfg point now).1.get other = ls.get other ∧
      (ls.next outside defaultLimit tenant cfg point now).1.table other = ls.table other := by
  unfold Limiters.next
  cases point with
  | lookup =>
    dsimp only
    split <;> exact ⟨rfl, rfl⟩
  | create =>
    dsimp only
    split
    · exact ⟨rfl, rfl⟩
    · exact ⟨Limiters.get_add_of_ne hne _, update_of_ne hne _ _⟩
  | use a stage =>
    have htable := hpoint a stage rfl
    dsimp only
    split
    · exact ⟨rfl, rfl⟩
    · split <;> exact ⟨Limiters.get_store_of_ne htable hne _, rfl⟩
  | finished => exact ⟨rfl, rfl⟩
end

section
variable (outside : Float64 → Int64) (defaultLimit : TenantConfig)

def AllHold (s : Gateway) : Prop := ∀ tenant, ∀ r ∈ s.requests tenant, Holds s.limiters tenant r.2

theorem allHold_newGateway : AllHold newGateway := fun _ _ hr => absurd hr not_mem_nil

variable {s : Gateway} {tenant : Text} {e : Event}

theorem AllHold.step (h : AllHold s) (e : Event) : AllHold (gateway outside defaultLimit s e).1 := by
  unfold gateway
  split
  · exact h
  · split_ifs with hempty
    · exact h
    · intro other r hr
      dsimp only at hr ⊢
      rw [update_apply] at hr
      split_ifs at hr with heq
      · rcases mem_append.1 hr with hr | hr
        · exact heq ▸ h _ r hr
        · rw [mem_singleton.1 hr]
          intro a stage hpoint
          cases hpoint
      · exact h other r hr
  · rename_i tenant i now
    split
    · exact h
    · rename_i cfg point hrequest
      have hpoint := h tenant (cfg, point) (mem_of_getElem? hrequest)
      intro other r hr
      dsimp only at hr ⊢
      rw [update_apply] at hr
      split_ifs at hr with heq
      · -- a request of the same tenant, or the one that took the step
        subst heq
        rcases mem_or_eq_of_mem_set hr with hr | rfl
        · exact fun a stage huse => next_table (h _ r hr a stage huse)
        · exact next_holds hpoint
      · -- a request of another tenant, whose address has not changed
        intro a stage huse
        rw [(next_other hpoint heq).2]
        exact h other r hr a stage huse

theorem view_own (h : AllHold s) (hmine : e.tenant = some tenant) : tenantGateway outside defaultLimit tenant
    (s.view tenant) e = ((gateway outside defaultLimit s e).1.view tenant, (gateway outside defaultLimit s e).2) := by
  cases e with
  | arrive resolved =>
    cases resolved with
    | error err => cases hmine
    | ok resolved =>
      obtain ⟨tenant, cfg⟩ := resolved
      cases hmine
      rw [tenantGateway, gateway]
      split_ifs with hempty
      · rfl
      · simp [Gateway.view, Point.phase]
  | go tenant i now =>
    cases hmine
    cases hrequest : (s.requests tenant)[i]? with
    | none => simp [tenantGateway, gateway, Gateway.view, hrequest]
    | some r =>
      obtain ⟨cfg, point⟩ := r
      have hpoint := h tenant (cfg, point) (mem_of_getElem? hrequest)
      simp [tenantGateway, gateway, Gateway.view, hrequest, next_view hpoint, map_set]

theorem view_other (h : AllHold s) (hother : e.tenant ≠ some tenant) :
    (gateway outside defaultLimit s e).1.view tenant = s.view tenant := by
  cases e with
  | arrive resolved =>
    cases resolved with
    | error err => rfl
    | ok resolved =>
      obtain ⟨tenant', cfg⟩ := resolved
      have hne : tenant ≠ tenant' := fun heq => hother (congrArg some heq.symm)
      rw [gateway]
      split_ifs with hempty
      · rfl
      · simp [Gateway.view, update_of_ne hne]
  | go tenant' i now =>
    have hne : tenant ≠ tenant' := fun heq => hother (congrArg some heq.symm)
    cases hrequest : (s.requests tenant')[i]? with
    | none => simp [gateway, hrequest]
    | some r =>
      obtain ⟨cfg, point⟩ := r
      have hpoint := h tenant' (cfg, point) (mem_of_getElem? hrequest)
      simp [gateway, hrequest, Gateway.view, update_of_ne hne, (next_other hpoint hne).1]

theorem gateway_projects (tenant : Text) :
    Machine.Projects (gateway outside defaultLimit) (tenantGateway outside defaultLimit tenant)
      (fun e => decide (e.tenant = some tenant)) AllHold (Gateway.view tenant) where
  keeps _ e h := h.step outside defaultLimit e
  own _ _ h hmine := view_own outside defaultLimit h (of_decide_eq_true hmine)
  other _ _ h hother := view_other outside defaultLimit h (of_decide_eq_false hother)

def decisions (tenant : Text) (history : List Event) : List Decision :=
  ((gateway outside defaultLimit).answersOf (fun e => decide (e.tenant = some tenant)) newGateway history).filterMap id
end

/-- Two histories with the same events of a tenant have the same decisions for it, whatever the
other tenants do in them. -/
theorem tenant_isolation (outside : Float64 → Int64) (defaultLimit : TenantConfig) (tenant : Text)
    (history history' : List Event)
    (hsame : history.filter (fun e => decide (e.tenant = some tenant)) =
      history'.filter fun e => decide (e.tenant = some tenant)) :
    decisions outside defaultLimit tenant history = decisions outside defaultLimit tenant history' :=
  congrArg (filterMap id)
    ((gateway_projects outside defaultLimit tenant).noninterference allHold_newGateway hsame)

def wholeRequest (tenant : Text) (cfg : TenantConfig) (request : Nat) (now : Int64) : List Event :=
  .arrive (.ok (tenant, cfg)) :: replicate 8 (.go tenant request now)

theorem tenant_isolation_free : let free : TenantConfig := ⟨.finite 1, 1⟩
    let others := wholeRequest "other".toList free 0 0
    let first := wholeRequest "free".toList free 0 0
    let second := wholeRequest "free".toList free 1 0
    decisions (fun _ => 0) free "free".toList (others ++ first ++ second) = [.allowed, .rejected] ∧
      decisions (fun _ => 0) free "free".toList (others ++ first ++ second) =
        decisions (fun _ => 0) free "free".toList (first ++ others ++ second) :=
  ⟨by decide +kernel, tenant_isolation _ _ _ _ _ rfl⟩

end HelixRpc.Runtime.Go.Tenants
