import HelixRpc.Foundation.Machine
import HelixRpc.Foundation.Utf8

/-!
# The response caches of the Go, Rust and Python runtimes

Model of `CacheInterceptor` (`runtimes/go/cache.go`, `runtimes/rust/src/cache.rs`) and `MemcachedCache`
(`runtimes/python/helix_rt/cache.py`) over a memcached server: a response under way arrives later or is lost, and what
arrived may be evicted.
-/

namespace HelixRpc.Runtime.Cache

open Foundation Function List

def hexDigit (n : Nat) : UInt8 := if n < 10 then .ofNat (48 + n) else .ofNat (87 + n)

def hexEncode (bytes : Bytes) : Bytes := bytes.flatMap fun b => [hexDigit (b.toNat / 16), hexDigit (b.toNat % 16)]

theorem hexDigit_inj : ∀ m n : Fin 16, hexDigit m = hexDigit n → m = n := by decide

theorem hexEncode_injective : Injective hexEncode := by
  intro xs
  induction xs with
  | nil =>
    intro ys h
    cases ys with
    | nil => rfl
    | cons y ys => cases h
  | cons x xs ih =>
    intro ys h
    cases ys with
    | nil => cases h
    | cons y ys =>
      injection h with hhigh h
      injection h with hlow h
      have hx := x.toNat_lt
      have hy := y.toNat_lt
      have hhigh := hexDigit_inj ⟨x.toNat / 16, by omega⟩ ⟨y.toNat / 16, by omega⟩ hhigh
      have hlow := hexDigit_inj ⟨x.toNat % 16, by omega⟩ ⟨y.toNat % 16, by omega⟩ hlow
      have hxy : x.toNat = y.toNat := by
        simp only [Fin.mk.injEq] at hhigh hlow
        omega
      rw [UInt8.toNat_inj.mp hxy, ih h]

inductive Helper where
  | go
  | rust
  | python

-- A Go string holds any bytes; the other two languages have Unicode texts.
def Helper.Method : Helper → Type
  | .go => Bytes
  | .rust | .python => String

def Helper.methodBytes : (helper : Helper) → helper.Method → Bytes
  | .go, method => method
  | .rust, method | .python, method => utf8Bytes method

variable {helper : Helper} {sha256 : Bytes → Bytes}

def generateCacheKey (sha256 : Bytes → Bytes) (method : helper.Method) (payload : Bytes) : Bytes :=
  hexEncode (sha256 (helper.methodBytes method ++ payload))

structure Memcached where
  items : Bytes → Option Bytes
  underWay : List (Bytes × Bytes)

inductive Event (helper : Helper) where
  | set (method : helper.Method) (payload response : Bytes)
  | arrive (i : Nat)
  | lose (i : Nat)
  | evict (key : Bytes)

def Memcached.next (sha256 : Bytes → Bytes) : Machine Memcached (Event helper) Unit
  | s, .set method payload response =>
    (⟨s.items, s.underWay ++ [(generateCacheKey sha256 method payload, response)]⟩, ())
  | s, .arrive i =>
    match s.underWay[i]? with
    | none => (s, ())
    | some (key, response) => (⟨update s.items key (some response), s.underWay.eraseIdx i⟩, ())
  | s, .lose i => (⟨s.items, s.underWay.eraseIdx i⟩, ())
  | s, .evict key => (⟨update s.items key none, s.underWay⟩, ())

/-- A lookup that ends with an error is a miss, as is a missing item. -/
def Memcached.get (s : Memcached) (key : Bytes) (failed : Bool) : Option Bytes :=
  if failed then none else s.items key

def StoredBy (sha256 : Bytes → Bytes) (history : List (Event helper)) (key response : Bytes) : Prop :=
  ∃ method payload, .set method payload response ∈ history ∧ key = generateCacheKey sha256 method payload

structure Holds (sha256 : Bytes → Bytes) (history : List (Event helper)) (s : Memcached) : Prop where
  items : ∀ key response, s.items key = some response → StoredBy sha256 history key response
  underWay : ∀ entry ∈ s.underWay, StoredBy sha256 history entry.1 entry.2

variable {history : List (Event helper)} {s : Memcached}

theorem Holds.update (h : Holds sha256 history s) {key : Bytes} {value : Option Bytes}
    (hvalue : ∀ response, value = some response → StoredBy sha256 history key response) (other response : Bytes)
    (hother : Function.update s.items key value other = some response) : StoredBy sha256 history other response := by
  by_cases hkey : other = key
  · subst hkey
    rw [update_self] at hother
    exact hvalue response hother
  · rw [update_of_ne hkey] at hother
    exact h.items other response hother

theorem Holds.next {event : Event helper} (h : Holds sha256 history s) (hmem : event ∈ history) :
    Holds sha256 history (s.next sha256 event).1 := by
  cases event with
  | set method payload response =>
    refine ⟨h.items, fun entry hentry => ?_⟩
    rcases mem_append.mp hentry with hold | hnew
    · exact h.underWay entry hold
    · rw [mem_singleton.mp hnew]
      exact ⟨method, payload, hmem, rfl⟩
  | arrive i =>
    rw [Memcached.next]
    split
    next => exact h
    next key response hat =>
      refine ⟨h.update fun answer hanswer => ?_, fun entry hentry => h.underWay entry (mem_of_mem_eraseIdx hentry)⟩
      cases hanswer
      exact h.underWay _ (mem_of_getElem? hat)
  | lose i => exact ⟨h.items, fun entry hentry => h.underWay entry (mem_of_mem_eraseIdx hentry)⟩
  | evict key =>
    refine ⟨h.update fun answer hanswer => ?_, h.underWay⟩
    cases hanswer

def Memcached.empty : Memcached := ⟨fun _ => none, []⟩

theorem holds_empty (history : List (Event helper)) : Holds sha256 history .empty := by
  refine ⟨fun key response h => ?_, fun entry h => ?_⟩
  all_goals cases h

theorem holds_after (history : List (Event helper)) :
    Holds sha256 history ((Memcached.next sha256).after .empty history) :=
  Machine.AllSteps.invariant (fun _ _ hs hmem => hs.next hmem)
    (Machine.allSteps_of_forall_mem fun _ hmem _ => hmem) (holds_empty history)

/-! The method and the payload are hashed with nothing between them, so the end of the method is not part of the key. -/

/-- No method of the history is the beginning of `method` or begins with it, `method` itself apart. -/
def Unambiguous (history : List (Event helper)) (method : helper.Method) : Prop :=
  ∀ other payload response, .set other payload response ∈ history →
    helper.methodBytes other <+: helper.methodBytes method ∨ helper.methodBytes method <+: helper.methodBytes other →
    other = method

theorem generateCacheKey_bytes (hsha : Injective sha256) {method other : helper.Method} {payload payload' : Bytes}
    (h : generateCacheKey sha256 method payload = generateCacheKey sha256 other payload') :
    helper.methodBytes method ++ payload = helper.methodBytes other ++ payload' :=
  hsha (hexEncode_injective h)

theorem get_only_own_response (hsha : Injective sha256) (history : List (Event helper)) (method : helper.Method)
    (payload response : Bytes) (failed : Bool) (hfree : Unambiguous history method)
    (hget : ((Memcached.next sha256).after .empty history).get (generateCacheKey sha256 method payload) failed =
      some response) : .set method payload response ∈ history := by
  cases failed with
  | true => cases hget
  | false =>
    obtain ⟨other, payload', hset, hkey⟩ := (holds_after history).items _ _ hget
    have hbytes := generateCacheKey_bytes hsha hkey
    have hother : other = method := by
      refine hfree other payload' response hset (Or.symm ?_)
      exact prefix_or_prefix_of_prefix (prefix_append _ payload) (hbytes ▸ prefix_append _ payload')
    subst hother
    rwa [append_cancel_left hbytes]

theorem get_only_own_response_go :
    let history : List (Event .go) := [.set [97] [98, 99] [1], .arrive 0]
    ((Memcached.next id).after .empty history).get (@generateCacheKey .go id [97] [98, 99]) false =
      some [1] ∧ .set [97] [98, 99] [1] ∈ history := by
  intro history
  have hget : ((Memcached.next id).after .empty history).get (@generateCacheKey .go id [97] [98, 99])
      false = some [1] := by decide
  refine ⟨hget, get_only_own_response injective_id history [97] [98, 99] [1] false ?_ hget⟩
  intro other payload response hset _
  have hset := (mem_pair.mp hset).resolve_right (by intro h; cases h)
  cases hset
  rfl

theorem other_call_answered :
    let history : List (Event .go) := [.set [97] [98, 99] [1], .arrive 0]
    ((Memcached.next id).after .empty history).get (@generateCacheKey .go id [97, 98] [99]) false =
      some [1] ∧ ∀ response, .set [97, 98] [99] response ∉ history := by
  intro history
  refine ⟨by decide, fun response hset => ?_⟩
  rcases mem_pair.mp hset with h | h
  all_goals cases h

end HelixRpc.Runtime.Cache
