import HelixRpc.Foundation.Machine
import HelixRpc.Runtime.Go.Router
import Mathlib.Data.List.Count

/-!
# The connection pool of the Go client

Model of `ClientConnPool` (`runtimes/go/client_pool.go`).
-/

namespace HelixRpc.Runtime.Go.Pool

open Foundation List
variable (addr : Text)

def hasUnixPrefix : Bool := decide (7 ≤ addr.length) && decide (addr.take 7 = "unix://".toList)

def stripUnixPrefix : Text := if hasUnixPrefix addr then addr.drop 7 else addr

def dialTarget : Text × Text :=
  if hasUnixPrefix addr ∨ addr.head? = some '/' ∨ addr.head? = some '.' then
    ("unix".toList, stripUnixPrefix addr)
  else ("tcp".toList, addr)

abbrev Dialer := Text × Text → Option Text

structure ClientConnPool where
  addr : Text
  maxIdle : Nat
  conns : List Nat
  channelClosed : Bool

structure System where
  pool : ClientConnPool
  held : List Nat
  closed : List Nat
  fresh : Nat

def newClientConnPool (maxIdle : Nat) : System := ⟨⟨addr, maxIdle, [], false⟩, [], [], 0⟩

inductive PoolAnswer where
  | got (conn : Option Nat) (err : Option Text)
  | returned
  | panicked
  deriving DecidableEq

namespace System

variable (s : System)

def get (dial : Dialer) : System × PoolAnswer :=
  match s.pool.conns with
  | conn :: conns =>
    ({ s with pool := { s.pool with conns := conns }, held := conn :: s.held }, .got (some conn) none)
  | [] =>
    -- a closed channel gives its zero value
    if s.pool.channelClosed then (s, .got none none)
    else
      match dial (dialTarget s.pool.addr) with
      | some err => (s, .got none (some err))
      | none => ({ s with held := s.fresh :: s.held, fresh := s.fresh + 1 }, .got (some s.fresh) none)

def put : Option Nat → System × PoolAnswer
  | none => (s, .returned)
  | some conn =>
    if s.pool.channelClosed then (s, .panicked)
    else if s.pool.conns.length < s.pool.maxIdle then
      ({ s with pool := { s.pool with conns := s.pool.conns ++ [conn] }, held := s.held.erase conn }, .returned)
    else ({ s with held := s.held.erase conn, closed := conn :: s.closed }, .returned)

def close : System × PoolAnswer :=
  if s.pool.channelClosed then (s, .panicked)
  else
    ({ s with
        pool := { s.pool with conns := [], channelClosed := true }
        closed := s.pool.conns ++ s.closed }, .returned)

end System

inductive PoolCall where
  | get (dial : Dialer)
  | put (conn : Option Nat)
  | close

def pool : Machine System PoolCall PoolAnswer := fun s call =>
  match call with
  | .get dial => s.get dial
  | .put conn => s.put conn
  | .close => s.close

inductive PoolStep (s : System) : PoolCall → System → PoolAnswer → Prop where
  | reuse {conn : Nat} {conns : List Nat} (dial : Dialer) (hconns : s.pool.conns = conn :: conns) :
      PoolStep s (.get dial) { s with pool := { s.pool with conns := conns }, held := conn :: s.held }
        (.got (some conn) none)
  | zero (dial : Dialer) (hclosed : s.pool.channelClosed = true) : PoolStep s (.get dial) s (.got none none)
  | failed (dial : Dialer) (err : Text) (hopen : s.pool.channelClosed = false) :
      PoolStep s (.get dial) s (.got none (some err))
  | dialed (dial : Dialer) (hopen : s.pool.channelClosed = false) :
      PoolStep s (.get dial) { s with held := s.fresh :: s.held, fresh := s.fresh + 1 }
        (.got (some s.fresh) none)
  | nothing : PoolStep s (.put none) s .returned
  | sendClosed (conn : Nat) (hclosed : s.pool.channelClosed = true) : PoolStep s (.put (some conn)) s .panicked
  | idle (conn : Nat) (hopen : s.pool.channelClosed = false) : PoolStep s (.put (some conn))
        { s with pool := { s.pool with conns := s.pool.conns ++ [conn] }, held := s.held.erase conn } .returned
  | full (conn : Nat) (hopen : s.pool.channelClosed = false) :
      PoolStep s (.put (some conn)) { s with held := s.held.erase conn, closed := conn :: s.closed } .returned
  | closeAgain (hclosed : s.pool.channelClosed = true) : PoolStep s .close s .panicked
  | close (hopen : s.pool.channelClosed = false) : PoolStep s .close
        { s with
          pool := { s.pool with conns := [], channelClosed := true }
          closed := s.pool.conns ++ s.closed } .returned

variable (s : System)

theorem pool_cases (call : PoolCall) : PoolStep s call (pool s call).1 (pool s call).2 := by
  cases call with
  | get dial =>
    change PoolStep s _ (s.get dial).1 (s.get dial).2
    unfold System.get
    cases hconns : s.pool.conns with
    | cons conn conns => exact .reuse dial hconns
    | nil =>
      cases hclosed : s.pool.channelClosed with
      | true => exact .zero dial hclosed
      | false =>
        simp only [Bool.false_eq_true, if_false]
        cases dial (dialTarget s.pool.addr) with
        | some err => exact .failed dial err hclosed
        | none => exact .dialed dial hclosed
  | put conn =>
    cases conn with
    | none => exact .nothing
    | some conn =>
      change PoolStep s _ (s.put (some conn)).1 (s.put (some conn)).2
      unfold System.put
      cases hclosed : s.pool.channelClosed with
      | true => exact .sendClosed conn hclosed
      | false =>
        simp only [Bool.false_eq_true, if_false]
        split_ifs
        · exact .idle conn hclosed
        · exact .full conn hclosed
  | close =>
    change PoolStep s _ s.close.1 s.close.2
    unfold System.close
    cases hclosed : s.pool.channelClosed with
    | true => exact .closeAgain hclosed
    | false => exact .close hclosed

def System.places (conn : Nat) : Nat := s.held.count conn + s.pool.conns.count conn + s.closed.count conn

def Accounted : Prop := ∀ conn, s.places conn = if conn < s.fresh then 1 else 0

def Holds : PoolCall → Prop
  | .put (some conn) => conn ∈ s.held
  | _ => True

def Drained : Prop := s.pool.channelClosed = true → s.pool.conns = []

section
variable {s s' : System} {call : PoolCall} {answer : PoolAnswer}

theorem count_erase_add {held : List Nat} {conn : Nat} (h : conn ∈ held) (c : Nat) :
    (held.erase conn).count c + (if conn = c then 1 else 0) = held.count c := by
  by_cases heq : conn = c
  · subst heq
    have hpos : 0 < held.count conn := count_pos_iff.2 h
    rw [count_erase_self, if_pos rfl]
    omega
  · rw [count_erase_of_ne (Ne.symm heq), if_neg heq, Nat.add_zero]

theorem Accounted.step (h : Accounted s) (hholds : Holds s call) (hstep : PoolStep s call s' answer) :
    Accounted s' := by
  intro c
  have hc := h c
  cases hstep with
  | reuse dial hconns =>
    simp only [System.places, hconns, count_cons] at hc ⊢
    omega
  | dialed dial hopen =>
    simp only [System.places, count_cons, beq_iff_eq] at hc ⊢
    split_ifs at hc ⊢ <;> omega
  | idle conn hopen =>
    have herase := count_erase_add hholds c
    simp only [System.places, count_append, count_singleton, beq_iff_eq] at hc ⊢
    omega
  | full conn hopen =>
    have herase := count_erase_add hholds c
    simp only [System.places, count_cons, beq_iff_eq] at hc ⊢
    omega
  | close hopen =>
    simp only [System.places, count_append, count_nil] at hc ⊢
    omega
  | _ => exact hc

theorem Drained.step (h : Drained s) (hstep : PoolStep s call s' answer) : Drained s' := by
  cases hstep with
  | reuse dial hconns =>
    intro hclosed
    rw [h hclosed] at hconns
    cases hconns
  | dialed dial hopen => exact h
  | idle conn hopen => exact fun hclosed => absurd (hopen.symm.trans hclosed) (by decide)
  | full conn hopen => exact h
  | close hopen => exact fun _ => rfl
  | _ => exact h

theorem PoolStep.channelClosed (hstep : PoolStep s call s' answer) :
    s'.pool.channelClosed = true ↔ s.pool.channelClosed = true ∨ call = .close := by
  cases hstep with
  | closeAgain hclosed => simp [hclosed]
  | close hopen => simp
  | _ => simp
end

/-- A call with which nothing is wrong: no panic, no nil connection without an error, what is put back into a closed
pool is closed, and afterwards every connection is in one place. -/
structure Fine (s : System) (call : PoolCall) : Prop where
  noPanic : (pool s call).2 ≠ .panicked
  noNil : (pool s call).2 ≠ .got none none
  closed : ∀ conn, call = .put (some conn) → s.pool.channelClosed = true → conn ∈ (pool s call).1.closed
  places : Accounted (pool s call).1

def Unused (s : System) (call : PoolCall) : Prop := s.pool.channelClosed = true → call = .put none

theorem fine_iff_unused {s : System} {call : PoolCall} (hdrained : Drained s) (haccounted : Accounted s)
    (hholds : Holds s call) : Fine s call ↔ Unused s call := by
  have hstep := pool_cases s call
  have hplaces := haccounted.step hholds hstep
  constructor
  · intro hfine hclosed
    have hpanic := hfine.noPanic
    have hnil := hfine.noNil
    generalize (pool s call).2 = answer at hstep hpanic hnil
    generalize (pool s call).1 = s' at hstep
    cases hstep with
    | reuse dial hconns =>
      rw [hdrained hclosed] at hconns
      cases hconns
    | zero => exact absurd rfl hnil
    | nothing => rfl
    | sendClosed => exact absurd rfl hpanic
    | closeAgain => exact absurd rfl hpanic
    | failed _ _ hopen => exact absurd (hopen.symm.trans hclosed) (by decide)
    | dialed _ hopen => exact absurd (hopen.symm.trans hclosed) (by decide)
    | idle _ hopen => exact absurd (hopen.symm.trans hclosed) (by decide)
    | full _ hopen => exact absurd (hopen.symm.trans hclosed) (by decide)
    | close hopen => exact absurd (hopen.symm.trans hclosed) (by decide)
  · intro hunused
    refine ⟨?_, ?_, fun conn hput hclosed => ?_, hplaces⟩
    · intro hpanic
      rw [hpanic] at hstep
      generalize (pool s call).1 = s' at hstep
      cases hstep with
      | sendClosed _ hclosed => cases hunused hclosed
      | closeAgain hclosed => cases hunused hclosed
    · intro hnil
      rw [hnil] at hstep
      generalize (pool s call).1 = s' at hstep
      cases hstep with
      | zero _ hclosed => cases hunused hclosed
    · rw [hput] at hunused
      cases hunused hclosed

def LifeCycle (addr : Text) (maxIdle : Nat) (calls : List PoolCall) : Prop :=
  pool.AllSteps Fine (newClientConnPool addr maxIdle) calls

def NothingAfterClose (calls : List PoolCall) : Prop :=
  ∀ earlier call later, calls = earlier ++ call :: later → PoolCall.close ∈ earlier → call = .put none

theorem channelClosed_after_iff {s : System} {calls : List PoolCall} : (pool.after s calls).pool.channelClosed = true ↔
      s.pool.channelClosed = true ∨ PoolCall.close ∈ calls := by
  induction calls generalizing s with
  | nil => simp
  | cons call calls ih =>
    rw [Machine.after_cons, ih, (pool_cases s call).channelClosed, or_assoc, mem_cons, eq_comm (a := call)]

/-- For callers that put back what they hold: no call panics, no nil connection comes without an error, every
connection is in one place, and what is put back after `Close` is closed, exactly if the pool is not used after
`Close`. -/
theorem lifeCycle_iff (addr : Text) (maxIdle : Nat) (calls : List PoolCall)
    (h : pool.AllSteps Holds (newClientConnPool addr maxIdle) calls) :
    LifeCycle addr maxIdle calls ↔ NothingAfterClose calls := by
  have hstart : Drained (newClientConnPool addr maxIdle) ∧ Accounted (newClientConnPool addr maxIdle) :=
    ⟨fun _ => rfl, fun _ => rfl⟩
  -- the condition on one call holds with its hypotheses in every state of the run
  have hcalls : LifeCycle addr maxIdle calls ↔ pool.AllSteps Unused (newClientConnPool addr maxIdle) calls := by
    unfold LifeCycle
    generalize newClientConnPool addr maxIdle = s at h hstart
    induction calls generalizing s with
    | nil => exact Iff.rfl
    | cons call calls ih =>
      have hstep := pool_cases s call
      refine and_congr (fine_iff_unused hstart.1 hstart.2 h.1) (ih _ h.2 ?_)
      exact ⟨hstart.1.step hstep, hstart.2.step h.1 hstep⟩
  rw [hcalls, Machine.allSteps_iff]
  refine forall_congr' fun earlier => forall_congr' fun call => forall_congr' fun later =>
    imp_congr_right fun _ => ?_
  unfold Unused
  rw [channelClosed_after_iff]
  simp [newClientConnPool]

def connects : Dialer := fun _ => none

theorem lifeCycle_iff_reused : let calls := [PoolCall.get connects, .put (some 0), .get connects, .put (some 0), .close]
    pool.AllSteps Holds (newClientConnPool "localhost:8080".toList 1) calls ∧
      (LifeCycle "localhost:8080".toList 1 calls ↔ NothingAfterClose calls) := by
  intro calls
  have hholds : pool.AllSteps Holds (newClientConnPool "localhost:8080".toList 1) calls :=
    ⟨trivial, mem_cons_self, trivial, mem_cons_self, trivial, trivial⟩
  exact ⟨hholds, lifeCycle_iff _ _ calls hholds⟩

theorem pool_used_after_close : let calls := [PoolCall.get connects, .close, .get connects, .put (some 0), .close]
    let start := newClientConnPool "localhost:8080".toList 1
    (pool.AllSteps Holds start calls ∧
        pool.answers start calls = [.got (some 0) none, .returned, .got none none, .panicked, .panicked] ∧
        0 ∉ (pool.after start calls).closed) ∧ ¬ LifeCycle "localhost:8080".toList 1 calls := by
  intro calls start
  refine ⟨⟨⟨trivial, trivial, trivial, mem_cons_self, trivial, trivial⟩, rfl, not_mem_nil⟩, ?_⟩
  rintro ⟨-, -, hget, -⟩
  exact hget.noNil rfl

end HelixRpc.Runtime.Go.Pool
