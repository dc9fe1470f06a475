import HelixRpc.Foundation.Lease
import HelixRpc.Foundation.Machine

/-!
# The buffer pools of the Node server

Model of `BufferPool` and of the buffers that `handleHTTP1` and `handleHTTP2` rent
(`runtimes/node/src/server.ts`).
-/

namespace HelixRpc.Runtime.Node.BufferPools

open Foundation Function

inductive Pool where
  | request
  | response
  | header
  deriving DecidableEq

inductive Instr where
  | acquire (k : Pool)
  | call
  | release (k : Pool)
  | write
  | finish
  deriving DecidableEq

/-- How a response is written: by an iterator of events, by `marshalFlatBuffers`, or as JSON that fits
a buffer of the pool or does not. -/
inductive Reply where
  | events
  | flat
  | small
  | large
  deriving DecidableEq

def rent (small : Bool) (k : Pool) : List Instr := if small then [.acquire k] else []

def http1 (smallBody : Bool) (reply : Reply) : List Instr :=
  rent smallBody .request ++ [.call, .release .request, .call, .call] ++
    if reply = .events then [.call] else rent (reply = .small) .response ++ [.call, .finish]

/-- `handleHTTP2`: the frame is decoded, `Handler`, the response is encoded, `gzipSync`, `respond`,
`write` and `end`. -/
def http2 (smallBody : Bool) (reply : Reply) (gzip : Bool) : List Instr :=
  rent smallBody .request ++ [.call, .release .request, .call, .call] ++ rent (reply = .small) .response ++
    (if gzip then [.call, .release .response] else []) ++ [.acquire .header, .call, .write, .finish]

structure Request where
  started : Bool := false
  rest : List Instr := []
  rented : Pool → Option Nat := fun _ => none
  writing : Bool := false
  ending : Bool := false
  answered : Bool := false
  failed : Bool := false

structure Server where
  pool : Pool → List Nat
  next : Pool → Nat
  requests : Nat → Request

inductive CallOutcome where
  | returns
  | throws
  | throwsPending
  deriving DecidableEq

inductive Event where
  | start (i : Nat) (program : List Instr)
  | run (i : Nat) (outcome : CallOutcome)
  | writeDone (i : Nat)
  | endDone (i : Nat)

namespace Server

variable (st : Server) (i : Nat)

def put (r : Request) : Server := { st with requests := update st.requests i r }

def push (k : Pool) (rented : Option Nat) : Server := { st with pool := update st.pool k (st.pool k ++ rented.toList) }

def acquire (k : Pool) : Nat × Server :=
  match (st.pool k).getLast? with
  | some b => (b, { st with pool := update st.pool k (st.pool k).dropLast })
  | none => (st.next k, { st with next := update st.next k (st.next k + 1) })

def fail (r : Request) : Server := { st with
    pool := fun k => st.pool k ++ (r.rented k).toList
    requests := update st.requests i { r with rest := [], failed := true } }

def run (r : Request) (instr : Instr) (outcome : CallOutcome) : Server :=
  match instr, outcome with
  | .acquire k, _ =>
    (st.acquire k).2.put i { r with rented := update r.rented k (some (st.acquire k).1) }
  | .release k, _ => (st.push k (r.rented k)).put i { r with rented := update r.rented k none }
  | .call, .returns => st.put i r
  | .write, .returns => st.put i { r with writing := true }
  | .finish, .returns => st.put i { r with ending := true }
  | .write, .throwsPending => st.fail i { r with writing := true }
  | .finish, .throwsPending => st.fail i { r with ending := true }
  | _, _ => st.fail i r

end Server

def step : Machine Server Event Unit := fun st e =>
  match e with
  | .start i program =>
    if (st.requests i).started then (st, ())
    else (st.put i { started := true, rest := program }, ())
  | .run i outcome =>
    match (st.requests i).rest with
    | [] => (st, ())
    | instr :: rest => (st.run i { st.requests i with rest } instr outcome, ())
  | .writeDone i =>
    let r := st.requests i
    if r.writing then
      ((st.push .header (r.rented .header)).put i
        { r with writing := false, rented := update r.rented .header none }, ())
    else (st, ())
  | .endDone i =>
    let r := st.requests i
    if r.ending then
      ((st.push .response (r.rented .response)).put i { r with ending := false, answered := true }, ())
    else (st, ())

def initial : Server := ⟨fun _ => List.range 10, fun _ => 10, fun _ => {}⟩

def Request.Uses (r : Request) (k : Pool) (b : Nat) : Prop :=
  r.rented k = some b ∧ ((r.rest ≠ [] ∧ r.failed = false) ∨ (k = .header ∧ r.writing = true) ∨
    (k = .response ∧ r.ending = true))

def Unshared (st : Server) : Prop := ∀ k, (st.pool k).Nodup ∧ ∀ i b, (st.requests i).Uses k b → b ∉ st.pool k

def Request.owned (r : Request) (k : Pool) : Option Nat :=
  if r.failed = true ∨ (k = .response ∧ r.answered = true) then none else r.rented k

def Ends : List Instr → Prop
  | [] => True
  | .write :: rest => rest = [.finish]
  | .finish :: rest => rest = []
  | _ :: rest => Ends rest

structure Request.WF (r : Request) : Prop where
  ends : Ends r.rest
  writing : r.writing = true → r.rest = [] ∨ r.rest = [.finish]
  last : r.ending = true ∨ r.answered = true ∨ r.failed = true → r.rest = []
  failed : r.failed = true → r.writing = false ∧ r.ending = false
  answered : r.answered = true → r.ending = false

structure Inv (st : Server) : Prop where
  leased : ∀ k, Leased (st.pool k) (fun i => (st.requests i).owned k) (st.next k)
  wf : ∀ i, (st.requests i).WF

def Allowed (st : Server) : Event → Prop
  | .start _ program =>
    (∃ smallBody reply, program = http1 smallBody reply) ∨ ∃ smallBody reply gzip, program = http2 smallBody reply gzip
  | .run i outcome => (st.requests i).rest.head? = some .write ∨ (st.requests i).rest.head? = some .finish →
      outcome = .returns
  | _ => True

theorem ends_http1 (smallBody : Bool) (reply : Reply) : Ends (http1 smallBody reply) := by
  cases smallBody <;> cases reply <;> simp [http1, rent, Ends]

theorem ends_http2 (smallBody : Bool) (reply : Reply) (gzip : Bool) : Ends (http2 smallBody reply gzip) := by
  cases smallBody <;> cases reply <;> cases gzip <;> simp [http2, rent, Ends]

theorem unshared_of_inv {st : Server} (h : Inv st) : Unshared st := by
  refine fun k => ⟨(h.leased k).nodup, fun i b huses => ?_⟩
  obtain ⟨hrented, hwhile⟩ := huses
  have hwf := h.wf i
  refine ((h.leased k).owned i b ?_).1
  have hkeeps : ¬ ((st.requests i).failed = true ∨ (k = .response ∧ (st.requests i).answered = true)) := by
    rintro (hfailed | ⟨rfl, hanswered⟩)
    · obtain ⟨hwriting, hending⟩ := hwf.failed hfailed
      simp [hfailed, hwriting, hending] at hwhile
    · have hending := hwf.answered hanswered
      have hrest := hwf.last (.inr (.inl hanswered))
      simp [hrest, hending, reduceCtorEq] at hwhile
  show (st.requests i).owned k = some b
  rw [Request.owned, if_neg hkeeps, hrented]

section
variable {st : Server} {i : Nat} {r : Request}

theorem owned_put (r : Request) (k : Pool) : (fun j => (update st.requests i r j).owned k) =
    update (fun j => (st.requests j).owned k) i (r.owned k) := by
  funext j
  by_cases hj : j = i
  · subst hj
    rw [update_self, update_self]
  · rw [update_of_ne hj, update_of_ne hj]

theorem Inv.put {pool : Pool → List Nat} {next : Pool → Nat} (h : Inv st) (hwf : r.WF)
    (hleased : ∀ k, Leased (pool k) (update (fun j => (st.requests j).owned k) i (r.owned k)) (next k)) :
    Inv ⟨pool, next, update st.requests i r⟩ := by
  refine ⟨fun k => ?_, fun j => ?_⟩
  · show Leased (pool k) (fun j => (update st.requests i r j).owned k) (next k)
    rw [owned_put]
    exact hleased k
  · show (update st.requests i r j).WF
    by_cases hj : j = i
    · subst hj
      rw [update_self]
      exact hwf
    · rw [update_of_ne hj]
      exact h.wf j

theorem Inv.same (h : Inv st) {k : Pool} (howned : r.owned k = (st.requests i).owned k) :
    Leased (st.pool k) (update (fun j => (st.requests j).owned k) i (r.owned k)) (st.next k) := by
  rw [howned, update_eq_self i (fun j => (st.requests j).owned k)]
  exact h.leased k

theorem Inv.gives (h : Inv st) {k : Pool} (howned : r.owned k = none)
    (hrented : (st.requests i).owned k = (st.requests i).rented k) :
    Leased (st.pool k ++ ((st.requests i).rented k).toList)
      (update (fun j => (st.requests j).owned k) i (r.owned k)) (st.next k) := by
  rw [howned, ← hrented]
  exact (h.leased k).giveAll i

theorem Inv.acquire (h : Inv st) (k : Pool) : Leased ((st.acquire k).2.pool k)
    (update (fun j => (st.requests j).owned k) i (some (st.acquire k).1)) ((st.acquire k).2.next k) ∧
    (st.acquire k).2.requests = st.requests ∧ ∀ k', k' ≠ k → (st.acquire k).2.pool k' = st.pool k' ∧
    (st.acquire k).2.next k' = st.next k' := by
  unfold Server.acquire
  split
  · rename_i b hlast
    obtain ⟨init, hinit⟩ := List.getLast?_eq_some_iff.1 hlast
    refine ⟨?_, rfl, fun k' hk => ⟨update_of_ne hk _ _, rfl⟩⟩
    have hleased := h.leased k
    rw [hinit] at hleased
    simp only [update_self, hinit, List.dropLast_concat]
    exact hleased.take i
  · refine ⟨?_, rfl, fun k' hk => ⟨rfl, update_of_ne hk _ _⟩⟩
    simp only [update_self]
    exact (h.leased k).fresh i

structure Request.Live (r : Request) : Prop where
  ending : r.ending = false
  answered : r.answered = false
  failed : r.failed = false

theorem Request.WF.live (hr : r.WF) (hrest : r.rest ≠ []) : r.Live := by
  refine ⟨?_, ?_, ?_⟩
  · exact Bool.eq_false_iff.2 fun h => hrest (hr.last (.inl h))
  · exact Bool.eq_false_iff.2 fun h => hrest (hr.last (.inr (.inl h)))
  · exact Bool.eq_false_iff.2 fun h => hrest (hr.last (.inr (.inr h)))

theorem Request.Live.owned (hr : r.Live) (k : Pool) : r.owned k = r.rented k := by
  simp [Request.owned, hr.failed, hr.answered]

theorem Request.Live.wf (hr : r.Live) (hends : Ends r.rest)
    (hwriting : r.writing = true → r.rest = [] ∨ r.rest = [.finish]) : r.WF := by
  refine ⟨hends, hwriting, ?_, ?_, fun _ => hr.ending⟩
  · simp [hr.ending, hr.answered, hr.failed]
  · simp [hr.failed]

theorem Inv.run {instr : Instr} {rest : List Instr} {outcome : CallOutcome} (h : Inv st)
    (hrest : (st.requests i).rest = instr :: rest) (hreturns : instr = .write ∨ instr = .finish → outcome = .returns) :
    Inv (st.run i { st.requests i with rest } instr outcome) := by
  have hwf := h.wf i
  have hlive := hwf.live (by rw [hrest]; exact List.cons_ne_nil _ _)
  have hends := hwf.ends
  rw [hrest] at hends
  -- only `end` comes while the write is pending
  have hidle : instr ≠ .finish → (st.requests i).writing = true → rest = [] ∨ rest = [.finish] := by
    intro hne hwriting
    rcases hwf.writing hwriting with hnil | hfinish
    · rw [hrest] at hnil
      cases hnil
    · rw [hrest] at hfinish
      exact absurd (List.cons.inj hfinish).1 hne
  have hfail : instr = .call → Inv (st.fail i { st.requests i with rest }) := by
    rintro rfl
    have hpending : (st.requests i).writing = false := by
      refine Bool.eq_false_iff.2 fun hwriting => ?_
      rcases hwf.writing hwriting with hnil | hfinish
      · rw [hrest] at hnil
        cases hnil
      · rw [hrest] at hfinish
        cases hfinish
    refine h.put ⟨trivial, fun _ => .inl rfl, fun _ => rfl, fun _ => ⟨hpending, hlive.ending⟩, fun _ => hlive.ending⟩ ?_
    exact fun k => h.gives rfl (hlive.owned k)
  cases instr with
  | acquire k =>
    obtain ⟨hleased, hrequests, hothers⟩ := h.acquire (i := i) k
    have hlive' : ({ st.requests i with
        rest, rented := update (st.requests i).rented k (some (st.acquire k).1) } : Request).Live :=
      ⟨hlive.ending, hlive.answered, hlive.failed⟩
    show Inv ⟨_, _, update (st.acquire k).2.requests i _⟩
    rw [hrequests]
    refine h.put (hlive'.wf hends (hidle nofun)) fun k' => ?_
    rw [hlive'.owned k']
    by_cases hk : k' = k
    · subst hk
      simp only [update_self]
      exact hleased
    · obtain ⟨hpool, hnext⟩ := hothers k' hk
      simp only [hpool, hnext, update_of_ne hk]
      exact (hlive.owned k').symm ▸ h.same (r := st.requests i) rfl
  | release k =>
    have hlive' : ({ st.requests i with rest, rented := update (st.requests i).rented k none } :
        Request).Live := ⟨hlive.ending, hlive.answered, hlive.failed⟩
    refine h.put (hlive'.wf hends (hidle nofun)) fun k' => ?_
    by_cases hk : k' = k
    · subst hk
      have hgives := h.gives (i := i) ((hlive'.owned k').trans (update_self _ _ _)) (hlive.owned k')
      simp only [Server.push, update_self]
      exact hgives
    · simp only [Server.push, update_of_ne hk]
      refine h.same ((hlive'.owned k').trans ?_)
      rw [hlive.owned k']
      exact update_of_ne hk _ _
  | call =>
    have hlive' : ({ st.requests i with rest } : Request).Live := ⟨hlive.ending, hlive.answered, hlive.failed⟩
    cases outcome with
    | returns => exact h.put (hlive'.wf hends (hidle nofun)) fun k => h.same rfl
    | throws => exact hfail rfl
    | throwsPending => exact hfail rfl
  | write =>
    obtain rfl := hreturns (.inl rfl)
    obtain rfl : rest = [.finish] := hends
    have hlive' : ({ st.requests i with rest := [.finish], writing := true } : Request).Live :=
      ⟨hlive.ending, hlive.answered, hlive.failed⟩
    exact h.put (hlive'.wf rfl fun _ => .inr rfl) fun k => h.same rfl
  | finish =>
    obtain rfl := hreturns (.inr rfl)
    obtain rfl : rest = [] := hends
    refine h.put ⟨trivial, fun _ => .inl rfl, fun _ => rfl, ?_, ?_⟩ fun k => h.same rfl
    · intro hfailed
      cases hlive.failed.symm.trans hfailed
    · intro hanswered
      cases hlive.answered.symm.trans hanswered

theorem Inv.writeDone (h : Inv st) (hwriting : (st.requests i).writing = true) :
    Inv ((st.push .header ((st.requests i).rented .header)).put i { st.requests i with
      writing := false, rented := update (st.requests i).rented .header none }) := by
  have hwf := h.wf i
  have hfailed : (st.requests i).failed = false := by
    refine Bool.eq_false_iff.2 fun hfailed => ?_
    rw [(hwf.failed hfailed).1] at hwriting
    cases hwriting
  refine h.put ⟨hwf.ends, nofun, hwf.last, fun hf => ⟨rfl, (hwf.failed hf).2⟩, hwf.answered⟩ fun k => ?_
  by_cases hk : k = .header
  · subst hk
    simp only [Server.push, update_self]
    refine h.gives ?_ ?_
    · simp [Request.owned]
    · simp [Request.owned, hfailed, reduceCtorEq]
  · simp only [Server.push, update_of_ne hk]
    refine h.same ?_
    simp only [Request.owned, update_of_ne hk]

theorem Inv.endDone (h : Inv st) (hending : (st.requests i).ending = true) :
    Inv ((st.push .response ((st.requests i).rented .response)).put i { st.requests i with
      ending := false, answered := true }) := by
  have hwf := h.wf i
  have hrest := hwf.last (.inl hending)
  have hfailed : (st.requests i).failed = false := by
    refine Bool.eq_false_iff.2 fun hfailed => ?_
    rw [(hwf.failed hfailed).2] at hending
    cases hending
  have hanswered : (st.requests i).answered = false := by
    refine Bool.eq_false_iff.2 fun hanswered => ?_
    rw [hwf.answered hanswered] at hending
    cases hending
  refine h.put ⟨hwf.ends, hwf.writing, fun _ => hrest, fun hf => ⟨(hwf.failed hf).1, rfl⟩, fun _ => rfl⟩ fun k => ?_
  by_cases hk : k = .response
  · subst hk
    simp only [Server.push, update_self]
    refine h.gives ?_ ?_
    · simp [Request.owned]
    · simp [Request.owned, hfailed, hanswered]
  · simp only [Server.push, update_of_ne hk]
    refine h.same ?_
    simp [Request.owned, hk]

theorem Inv.step (h : Inv st) (e : Event) (hallowed : Allowed st e) : Inv (BufferPools.step st e).1 := by
  cases e with
  | start i program =>
    unfold BufferPools.step
    dsimp only
    split
    · exact h
    · have hends : Ends program := by
        rcases hallowed with ⟨smallBody, reply, rfl⟩ | ⟨smallBody, reply, gzip, rfl⟩
        · exact ends_http1 smallBody reply
        · exact ends_http2 smallBody reply gzip
      refine h.put ⟨hends, nofun, nofun, nofun, nofun⟩ fun k => ?_
      rw [show ({ started := true, rest := program } : Request).owned k = none from ite_self _]
      exact (h.leased k).drop i
  | run i outcome =>
    unfold BufferPools.step
    dsimp only
    cases hrest : (st.requests i).rest with
    | nil => exact h
    | cons instr rest =>
      refine h.run hrest fun hinstr => hallowed ?_
      rw [hrest]
      exact hinstr.imp (congrArg some) (congrArg some)
  | writeDone i =>
    unfold BufferPools.step
    dsimp only
    split
    · exact h.writeDone ‹_›
    · exact h
  | endDone i =>
    unfold BufferPools.step
    dsimp only
    split
    · exact h.endDone ‹_›
    · exact h
end

theorem inv_initial : Inv initial := by
  refine ⟨fun k => ?_, fun i => ⟨trivial, nofun, nofun, nofun, nofun⟩⟩
  have hnone : (fun i => (initial.requests i).owned k) = fun _ => none := funext fun _ => ite_self _
  rw [hnone]
  exact .start _ List.nodup_range fun b hb => List.mem_range.1 hb

/-- In every interleaving of requests and callbacks in which `write` and `end` do not throw,
no buffer is twice in a pool, or in a pool while a request or a pending write uses it. -/
theorem buffers_unshared (events : List Event) (h : step.AllSteps Allowed initial events) :
    Unshared (step.after initial events) :=
  unshared_of_inv (h.invariant (fun _ e hinv hP => hinv.step e hP) inv_initial)

def runs (i n : Nat) : List Event := List.replicate n (.run i .returns)

theorem buffers_unshared_thrown :
    Unshared (step.after initial [.start 0 (http1 true .small), .run 0 .returns, .run 0 .throws]) := by
  refine buffers_unshared _ ⟨.inl ⟨true, .small, rfl⟩, ?_, ?_, trivial⟩
  · exact fun _ => rfl
  · rintro (h | h)
    all_goals cases h

theorem buffers_shared :
    let before := step.after initial (.start 0 (http2 true .small false) :: runs 0 9)
    let failed := (step before (.run 0 .throws)).1
    let later := (step failed (.writeDone 0)).1
    9 ∈ failed.pool .header ∧ (failed.requests 0).writing = true ∧ (failed.requests 0).rented .header = some 9 ∧
      ¬ (later.pool .header).Nodup := by decide

end HelixRpc.Runtime.Node.BufferPools
