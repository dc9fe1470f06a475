import HelixRpc.Foundation.Machine
import Mathlib.Logic.Basic

/-!
# The Kubernetes operator

Model of `Reconcile`, `deploymentForHelix` and `hasEBPFMount`
(`integrations/helix-operator/internal/controller/helixservice_controller.go`).
-/

namespace HelixRpc.Operator

open Foundation Option

structure HelixServiceSpec where
  replicas : Option (BitVec 32)
  image : String
  enableEBPFBypass : Bool
  vaultSecretPath : String
  deriving DecidableEq

structure Volume where
  name : String
  hostPath : String
  deriving DecidableEq

structure VolumeMount where
  name : String
  mountPath : String
  deriving DecidableEq

structure Deployment where
  replicas : BitVec 32
  annotations : List (String × String)
  image : String
  volumes : List Volume
  volumeMounts : List VolumeMount
  privileged : Option Bool
  deriving DecidableEq

def deploymentForHelix (m : HelixServiceSpec) : Deployment where
  replicas := m.replicas.getD 1
  annotations :=
    if m.vaultSecretPath ≠ "" then
      [("vault.hashicorp.com/agent-inject", "true"), ("vault.hashicorp.com/role", "helix-role"),
        ("vault.hashicorp.com/agent-inject-secret-helix-secrets.json", m.vaultSecretPath)]
    else []
  image := m.image
  volumes := if m.enableEBPFBypass then [⟨"sys-fs-bpf", "/sys/fs/bpf"⟩] else []
  volumeMounts := if m.enableEBPFBypass then [⟨"sys-fs-bpf", "/sys/fs/bpf"⟩] else []
  privileged := if m.enableEBPFBypass then some true else none

def hasEBPFMount (dep : Deployment) : Bool := dep.volumes.any fun v => v.name = "sys-fs-bpf"

inductive Call where
  | getService
  | setControllerReference
  | getDeployment
  | create
  | update
  deriving DecidableEq

inductive Result where
  | error
  | done
  | requeue
  deriving DecidableEq

structure Store where
  service : Option HelixServiceSpec
  deployment : Option Deployment
  deriving DecidableEq

def reconcile (st : Store) (fails : Call → Bool) : Store × Result :=
  if fails .getService then (st, .error)
  else
    match st.service with
    | none => (st, .done)
    | some helix =>
      let dep := deploymentForHelix helix
      if fails .setControllerReference || fails .getDeployment then (st, .error)
      else
        match st.deployment with
        | none => if fails .create then (st, .error) else ({ st with deployment := some dep }, .requeue)
        | some found =>
          if helix.enableEBPFBypass && !hasEBPFMount found then
            if fails .update then (st, .error) else ({ st with deployment := some dep }, .done)
          else (st, .done)

inductive Event where
  | edit (spec : HelixServiceSpec)
  | delete
  | reconcile (fails : Call → Bool)

def step : Machine Store Event (Option Result) := fun st e =>
  match e with
  | .edit spec => ({ st with service := some spec }, none)
  | .delete => ({ st with service := none }, none)
  | .reconcile fails => ((reconcile st fails).1, some (reconcile st fails).2)

def Repairs (spec : HelixServiceSpec) (found : Deployment) : Prop :=
  spec.enableEBPFBypass = true ∧ hasEBPFMount found = false

/-- The edits that `Reconcile` sees: they leave the deployment as it is, or switch the bypass on. -/
def Noticed (old new : HelixServiceSpec) : Prop :=
  deploymentForHelix new = deploymentForHelix old ∨ (old.enableEBPFBypass = false ∧ new.enableEBPFBypass = true)

def Allowed (st : Store) : Event → Prop
  | .edit new => ∀ d ∈ st.deployment, ∃ old, st.service = some old ∧ Noticed old new
  | .delete => st.deployment = none
  | .reconcile _ => True

def Tracked (st : Store) : Prop :=
  ∀ d ∈ st.deployment, ∃ spec, st.service = some spec ∧ (d = deploymentForHelix spec ∨ Repairs spec d)

theorem hasEBPFMount_deploymentForHelix (m : HelixServiceSpec) :
    hasEBPFMount (deploymentForHelix m) = m.enableEBPFBypass := by
  unfold hasEBPFMount deploymentForHelix
  cases m.enableEBPFBypass <;> rfl

theorem bypass_eq_of_deployment_eq {m m' : HelixServiceSpec} (h : deploymentForHelix m = deploymentForHelix m') :
    m.enableEBPFBypass = m'.enableEBPFBypass := by
  rw [← hasEBPFMount_deploymentForHelix, h, hasEBPFMount_deploymentForHelix]

theorem Noticed.tracked {old new : HelixServiceSpec} {d : Deployment} (h : Noticed old new)
    (hd : d = deploymentForHelix old ∨ Repairs old d) : d = deploymentForHelix new ∨ Repairs new d := by
  rcases h with heq | ⟨hoff, hon⟩
  · rcases hd with rfl | ⟨hbypass, hmount⟩
    · exact .inl heq.symm
    · exact .inr ⟨(bypass_eq_of_deployment_eq heq).trans hbypass, hmount⟩
  · rcases hd with rfl | ⟨hbypass, -⟩
    · exact .inr ⟨hon, (hasEBPFMount_deploymentForHelix old).trans hoff⟩
    · rw [hoff] at hbypass
      cases hbypass

theorem reconcile_spec {st : Store} (fails : Call → Bool) (h : Tracked st) : Tracked (reconcile st fails).1 ∧
    (reconcile st fails).1.service = st.service ∧ ((reconcile st fails).2 = .done → ∀ helix, st.service = some helix →
    (reconcile st fails).1.deployment = some (deploymentForHelix helix)) := by
  unfold reconcile
  split
  · exact ⟨h, rfl, nofun⟩
  split
  · rename_i hservice
    exact ⟨h, rfl, fun _ helix hsome => by rw [hservice] at hsome; cases hsome⟩
  rename_i helix hservice
  have own : Tracked { st with deployment := some (deploymentForHelix helix) } := by
    intro d hd
    cases hd
    exact ⟨helix, hservice, .inl rfl⟩
  have same : ∀ helix', st.service = some helix' → some (deploymentForHelix helix) = some (deploymentForHelix helix') := by
    intro helix' hsome
    obtain rfl := some.inj (hservice.symm.trans hsome)
    rfl
  split
  · exact ⟨h, rfl, nofun⟩
  split
  · split
    · exact ⟨h, rfl, nofun⟩
    · exact ⟨own, rfl, nofun⟩
  · rename_i found hfound
    split
    · split
      · exact ⟨h, rfl, nofun⟩
      · exact ⟨own, rfl, fun _ => same⟩
    · rename_i hkeep
      -- without an update the deployment that was found is the one of the service
      obtain ⟨helix', hservice', hd⟩ := h found hfound
      obtain rfl := some.inj (hservice.symm.trans hservice')
      rcases hd with rfl | ⟨hbypass, hmount⟩
      · exact ⟨h, rfl, fun _ helix' hsome => hfound.trans (same helix' hsome)⟩
      · rw [hbypass, hmount] at hkeep
        exact absurd rfl hkeep

theorem Tracked.step {st : Store} (e : Event) (h : Tracked st) (hallowed : Allowed st e) :
    Tracked (Operator.step st e).1 := by
  cases e with
  | edit new =>
    intro d hd
    obtain ⟨old, hservice, hnoticed⟩ := hallowed d hd
    obtain ⟨old', hservice', hown⟩ := h d hd
    obtain rfl := some.inj (hservice.symm.trans hservice')
    exact ⟨new, rfl, hnoticed.tracked hown⟩
  | delete =>
    intro d hd
    rw [show (Operator.step st .delete).1.deployment = none from hallowed] at hd
    cases hd
  | reconcile fails => exact (reconcile_spec fails h).1

/-- After every history whose edits `Reconcile` notices, a call that succeeds without
a requeue leaves the deployment of the current service. -/
theorem reconcile_converges (events : List Event) (fails : Call → Bool) (helix : HelixServiceSpec)
    (hallowed : step.AllSteps Allowed ⟨none, none⟩ events)
    (hservice : (step.after ⟨none, none⟩ events).service = some helix)
    (hdone : (reconcile (step.after ⟨none, none⟩ events) fails).2 = .done) :
    (reconcile (step.after ⟨none, none⟩ events) fails).1.deployment = some (deploymentForHelix helix) :=
  (reconcile_spec fails (hallowed.invariant (fun _ e h hP => h.step e hP) nofun)).2.2 hdone helix hservice

def webSpec (image : String) (enableEBPFBypass : Bool) : HelixServiceSpec := ⟨none, image, enableEBPFBypass, ""⟩

def succeeds : Event := .reconcile fun _ => false

theorem reconcile_converges_bypass :
    (reconcile (step.after ⟨none, none⟩ [.edit (webSpec "web:1" false), succeeds, .edit (webSpec "web:2" true)])
      fun _ => false).1.deployment = some (deploymentForHelix (webSpec "web:2" true)) := by
  refine reconcile_converges _ _ _ ⟨nofun, trivial, ?_, trivial⟩ rfl rfl
  intro d _
  exact ⟨webSpec "web:1" false, rfl, .inr ⟨rfl, rfl⟩⟩

theorem reconcile_ignores_edits :
    let before := step.after ⟨none, none⟩ [.edit (webSpec "web:1" true), succeeds, .edit (webSpec "web:2" false)]
    (reconcile before fun _ => false).2 = .done ∧
      (reconcile before fun _ => false).1.deployment = some (deploymentForHelix (webSpec "web:1" true)) ∧
      deploymentForHelix (webSpec "web:1" true) ≠ deploymentForHelix (webSpec "web:2" false) := by decide

end HelixRpc.Operator
