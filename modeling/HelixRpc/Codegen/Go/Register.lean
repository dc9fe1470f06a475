import HelixRpc.Compiler.Checker
import HelixRpc.Runtime.Go.Router

/-!
# `Register<Service>` of the generated Go code

Model of the functions that `GenerateGo` writes to register a service on a server.
-/

namespace HelixRpc.Codegen.Go

open Compiler Runtime.Go List Function

def packagePrefix (ns : String) : Text :=
  if ns = "" then "helix_example".toList else ns.toList

def methodPath (pkg : Text) (service method : String) : Text :=
  '/' :: (pkg ++ '.' :: (service.toList ++ '/' :: method.toList))

def underscored (pkg : Text) : Text := pkg.map fun ch => if ch = '.' then '_' else ch

variable (ns service method : String)

def pathDot : Text := methodPath (packagePrefix ns) service method

def pathUnderscore : Text := methodPath (underscored (packagePrefix ns)) service method

inductive Target where
  | health
  | rpc (service method : String)
  deriving DecidableEq

def newServer : MethodTable Target :=
  MethodTable.empty.registerMethod "/grpc.health.v1.Health/Check".toList .health

def registerServiceMethod (ns service : String) (server : MethodTable Target) (m : MethodNode) : MethodTable Target :=
  let dot := pathDot ns service m.name
  let underscore := pathUnderscore ns service m.name
  let server :=
    if m.restMethod ≠ "" ∧ m.restPath ≠ "" then
      server.registerRESTRoute m.restMethod.toList m.restPath.toList dot
    else server
  let server := server.registerMethod dot (.rpc service m.name)
  if dot ≠ underscore then server.registerMethod underscore (.rpc service m.name) else server

def registerService (ns : String) (server : MethodTable Target) (srv : ServiceNode) : MethodTable Target :=
  srv.methods.foldl (registerServiceMethod ns srv.name) server

variable (a : AST) (names : List String)

def registered : List ServiceNode := names.filterMap (index ServiceNode.name a.services)

def serverOf : MethodTable Target :=
  (registered a names).foldl (registerService a.ns) newServer

def routeOf (ns service : String) (m : MethodNode) : Option RESTRoute :=
  if m.restMethod ≠ "" ∧ m.restPath ≠ "" then
    some ⟨toUpper m.restMethod.toList, splitPath m.restPath.toList, pathDot ns service m.name⟩
  else none

def routesOf : List RESTRoute :=
  (registered a names).flatMap fun srv => srv.methods.filterMap (routeOf a.ns srv.name)

def grpcPaths : List Text := [pathDot ns service method, pathUnderscore ns service method]

def Declares (service method : String) : Prop :=
  ∃ srv ∈ registered a names, srv.name = service ∧ ∃ m ∈ srv.methods, m.name = method

theorem restRoutes_registerServiceMethod (ns service : String) (server : MethodTable Target) (m : MethodNode) :
    (registerServiceMethod ns service server m).restRoutes = server.restRoutes ++ (routeOf ns service m).toList := by
  have hroute : ∀ t : MethodTable Target, (if pathDot ns service m.name ≠ pathUnderscore ns service m.name then
          t.registerMethod (pathUnderscore ns service m.name) (.rpc service m.name)
        else t).restRoutes = t.restRoutes := by
    intro t
    split
    all_goals rfl
  simp only [registerServiceMethod, hroute, routeOf]
  split
  · rfl
  · simp [MethodTable.registerMethod]

theorem restRoutes_registerService (ns : String) (server : MethodTable Target) (srv : ServiceNode) :
    (registerService ns server srv).restRoutes = server.restRoutes ++ srv.methods.filterMap (routeOf ns srv.name) := by
  unfold registerService
  induction srv.methods generalizing server with
  | nil => simp
  | cons m ms ih =>
    rw [foldl_cons, ih, restRoutes_registerServiceMethod, append_assoc, filterMap_cons]
    cases routeOf ns srv.name m <;> rfl

theorem restRoutes_serverOf : (serverOf a names).restRoutes = routesOf a names := by
  have key : ∀ (srvs : List ServiceNode) (server : MethodTable Target),
      (srvs.foldl (registerService a.ns) server).restRoutes =
        server.restRoutes ++ srvs.flatMap fun srv => srv.methods.filterMap (routeOf a.ns srv.name) := by
    intro srvs
    induction srvs with
    | nil => simp
    | cons srv srvs ih =>
      intro server
      rw [foldl_cons, ih, restRoutes_registerService, append_assoc, flatMap_cons]
  exact key (registered a names) newServer

theorem methods_registerServiceMethod (ns service : String) (server : MethodTable Target) (m : MethodNode)
    (path : Text) : (registerServiceMethod ns service server m).methods path =
    if path ∈ grpcPaths ns service m.name then some (.rpc service m.name) else server.methods path := by
  have hmethods : (if m.restMethod ≠ "" ∧ m.restPath ≠ "" then
      server.registerRESTRoute m.restMethod.toList m.restPath.toList (pathDot ns service m.name)
      else server).methods = server.methods := by
    split
    all_goals rfl
  simp only [registerServiceMethod, grpcPaths, mem_cons, not_mem_nil, or_false]
  split
  · simp only [MethodTable.registerMethod, hmethods, update_apply]
    by_cases hdot : path = pathDot ns service m.name
    · simp [hdot]
    · by_cases hunderscore : path = pathUnderscore ns service m.name
      · simp [hunderscore]
      · simp [hdot, hunderscore]
  · rename_i heq
    simp [← not_not.1 heq, MethodTable.registerMethod, hmethods, update_apply]

variable {path : Text} {service method : String} {names : List String}

theorem methods_serverOf_induct {a : AST} {P : Option Target → Prop} (hnew : P (newServer.methods path))
    (hset : ∀ srv ∈ registered a names, ∀ m ∈ srv.methods, path ∈ grpcPaths a.ns srv.name m.name →
    P (some (.rpc srv.name m.name))) : P ((serverOf a names).methods path) := by
  have hservice : ∀ (srv : ServiceNode) (ms : List MethodNode) (server : MethodTable Target),
      (∀ m ∈ ms, path ∈ grpcPaths a.ns srv.name m.name → P (some (.rpc srv.name m.name))) → P (server.methods path) →
          P ((ms.foldl (registerServiceMethod a.ns srv.name) server).methods path) := by
    intro srv ms
    induction ms with
    | nil => exact fun server _ h => h
    | cons m ms ih =>
      intro server hms h
      refine ih _ (fun m' hm' => hms m' (mem_cons_of_mem _ hm')) ?_
      rw [methods_registerServiceMethod]
      split
      · exact hms m mem_cons_self ‹_›
      · exact h
  unfold serverOf
  refine foldlRecOn _ _ (motive := fun server : MethodTable Target => P (server.methods path)) hnew ?_
  intro server h srv hsrv
  exact hservice srv srv.methods server (hset srv hsrv) h

theorem declares_of_methods {a : AST} (h : (serverOf a names).methods path = some (.rpc service method)) :
    Declares a names service method ∧ path ∈ grpcPaths a.ns service method := by
  have hset : ∀ t, (serverOf a names).methods path = t → t = some (.rpc service method) →
      Declares a names service method ∧ path ∈ grpcPaths a.ns service method := by
    rintro t rfl
    refine methods_serverOf_induct (P := fun t => t = some (.rpc service method) → _) ?_ ?_
    · intro hnew
      simp only [newServer, MethodTable.registerMethod, MethodTable.empty, update_apply] at hnew
      split at hnew
      all_goals cases hnew
    · intro srv hsrv m hm hpath heq
      obtain ⟨rfl, rfl⟩ := Target.rpc.inj (Option.some.inj heq)
      exact ⟨⟨srv, hsrv, rfl, m, hm, rfl⟩, hpath⟩
  exact hset _ rfl h

theorem eq_of_append_slash {xs xs' ys ys' : Text} (h : '/' ∉ xs) (h' : '/' ∉ xs')
    (heq : xs ++ '/' :: ys = xs' ++ '/' :: ys') : xs = xs' ∧ ys = ys' := by
  have htake : ∀ {zs : Text} (rest : Text), '/' ∉ zs → (zs ++ '/' :: rest).takeWhile (· ≠ '/') = zs := by
    intro zs rest hzs
    have hne : ∀ ch ∈ zs, decide (ch ≠ '/') = true := by
      intro ch hch
      exact decide_eq_true (ne_of_mem_of_not_mem hch hzs)
    rw [takeWhile_append_of_pos hne, takeWhile_cons_of_neg (by simp), append_nil]
  have hxs : xs = xs' := by rw [← htake ys h, heq, htake ys' h']
  subst hxs
  exact ⟨rfl, (cons.inj (append_cancel_left heq)).2⟩

theorem methodPath_inj {pkg pkg' : Text} (hlength : pkg.length = pkg'.length) {service' method' : String}
    (h : '/' ∉ service.toList) (h' : '/' ∉ service'.toList)
    (heq : methodPath pkg service method = methodPath pkg' service' method') :
    pkg = pkg' ∧ service = service' ∧ method = method' := by
  obtain ⟨hpkg, hrest⟩ := append_inj (cons.inj heq).2 hlength
  obtain ⟨hservice, hmethod⟩ := eq_of_append_slash h h' (cons.inj hrest).2
  exact ⟨hpkg, String.toList_inj.1 hservice, String.toList_inj.1 hmethod⟩

theorem grpcPaths_inj {ns service' method' : String} (h : '/' ∉ service.toList) (h' : '/' ∉ service'.toList)
    (hpath : path ∈ grpcPaths ns service method) (hpath' : path ∈ grpcPaths ns service' method') :
    service = service' ∧ method = method' := by
  have hlength : (packagePrefix ns).length = (underscored (packagePrefix ns)).length := (length_map _).symm
  simp only [grpcPaths, mem_cons, not_mem_nil, or_false] at hpath hpath'
  rcases hpath with rfl | rfl
  · rcases hpath' with heq | heq
    · exact (methodPath_inj rfl h h' heq).2
    · exact (methodPath_inj hlength h h' heq).2
  · rcases hpath' with heq | heq
    · exact (methodPath_inj hlength.symm h h' heq).2
    · exact (methodPath_inj rfl h h' heq).2

/-- The names of the registered services have no slash; every name that the parsers read is such. -/
def PlainServices (a : AST) (names : List String) : Prop := ∀ srv ∈ registered a names, '/' ∉ srv.name.toList

instance (a : AST) (names : List String) : Decidable (PlainServices a names) :=
  inferInstanceAs (Decidable (∀ srv ∈ registered a names, '/' ∉ srv.name.toList))

theorem methods_serverOf_iff {a : AST} (hplain : PlainServices a names) : (serverOf a names).methods path =
    some (.rpc service method) ↔ Declares a names service method ∧ path ∈ grpcPaths a.ns service method := by
  constructor
  · exact declares_of_methods
  · rintro ⟨⟨srv, hsrv, rfl, m, hm, rfl⟩, hpath⟩
    -- after this method's registration only its own path registers again
    have hafter : ∀ (ms : List MethodNode) (srv' : ServiceNode), srv' ∈ registered a names →
        ∀ server : MethodTable Target, server.methods path = some (.rpc srv.name m.name) →
          (ms.foldl (registerServiceMethod a.ns srv'.name) server).methods path = some (.rpc srv.name m.name) := by
      intro ms srv' hsrv' server hserver
      refine foldlRecOn ms _ (motive := fun server : MethodTable Target =>
        server.methods path = some (.rpc srv.name m.name)) hserver ?_
      intro server hserver m' _
      rw [methods_registerServiceMethod]
      split
      · obtain ⟨hname, hmethod⟩ := grpcPaths_inj (hplain srv' hsrv') (hplain srv hsrv) ‹_› hpath
        rw [hname, hmethod]
      · exact hserver
    have hin : ∀ (ms : List MethodNode), m ∈ ms → ∀ server : MethodTable Target,
        (ms.foldl (registerServiceMethod a.ns srv.name) server).methods path = some (.rpc srv.name m.name) := by
      intro ms hms server
      obtain ⟨pre, post, rfl⟩ := append_of_mem hms
      rw [foldl_append, foldl_cons]
      refine hafter post srv hsrv _ ?_
      rw [methods_registerServiceMethod, if_pos hpath]
    unfold serverOf
    obtain ⟨pre, post, hsplit⟩ := append_of_mem hsrv
    rw [hsplit, foldl_append, foldl_cons]
    refine foldlRecOn post _ (motive := fun server : MethodTable Target =>
      server.methods path = some (.rpc srv.name m.name)) (hin srv.methods hm _) ?_
    intro server hserver srv' hsrv'
    exact hafter srv'.methods srv' (hsplit ▸ mem_append_right _ (mem_cons_of_mem _ hsrv')) server hserver

end HelixRpc.Codegen.Go
