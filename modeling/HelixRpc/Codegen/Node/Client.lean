import HelixRpc.Codegen.Go.Register

/-!
# Generated Node clients and generated Go servers

Model of the request that a method of a generated TypeScript client sends (`GenerateNode`), for unary and for
streaming methods.
-/

namespace HelixRpc.Codegen.Node

open Compiler Runtime.Go Codegen.Go List Option

structure ClientRequest where
  verb : Text
  path : Text
  contentType : Text
  accept : Option Text
  deriving DecidableEq

variable (service : String) (m : MethodNode)

def clientPath : Text :=
  if m.restPath = "" then "/v1.".toList ++ (service.toList ++ '/' :: m.name.toList)
  else m.restPath.toList

def clientRequest : ClientRequest :=
  if m.serverStreaming then
    ⟨"POST".toList, clientPath service m, "application/json".toList, some "text/event-stream".toList⟩
  else ⟨"POST".toList, clientPath service m, "application/json".toList, none⟩

/-- The request of a client is dispatched to its method, with the parameters of the path bound to the
values of the request. -/
def Reaches (url : Text → Text) (a : AST) (names : List String) (service : String) (m : MethodNode)
    (values : Text → Text) : Prop :=
  ∃ params, (serverOf a names).dispatch (clientRequest service m).verb
      (url (clientRequest service m).path) = some (.rpc service m.name, params) ∧
    ∀ name ∈ paramNames (splitPath m.restPath.toList), paramValue params name = some (values name)

section
variable {a : AST} {names : List String} {srv : ServiceNode} {m : MethodNode}

end

end HelixRpc.Codegen.Node
