import HelixRpc.Codegen.Go.Register

/-!
# Endpoints and schema upgrades

The endpoint of a method is made of the package, the service, the method and the HTTP annotation.
-/

namespace HelixRpc.Codegen.Go

open Compiler Runtime.Go

theorem Declares.extends {old new : AST} (h : Extends old new) {names : List String} {service method : String}
    (hdecl : Declares old names service method) : Declares new names service method := by
  obtain ⟨srv, hsrv, rfl, m, hm, rfl⟩ := hdecl
  obtain ⟨name, hname, hindex⟩ := List.mem_filterMap.1 hsrv
  obtain ⟨srv', hindex', hextends⟩ := h.services name srv hindex
  obtain ⟨x, hx⟩ := exists_index_of_mem MethodNode.name hm
  obtain ⟨m', hm', -⟩ := hextends m.name x hx
  have hsame : srv'.name = srv.name := (key_of_index _ hindex').trans (key_of_index _ hindex).symm
  exact ⟨srv', List.mem_filterMap.2 ⟨name, hname, hindex'⟩, hsame, m', mem_of_index _ hm', key_of_index _ hm'⟩

end HelixRpc.Codegen.Go
