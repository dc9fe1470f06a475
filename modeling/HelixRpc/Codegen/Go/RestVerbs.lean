import HelixRpc.Codegen.Go.Register
import HelixRpc.Compiler.ProtoParser
import HelixRpc.Compiler.Words
import HelixRpc.Runtime.Go.Sniffer

/-!
# REST verbs from the schema to the method

`ParseProto` takes any identifier for the verb of an HTTP annotation, and `RegisterRESTRoute` registers it in upper
case.
-/

set_option autoImplicit false
set_option maxRecDepth 2000

namespace HelixRpc.Codegen.Go

open Compiler Foundation Runtime.Go List
universe u

def toBytes (t : Text) : Bytes := t.map fun ch => UInt8.ofNat ch.toNat

def ofBytes (bs : Bytes) : Text := bs.map fun b => Char.ofNat b.toNat

/-- A plain HTTP/1.1 request: the verb, the request target, and the version with all that follows. -/
def requestBytes (verb : Text) (target rest : Bytes) : Bytes :=
  toBytes verb ++ 0x20 :: (target ++ 0x20 :: rest)

def requestLine (stream : Bytes) : Text × Bytes :=
  (ofBytes (stream.takeWhile (· ≠ 0x20)), (stream.dropWhile (· ≠ 0x20)).tail.takeWhile (· ≠ 0x20))

/-- The method that the first request of a connection is dispatched to. -/
def serveRoute {μ : Type u} (pathOf : Bytes → Text) (t : MethodTable μ) :
    Runtime.Go.Route → Option (μ × Params)
  | .http c => t.dispatch (requestLine c.stream).1 (pathOf (requestLine c.stream).2)
  | _ => none

structure IsVerb (verb : Text) : Prop where
  ascii : ∀ ch ∈ verb, ch.toNat < 128
  noSpace : ' ' ∉ verb
  start : ∃ ch rest, verb = ch :: rest ∧ 65 ≤ ch.toNat

theorem ascii_of_all {t : Text} (h : t.all (fun ch => decide (ch.toNat < 128)) = true) :
    ∀ ch ∈ t, ch.toNat < 128 := fun ch hch => of_decide_eq_true (all_eq_true.1 h ch hch)

variable {ch : Char} {verb : Text}

theorem forall_ascii {P : Char → Prop} (h : ∀ n : Fin 128, P (Char.ofNat n)) (hascii : ch.toNat < 128) : P ch := by
  have hch := h ⟨ch.toNat, hascii⟩
  rw [Char.ofNat_toNat] at hch
  exact hch

theorem toUpper_identChar (hident : isIdentChar ch = true) (hascii : ch.toNat < 128) :
    ch.toUpper.toNat < 128 ∧ ch.toUpper ≠ ' ' :=
  forall_ascii (P := fun ch => isIdentChar ch = true → ch.toUpper.toNat < 128 ∧ ch.toUpper ≠ ' ')
    (by decide) hascii hident

theorem toUpper_identStart (hstart : isIdentStart ch = true) (hascii : ch.toNat < 128) : 65 ≤ ch.toUpper.toNat :=
  forall_ascii (P := fun ch => isIdentStart ch = true → 65 ≤ ch.toUpper.toNat) (by decide) hascii hstart

theorem toUpper_toUpper (h : ∀ ch ∈ verb, ch.toNat < 128) : toUpper (toUpper verb) = toUpper verb := by
  rw [toUpper, toUpper, map_map]
  refine map_congr_left fun ch hch => ?_
  exact forall_ascii (P := fun ch => ch.toUpper.toUpper = ch.toUpper) (by decide) (h ch hch)

theorem isVerb_toUpper (h : isIdent verb = true) : IsVerb (toUpper verb) := by
  have hupper : ∀ c ∈ toUpper verb, c.toNat < 128 ∧ c ≠ ' ' := by
    intro c hc
    obtain ⟨d, hd, rfl⟩ := mem_map.1 hc
    obtain ⟨hident, hascii⟩ := isIdent_chars h d hd
    exact toUpper_identChar hident hascii
  refine ⟨fun c hc => (hupper c hc).1, fun hspace => (hupper ' ' hspace).2 rfl, ?_⟩
  cases verb with
  | nil => cases h
  | cons ch cs =>
    have hascii := (isIdent_chars h ch mem_cons_self).2
    rw [isIdent, Bool.and_eq_true, Bool.and_eq_true] at h
    exact ⟨ch.toUpper, cs.map Char.toUpper, rfl, toUpper_identStart h.1.1 hascii⟩

theorem ofNat_toNat_inj {a b : Char} (ha : a.toNat < 128) (hb : b.toNat < 128) :
    UInt8.ofNat a.toNat = UInt8.ofNat b.toNat ↔ a = b := by
  rw [← UInt8.toNat_inj, UInt8.toNat_ofNat', UInt8.toNat_ofNat', Nat.mod_eq_of_lt (by omega),
    Nat.mod_eq_of_lt (by omega), Char.toNat_inj]

theorem ofBytes_toBytes {t : Text} (h : ∀ ch ∈ t, ch.toNat < 128) : ofBytes (toBytes t) = t := by
  rw [ofBytes, toBytes, map_map]
  refine (map_congr_left fun ch hch => ?_).trans (map_id t)
  have hlt := h ch hch
  rw [Function.comp_apply, UInt8.toNat_ofNat', Nat.mod_eq_of_lt (by omega), Char.ofNat_toNat]
  rfl

theorem takeWhile_append_space {bs : Bytes} (h : 0x20 ∉ bs) (rest : Bytes) : (bs ++ 0x20 :: rest).takeWhile (· ≠ 0x20) =
    bs ∧ (bs ++ 0x20 :: rest).dropWhile (· ≠ 0x20) = 0x20 :: rest := by
  have hall : ∀ b ∈ bs, decide (b ≠ 0x20) = true := by
    rintro b hb
    refine decide_eq_true ?_
    rintro rfl
    exact h hb
  constructor
  · rw [takeWhile_append_of_pos hall, takeWhile_cons_of_neg (by simp), append_nil]
  · rw [dropWhile_append_of_pos hall, dropWhile_cons_of_neg (by simp)]

theorem byte_eq_space_iff (h : ch.toNat < 128) : UInt8.ofNat ch.toNat = 0x20 ↔ ch = ' ' :=
  ofNat_toNat_inj (b := ' ') h (by decide)

theorem space_notMem_toBytes {t : Text} (hascii : ∀ ch ∈ t, ch.toNat < 128) (hspace : ' ' ∉ t) : 0x20 ∉ toBytes t := by
  intro hmem
  obtain ⟨ch, hch, heq⟩ := mem_map.1 hmem
  rw [byte_eq_space_iff (hascii ch hch)] at heq
  exact hspace (heq ▸ hch)

theorem requestLine_requestBytes (hverb : IsVerb verb) {target : Bytes} (htarget : 0x20 ∉ target) (rest : Bytes) :
    requestLine (requestBytes verb target rest) = (verb, target) := by
  obtain ⟨hfirst, hbehind⟩ := takeWhile_append_space
    (space_notMem_toBytes hverb.ascii hverb.noSpace) (target ++ 0x20 :: rest)
  rw [requestLine, requestBytes, hfirst, hbehind, tail_cons, ofBytes_toBytes hverb.ascii,
    (takeWhile_append_space htarget rest).1]

/-- The verbs that the sniffer knows: those that start as `GET`, `POST`, `PUT` and `DELETE` do, and `PRI` of the
HTTP/2 preface. -/
def verbSniffed (verb : Text) : Bool :=
  verb = "PRI".toList || ["GET", "POS", "PUT", "DEL"].any fun word => word.toList.isPrefixOf verb

section
variable {verb word : Text}

theorem isPrefixOf_toBytes (hverb : ∀ ch ∈ verb, ch.toNat < 128) (hword : ∀ ch ∈ word, ch.toNat < 128)
    (hspace : ' ' ∉ word) (rest : Bytes) :
    (toBytes word).isPrefixOf (toBytes verb ++ 0x20 :: rest) = word.isPrefixOf verb := by
  -- the verb may end first: then a letter of the word is compared with the space
  induction word generalizing verb with
  | nil => rfl
  | cons w word ih =>
    have hw := hword w mem_cons_self
    cases verb with
    | nil =>
      have hne : (UInt8.ofNat w.toNat == 0x20) = false := by
        refine beq_false_of_ne fun heq => hspace ?_
        rw [(byte_eq_space_iff hw).1 heq]
        exact mem_cons_self
      simp [toBytes, isPrefixOf, hne]
    | cons v verb =>
      have hbeq : (UInt8.ofNat w.toNat == UInt8.ofNat v.toNat) = (w == v) := by
        rw [Bool.eq_iff_iff, beq_iff_eq, beq_iff_eq, ofNat_toNat_inj hw (hverb v mem_cons_self)]
      have htail := ih (fun ch hch => hverb ch (mem_cons_of_mem _ hch)) (fun ch hch => hword ch (mem_cons_of_mem _ hch))
        (fun hmem => hspace (mem_cons_of_mem _ hmem))
      simp only [toBytes, map_cons, cons_append, isPrefixOf, hbeq] at htail ⊢
      rw [htail]

theorem isPrefixOf_toBytes_space (hverb : IsVerb verb) (hword : ∀ ch ∈ word, ch.toNat < 128) (hspace : ' ' ∉ word)
    (rest : Bytes) : (toBytes word ++ [0x20]).isPrefixOf (toBytes verb ++ 0x20 :: rest) = decide (verb = word) := by
  rw [Bool.eq_iff_iff, isPrefixOf_iff_prefix, decide_eq_true_eq]
  constructor
  · rintro ⟨more, hmore⟩
    rw [append_assoc] at hmore
    have hleft := (takeWhile_append_space (space_notMem_toBytes hword hspace) more).1
    rw [← singleton_append, hmore,
      (takeWhile_append_space (space_notMem_toBytes hverb.ascii hverb.noSpace) rest).1] at hleft
    rw [← ofBytes_toBytes hverb.ascii, hleft, ofBytes_toBytes hword]
  · rintro rfl
    exact ⟨rest, by rw [append_assoc]; rfl⟩

theorem classify_request (hverb : IsVerb verb) {k : Nat} (hk : 4 ≤ k) (rest : Bytes) (tlsConfig : Bool)
    (c : BufferedConn) : classify tlsConfig ((toBytes verb ++ 0x20 :: rest).take k) c =
      if verbSniffed verb then .http c else .closed := by
  -- the first byte is none of the other protocols
  have hother : ∀ (b : UInt8) (bs : Bytes), b.toNat < 65 ∨ 128 ≤ b.toNat → (b :: bs).length ≤ k →
      (b :: bs).isPrefixOf ((toBytes verb ++ 0x20 :: rest).take k) = false := by
    intro b bs hb hlength
    obtain ⟨ch, tail, rfl, hch⟩ := hverb.start
    have hascii := hverb.ascii ch mem_cons_self
    have hne : (b == UInt8.ofNat ch.toNat) = false := by
      refine beq_false_of_ne ?_
      rintro rfl
      rw [UInt8.toNat_ofNat'] at hb
      omega
    rw [isPrefixOf_take hlength]
    simp only [toBytes, map_cons, cons_append, isPrefixOf, hne, Bool.false_and]
  have hpreface : http2Magic.isPrefixOf ((toBytes verb ++ 0x20 :: rest).take k) = decide (verb = "PRI".toList) := by
    rw [isPrefixOf_take hk]
    exact isPrefixOf_toBytes_space hverb (ascii_of_all (t := "PRI".toList) (by decide)) (by decide) rest
  have hverbs : (verbMagics.any fun magic =>
      magic.isPrefixOf ((toBytes verb ++ 0x20 :: rest).take k)) =
        ["GET", "POS", "PUT", "DEL"].any fun word => word.toList.isPrefixOf verb := by
    have hmagic : ∀ word ∈ ["GET", "POS", "PUT", "DEL"], (toBytes word.toList).isPrefixOf
      ((toBytes verb ++ 0x20 :: rest).take k) = word.toList.isPrefixOf verb := by
      intro word hword
      have hplain : (toBytes word.toList).length ≤ 4 ∧
          word.toList.all (fun ch => decide (ch.toNat < 128)) = true ∧ ' ' ∉ word.toList := by
        revert word
        decide
      rw [isPrefixOf_take (hplain.1.trans hk)]
      exact isPrefixOf_toBytes hverb.ascii (ascii_of_all hplain.2.1) hplain.2.2 rest
    have hmap : verbMagics = ["GET", "POS", "PUT", "DEL"].map fun word => toBytes word.toList := by decide
    rw [hmap, any_map, Bool.eq_iff_iff, any_eq_true, any_eq_true]
    refine exists_congr fun word => and_congr_right fun hword => ?_
    rw [Function.comp_apply, hmagic word hword]
  rw [classify, hother 0x16 [] (by decide) (by simp; omega), hpreface, hother 0x82 [] (by decide) (by simp; omega),
    hother 0x80 [0x01] (by decide) (by simp; omega), hother 0x00 [0x00] (by decide) (by simp; omega), hverbs]
  simp only [Bool.false_and, Bool.and_false, Bool.false_eq_true, if_false, verbSniffed, Bool.or_eq_true]
  split
  · rename_i hpri
    rw [if_pos (.inl hpri)]
  · rename_i hpri
    simp only [hpri, Bool.false_eq_true, false_or]
end

theorem sniffAndRoute_request (hverb : IsVerb verb) {target rest available later : Bytes}
    (hstream : available ++ later = requestBytes verb target rest) (henough : 4 ≤ available.length) (tlsConfig : Bool) :
    sniffAndRoute tlsConfig available later = if verbSniffed verb then .http ⟨available, later⟩ else .closed := by
  refine sniffAndRoute_of_classify henough fun k hk hle => ?_
  rw [take_of_append hstream hle]
  exact classify_request hverb hk _ tlsConfig _

section
variable {a : AST} {names : List String} {srv : ServiceNode} {m : MethodNode} {r : RESTRoute}

theorem method_routeOf (hr : routeOf a.ns srv.name m = some r) : r.method = toUpper m.restMethod.toList := by
  unfold routeOf at hr
  split at hr
  · rw [← Option.some.inj hr]
  · cases hr

theorem takes_routeOf (hverb : isIdent m.restMethod.toList = true) (hr : routeOf a.ns srv.name m = some r) {path : Text}
    (hfits : r.fits path = true) : r.takes r.method path = true := by
  refine takes_iff.2 ⟨?_, hfits⟩
  rw [method_routeOf hr, toUpper_toUpper fun ch hch => (isIdent_chars hverb ch hch).2]

/-- A plain HTTP/1.1 request with the verb of an annotation and a path of its pattern reaches the method exactly if
the sniffer knows the verb, the path is not of the debug handler, and the first route that takes it is one of the
method. -/
theorem verb_reaches_iff (hplain : PlainServices a names) (hsrv : srv ∈ registered a names)
    (hm : m ∈ srv.methods) (hverb : isIdent m.restMethod.toList = true)
    (hr : routeOf a.ns srv.name m = some r) {pathOf : Bytes → Text} {target rest : Bytes}
    (htarget : 0x20 ∉ target) (hfits : r.fits (pathOf target) = true) {available later : Bytes}
    (hstream : available ++ later = requestBytes r.method target rest)
    (henough : 4 ≤ available.length) (tlsConfig : Bool) :
    (∃ params, serveRoute pathOf (serverOf a names) (sniffAndRoute tlsConfig available later) =
        some (.rpc srv.name m.name, params)) ↔ verbSniffed r.method = true ∧ isDebugPath (pathOf target) = false ∧
        ∀ r' params, matchREST r.method (pathOf target) (serverOf a names).restRoutes =
          some (r', params) → r'.handlerPath ∈ grpcPaths a.ns srv.name m.name := by
  have hisVerb : IsVerb r.method := by
    rw [method_routeOf hr]
    exact isVerb_toUpper hverb
  have hdecl : Declares a names srv.name m.name := ⟨srv, hsrv, rfl, m, hm, rfl⟩
  have hmem : r ∈ (serverOf a names).restRoutes := by
    rw [restRoutes_serverOf, routesOf, mem_flatMap]
    exact ⟨srv, hsrv, mem_filterMap.2 ⟨m, hm, hr⟩⟩
  have hsome : matchREST r.method (pathOf target) (serverOf a names).restRoutes ≠ none := by
    intro hnone
    exact matchREST_eq_none_iff.1 hnone r hmem (matches_iff_takes.2 (takes_routeOf hverb hr hfits))
  rw [sniffAndRoute_request hisVerb hstream henough]
  cases verbSniffed r.method with
  | false => simp [serveRoute]
  | true =>
    -- a request that comes through is dispatched by the first route that takes it
    have hline : requestLine (BufferedConn.stream ⟨available, later⟩) = (r.method, target) := by
      rw [BufferedConn.stream, hstream, requestLine_requestBytes hisVerb htarget]
    simp only [if_true, serveRoute, hline, true_and, dispatch_eq_some_iff, methods_serverOf_iff hplain]
    obtain ⟨⟨r', params⟩, hmatch⟩ := Option.ne_none_iff_exists'.1 hsome
    rw [hmatch]
    constructor
    · rintro ⟨params', hdebug, ⟨r'', heq, -, hpath⟩ | ⟨hnone, -⟩⟩
      · refine ⟨hdebug, ?_⟩
        rintro r₁ params₁ heq₁
        obtain ⟨rfl, -⟩ := Prod.mk.inj (Option.some.inj (heq.symm.trans heq₁))
        exact hpath
      · cases hnone
    · rintro ⟨hdebug, hfirst⟩
      exact ⟨params, hdebug, .inl ⟨r', rfl, hdecl, hfirst r' params rfl⟩⟩
end

def tickets : AST :=
  { ns := "desk"
    services := [⟨"Tickets", [⟨"Close", "Ticket", "Ticket", false, false, "DELETE", "/tickets/\x7bid\x7d"⟩]⟩] }

theorem verb_reaches_iff_delete : ∃ params, serveRoute ofBytes (serverOf tickets ["Tickets"])
    (sniffAndRoute false (requestBytes "DELETE".toList (toBytes "/tickets/7".toList) (toBytes "HTTP/1.1".toList)) []) =
    some (.rpc "Tickets" "Close", params) := by
  have hsrv : ⟨"Tickets", [⟨"Close", "Ticket", "Ticket", false, false, "DELETE",
      "/tickets/\x7bid\x7d"⟩]⟩ ∈ registered tickets ["Tickets"] := mem_cons_self
  have hmatch : matchREST "DELETE".toList "/tickets/7".toList (serverOf tickets ["Tickets"]).restRoutes =
    some (⟨"DELETE".toList, ["tickets".toList, "\x7bid\x7d".toList], "/desk.Tickets/Close".toList⟩,
    [("id".toList, "7".toList)]) := rfl
  refine (verb_reaches_iff (by decide) hsrv mem_cons_self (by decide) rfl (by decide) (by decide)
    (append_nil _) (by decide) false).2 ⟨by decide, by decide, ?_⟩
  intro r' params hfirst
  obtain ⟨rfl, -⟩ := Prod.mk.inj (Option.some.inj (hmatch.symm.trans hfirst))
  decide

def usersText : List Char :=
  "package app; service Users \x7b rpc Edit (User) returns (User) \x7b ".toList ++
    "option (google.api.http) = \x7b patch: \"/users\" \x7d; \x7d \x7d".toList

def users : AST :=
  { ns := "app", services := [⟨"Users", [⟨"Edit", "User", "User", false, false, "PATCH", "/users"⟩]⟩] }

theorem toUpper_patch : "patch".toUpper = "PATCH" := by
  rw [← String.toList_inj, String.toUpper, String.toList_map]
  rfl

theorem parseProto_usersText : Proto.parseProto usersText = .ok users := by
  rw [users, ← toUpper_patch]
  rfl

theorem patch_closed :
    Proto.parseProto usersText = .ok users ∧
      matchREST "PATCH".toList "/users".toList (serverOf users ["Users"]).restRoutes =
        some (⟨"PATCH".toList, ["users".toList], "/app.Users/Edit".toList⟩, []) ∧
      ∀ tlsConfig later, sniffAndRoute tlsConfig (requestBytes "PATCH".toList
        (toBytes "/users".toList) (toBytes "HTTP/1.1".toList)) later = .closed := by
  refine ⟨parseProto_usersText, rfl, fun tlsConfig later => ?_⟩
  cases tlsConfig <;> rfl

end HelixRpc.Codegen.Go
