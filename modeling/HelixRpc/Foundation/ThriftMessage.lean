import HelixRpc.Foundation.Slice
import Mathlib.Data.List.Forall2

/-!
# Thrift messages and the loop of a server

A Thrift message has a name, a type, a sequence id and a body, which is a struct: a list of fields with ids.
-/

namespace HelixRpc.Foundation

open List

inductive TType where
  | stop | bool | byte | double | i16 | i32 | i64 | string | struct | map | set | list
  deriving DecidableEq

inductive ThriftValue where
  | bool (v : Bool)
  | byte (v : BitVec 8)
  | double (bits : BitVec 64)
  | i16 (v : BitVec 16)
  | i32 (v : BitVec 32)
  | i64 (v : BitVec 64)
  | string (v : Slice)
  | struct (fields : List (BitVec 16 × ThriftValue))
  | map (keyType valueType : TType) (entries : List (ThriftValue × ThriftValue))
  | set (elemType : TType) (elems : List ThriftValue)
  | list (elemType : TType) (elems : List ThriftValue)

def ThriftValue.type : ThriftValue → TType
  | .bool _ => .bool
  | .byte _ => .byte
  | .double _ => .double
  | .i16 _ => .i16
  | .i32 _ => .i32
  | .i64 _ => .i64
  | .string _ => .string
  | .struct _ => .struct
  | .map _ _ _ => .map
  | .set _ _ => .set
  | .list _ _ => .list

abbrev ThriftFields := List (BitVec 16 × ThriftValue)

inductive MessageType where
  | call | reply | exception | oneway
  deriving DecidableEq

structure Message where
  name : String
  type : MessageType
  seqId : BitVec 32
  body : ThriftFields

def argumentStruct (fields : ThriftFields) : ThriftFields := [(1, .struct fields)]

def resultStruct (fields : ThriftFields) : ThriftFields := [(0, .struct fields)]

structure Answers (call answer : Message) : Prop where
  type : answer.type = .reply ∨ answer.type = .exception
  seqId : answer.seqId = call.seqId

section
universe u v w
variable {σ : Type u} {α : Type v} {β : Type w}

structure Handled (σ : Type u) (β : Type w) where
  state : σ
  written : List β
  goOn : Bool

def serveLoop (process : σ → α → Handled σ β) : σ → List α → List β
  | _, [] => []
  | s, a :: as => (process s a).written ++ if (process s a).goOn then serveLoop process (process s a).state as else []

def AnswersAll (process : σ → α → Handled σ β) : σ → List α → Prop
  | _, [] => True
  | s, a :: as => (process s a).written ≠ [] ∧
      (as = [] ∨ ((process s a).goOn = true ∧ AnswersAll process (process s a).state as))

variable {process : σ → α → Handled σ β}

theorem serveLoop_append_silent {b : α} (h : ∀ s, (process s b).written = []) (s : σ) (as : List α) :
    serveLoop process s (as ++ [b]) = serveLoop process s as := by
  induction as generalizing s with
  | nil => simp [serveLoop, h]
  | cons a as ih => rw [cons_append, serveLoop, serveLoop, ih]

theorem serveLoop_map {α' : Type v} (f : α' → α) (s : σ) (as : List α') :
    serveLoop process s (as.map f) = serveLoop (fun s a => process s (f a)) s as := by
  induction as generalizing s with
  | nil => rfl
  | cons a as ih => rw [map_cons, serveLoop, serveLoop, ih]

theorem forall₂_serveLoop_iff {R : α → β → Prop} (hone : ∀ s a, (process s a).written = [] ∨ ∃ b,
    (process s a).written = [b] ∧ R a b) (hgoOn : ∀ s a, (process s a).goOn = true → (process s a).written ≠ []) (s :
    σ) (as : List α) : Forall₂ R as (serveLoop process s as) ↔ AnswersAll process s as := by
  induction as generalizing s with
  | nil => exact ⟨fun _ => trivial, fun _ => .nil⟩
  | cons a as ih =>
    rw [serveLoop, AnswersAll]
    rcases hone s a with hnone | ⟨b, hb, hR⟩
    · -- nothing was written, so the loop has stopped and there is no answer at all
      have hstop : (process s a).goOn = false := by
        cases hgo : (process s a).goOn with
        | false => rfl
        | true => exact absurd hnone (hgoOn s a hgo)
      rw [hnone, hstop]
      refine ⟨fun h => ?_, fun h => absurd rfl h.1⟩
      cases h
    · rw [hb, singleton_append, forall₂_cons]
      cases hgo : (process s a).goOn with
      | true =>
        rw [if_pos rfl, ih]
        constructor
        · rintro ⟨-, hrest⟩
          exact ⟨cons_ne_nil b [], .inr ⟨rfl, hrest⟩⟩
        · rintro ⟨-, rfl | ⟨-, hrest⟩⟩
          · exact ⟨hR, trivial⟩
          · exact ⟨hR, hrest⟩
      | false =>
        -- the last answer: the other messages have none
        rw [if_neg Bool.false_ne_true]
        constructor
        · rintro ⟨-, hrest⟩
          exact ⟨cons_ne_nil b [], .inl (forall₂_nil_right_iff.1 hrest)⟩
        · rintro ⟨-, rfl | ⟨hfalse, -⟩⟩
          · exact ⟨hR, .nil⟩
          · cases hfalse
end

end HelixRpc.Foundation
