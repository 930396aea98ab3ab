import Mathlib.Data.List.Basic

/-!
# Bytes as URL-safe text

Three bytes are four symbols of six bits.  A last group of one or two bytes is
cut short rather than padded, and reading it back asks for the bits it does not
use to be zero, so a text is the spelling of at most one sequence of bytes.
-/

namespace Hekla.Library.Base64

def alphabet : List Char :=
  "ABCDEFGHIJKLMNOPQRSTUVWXYZabcdefghijklmnopqrstuvwxyz0123456789-_".toList

def symbol (bits : Nat) : Char := alphabet.getD bits 'A'

def bitsOf (symbol : Char) : Option Nat := alphabet.idxOf? symbol

theorem bitsOf_symbol {bits : Nat} (six : bits < 64) : bitsOf (symbol bits) = some bits := by
  have each : ∀ bits < 64, bitsOf (symbol bits) = some bits := by decide
  exact each bits six

/-- The six-bit groups of a sequence of bytes. -/
def groups : List UInt8 → List Nat
  | [] => []
  | [one] => [one.toNat / 4, one.toNat % 4 * 16]
  | [one, two] =>
      [one.toNat / 4, one.toNat % 4 * 16 + two.toNat / 16, two.toNat % 16 * 4]
  | one :: two :: three :: rest =>
      [one.toNat / 4, one.toNat % 4 * 16 + two.toNat / 16,
        two.toNat % 16 * 4 + three.toNat / 64, three.toNat % 64] ++ groups rest

/-- The bytes of a sequence of groups.  One group alone is no byte. -/
def bytes : List Nat → Option (List UInt8)
  | [] => some []
  | [_] => none
  | [one, two] => if two % 16 = 0 then some [.ofNat (one * 4 + two / 16)] else none
  | [one, two, three] =>
      if three % 4 = 0 then
        some [.ofNat (one * 4 + two / 16), .ofNat (two % 16 * 16 + three / 4)]
      else none
  | one :: two :: three :: four :: rest =>
      (bytes rest).map fun tail =>
        [.ofNat (one * 4 + two / 16), .ofNat (two % 16 * 16 + three / 4),
          .ofNat (three % 4 * 64 + four)] ++ tail

def encode (content : List UInt8) : String := String.ofList ((groups content).map symbol)

def decode (text : String) : Option (List UInt8) := (text.toList.mapM bitsOf).bind bytes

theorem groups_lt {content : List UInt8} : ∀ bits ∈ groups content, bits < 64 := by
  induction content using groups.induct with
  | case1 => simp [groups]
  | case2 one =>
      have first := one.toNat_lt
      simp only [groups, List.forall_mem_cons]
      refine ⟨?_, ?_, nofun⟩ <;> omega
  | case3 one two =>
      have first := one.toNat_lt
      have second := two.toNat_lt
      simp only [groups, List.forall_mem_cons]
      refine ⟨?_, ?_, ?_, nofun⟩ <;> omega
  | case4 one two three rest ih =>
      have first := one.toNat_lt
      have second := two.toNat_lt
      have third := three.toNat_lt
      simp only [groups, List.cons_append, List.nil_append, List.forall_mem_cons]
      refine ⟨?_, ?_, ?_, ?_, ih⟩ <;> omega

theorem byte_eq (one : UInt8) {bits : Nat} (same : bits = one.toNat) : UInt8.ofNat bits = one := by
  rw [same]
  exact UInt8.ofNat_toNat

theorem bytes_groups (content : List UInt8) : bytes (groups content) = some content := by
  induction content using groups.induct with
  | case1 => rfl
  | case2 one =>
      rw [groups, bytes, if_pos (by omega), byte_eq one (by omega)]
  | case3 one two =>
      have first := one.toNat_lt
      have second := two.toNat_lt
      rw [groups, bytes, if_pos (by omega), byte_eq one (by omega),
        byte_eq two (by omega)]
  | case4 one two three rest ih =>
      have first := one.toNat_lt
      have second := two.toNat_lt
      have third := three.toNat_lt
      rw [groups, List.cons_append, List.cons_append, List.cons_append, List.cons_append,
        List.nil_append, bytes, ih, Option.map_some, byte_eq one (by omega),
        byte_eq two (by omega), byte_eq three (by omega)]
      rfl

theorem mapM_bitsOf {all : List Nat} (six : ∀ bits ∈ all, bits < 64) :
    (all.map symbol).mapM bitsOf = some all := by
  induction all with
  | nil => rfl
  | cons bits rest ih =>
      rw [List.map_cons, List.mapM_cons, bitsOf_symbol (six bits List.mem_cons_self),
        ih fun later member => six later (List.mem_cons_of_mem _ member)]
      rfl

/-- Every sequence of bytes is read back from its spelling. -/
theorem decode_encode (content : List UInt8) : decode (encode content) = some content := by
  unfold decode encode
  rw [String.toList_ofList, mapM_bitsOf groups_lt]
  exact bytes_groups content

end Hekla.Library.Base64

namespace Hekla.Library

universe u

/-- How values are written as bytes and read back. -/
structure Codec (α : Type u) where
  write : α → List UInt8
  read : List UInt8 → Option α

namespace Codec

variable {α : Type u} (codec : Codec α)

/-- What is written reads back as itself. -/
def Lawful : Prop := ∀ value, codec.read (codec.write value) = some value

def encode (value : α) : String := Base64.encode (codec.write value)

def decode (text : String) : Option α := (Base64.decode text).bind codec.read

variable {codec}

theorem decode_encode (lawful : codec.Lawful) (value : α) :
    codec.decode (codec.encode value) = some value := by
  unfold decode encode
  rw [Base64.decode_encode, Option.bind_some, lawful]

end Codec

end Hekla.Library
