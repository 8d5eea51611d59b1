import Mathlib.Data.BitVec
import N32905.Lib.Numeral
import N32905.MnWriter.OptionalIni

/-!
# Hex numbers in `TurboWriter.ini`

`transfer_hex_string_to_int` adds every digit times a power of 16, from the first
place on. In 32 bits that is `horner`, for strings of any length: the powers beyond
the eighth are 0. The `x` of a leading `0x` is a place without a value.
-/

namespace N32905.MnWriter

open N32905.Lib

/-- A string of the 32-bit program: it and its NUL fit the address space. -/
structure CStr where
  bytes : List Byte
  nul_free : 0 ∉ bytes
  length_lt : bytes.length < 2 ^ 32

def hexValue (b : Byte) : Option Nat :=
  if 0x30 ≤ b.toNat ∧ b.toNat ≤ 0x39 then some (b.toNat - 0x30)
  else if 0x41 ≤ b.toNat ∧ b.toNat ≤ 0x46 then some (b.toNat - 0x41 + 10)
  else if 0x61 ≤ b.toNat ∧ b.toNat ≤ 0x66 then some (b.toNat - 0x61 + 10)
  else none

/-- The value of a hex digit in 32 bits, 0 for any other character. -/
def hexWord (b : Byte) : BitVec 32 := BitVec.ofNat 32 ((hexValue b).getD 0)

/-- `v` as a hex numeral: its digits in any mix of cases, behind any number of zeros
and perhaps `0x`. -/
def HexNumeral (v : Nat) (s : List Byte) : Prop :=
  ∃ (front : List Byte) (zeros : Nat) (digits : List Byte),
    s = front ++ List.replicate zeros 0x30 ++ digits ∧ (front = [] ∨ front = ascii "0x") ∧
      digits.map hexValue = (Nat.digits 16 v).reverse.map some

theorem hexDigit_eq (b : Byte) : hexDigit b = (hexValue b).map (BitVec.ofNat 32) := by
  revert b
  decide +kernel

theorem power_eq (x n : BitVec 32) : power x n = x ^ n.toNat := by
  rw [power, mul_right_iterate]
  exact one_mul _

theorem place_eq (b : Byte) (str_number place : BitVec 32) :
    (match hexDigit b with
      | some number => str_number + power 16 place * number
      | none => str_number) = str_number + 16 ^ place.toNat * hexWord b := by
  rw [hexDigit_eq, hexWord]
  cases hexValue b with
  | none => simp
  | some d => simp only [Option.map_some, Option.getD_some, power_eq]

/-- **The sum is Horner's evaluation**, whatever the string. -/
theorem transferHexStringToInt_eq (s : CStr) :
    transferHexStringToInt s.bytes = horner 16 hexWord s.bytes := by
  have hlen := s.length_lt
  have hplaces := foldl_places (b := (16 : BitVec 32)) (f := hexWord) (l := s.bytes) (k := 0)
    (Nat.zero_add _) 0
  rw [zero_add] at hplaces
  rw [← hplaces, transferHexStringToInt]
  congr 1
  funext str_number p
  have hplace : (BitVec.ofNat 32 (s.bytes.length - 1 - p.2)).toNat = s.bytes.length - 1 - p.2 := by
    rw [BitVec.toNat_ofNat, Nat.mod_eq_of_lt (by omega)]
  refine (place_eq p.1 str_number _).trans ?_
  rw [hplace]

theorem horner_hexNumeral {v : BitVec 32} {s : List Byte} (h : HexNumeral v.toNat s) :
    horner 16 hexWord s = v := by
  obtain ⟨front, zeros, digits, rfl, hfront, hdigits⟩ := h
  have hmark : ∀ b ∈ ascii "0x", hexWord b = 0 := by decide
  have hzero : ∀ b ∈ front ++ List.replicate zeros 0x30, hexWord b = 0 := by
    intro b hb
    rcases List.mem_append.1 hb with hb | hb
    · rcases hfront with rfl | rfl
      · cases hb
      · exact hmark b hb
    · rw [List.eq_of_mem_replicate hb]
      decide
  rw [horner_append_of_zero hzero]
  have hwords : digits.map hexWord = (Nat.digits 16 v.toNat).reverse.map Nat.cast := by
    have := congrArg (List.map fun d : Option Nat => BitVec.ofNat 32 (d.getD 0)) hdigits
    rw [List.map_map, List.map_map] at this
    exact this
  have hv : (v.toNat : BitVec 32) = v := by simp
  exact (horner_digits hwords).trans hv

/-- **Hex conversion**: Horner's evaluation modulo 2^32 for every string, and so the
number for every numeral of it. -/
theorem hex_conversion :
    (∀ s : CStr, transferHexStringToInt s.bytes = horner 16 hexWord s.bytes) ∧
      ∀ (v : BitVec 32) (s : CStr), HexNumeral v.toNat s.bytes →
        transferHexStringToInt s.bytes = v := by
  refine ⟨transferHexStringToInt_eq, fun v s h => ?_⟩
  rw [transferHexStringToInt_eq]
  exact horner_hexNumeral h

/-- Nine places, the first beyond 32 bits. -/
example : transferHexStringToInt (ascii "0x1DeadBeef") = 0xDEADBEEF := by decide +kernel

end N32905.MnWriter
