import Mathlib.Data.List.Basic
import Mathlib.Data.Nat.Digits
import Mathlib.Tactic.Ring

/-!
# Bytes and their text forms: `hex` and decimal

Every hash, signature, key share and client id crosses a text boundary
somewhere in the attestation pipeline: `hex::encode` writes digests and
signatures, `hex::decode` reads signatures and pipe fields back, and
`usize`'s `Display` writes client ids that `from_str_radix` and serde_json
read again. This file models those conversions over `List Char` and proves
the two round trips everything above relies on:

* `hexDecode_hexEncode`: `hex::decode` undoes `hex::encode`.
* `digitsValue_decimal`: the digits `Display` writes evaluate back to the
  number, and `decimal_head` rules out the leading zero a strict reader rejects.

`decimal` is core's `Nat.toDigits 10`, so concrete values still evaluate by
`decide`; its shape is recovered once, in `decimal_of_ten_le`.
-/

namespace Tahini.Core

/-- Raw bytes, as `Vec<u8>` and `&[u8]` carry them. -/
abbrev Bytes := List UInt8

/-! ## `hex::encode` and `hex::decode` -/

/-- The lowercase digit `hex::encode` writes for a nibble. -/
def hexChar (n : Nat) : Char := if n < 10 then Char.ofNat (48 + n) else Char.ofNat (87 + n)

/-- The value `hex::decode` gives a digit; both cases are accepted. -/
def hexVal (c : Char) : Option Nat :=
  if '0' ≤ c ∧ c ≤ '9' then some (c.toNat - 48)
  else if 'a' ≤ c ∧ c ≤ 'f' then some (c.toNat - 87)
  else if 'A' ≤ c ∧ c ≤ 'F' then some (c.toNat - 55)
  else none

/-- Two digits per byte, high nibble first. -/
def hexByte (b : UInt8) : List Char := [hexChar (b.toNat / 16), hexChar (b.toNat % 16)]

/-- `hex::encode`. -/
def hexEncode (bs : Bytes) : List Char := bs.flatMap hexByte

/-- `hex::decode`: an odd length or a non-digit is an error. -/
def hexDecode : List Char → Option Bytes
  | [] => some []
  | [_] => none
  | a :: b :: rest => do
    let hi ← hexVal a
    let lo ← hexVal b
    let tl ← hexDecode rest
    pure ((16 * hi + lo).toUInt8 :: tl)

theorem hexVal_hexChar : ∀ n, n < 16 → hexVal (hexChar n) = some n := by decide

@[simp] theorem hexEncode_nil : hexEncode [] = [] := rfl

@[simp] theorem hexEncode_cons (b : UInt8) (bs : Bytes) :
    hexEncode (b :: bs) = hexChar (b.toNat / 16) :: hexChar (b.toNat % 16) :: hexEncode bs := rfl

@[simp] theorem hexEncode_append (a b : Bytes) : hexEncode (a ++ b) = hexEncode a ++ hexEncode b := by
  simp [hexEncode]

@[simp] theorem length_hexEncode (bs : Bytes) : (hexEncode bs).length = 2 * bs.length := by
  induction bs with
  | nil => rfl
  | cons b bs ih => simp [ih]; ring

/-- A byte is its two nibbles. -/
theorem byte_of_nibbles (b : UInt8) : (16 * (b.toNat / 16) + b.toNat % 16).toUInt8 = b := by
  rw [Nat.div_add_mod]
  exact UInt8.toNat.inj (UInt8.toNat_ofNat_of_lt b.toNat_lt_size)

/-- `hex::decode` reads back what `hex::encode` wrote. -/
theorem hexDecode_hexEncode (bs : Bytes) : hexDecode (hexEncode bs) = some bs := by
  induction bs with
  | nil => rfl
  | cons b bs ih =>
    have h₁ : b.toNat / 16 < 16 := by have : b.toNat < 256 := b.toNat_lt_size; omega
    have h₂ : b.toNat % 16 < 16 := Nat.mod_lt _ (by omega)
    rw [hexEncode_cons, hexDecode, hexVal_hexChar _ h₁, hexVal_hexChar _ h₂, ih]
    simp [byte_of_nibbles]

/-- Every character `hex::encode` writes is a digit or `a`–`f`. -/
theorem mem_hexEncode {bs : Bytes} {c : Char} (h : c ∈ hexEncode bs) :
    ∃ n, n < 16 ∧ c = hexChar n := by
  induction bs with
  | nil => simp at h
  | cons b bs ih =>
    have hb : b.toNat < 256 := b.toNat_lt_size
    simp only [hexEncode_cons, List.mem_cons] at h
    rcases h with rfl | rfl | h
    · exact ⟨_, Nat.div_lt_of_lt_mul (by omega), rfl⟩
    · exact ⟨_, Nat.mod_lt _ (by omega), rfl⟩
    · exact ih h

theorem not_mem_hexEncode {d : Char} (hd : ∀ n, n < 16 → hexChar n ≠ d) (bs : Bytes) :
    d ∉ hexEncode bs := fun h => by
  obtain ⟨n, hn, he⟩ := mem_hexEncode h
  exact hd n hn he.symm

/-! ## Decimal digits -/

/-- The digits `usize`'s `Display` writes (core's `Nat.toDigits 10`). -/
def decimal (n : Nat) : List Char := Nat.toDigits 10 n

/-- Whether `c` is an ASCII digit. -/
def isDigit (c : Char) : Bool := '0' ≤ c && c ≤ '9'

/-- The number a digit string denotes, read most significant digit first. -/
def digitsValue (ds : List Char) : Nat := ds.foldl (fun acc c => 10 * acc + (c.toNat - 48)) 0

theorem toDigitsCore_acc (fuel n : Nat) (ds : List Char) :
    Nat.toDigitsCore 10 fuel n ds = Nat.toDigitsCore 10 fuel n [] ++ ds := by
  induction fuel generalizing n ds with
  | zero => rfl
  | succ fuel ih =>
    simp only [Nat.toDigitsCore]
    split
    · rfl
    · rw [ih _ (_ :: ds), ih _ [_]]
      simp

/-- Enough fuel gives the same digits. -/
theorem toDigitsCore_fuel (f₁ f₂ n : Nat) (h₁ : n < f₁) (h₂ : n < f₂) (ds : List Char) :
    Nat.toDigitsCore 10 f₁ n ds = Nat.toDigitsCore 10 f₂ n ds := by
  induction f₁ generalizing f₂ n ds with
  | zero => omega
  | succ f₁ ih =>
    obtain ⟨f₂, rfl⟩ : ∃ k, f₂ = k + 1 := ⟨f₂ - 1, by omega⟩
    simp only [Nat.toDigitsCore]
    split
    · rfl
    · exact ih _ _ (by omega) (by omega) _

theorem decimal_of_lt_ten {n : Nat} (h : n < 10) : decimal n = [Nat.digitChar n] := by
  simp [decimal, Nat.toDigits, Nat.toDigitsCore, Nat.mod_eq_of_lt h, Nat.div_eq_of_lt h]

/-- Past one digit, the last digit is written after the digits of the quotient. -/
theorem decimal_of_ten_le {n : Nat} (h : 10 ≤ n) :
    decimal n = decimal (n / 10) ++ [Nat.digitChar (n % 10)] := by
  have hq : n / 10 ≠ 0 := by omega
  show Nat.toDigitsCore 10 (n + 1) n [] = Nat.toDigitsCore 10 (n / 10 + 1) (n / 10) [] ++ _
  rw [Nat.toDigitsCore, if_neg hq, toDigitsCore_acc,
    toDigitsCore_fuel n (n / 10 + 1) _ (by omega) (by omega)]

theorem digitChar_toNat : ∀ d, d < 10 → (Nat.digitChar d).toNat - 48 = d := by decide

theorem isDigit_digitChar : ∀ d, d < 10 → isDigit (Nat.digitChar d) = true := by decide

theorem digitChar_ne_zero : ∀ d, d < 10 → 0 < d → Nat.digitChar d ≠ '0' := by decide

/-- The digits `Display` writes evaluate back to the number. -/
theorem digitsValue_decimal (n : Nat) : digitsValue (decimal n) = n := by
  induction n using Nat.strong_induction_on with
  | _ n ih =>
    rcases Nat.lt_or_ge n 10 with h | h
    · simp [decimal_of_lt_ten h, digitsValue, digitChar_toNat _ h]
    · have hq := ih (n / 10) (by omega)
      simp only [digitsValue] at hq ⊢
      rw [decimal_of_ten_le h, List.foldl_append, hq]
      simp [digitChar_toNat _ (Nat.mod_lt n (by omega : 10 > 0))]
      omega

theorem decimal_ne_nil (n : Nat) : decimal n ≠ [] := by
  rcases Nat.lt_or_ge n 10 with h | h
  · simp [decimal_of_lt_ten h]
  · simp [decimal_of_ten_le h]

theorem isDigit_of_mem_decimal {n : Nat} {c : Char} (hc : c ∈ decimal n) : isDigit c = true := by
  induction n using Nat.strong_induction_on with
  | _ n ih =>
    rcases Nat.lt_or_ge n 10 with h | h
    · simp only [decimal_of_lt_ten h, List.mem_singleton] at hc
      exact hc ▸ isDigit_digitChar _ h
    · rw [decimal_of_ten_le h, List.mem_append, List.mem_singleton] at hc
      rcases hc with hc | rfl
      · exact ih _ (by omega) hc
      · exact isDigit_digitChar _ (Nat.mod_lt n (by omega))

theorem not_mem_decimal {n : Nat} {c : Char} (hc : isDigit c = false) : c ∉ decimal n :=
  fun h => by simp [isDigit_of_mem_decimal h] at hc

/-- A number below `10 ^ (k + 1)` takes at most `k + 1` digits. -/
theorem length_decimal_le {n : Nat} (k : Nat) (h : n < 10 ^ (k + 1)) : (decimal n).length ≤ k + 1 := by
  induction k generalizing n with
  | zero => simp [decimal_of_lt_ten (by simpa using h)]
  | succ k ih =>
    rcases Nat.lt_or_ge n 10 with h₁ | h₁
    · simp [decimal_of_lt_ten h₁]
    · have hq : n / 10 < 10 ^ (k + 1) := Nat.div_lt_of_lt_mul (by rw [← Nat.pow_succ']; exact h)
      simpa [decimal_of_ten_le h₁] using ih hq

/-- A number past one digit is not written with a leading zero. -/
theorem decimal_head {n : Nat} (h : 10 ≤ n) : ∃ c cs, decimal n = c :: cs ∧ c ≠ '0' := by
  induction n using Nat.strong_induction_on with
  | _ n ih =>
    rw [decimal_of_ten_le h]
    rcases Nat.lt_or_ge (n / 10) 10 with hq | hq
    · exact ⟨Nat.digitChar (n / 10), _, by rw [decimal_of_lt_ten hq]; rfl,
        digitChar_ne_zero _ hq (by omega)⟩
    · obtain ⟨c, cs, he, hc⟩ := ih (n / 10) (by omega) hq
      exact ⟨c, cs ++ _, by rw [he]; rfl, hc⟩

end Tahini.Core
