import Mathlib.Data.Nat.Basic
import Mathlib.Data.List.Basic
import IspSession.Library.Bytes

/-!
# Numbers in decimal notation

The text of a number, in UTF-16 code units, and the number that a text of digits stands for.
-/

set_option autoImplicit false

namespace IspSession.Library

/-- A digit of the decimal notation. -/
def isDigit (c : UInt16) : Bool := 48 ≤ c && c ≤ 57

/-- The number that digits stand for. -/
def ofDigits (s : List UInt16) : ℕ := s.foldl (fun n c => 10 * n + (c.toNat - 48)) 0

/-- **A number in decimal notation.** -/
def decimalText (n : ℕ) : List UInt16 := (Nat.toDigits 10 n).map fun c => c.toNat.toUInt16

/-- INTERNAL: the code unit of a digit. -/
theorem toNat_digit {c : Char} (h : c.isDigit = true) :
    c.toNat.toUInt16.toNat = c.toNat ∧ 48 ≤ c.toNat ∧ c.toNat ≤ 57 := by
  have hrange : 48 ≤ c.toNat ∧ c.toNat ≤ 57 := by
    simp only [Char.isDigit, Bool.and_eq_true, decide_eq_true_eq, UInt32.le_iff_toNat_le] at h
    exact h
  refine ⟨?_, hrange⟩
  exact Nat.mod_eq_of_lt (by omega)

theorem isDigit_of_mem_decimalText {n : ℕ} {c : UInt16} (h : c ∈ decimalText n) :
    isDigit c = true := by
  obtain ⟨d, hd, rfl⟩ := List.mem_map.mp h
  obtain ⟨hunit, hlower, hupper⟩ :=
    toNat_digit (Nat.isDigit_of_mem_toDigits (by decide) (by decide) hd)
  rw [isDigit, Bool.and_eq_true, decide_eq_true_eq, decide_eq_true_eq, UInt16.le_iff_toNat_le,
    UInt16.le_iff_toNat_le, hunit]
  exact ⟨hlower, hupper⟩

theorem decimalText_ne_nil (n : ℕ) : decimalText n ≠ [] := by
  rw [decimalText, ne_eq, List.map_eq_nil_iff]
  exact Nat.toDigits_ne_nil

/-- **How long the text of a number is.** -/
theorem length_decimalText_le_iff {n k : ℕ} (hk : 0 < k) :
    (decimalText n).length ≤ k ↔ n < 10 ^ k := by
  rw [decimalText, List.length_map]
  exact Nat.length_toDigits_le_iff (by decide) hk

/-- INTERNAL: the digits of a text, read one after the other. -/
theorem foldl_digits {cs : List Char} (h : ∀ c ∈ cs, c.isDigit = true) (init : ℕ) :
    (cs.map fun c => c.toNat.toUInt16).foldl (fun n c => 10 * n + (c.toNat - 48)) init =
      Nat.ofDigitChars 10 cs init := by
  induction cs generalizing init with
  | nil => rfl
  | cons c cs ih =>
    rw [List.map_cons, List.foldl_cons, ih fun d hd => h d (List.mem_cons_of_mem c hd),
      Nat.ofDigitChars_cons, (toNat_digit (h c List.mem_cons_self)).1]
    rfl

/-- **The text of a number stands for it.** -/
theorem ofDigits_decimalText (n : ℕ) : ofDigits (decimalText n) = n := by
  rw [ofDigits, decimalText, foldl_digits fun c hc =>
    Nat.isDigit_of_mem_toDigits (by decide) (by decide) hc]
  exact Nat.ofDigitChars_ten_toDigits

end IspSession.Library
