import Mathlib.Data.Nat.Digits.Defs
import Mathlib.Tactic.Ring
import Mathlib.Tactic.Linarith

/-!
# Little-endian byte strings

`leBytes n v` is the `n`-byte little-endian form of `v`, `ofLeBytes` reads a byte
string back. Reading what was written gives the value modulo `256 ^ n`
(`ofLeBytes_leBytes`), hence the value itself when it fits, and the bits of a
machine word always (`ofNat_ofLeBytes_leBytes`).
-/

set_option autoImplicit false

namespace IspSession.Library

/-- What holds of all numbers below a bound holds of all bytes below it. -/
theorem byte_of_lt {p : UInt8 → Prop} {n : ℕ} (h : ∀ m < n, p (UInt8.ofNat m)) (b : UInt8)
    (hb : b.toNat < n) : p b := by
  have := h b.toNat hb
  rwa [UInt8.ofNat_toNat] at this

/-- The same for words. -/
theorem word_of_lt {p : UInt16 → Prop} {n : ℕ} (h : ∀ m < n, p (UInt16.ofNat m)) (u : UInt16)
    (hu : u.toNat < n) : p u := by
  have := h u.toNat hu
  rwa [UInt16.ofNat_toNat] at this

/-- The `n`-byte little-endian form of `v`, higher bytes dropped. -/
def leBytes : ℕ → ℕ → List UInt8
  | 0, _ => []
  | n + 1, v => UInt8.ofNat v :: leBytes n (v / 256)

/-- The number a little-endian byte string denotes. -/
def ofLeBytes : List UInt8 → ℕ
  | [] => 0
  | b :: bs => b.toNat + 256 * ofLeBytes bs

/-- The little-endian form has the length asked for. -/
@[simp] theorem length_leBytes (n v : ℕ) : (leBytes n v).length = n := by
  induction n generalizing v with
  | zero => rfl
  | succ n ih => simp [leBytes, ih]

/-- Reading back a little-endian form gives the value modulo its width. -/
theorem ofLeBytes_leBytes (n v : ℕ) : ofLeBytes (leBytes n v) = v % 256 ^ n := by
  induction n generalizing v with
  | zero => simp [leBytes, ofLeBytes, Nat.mod_one]
  | succ n ih =>
    have hbyte : (UInt8.ofNat v).toNat = v % 256 := by simp
    simp only [leBytes, ofLeBytes, ih, hbyte]
    rw [pow_succ, Nat.mul_comm (256 ^ n) 256, Nat.mod_mul]

/-- Reading back a little-endian form gives the value when it fits. -/
theorem ofLeBytes_leBytes_of_lt {n v : ℕ} (h : v < 256 ^ n) :
    ofLeBytes (leBytes n v) = v := by
  rw [ofLeBytes_leBytes, Nat.mod_eq_of_lt h]

/-- A machine word of `8 * n` bits survives its `n`-byte little-endian form. -/
theorem ofNat_ofLeBytes_leBytes (n : ℕ) (x : BitVec (8 * n)) :
    BitVec.ofNat (8 * n) (ofLeBytes (leBytes n x.toNat)) = x := by
  have hx : x.toNat < 256 ^ n := by
    have := x.isLt
    rwa [pow_mul] at this
  rw [ofLeBytes_leBytes_of_lt hx, BitVec.ofNat_toNat, BitVec.setWidth_eq]

/-- The number of a byte string lies below its width. -/
theorem ofLeBytes_lt (bs : List UInt8) : ofLeBytes bs < 256 ^ bs.length := by
  induction bs with
  | nil => exact Nat.one_pos
  | cons b bs ih =>
    have hb := b.toNat_lt
    rw [ofLeBytes, List.length_cons, pow_succ]
    omega

/-- A byte string is the little-endian form of its number. -/
theorem leBytes_ofLeBytes (bs : List UInt8) : leBytes bs.length (ofLeBytes bs) = bs := by
  induction bs with
  | nil => rfl
  | cons b bs ih =>
    have hb := b.toNat_lt
    rw [List.length_cons, leBytes, ofLeBytes,
      show (b.toNat + 256 * ofLeBytes bs) / 256 = ofLeBytes bs from by omega, ih]
    congr 1
    refine UInt8.toNat_inj.mp ?_
    rw [UInt8.toNat_ofNat']
    omega

end IspSession.Library
