import IspSession.Model.UrlCookie
import IspSession.Model.DotNet
import IspSession.Model.NativeRecords

/-!
# A web server that escapes with `%`

A `QueryServer`: a plus sign is a space, and a percent sign with two hexadecimal digits is the
character with that number. What is neither a letter nor a digit is encoded so, below 256.
-/

set_option autoImplicit false

namespace IspSession.Analysis

open IspSession.Library
open IspSession.Model

/-- The value of a hexadecimal digit. -/
def queryDigit (u : UInt16) : Option UInt16 :=
  if u < 128 then (hexValue u.toUInt8).map UInt8.toUInt16 else none

/-- The character whose number is in the first two digits. -/
def escaped : Bstr → Option UInt16
  | high :: low :: _ =>
    match queryDigit high, queryDigit low with
    | some h, some l => some (h * 16 + l)
    | _, _ => none
  | _ => none

/-- The text is decoded behind the characters that are skipped. -/
def decodeFrom : ℕ → Bstr → Bstr
  | _, [] => []
  | skip + 1, _ :: s => decodeFrom skip s
  | 0, c :: s =>
    if c = 0x2B then 0x20 :: decodeFrom 0 s
    else
      match if c = 0x25 then escaped s else none with
      | some u => u :: decodeFrom 2 s
      | none => c :: decodeFrom 0 s

/-- A letter or a digit. -/
def isAlphanumeric (c : UInt16) : Bool :=
  (48 ≤ c && c ≤ 57) || (65 ≤ c && c ≤ 90) || (97 ≤ c && c ≤ 122)

def encodeChar (c : UInt16) : Bstr :=
  if isAlphanumeric c || 256 ≤ c then [c]
  else [0x25, wideHexDigit (c / 16), wideHexDigit (c % 16)]

/-! ## Decoding -/

/-- INTERNAL: an escape has two digits. -/
theorem length_of_escaped {s : Bstr} {u : UInt16} (h : escaped s = some u) : 2 ≤ s.length := by
  match s with
  | [] => cases h
  | [_] => cases h
  | _ :: _ :: s => exact Nat.le_add_left 2 s.length

theorem queryWeight_cons (c : UInt16) (s : Bstr) :
    queryWeight (c :: s) = queryWeight s + 2 + if c = 0x2B then 1 else 0 := by
  rw [queryWeight, queryWeight, List.length_cons, List.count_cons]
  by_cases h : c = 0x2B
  · rw [if_pos (beq_iff_eq.mpr h), if_pos h]
    omega
  · rw [if_neg (mt beq_iff_eq.mp h), if_neg h]
    omega

/-- INTERNAL: what is decoded is not larger, and smaller unless nothing is decoded. -/
theorem decodeFrom_weight (s : Bstr) (skip : ℕ) :
    queryWeight (decodeFrom skip s) ≤ queryWeight (s.drop skip) ∧
      (skip = 0 → decodeFrom skip s = s ∨ queryWeight (decodeFrom skip s) < queryWeight s) := by
  induction s generalizing skip with
  | nil => exact ⟨by rw [decodeFrom, List.drop_nil], fun _ => Or.inl (by rw [decodeFrom])⟩
  | cons c s ih =>
    cases skip with
    | succ skip =>
      rw [decodeFrom, List.drop_succ_cons]
      exact ⟨(ih skip).1, fun h => absurd h (Nat.succ_ne_zero skip)⟩
    | zero =>
      obtain ⟨hle, hless⟩ := ih 0
      rw [List.drop_zero] at hle
      rw [decodeFrom, List.drop_zero, queryWeight_cons c s]
      split
      · rename_i hplus
        rw [queryWeight_cons, if_neg (by decide)]
        exact ⟨by omega, fun _ => Or.inr (by omega)⟩
      · rename_i hplus
        split
        · rename_i u hu
          split at hu
          · have hrest := (ih 2).1
            have hlength := length_of_escaped hu
            have hdrop : queryWeight (s.drop 2) + 4 ≤ queryWeight s := by
              obtain ⟨a, b, t, rfl⟩ : ∃ a b t, s = a :: b :: t := by
                match s, hlength with
                | a :: b :: t, _ => exact ⟨a, b, t, rfl⟩
              rw [queryWeight_cons, queryWeight_cons, List.drop_succ_cons, List.drop_succ_cons,
                List.drop_zero]
              omega
            rw [queryWeight_cons]
            have hone : (if u = 0x2B then 1 else 0) ≤ 1 := by split <;> omega
            exact ⟨by omega, fun _ => Or.inr (by omega)⟩
          · cases hu
        · rw [queryWeight_cons, if_neg hplus]
          refine ⟨by omega, fun _ => ?_⟩
          rcases hless rfl with hsame | hsmaller
          · exact Or.inl (by rw [hsame])
          · exact Or.inr (by omega)

/-- INTERNAL: text without plus and percent signs is not changed. -/
theorem decodeFrom_plain {s : Bstr} (hplus : 0x2B ∉ s) (hpercent : 0x25 ∉ s) :
    decodeFrom 0 s = s := by
  induction s with
  | nil => rw [decodeFrom]
  | cons c s ih =>
    have hc : c ≠ 0x2B ∧ c ≠ 0x25 :=
      ⟨fun h => hplus (h ▸ List.mem_cons_self), fun h => hpercent (h ▸ List.mem_cons_self)⟩
    rw [decodeFrom, if_neg hc.1, if_neg hc.2]
    exact congrArg (c :: ·) (ih (fun h => hplus (List.mem_cons_of_mem c h))
      fun h => hpercent (List.mem_cons_of_mem c h))

/-- INTERNAL: both digits of a character below 256 are read. -/
theorem queryDigit_wideHexDigit {n : UInt16} (hn : n.toNat < 16) :
    queryDigit (wideHexDigit n) = some n ∧ isDelimiter (wideHexDigit n) = false := by
  have hall : ∀ m < 16, queryDigit (wideHexDigit (UInt16.ofNat m)) = some (UInt16.ofNat m) ∧
      isDelimiter (wideHexDigit (UInt16.ofNat m)) = false := by decide
  have h := hall n.toNat hn
  rwa [UInt16.ofNat_toNat] at h

/-- INTERNAL: a character is read back. -/
theorem decodeFrom_encodeChar (c : UInt16) (s : Bstr) :
    decodeFrom 0 (encodeChar c ++ s) = c :: decodeFrom 0 s := by
  rw [encodeChar]
  split
  · rename_i h
    have hplus : c ≠ 0x2B := by
      rintro rfl
      revert h
      decide
    have hpercent : c ≠ 0x25 := by
      rintro rfl
      revert h
      decide
    rw [List.singleton_append, decodeFrom, if_neg hplus, if_neg hpercent]
  · rename_i h
    have hsmall : c.toNat < 256 := by
      rw [Bool.or_eq_true, not_or, decide_eq_true_eq, UInt16.le_iff_toNat_le] at h
      exact not_le.mp h.2
    have hhigh : (c / 16).toNat = c.toNat / 16 := UInt16.toNat_div c 16
    have hlow : (c % 16).toNat = c.toNat % 16 := UInt16.toNat_mod c 16
    have hvalue : c / 16 * 16 + c % 16 = c := by
      apply UInt16.toNat_inj.mp
      rw [UInt16.toNat_add, UInt16.toNat_mul, hhigh, hlow]
      show (c.toNat / 16 * 16 % 2 ^ 16 + c.toNat % 16) % 2 ^ 16 = c.toNat
      omega
    have hescaped : escaped (wideHexDigit (c / 16) :: wideHexDigit (c % 16) :: s) = some c := by
      rw [escaped, (queryDigit_wideHexDigit (by omega)).1, (queryDigit_wideHexDigit (by omega)).1]
      exact congrArg some hvalue
    show decodeFrom 0 (0x25 :: wideHexDigit (c / 16) :: wideHexDigit (c % 16) :: s) = _
    rw [decodeFrom, if_neg (by decide), if_pos rfl, hescaped]
    rfl

theorem decodeFrom_encode (value : Bstr) : decodeFrom 0 (value.flatMap encodeChar) = value := by
  induction value with
  | nil => rfl
  | cons c value ih => rw [List.flatMap_cons, decodeFrom_encodeChar, ih]

/-- INTERNAL: no delimiter is left. -/
theorem encodeChar_plain {c u : UInt16} (h : u ∈ encodeChar c) : isDelimiter u = false := by
  rw [encodeChar] at h
  split at h
  · rename_i hc
    obtain rfl := List.mem_singleton.mp h
    by_contra hdelimiter
    simp only [isDelimiter, Bool.not_eq_false, Bool.or_eq_true, beq_iff_eq] at hdelimiter
    revert hc
    rcases hdelimiter with ((rfl | rfl) | rfl) | rfl <;> decide
  · rename_i hc
    have hsmall : c.toNat < 256 := by
      rw [Bool.or_eq_true, not_or, decide_eq_true_eq, UInt16.le_iff_toNat_le] at hc
      exact not_le.mp hc.2
    have hhigh : (c / 16).toNat = c.toNat / 16 := UInt16.toNat_div c 16
    have hlow : (c % 16).toNat = c.toNat % 16 := UInt16.toNat_mod c 16
    rcases List.mem_cons.mp h with rfl | h
    · decide
    rcases List.mem_cons.mp h with rfl | h
    · exact (queryDigit_wideHexDigit (by omega)).2
    · obtain rfl := List.mem_singleton.mp h
      exact (queryDigit_wideHexDigit (by omega)).2

/-! ## Letter case -/

/-- INTERNAL: a digit is one in any case. -/
theorem isSome_queryDigit_upperAscii (u : UInt16) :
    (queryDigit (upperAscii u)).isSome = (queryDigit u).isSome := by
  have hall : ∀ n < 128, (queryDigit (upperAscii (UInt16.ofNat n))).isSome =
      (queryDigit (UInt16.ofNat n)).isSome := by decide
  by_cases hu : u < 128
  · have h := hall u.toNat (UInt16.lt_iff_toNat_lt.mp hu)
    rwa [UInt16.ofNat_toNat] at h
  · have hsame : upperAscii u = u := by
      rw [upperAscii, if_neg]
      rintro ⟨-, hle⟩
      refine hu (UInt16.lt_iff_toNat_lt.mpr (Nat.lt_of_le_of_lt (UInt16.le_iff_toNat_le.mp hle) ?_))
      decide
    rw [hsame]

theorem isSome_escaped_upperAscii (s : Bstr) :
    (escaped (s.map upperAscii)).isSome = (escaped s).isSome := by
  match s with
  | [] => rfl
  | [_] => rfl
  | high :: low :: s =>
    have hhigh := isSome_queryDigit_upperAscii high
    have hlow := isSome_queryDigit_upperAscii low
    rw [List.map_cons, List.map_cons, escaped, escaped]
    cases h₁ : queryDigit (upperAscii high) <;> cases h₂ : queryDigit (upperAscii low) <;>
      cases h₃ : queryDigit high <;> cases h₄ : queryDigit low <;>
      simp [h₁, h₂, h₃, h₄] at hhigh hlow ⊢

/-- INTERNAL: letters are no signs. -/
theorem upperAscii_eq_iff {c d : UInt16} (hd : d.toNat < 65) : upperAscii c = d ↔ c = d := by
  rw [upperAscii]
  split
  · rename_i h
    have hlower : 97 ≤ c.toNat := UInt16.le_iff_toNat_le.mp h.1
    have hupper : c.toNat ≤ 122 := UInt16.le_iff_toNat_le.mp h.2
    have hless : (c - 32).toNat = c.toNat - 32 :=
      UInt16.toNat_sub_of_le c 32 (UInt16.le_iff_toNat_le.mpr (by
        have h32 : (32 : UInt16).toNat = 32 := rfl
        omega))
    constructor
    · rintro rfl
      omega
    · rintro rfl
      omega
  · exact Iff.rfl

/-- INTERNAL: whether something is decoded does not depend on letter case. -/
theorem decodeFrom_upperAscii (s : Bstr) :
    decodeFrom 0 (s.map upperAscii) = s.map upperAscii ↔ decodeFrom 0 s = s := by
  have hshort : ∀ {t : Bstr} {u c : UInt16}, (escaped t).isSome = true →
      u :: decodeFrom 2 t ≠ c :: t := by
    intro t u c ht hsame
    obtain ⟨v, hv⟩ := Option.isSome_iff_exists.mp ht
    have hlength := length_of_escaped hv
    have hweight := (decodeFrom_weight t 2).1
    rw [(List.cons.inj hsame).2, queryWeight, queryWeight, List.length_drop] at hweight
    have hcount := (List.drop_sublist 2 t).count_le 0x2B
    omega
  induction s with
  | nil => exact Iff.rfl
  | cons c s ih =>
    have hplus : upperAscii c = 0x2B ↔ c = 0x2B := upperAscii_eq_iff (by decide)
    have hpercent : upperAscii c = 0x25 ↔ c = 0x25 := upperAscii_eq_iff (by decide)
    rw [List.map_cons, decodeFrom, decodeFrom]
    by_cases h : c = 0x2B
    · rw [if_pos (hplus.mpr h), if_pos h]
      refine iff_of_false (fun hsame => ?_) fun hsame => ?_
      · rw [hplus.mpr h] at hsame
        exact absurd (List.cons.inj hsame).1 (by decide)
      · rw [h] at hsame
        exact absurd (List.cons.inj hsame).1 (by decide)
    rw [if_neg (mt hplus.mp h), if_neg h]
    by_cases hp : c = 0x25
    · have hsome := isSome_escaped_upperAscii s
      rw [if_pos (hpercent.mpr hp), if_pos hp]
      cases hs : escaped s with
      | none =>
        rw [hs, Option.isSome_none, Option.isSome_eq_false_iff, Option.isNone_iff_eq_none] at hsome
        rw [hsome]
        exact (List.cons_inj_right _).trans (ih.trans (List.cons_inj_right _).symm)
      | some u =>
        rw [hs, Option.isSome_some] at hsome
        obtain ⟨v, hv⟩ := Option.isSome_iff_exists.mp hsome
        rw [hv]
        exact iff_of_false (hshort hsome) (hshort (by rw [hs]; rfl))
    · rw [if_neg (mt hpercent.mp hp), if_neg hp]
      exact (List.cons_inj_right _).trans (ih.trans (List.cons_inj_right _).symm)

/-- **The web server.** A part without `=` is a name without a value, unless it is empty. -/
def percentServer : QueryServer where
  decode := decodeFrom 0
  urlEncode value := value.flatMap encodeChar
  fold s := s.map upperAscii
  bare s := if s = [] then none else some (s, [])
  decode_plain _ hplus hpercent := decodeFrom_plain hplus hpercent
  decode_weight s := (decodeFrom_weight s 0).2 rfl
  bare_weight s param h := by
    split at h
    · cases h
    · obtain rfl := Option.some.inj h
      exact le_rfl
  decode_urlEncode := decodeFrom_encode
  urlEncode_plain value c hc := by
    obtain ⟨d, -, hc⟩ := List.mem_flatMap.mp hc
    exact encodeChar_plain hc
  fold_weight a b h := by
    have hcount : ∀ s : Bstr, (s.map upperAscii).count 0x2B = s.count 0x2B := by
      intro s
      induction s with
      | nil => rfl
      | cons c s ih =>
        have hplus : (upperAscii c == 0x2B) = (c == 0x2B) := by
          rw [Bool.eq_iff_iff, beq_iff_eq, beq_iff_eq]
          exact upperAscii_eq_iff (by decide)
        rw [List.map_cons, List.count_cons, List.count_cons, ih, hplus]
    have hlength := congrArg List.length h
    have hplus := congrArg (List.count 0x2B) h
    rw [List.length_map, List.length_map] at hlength
    rw [hcount, hcount] at hplus
    rw [queryWeight, queryWeight, hlength, hplus]
  fold_delimiter a b h c hc hdelimiter := by
    have hsmall : c.toNat < 65 := by
      simp only [isDelimiter, Bool.or_eq_true, beq_iff_eq] at hdelimiter
      rcases hdelimiter with ((rfl | rfl) | rfl) | rfl <;> decide
    have hmem : c ∈ a.map upperAscii :=
      h ▸ List.mem_map.mpr ⟨c, hc, (upperAscii_eq_iff hsmall).mpr rfl⟩
    obtain ⟨d, hd, hsame⟩ := List.mem_map.mp hmem
    exact (upperAscii_eq_iff hsmall).mp hsame ▸ hd
  fold_decode a b h ha := by
    rw [← decodeFrom_upperAscii] at ha ⊢
    rwa [h] at ha

end IspSession.Analysis
