import IspSession.Analysis.SessionKeys
import IspSession.Analysis.ModuleKeys

/-!
# How session ids are read

`setstring` looks at the lower byte of each character, writes the `GUID` from its last byte to its
first and stops at the first pair that it cannot read, so characters of which only the lower byte
is a digit are taken, and a text that is rejected may have changed the `GUID` already. On the
managed side `Validate` sets bit 5 of a character before it looks at it, and `FromCharacterToByte`
looks at the lower byte and takes `*` to `?` for digits. Printing is exact on both sides, and so
is reading what was printed.
-/

set_option autoImplicit false

namespace IspSession.Analysis

open IspSession.Library IspSession.Model

/-! ## The claims -/

/-- `setstring` takes the texts in hexadecimal notation and no others, what it has read is printed
in upper case, a text that it rejects leaves the `GUID` alone, and every `GUID` that is printed is
read back. -/
structure ReadsExactly (g : Guid) (s : Bstr) : Prop where
  taken : (setstring (guidBytes g) s).1 = true ↔ isHexNotation s = true
  wide : (setstring (guidBytes g) s).1 = true →
    sHexFromBt (setstring (guidBytes g) s).2 = s.map upperAscii
  narrow : (setstring (guidBytes g) s).1 = true →
    (hexStringFromMemory (setstring (guidBytes g) s).2).map UInt8.toUInt16 = s.map upperAscii
  kept : (setstring (guidBytes g) s).1 = false → (setstring (guidBytes g) s).2 = guidBytes g
  back : ∀ g', setstring (guidBytes g) (sHexFromBt (guidBytes g')) = (true, guidBytes g')

/-- `Validate` takes the texts of 32 hexadecimal digits and no others, `HexToBytes` reads these and
no others, and every array that is printed is read back. -/
structure NetReadsExactly (id : Bstr) : Prop where
  validated : ISPSessionIDManager.validate id = true ↔ IsHexText id
  read : (∃ bytes, StreamManager.hexToBytes id = .ok bytes) ↔ IsHexText id
  back : ∀ b : Guid, StreamManager.hexToBytes (ISPSessionIDManager.guidToHex b) = .ok (guidBytes b)

/-! ## Printed texts -/

/-- INTERNAL: a digit is the same in both widths. -/
theorem wideHexDigit_eq {n : UInt8} (hn : n.toNat < 16) :
    wideHexDigit n.toUInt16 = (hexDigit n).toUInt16 := by
  exact byte_of_lt (p := fun n => wideHexDigit n.toUInt16 = (hexDigit n).toUInt16)
    (by decide) n hn

/-- INTERNAL: the halves of a byte. -/
theorem halves_lt (b : UInt8) : (b / 16).toNat < 16 ∧ (b &&& 15).toNat < 16 := by
  refine ⟨?_, ?_⟩
  · have hlt := b.toNat_lt
    rw [UInt8.toNat_div]
    show b.toNat / 16 < 16
    omega
  · rw [UInt8.toNat_and]
    exact Nat.lt_of_le_of_lt Nat.and_le_right (by decide)

/-- INTERNAL: the text of the first byte. -/
theorem sHexFromBt_cons (b : UInt8) (bytes : Bytes) : sHexFromBt (b :: bytes) =
    wideHexDigit (b / 16).toUInt16 :: wideHexDigit (b &&& 15).toUInt16 :: sHexFromBt bytes := by
  rw [UInt8.toUInt16_div, UInt8.toUInt16_and]
  rfl

/-- **Both encoders print the same text.** -/
theorem sHexFromBt_eq (bytes : Bytes) :
    sHexFromBt bytes = (hexStringFromMemory bytes).map UInt8.toUInt16 := by
  induction bytes with
  | nil => rfl
  | cons b bytes ih =>
    obtain ⟨hhigh, hlow⟩ := halves_lt b
    rw [sHexFromBt_cons, ih, wideHexDigit_eq hhigh, wideHexDigit_eq hlow]
    rfl

/-- INTERNAL: its length. -/
theorem length_sHexFromBt (bytes : Bytes) : (sHexFromBt bytes).length = 2 * bytes.length := by
  induction bytes with
  | nil => rfl
  | cons b bytes ih =>
    rw [sHexFromBt_cons, List.length_cons, List.length_cons, List.length_cons, ih]
    omega

/-- INTERNAL: the characters of a byte in a printed text. -/
theorem getElem?_sHexFromBt (bytes : Bytes) (bx : ℕ) :
    (sHexFromBt bytes)[2 * bx]? = bytes[bx]?.map (fun b => wideHexDigit (b / 16).toUInt16) ∧
      (sHexFromBt bytes)[2 * bx + 1]? =
        bytes[bx]?.map (fun b => wideHexDigit (b &&& 15).toUInt16) := by
  induction bytes generalizing bx with
  | nil => exact ⟨rfl, rfl⟩
  | cons b bytes ih =>
    rw [sHexFromBt_cons]
    cases bx with
    | zero => exact ⟨rfl, rfl⟩
    | succ bx => exact ih bx

/-- INTERNAL: the value of a digit. -/
theorem hexValue_wideHexDigit {n : UInt8} (hn : n.toNat < 16) :
    hexValue (wideHexDigit n.toUInt16).toUInt8 = some n :=
  byte_of_lt (p := fun n => hexValue (wideHexDigit n.toUInt16).toUInt8 = some n) (by decide) n hn

/-- INTERNAL: the two halves of a byte make it. -/
theorem halves_or (b : UInt8) : b / 16 * 16 ||| b &&& 15 = b :=
  byte_of_lt (p := fun b => b / 16 * 16 ||| b &&& 15 = b) (by decide +kernel) b b.toNat_lt

/-- INTERNAL: a printed byte is read back. -/
theorem byteAt_sHexFromBt {bytes : Bytes} {bx : ℕ} (hbx : bx < bytes.length) :
    byteAt (sHexFromBt bytes) bx = bytes[bx]? := by
  obtain ⟨heven, hodd⟩ := getElem?_sHexFromBt bytes bx
  rw [List.getElem?_eq_getElem hbx] at heven hodd ⊢
  generalize bytes[bx] = b at heven hodd ⊢
  obtain ⟨hhigh, hlow⟩ := halves_lt b
  have hfirst : hexValue ((sHexFromBt bytes).getD (2 * bx) 0).toUInt8 = some (b / 16) := by
    rw [List.getD_eq_getElem?_getD, heven, Option.map_some, Option.getD_some]
    exact hexValue_wideHexDigit hhigh
  have hsecond : hexValue ((sHexFromBt bytes).getD (2 * bx + 1) 0).toUInt8 = some (b &&& 15) := by
    rw [List.getD_eq_getElem?_getD, hodd, Option.map_some, Option.getD_some]
    exact hexValue_wideHexDigit hlow
  rw [byteAt, hfirst, hsecond]
  exact congrArg some (halves_or b)

/-- INTERNAL: the bytes of a `GUID`. -/
theorem length_guidBytes (g : Guid) : (guidBytes g).length = 16 := length_leBytes 16 g.toNat

/-- **A `GUID` that is printed is read back**, whatever the target held before. -/
theorem setstring_sHexFromBt (g g' : Guid) :
    setstring (guidBytes g) (sHexFromBt (guidBytes g')) = (true, guidBytes g') := by
  have hlength : (sHexFromBt (guidBytes g')).length = 32 := by
    rw [length_sHexFromBt, length_guidBytes]
  obtain ⟨hall, hbytes⟩ := setstringLoop_eq (sHexFromBt (guidBytes g')) 16 (guidBytes g)
    (le_of_eq (length_guidBytes g).symm)
  have hread : ∀ bx < 16, byteAt (sHexFromBt (guidBytes g')) bx = (guidBytes g')[bx]? :=
    fun bx hbx => byteAt_sHexFromBt (by rw [length_guidBytes]; exact hbx)
  have hvalid : (setstringLoop (sHexFromBt (guidBytes g')) 16 (guidBytes g)).1 = true := by
    refine hall.mpr fun bx hbx => ?_
    rw [hread bx hbx, List.getElem?_eq_getElem (by rw [length_guidBytes]; exact hbx)]
    rfl
  rw [setstring, if_pos (by omega)]
  refine Prod.ext hvalid ?_
  rw [hbytes hvalid, List.drop_eq_nil_of_le (le_of_eq (length_guidBytes g)), List.append_nil]
  refine List.ext_getElem? fun bx => ?_
  by_cases hbx : bx < 16
  · rw [List.getElem?_map, List.getElem?_range hbx, Option.map_some, hread bx hbx,
      List.getElem?_eq_getElem (by rw [length_guidBytes]; exact hbx)]
    rfl
  · rw [List.getElem?_eq_none (by rw [List.length_map, List.length_range]; omega),
      List.getElem?_eq_none (by rw [length_guidBytes]; omega)]

/-! ## Texts in hexadecimal notation -/

/-- INTERNAL: a digit is one of the first 128 characters. -/
theorem IsHexDigit.lt {u : UInt16} (h : IsHexDigit u) : u.toNat < 128 := by
  rcases h with h | h | h
  · exact UInt16.lt_iff_toNat_lt.mp (UInt16.lt_of_le_of_lt h.2 (by decide : (57 : UInt16) < 128))
  · exact UInt16.lt_iff_toNat_lt.mp (UInt16.lt_of_le_of_lt h.2 (by decide : (70 : UInt16) < 128))
  · exact UInt16.lt_iff_toNat_lt.mp (UInt16.lt_of_le_of_lt h.2 (by decide : (102 : UInt16) < 128))

/-- INTERNAL: the characters of `is_hex_notation`. -/
theorem mem_digits_iff (u : UInt16) :
    (Bstr.ofString "0123456789abcdefABCDEF").contains u = true ↔ IsHexDigit u := by
  constructor
  · intro h
    have hall : (Bstr.ofString "0123456789abcdefABCDEF").all (fun u => decide (IsHexDigit u)) =
        true := by decide
    exact of_decide_eq_true (List.all_eq_true.mp hall u (List.contains_iff_mem.mp h))
  · intro h
    refine word_of_lt (p := fun u => IsHexDigit u →
      (Bstr.ofString "0123456789abcdefABCDEF").contains u = true) ?_ u h.lt h
    decide

/-- INTERNAL: hexadecimal notation. -/
theorem isHexNotation_iff (s : Bstr) : isHexNotation s = true ↔ IsHexText s := by
  rw [isHexNotation, Bool.and_eq_true, decide_eq_true_eq, List.all_eq_true, IsHexText]
  simp only [mem_digits_iff]

/-- INTERNAL: a digit is read, and printed in upper case. -/
theorem printed_digit {u : UInt16} (h : IsHexDigit u) :
    (hexValue u.toUInt8).isSome = true ∧ (printed u).toUInt16 = upperAscii u := by
  refine word_of_lt (p := fun u => IsHexDigit u → (hexValue u.toUInt8).isSome = true ∧
    (printed u).toUInt16 = upperAscii u) ?_ u h.lt h
  decide

/-- INTERNAL: every pair of such a text is read. -/
theorem isSome_byteAt {s : Bstr} (h : IsHexText s) {bx : ℕ} (hbx : bx < 16) :
    (byteAt s bx).isSome = true := by
  have hget : ∀ i < 32, (hexValue (s.getD i 0).toUInt8).isSome := by
    intro i hi
    refine (printed_digit (h.2 _ ?_)).1
    have hlength := h.1
    rw [List.getD_eq_getElem?_getD, List.getElem?_eq_getElem (by omega : i < s.length)]
    exact List.getElem_mem _
  obtain ⟨high, hhigh⟩ := Option.isSome_iff_exists.mp (hget (2 * bx) (by omega))
  obtain ⟨low, hlow⟩ := Option.isSome_iff_exists.mp (hget (2 * bx + 1) (by omega))
  rw [byteAt, hhigh, hlow]
  rfl

/-- INTERNAL: the text is taken. -/
theorem setstring_taken {s : Bstr} (h : IsHexText s) (g : Guid) :
    (setstring (guidBytes g) s).1 = true := by
  have hlength := h.1
  rw [setstring, if_pos (by omega)]
  exact (setstringLoop_eq s 16 (guidBytes g) (le_of_eq (length_guidBytes g).symm)).1.mpr
    fun bx hbx => isSome_byteAt h hbx

/-- INTERNAL: what is read of it is printed in upper case. -/
theorem hex_setstring {s : Bstr} (h : IsHexText s) (g : Guid) :
    (hexStringFromMemory (setstring (guidBytes g) s).2).map UInt8.toUInt16 = s.map upperAscii := by
  have hlength := h.1
  have htaken := setstring_taken h g
  rw [setstring, if_pos (by omega)] at htaken ⊢
  rw [(setstringLoop_eq s 16 (guidBytes g) (le_of_eq (length_guidBytes g).symm)).2 htaken,
    List.drop_eq_nil_of_le (le_of_eq (length_guidBytes g)), List.append_nil]
  have hpairs : hexStringFromMemory ((List.range 16).map fun bx => (byteAt s bx).getD 0) =
      s.map printed := by
    have htext := flatMap_pairs s 16 (by omega)
    rw [List.take_of_length_le (by omega)] at htext
    rw [hexStringFromMemory, List.flatMap_map, ← htext]
    refine List.flatMap_congr fun bx hbx => ?_
    obtain ⟨b, hb⟩ := Option.isSome_iff_exists.mp (isSome_byteAt h (List.mem_range.mp hbx))
    rw [hb]
    exact digits_byteAt hb
  rw [hpairs, List.map_map]
  exact List.map_congr_left fun u hu => (printed_digit (h.2 u hu)).2

/-! ## Rejected texts -/

/-- INTERNAL: where the loop stops, and what it has written until then. -/
theorem setstringLoop_stops {text : Bstr} {n : ℕ} {bytes : Bytes} (hn : n ≤ bytes.length)
    (h : (setstringLoop text n bytes).1 = false) :
    ∃ bx < n, byteAt text bx = none ∧ (∀ j, bx < j → j < n → (byteAt text j).isSome) ∧
      ∀ j, (setstringLoop text n bytes).2[j]? =
        if bx < j ∧ j < n then byteAt text j else bytes[j]? := by
  induction n generalizing bytes with
  | zero => cases h
  | succ n ih =>
    rw [setstringLoop_succ] at h ⊢
    cases hbyte : byteAt text n with
    | none =>
      refine ⟨n, Nat.lt_succ_self n, hbyte, fun j hj hj' => by omega, fun j => ?_⟩
      rw [if_neg (by omega)]
    | some b =>
      rw [hbyte] at h
      obtain ⟨bx, hbx, hnone, hread, hout⟩ := ih (by rw [List.length_set]; omega) h
      refine ⟨bx, Nat.lt_succ_of_lt hbx, hnone, fun j hj hj' => ?_, fun j => ?_⟩
      · rcases Nat.lt_succ_iff_lt_or_eq.mp hj' with hj' | rfl
        · exact hread j hj hj'
        · rw [hbyte]
          rfl
      · dsimp only
        rw [hout j, List.getElem?_set]
        by_cases hj : j = n
        · subst hj
          rw [if_neg (by omega), if_pos rfl, if_pos (by omega), if_pos (by omega), hbyte]
        · rw [if_neg (Ne.symm hj)]
          exact if_congr (by omega) rfl rfl

/-- A text that is rejected without a change of the `GUID`, or read as the characters that it has:
its length is not taken for 32, or it is 32 hexadecimal digits, or every pair behind the last
one that the code cannot read is the byte that the `GUID` holds there already. -/
def LeavesOrReads (g : Guid) (s : Bstr) : Prop :=
  s.length % 2 ^ 32 = 32 → IsHexText s ∨
    ∃ bx < 16, byteAt s bx = none ∧ ∀ j, bx < j → j < 16 → byteAt s j = (guidBytes g)[j]?

/-- INTERNAL: a text with a pair that the code cannot read is rejected, and the `GUID` is the same
when the pairs behind it are the bytes that it holds already. -/
theorem setstring_kept {g : Guid} {s : Bstr} {bx : ℕ} (hlength : s.length % 2 ^ 32 = 32)
    (hbx : bx < 16) (hnone : byteAt s bx = none)
    (hrest : ∀ j, bx < j → j < 16 → byteAt s j = (guidBytes g)[j]?) :
    setstring (guidBytes g) s = (false, guidBytes g) := by
  rw [setstring, if_pos hlength]
  have hn : 16 ≤ (guidBytes g).length := le_of_eq (length_guidBytes g).symm
  have hstops : (setstringLoop s 16 (guidBytes g)).1 = false := by
    refine eq_false_of_ne_true fun hvalid => ?_
    have := (setstringLoop_eq s 16 _ hn).1.mp hvalid bx hbx
    rw [hnone] at this
    cases this
  obtain ⟨last, hlast, -, hread, hout⟩ := setstringLoop_stops hn hstops
  -- the pair is not behind the place where the loop stops
  have hle : bx ≤ last := by
    by_contra hlt
    have := hread bx (by omega) hbx
    rw [hnone] at this
    cases this
  refine Prod.ext hstops (List.ext_getElem? fun j => ?_)
  rw [hout j]
  split
  · rename_i hj
    exact hrest j (by omega) hj.2
  · rfl

/-- **The native ids are read exactly when a rejected text leaves the `GUID` alone and the
characters that are taken are digits**: for every text and every `GUID` that was there before. -/
theorem readsExactly_iff (g : Guid) (s : Bstr) : ReadsExactly g s ↔ LeavesOrReads g s := by
  constructor
  · intro h hlength
    cases htaken : (setstring (guidBytes g) s).1 with
    | true => exact .inl ((isHexNotation_iff s).mp (h.taken.mp htaken))
    | false =>
      have hkept := h.kept htaken
      rw [setstring, if_pos hlength] at htaken hkept
      obtain ⟨bx, hbx, hnone, -, hout⟩ :=
        setstringLoop_stops (le_of_eq (length_guidBytes g).symm) htaken
      refine .inr ⟨bx, hbx, hnone, fun j hj hj' => ?_⟩
      have := hout j
      rw [hkept, if_pos ⟨hj, hj'⟩] at this
      exact this.symm
  · intro h
    by_cases hhex : IsHexText s
    · have htaken := setstring_taken hhex g
      refine ⟨⟨fun _ => (isHexNotation_iff s).mpr hhex, fun _ => htaken⟩, fun _ => ?_,
        fun _ => hex_setstring hhex g, fun hfalse => ?_, setstring_sHexFromBt g⟩
      · rw [sHexFromBt_eq]
        exact hex_setstring hhex g
      · rw [htaken] at hfalse
        cases hfalse
    · have hrejected : setstring (guidBytes g) s = (false, guidBytes g) := by
        by_cases hlength : s.length % 2 ^ 32 = 32
        · rcases h hlength with hdigits | ⟨bx, hbx, hnone, hrest⟩
          · exact absurd hdigits hhex
          · exact setstring_kept hlength hbx hnone hrest
        · rw [setstring, if_neg hlength]
      have hnever : (setstring (guidBytes g) s).1 ≠ true := by
        rw [hrejected]
        exact Bool.false_ne_true
      exact ⟨⟨fun htaken => absurd htaken hnever,
          fun hnotation => absurd ((isHexNotation_iff s).mp hnotation) hhex⟩,
        fun htaken => absurd htaken hnever, fun htaken => absurd htaken hnever,
        fun _ => congrArg Prod.snd hrejected, setstring_sHexFromBt g⟩

/-- 32 times the letter U+0130, whose lower byte is the digit 0. -/
def dottedText : Bstr := List.replicate 32 0x0130

/-- **A text without a digit is taken for an id.** -/
theorem dottedText_not_readsExactly : ¬ ReadsExactly 0 dottedText :=
  fun h => absurd (h.taken.mp (by decide)) (by decide)

/-! ## The managed side -/

/-- INTERNAL: the characters that `Validate` takes: the digits, and the control characters that
bit 5 turns into digits. -/
theorem validDigit_iff (u : UInt16) :
    ISPSessionIDManager.validDigit u = true ↔ IsHexDigit u ∨ 16 ≤ u ∧ u ≤ 25 := by
  have hall : ∀ m < 128, ISPSessionIDManager.validDigit (UInt16.ofNat m) = true ↔
      IsHexDigit (UInt16.ofNat m) ∨ 16 ≤ UInt16.ofNat m ∧ UInt16.ofNat m ≤ 25 := by
    decide
  constructor
  · intro h
    have hlt : u.toNat < 128 := UInt16.lt_iff_toNat_lt.mp (validDigit_lt h)
    exact (word_of_lt (p := fun u => ISPSessionIDManager.validDigit u = true ↔
      IsHexDigit u ∨ 16 ≤ u ∧ u ≤ 25) hall u hlt).mp h
  · intro h
    have hlt : u.toNat < 128 := by
      rcases h with h | h
      · exact h.lt
      · exact UInt16.lt_iff_toNat_lt.mp
          (UInt16.lt_of_le_of_lt h.2 (by decide : (25 : UInt16) < 128))
    exact (word_of_lt (p := fun u => ISPSessionIDManager.validDigit u = true ↔
      IsHexDigit u ∨ 16 ≤ u ∧ u ≤ 25) hall u hlt).mpr h

/-- The lower bytes that `FromCharacterToByte` takes: the letters, and all characters from `*` to
`?`. -/
def HasDigitByte (u : UInt16) : Prop :=
  42 ≤ u.toUInt8 ∧ u.toUInt8 ≤ 63 ∨ 65 ≤ u.toUInt8 ∧ u.toUInt8 ≤ 70 ∨
    97 ≤ u.toUInt8 ∧ u.toUInt8 ≤ 102

instance (u : UInt16) : Decidable (HasDigitByte u) := by
  unfold HasDigitByte
  infer_instance

/-- INTERNAL: the cases of `FromCharacterToByte`. -/
theorem fromCharacterToByte_spec (u : UInt16) (shift : UInt8) :
    (∃ b, StreamManager.fromCharacterToByte u shift = .ok b) ↔ HasDigitByte u := by
  have hbytes : ∀ b : UInt8, (((0x40 < b ∧ b < 0x47) ∨ (0x60 < b ∧ b < 0x67)) ∨
      (0x29 < b ∧ b < 0x40)) ↔
        (42 ≤ b ∧ b ≤ 63 ∨ 65 ≤ b ∧ b ≤ 70 ∨ 97 ≤ b ∧ b ≤ 102) := by
    intro b
    simp only [UInt8.lt_iff_toNat_lt, UInt8.le_iff_toNat_le, UInt8.reduceToNat]
    omega
  rw [HasDigitByte, ← hbytes, StreamManager.fromCharacterToByte]
  split
  · rename_i hletter
    refine ⟨fun _ => .inl hletter, fun _ => ?_⟩
    split
    · split
      · exact ⟨_, rfl⟩
      · exact ⟨_, rfl⟩
    · exact ⟨_, rfl⟩
  · rename_i hletter
    split
    · rename_i hrange
      exact ⟨fun _ => .inr hrange, fun _ => ⟨_, rfl⟩⟩
    · rename_i hrange
      refine ⟨fun ⟨b, hb⟩ => (by cases hb), fun h => ?_⟩
      rcases h with h | h
      · exact absurd h hletter
      · exact absurd h hrange

/-- INTERNAL: a text with an even number of characters is read when all of them are taken. -/
theorem hexToBytesLoop_iff : ∀ (n : ℕ) (h : Bstr), h.length = 2 * n →
    ((∃ bytes, StreamManager.hexToBytesLoop h = .ok bytes) ↔ ∀ u ∈ h, HasDigitByte u)
  | 0, h, hlength => by
    obtain rfl := List.length_eq_zero_iff.mp hlength
    exact ⟨fun _ u hu => absurd hu List.not_mem_nil, fun _ => ⟨[], rfl⟩⟩
  | n + 1, [], hlength => by cases hlength
  | n + 1, [_], hlength => by
    rw [List.length_singleton] at hlength
    omega
  | n + 1, high :: low :: h, hlength => by
    have ih := hexToBytesLoop_iff n h (by
      rw [List.length_cons, List.length_cons] at hlength
      omega)
    rw [List.forall_mem_cons, List.forall_mem_cons, ← ih, ← fromCharacterToByte_spec high 4,
      ← fromCharacterToByte_spec low 0, StreamManager.hexToBytesLoop]
    constructor
    · rintro ⟨bytes, hread⟩
      obtain ⟨upper, hupper, hread⟩ := NetRun.bind_eq_ok hread
      obtain ⟨lower, hlower, hread⟩ := NetRun.bind_eq_ok hread
      obtain ⟨rest, hrest, -⟩ := NetRun.bind_eq_ok hread
      exact ⟨⟨upper, hupper⟩, ⟨lower, hlower⟩, ⟨rest, hrest⟩⟩
    · rintro ⟨⟨upper, hupper⟩, ⟨lower, hlower⟩, ⟨rest, hrest⟩⟩
      rw [hupper, hlower, hrest]
      exact ⟨_, rfl⟩

/-- INTERNAL: `HexToBytes` reads the texts of 32 characters that all have such a lower byte. -/
theorem hexToBytes_iff (id : Bstr) : (∃ bytes, StreamManager.hexToBytes id = .ok bytes) ↔
    id.length = 32 ∧ ∀ u ∈ id, HasDigitByte u := by
  rw [StreamManager.hexToBytes]
  split
  · rename_i hempty
    refine ⟨fun ⟨_, h⟩ => (by cases h), fun ⟨hlength, _⟩ => ?_⟩
    rw [hempty] at hlength
    cases hlength
  · split
    · rename_i hlength
      exact ⟨fun ⟨_, h⟩ => (by cases h), fun h => absurd h.1 hlength⟩
    · rename_i hlength
      rw [hexToBytesLoop_iff 16 id (not_not.mp hlength), and_iff_right (not_not.mp hlength)]

/-- INTERNAL: a printed byte is read back. -/
theorem hexToBytesLoop_hex (bytes : Bytes) : StreamManager.hexToBytesLoop
    ((hexStringFromMemory bytes).map UInt8.toUInt16) = .ok bytes := by
  induction bytes with
  | nil => rfl
  | cons b bytes ih =>
    have hdigit : ∀ n : UInt8, n.toNat < 16 →
        StreamManager.fromCharacterToByte (hexDigit n).toUInt16 0 = .ok n ∧
          StreamManager.fromCharacterToByte (hexDigit n).toUInt16 4 = .ok (n * 16) := by
      refine byte_of_lt (p := fun n =>
        StreamManager.fromCharacterToByte (hexDigit n).toUInt16 0 = .ok n ∧
          StreamManager.fromCharacterToByte (hexDigit n).toUInt16 4 = .ok (n * 16)) ?_
      decide
    obtain ⟨hhigh, hlow⟩ := halves_lt b
    have hcons : (hexStringFromMemory (b :: bytes)).map UInt8.toUInt16 =
        (hexDigit (b / 16)).toUInt16 :: (hexDigit (b &&& 15)).toUInt16 ::
          (hexStringFromMemory bytes).map UInt8.toUInt16 := rfl
    rw [hcons, StreamManager.hexToBytesLoop, (hdigit _ hhigh).2, (hdigit _ hlow).1, ih,
      NetRun.ok_bind, NetRun.ok_bind, NetRun.ok_bind, halves_or]

/-- **An array that is printed is read back.** -/
theorem hexToBytes_guidToHex (b : Guid) :
    StreamManager.hexToBytes (ISPSessionIDManager.guidToHex b) = .ok (guidBytes b) := by
  have hlength := length_guidToHex b
  rw [StreamManager.hexToBytes, if_neg (by
    rintro hempty
    rw [hempty] at hlength
    cases hlength), if_neg (not_not.mpr hlength)]
  exact hexToBytesLoop_hex (guidBytes b)

/-- INTERNAL: a digit is taken by both. -/
theorem IsHexDigit.hasDigitByte {u : UInt16} (h : IsHexDigit u) : HasDigitByte u := by
  refine word_of_lt (p := fun u => IsHexDigit u → HasDigitByte u) ?_ u h.lt h
  decide

/-- **The managed ids are read exactly when both functions find a character to reject in a text
that is no id**: `Validate` one that is no digit and none of the control characters 16 to 25, and
`HexToBytes` one whose lower byte is neither a letter A to F nor between `*` and `?`. -/
theorem netReadsExactly_iff (id : Bstr) : NetReadsExactly id ↔
    (id.length = 32 → IsHexText id ∨
      (∃ u ∈ id, ¬ (IsHexDigit u ∨ 16 ≤ u ∧ u ≤ 25)) ∧ ∃ u ∈ id, ¬ HasDigitByte u) := by
  have hvalidate : ISPSessionIDManager.validate id = true ↔
      id.length = 32 ∧ ∀ u ∈ id, IsHexDigit u ∨ 16 ≤ u ∧ u ≤ 25 := by
    rw [ISPSessionIDManager.validate, Bool.and_eq_true, decide_eq_true_eq, List.all_eq_true]
    simp only [validDigit_iff]
  constructor
  · intro h hlength
    by_cases hhex : IsHexText id
    · exact .inl hhex
    · have hvalid := mt h.validated.mp hhex
      have hread := mt h.read.mp hhex
      rw [hvalidate, and_iff_right hlength] at hvalid
      rw [hexToBytes_iff, and_iff_right hlength] at hread
      push Not at hvalid hread
      refine .inr ⟨?_, hread⟩
      obtain ⟨u, hu, hnot⟩ := hvalid
      exact ⟨u, hu, fun hor => hor.elim hnot.1 fun hrange => hnot.2 hrange.1 hrange.2⟩
  · intro h
    refine ⟨?_, ?_, hexToBytes_guidToHex⟩
    · rw [hvalidate]
      refine ⟨fun hboth => ?_, fun hhex => ⟨hhex.1, fun u hu => .inl (hhex.2 u hu)⟩⟩
      obtain ⟨hlength, hall⟩ := hboth
      rcases h hlength with hhex | ⟨⟨u, hu, hnot⟩, -⟩
      · exact hhex
      · exact absurd (hall u hu) hnot
    · rw [hexToBytes_iff]
      refine ⟨fun hboth => ?_,
        fun hhex => ⟨hhex.1, fun u hu => (hhex.2 u hu).hasDigitByte⟩⟩
      obtain ⟨hlength, hall⟩ := hboth
      rcases h hlength with hhex | ⟨-, ⟨u, hu, hnot⟩⟩
      · exact hhex
      · exact absurd (hall u hu) hnot

/-- 32 control characters. -/
def controlText : Bstr := List.replicate 32 0x10

/-- **`Validate` takes control characters.** -/
theorem controlText_not_netReadsExactly : ¬ NetReadsExactly controlText := by
  intro h
  have hhex := h.validated.mp (by decide)
  exact absurd (hhex.2 0x10 (by decide)) (by decide)

end IspSession.Analysis
