import Mathlib.Data.List.Basic

/-!
# UTF-16 text and its UTF-8 form

Wide text is a list of UTF-16 code units; `WellFormed` text is the UTF-16 form of a
list of Unicode scalar values. `utf16ToUtf8` and `utf8ToUtf16` convert as lenient
system converters do: an unpaired surrogate and a byte that starts no character
become U+FFFD. On well-formed text the two are exact (`utf8ToUtf16_utf16ToUtf8`).
-/

set_option autoImplicit false

namespace IspSession.Library

/-- The replacement character U+FFFD. -/
def replacementChar : Char := Char.ofNat 0xFFFD

/-- The UTF-16 code units of a scalar value. -/
def utf16EncodeChar (c : Char) : List UInt16 :=
  if c.toNat < 0x10000 then [UInt16.ofNat c.toNat]
  else
    [UInt16.ofNat (0xD800 + (c.toNat - 0x10000) / 0x400),
      UInt16.ofNat (0xDC00 + (c.toNat - 0x10000) % 0x400)]

/-- The code unit opens a surrogate pair. -/
def isHighSurrogate (u : UInt16) : Bool := 0xD800 ≤ u.toNat && u.toNat < 0xDC00

/-- The code unit closes a surrogate pair. -/
def isLowSurrogate (u : UInt16) : Bool := 0xDC00 ≤ u.toNat && u.toNat < 0xE000

/-- The scalar values of UTF-16 text, U+FFFD for every unpaired surrogate. -/
def decodeUtf16 : List UInt16 → List Char
  | [] => []
  | [u] =>
    [if isHighSurrogate u || isLowSurrogate u then replacementChar else Char.ofNat u.toNat]
  | u :: v :: us =>
    if isHighSurrogate u && isLowSurrogate v then
      Char.ofNat (0x10000 + (u.toNat - 0xD800) * 0x400 + (v.toNat - 0xDC00)) :: decodeUtf16 us
    else if isHighSurrogate u || isLowSurrogate u then replacementChar :: decodeUtf16 (v :: us)
    else Char.ofNat u.toNat :: decodeUtf16 (v :: us)

/-- INTERNAL: the scalar values of a UTF-8 byte string, at most `fuel` of them. -/
def decodeUtf8Aux : ℕ → List UInt8 → List Char
  | fuel + 1, b :: bs =>
    match (b :: bs).toByteArray.utf8DecodeChar? 0 with
    | some c => c :: decodeUtf8Aux fuel ((b :: bs).drop c.utf8Size)
    | none => replacementChar :: decodeUtf8Aux fuel bs
  | _, _ => []

/-- The scalar values of a UTF-8 byte string, U+FFFD for every byte out of place. -/
def decodeUtf8 (bs : List UInt8) : List Char := decodeUtf8Aux bs.length bs

/-- The UTF-8 form of UTF-16 text. -/
def utf16ToUtf8 (s : List UInt16) : List UInt8 :=
  (decodeUtf16 s).flatMap String.utf8EncodeChar

/-- The UTF-16 text of a UTF-8 byte string. -/
def utf8ToUtf16 (bs : List UInt8) : List UInt16 :=
  (decodeUtf8 bs).flatMap utf16EncodeChar

/-- The UTF-16 form of a list of scalar values. -/
def WellFormedUtf16 (s : List UInt16) : Prop := ∃ cs : List Char, s = cs.flatMap utf16EncodeChar

/-- INTERNAL: a scalar value is not a surrogate and lies below U+110000. -/
theorem char_toNat_range (c : Char) :
    c.toNat < 0xD800 ∨ (0xDFFF < c.toNat ∧ c.toNat < 0x110000) := by
  have h := c.valid
  simp only [UInt32.isValidChar, Nat.isValidChar] at h
  exact h

/-- Decoding the UTF-16 form of a scalar value in front of other text. -/
theorem decodeUtf16_encodeChar_append (c : Char) (us : List UInt16) :
    decodeUtf16 (utf16EncodeChar c ++ us) = c :: decodeUtf16 us := by
  have hr := char_toNat_range c
  by_cases h : c.toNat < 0x10000
  · have hu : (UInt16.ofNat c.toNat).toNat = c.toNat := by
      simp only [UInt16.toNat_ofNat']
      omega
    have hsur : isHighSurrogate (UInt16.ofNat c.toNat) = false ∧
        isLowSurrogate (UInt16.ofNat c.toNat) = false := by
      simp only [isHighSurrogate, isLowSurrogate, hu, Bool.and_eq_false_iff, decide_eq_false_iff_not]
      omega
    simp only [utf16EncodeChar, h, if_true]
    cases us with
    | nil => simp [decodeUtf16, hsur, hu, Char.ofNat_toNat]
    | cons v us => simp [decodeUtf16, hsur, hu, Char.ofNat_toNat]
  · have hhi : (UInt16.ofNat (0xD800 + (c.toNat - 0x10000) / 0x400)).toNat =
        0xD800 + (c.toNat - 0x10000) / 0x400 := by
      simp only [UInt16.toNat_ofNat']
      omega
    have hlo : (UInt16.ofNat (0xDC00 + (c.toNat - 0x10000) % 0x400)).toNat =
        0xDC00 + (c.toNat - 0x10000) % 0x400 := by
      simp only [UInt16.toNat_ofNat']
      omega
    have hpair : isHighSurrogate (UInt16.ofNat (0xD800 + (c.toNat - 0x10000) / 0x400)) = true ∧
        isLowSurrogate (UInt16.ofNat (0xDC00 + (c.toNat - 0x10000) % 0x400)) = true := by
      simp only [isHighSurrogate, isLowSurrogate, hhi, hlo, Bool.and_eq_true, decide_eq_true_eq]
      omega
    have hval : 0x10000 + (0xD800 + (c.toNat - 0x10000) / 0x400 - 0xD800) * 0x400 +
        (0xDC00 + (c.toNat - 0x10000) % 0x400 - 0xDC00) = c.toNat := by omega
    simp only [utf16EncodeChar, h, if_false, List.cons_append, List.nil_append, decodeUtf16,
      hpair, hhi, hlo, Bool.and_self, if_true, hval, Char.ofNat_toNat]

/-- Decoding the UTF-16 form of scalar values gives them back. -/
theorem decodeUtf16_encode (cs : List Char) :
    decodeUtf16 (cs.flatMap utf16EncodeChar) = cs := by
  induction cs with
  | nil => rfl
  | cons c cs ih => rw [List.flatMap_cons, decodeUtf16_encodeChar_append, ih]

/-- INTERNAL: decoding UTF-8 text gives the scalar values back, given enough fuel. -/
theorem decodeUtf8Aux_encode (cs : List Char) (fuel : ℕ)
    (h : (cs.flatMap String.utf8EncodeChar).length ≤ fuel) :
    decodeUtf8Aux fuel (cs.flatMap String.utf8EncodeChar) = cs := by
  induction cs generalizing fuel with
  | nil => cases fuel <;> rfl
  | cons c cs ih =>
    have hlen : (String.utf8EncodeChar c).length = c.utf8Size := String.length_utf8EncodeChar c
    have hpos := c.utf8Size_pos
    rw [List.flatMap_cons, List.length_append, hlen] at h
    obtain ⟨fuel, rfl⟩ : ∃ f, fuel = f + 1 := ⟨fuel - 1, by omega⟩
    rw [List.flatMap_cons]
    cases hbs : String.utf8EncodeChar c ++ cs.flatMap String.utf8EncodeChar with
    | nil =>
      have := congrArg List.length hbs
      rw [List.length_append, hlen, List.length_nil] at this
      omega
    | cons b bs =>
      have hdec : (b :: bs).toByteArray.utf8DecodeChar? 0 = some c := by
        rw [← hbs, List.toByteArray_append]
        exact ByteArray.utf8DecodeChar?_utf8EncodeChar_append
      have hdrop : (b :: bs).drop c.utf8Size = cs.flatMap String.utf8EncodeChar := by
        rw [← hbs, ← hlen, List.drop_left]
      rw [decodeUtf8Aux, hdec]
      simp only [hdrop]
      rw [ih fuel (by omega)]

/-- Decoding the UTF-8 form of scalar values gives them back. -/
theorem decodeUtf8_encode (cs : List Char) :
    decodeUtf8 (cs.flatMap String.utf8EncodeChar) = cs :=
  decodeUtf8Aux_encode cs _ (Nat.le_refl _)

/-- **The conversions are exact on well-formed text.** -/
theorem utf8ToUtf16_utf16ToUtf8 {s : List UInt16} (h : WellFormedUtf16 s) :
    utf8ToUtf16 (utf16ToUtf8 s) = s := by
  obtain ⟨cs, rfl⟩ := h
  rw [utf8ToUtf16, utf16ToUtf8, decodeUtf16_encode, decodeUtf8_encode]

/-- What a reader makes of the UTF-8 form of a text: surrogates without a partner are replaced. -/
def normalText (s : List UInt16) : List UInt16 := utf8ToUtf16 (utf16ToUtf8 s)

theorem wellFormedUtf16_normalText (s : List UInt16) : WellFormedUtf16 (normalText s) :=
  ⟨_, rfl⟩

/-- **It has the same UTF-8 form.** -/
theorem utf16ToUtf8_normalText (s : List UInt16) : utf16ToUtf8 (normalText s) = utf16ToUtf8 s := by
  rw [normalText, utf8ToUtf16, utf16ToUtf8, utf16ToUtf8, decodeUtf8_encode, decodeUtf16_encode]

/-- It is the text itself where that is well-formed. -/
theorem normalText_eq_self_iff {s : List UInt16} : normalText s = s ↔ WellFormedUtf16 s :=
  ⟨fun h => h ▸ wellFormedUtf16_normalText s, utf8ToUtf16_utf16ToUtf8⟩

/-- Only the empty text has no scalar values. -/
theorem decodeUtf16_eq_nil {s : List UInt16} : decodeUtf16 s = [] ↔ s = [] := by
  match s with
  | [] => simp [decodeUtf16]
  | [u] => simp [decodeUtf16]
  | u :: v :: us =>
    simp only [decodeUtf16]
    split
    · simp
    · split <;> simp

/-- Only the empty text has an empty UTF-8 form. -/
theorem utf16ToUtf8_eq_nil {s : List UInt16} : utf16ToUtf8 s = [] ↔ s = [] := by
  rw [← decodeUtf16_eq_nil, utf16ToUtf8]
  cases decodeUtf16 s with
  | nil => simp
  | cons c cs =>
    have hpos := c.utf8Size_pos
    rw [← String.length_utf8EncodeChar c] at hpos
    have hne : String.utf8EncodeChar c ≠ [] := List.ne_nil_of_length_pos hpos
    simp [hne]

/-! ## ASCII -/

/-- The text consists of ASCII characters. -/
def AsciiUtf16 (s : List UInt16) : Prop := ∀ u ∈ s, u < 128

instance (s : List UInt16) : Decidable (AsciiUtf16 s) :=
  have (u : UInt16) : Decidable (u < 128) := UInt16.decLt u 128
  List.decidableBAll (fun u => u < 128) s

/-- INTERNAL: an ASCII code unit is a scalar value of one byte. -/
theorem ascii_codeUnit {u : UInt16} (h : u < 128) :
    isHighSurrogate u = false ∧ isLowSurrogate u = false ∧
      String.utf8EncodeChar (Char.ofNat u.toNat) = [u.toUInt8] ∧
      utf16EncodeChar (Char.ofNat u.toNat) = [u] := by
  have hall : ∀ n < 128,
      isHighSurrogate (UInt16.ofNat n) = false ∧ isLowSurrogate (UInt16.ofNat n) = false ∧
      String.utf8EncodeChar (Char.ofNat (UInt16.ofNat n).toNat) = [(UInt16.ofNat n).toUInt8] ∧
      utf16EncodeChar (Char.ofNat (UInt16.ofNat n).toNat) = [UInt16.ofNat n] := by decide
  have hu := hall u.toNat h
  rwa [UInt16.ofNat_toNat] at hu

/-- Each ASCII character is a scalar value of its own. -/
theorem decodeUtf16_ascii {s : List UInt16} (h : AsciiUtf16 s) :
    decodeUtf16 s = s.map fun u => Char.ofNat u.toNat := by
  induction s with
  | nil => rfl
  | cons u s ih =>
    obtain ⟨hhi, hlo, -⟩ := ascii_codeUnit (h u (by simp))
    have hs := ih fun v hv => h v (by simp [hv])
    cases s with
    | nil => simp [decodeUtf16, hhi, hlo]
    | cons v s =>
      rw [decodeUtf16, hhi, hlo, hs]
      simp

/-- The UTF-8 form of ASCII text has its code units as bytes. -/
theorem utf16ToUtf8_ascii {s : List UInt16} (h : AsciiUtf16 s) :
    utf16ToUtf8 s = s.map UInt16.toUInt8 := by
  rw [utf16ToUtf8, decodeUtf16_ascii h]
  induction s with
  | nil => rfl
  | cons u s ih =>
    obtain ⟨-, -, hbyte, -⟩ := ascii_codeUnit (h u (by simp))
    have hs := ih fun v hv => h v (by simp [hv])
    rw [List.map_cons, List.flatMap_cons, hbyte, hs]
    rfl

/-- ASCII text is well formed. -/
theorem wellFormedUtf16_ascii {s : List UInt16} (h : AsciiUtf16 s) : WellFormedUtf16 s := by
  refine ⟨s.map fun u => Char.ofNat u.toNat, ?_⟩
  induction s with
  | nil => rfl
  | cons u s ih =>
    obtain ⟨-, -, -, hunit⟩ := ascii_codeUnit (h u (by simp))
    have hs := ih fun v hv => h v (by simp [hv])
    rw [List.map_cons, List.flatMap_cons, hunit, ← hs]
    rfl

/-- An ASCII character parts the text in front of it from the text behind. -/
theorem decodeUtf16_append_ascii {u : UInt16} (hu : u < 128) (s t : List UInt16) :
    decodeUtf16 (s ++ u :: t) = decodeUtf16 s ++ Char.ofNat u.toNat :: decodeUtf16 t := by
  obtain ⟨hhi, hlo, -⟩ := ascii_codeUnit hu
  have hhead : decodeUtf16 (u :: t) = Char.ofNat u.toNat :: decodeUtf16 t := by
    cases t with
    | nil => simp [decodeUtf16, hhi, hlo]
    | cons v t =>
      rw [decodeUtf16, hhi, hlo]
      simp
  fun_induction decodeUtf16 s with
  | case1 => exact hhead
  | case2 v =>
    show decodeUtf16 (v :: u :: t) = _
    rw [decodeUtf16, hlo, Bool.and_false, if_neg Bool.false_ne_true, hhead]
    split <;> rfl
  | case3 v w s hpair ih =>
    show decodeUtf16 (v :: w :: (s ++ u :: t)) = _
    rw [decodeUtf16, if_pos hpair, ih]
    rfl
  | case4 v w s hpair hlone ih =>
    show decodeUtf16 (v :: w :: (s ++ u :: t)) = _
    rw [decodeUtf16, if_neg hpair, if_pos hlone]
    exact congrArg _ ih
  | case5 v w s hpair hlone ih =>
    show decodeUtf16 (v :: w :: (s ++ u :: t)) = _
    rw [decodeUtf16, if_neg hpair, if_neg hlone]
    exact congrArg _ ih

/-- The same in UTF-8. -/
theorem utf16ToUtf8_append_ascii {u : UInt16} (hu : u < 128) (s t : List UInt16) :
    utf16ToUtf8 (s ++ u :: t) = utf16ToUtf8 s ++ u.toUInt8 :: utf16ToUtf8 t := by
  obtain ⟨-, -, hbyte, -⟩ := ascii_codeUnit hu
  rw [utf16ToUtf8, decodeUtf16_append_ascii hu, List.flatMap_append, List.flatMap_cons, hbyte]
  rfl

/-- INTERNAL: a scalar value with one byte. -/
theorem toNat_lt_of_utf8 {c : Char} (h : ∀ b ∈ String.utf8EncodeChar c, b < 128) : c.toNat < 128 := by
  by_contra hc
  have hval : c.val.toNat = c.toNat := rfl
  have hr := char_toNat_range c
  have hfirst : ∀ n : ℕ, n < 256 → UInt8.ofNat n < 128 → n < 128 := by
    intro n hn hlt
    have := UInt8.lt_iff_toNat_lt.mp hlt
    rw [UInt8.toNat_ofNat', Nat.mod_eq_of_lt hn] at this
    exact this
  simp only [String.utf8EncodeChar] at h
  split at h
  · omega
  · split at h
    · have := hfirst _ (by omega) (h _ List.mem_cons_self)
      omega
    · split at h
      · have := hfirst _ (by omega) (h _ List.mem_cons_self)
        omega
      · have := hfirst _ (by omega) (h _ List.mem_cons_self)
        omega

theorem toNat_ofNat_of_valid {n : ℕ} (h : n.isValidChar) : (Char.ofNat n).toNat = n := by
  rw [Char.ofNat, dif_pos h]
  rfl

/-- Text whose UTF-8 form is ASCII is ASCII. -/
theorem asciiUtf16_of_utf8 {s : List UInt16} (h : ∀ b ∈ utf16ToUtf8 s, b < 128) : AsciiUtf16 s := by
  have hchars : ∀ c ∈ decodeUtf16 s, c.toNat < 128 := fun c hc =>
    toNat_lt_of_utf8 fun b hb => h b (List.mem_flatMap.mpr ⟨c, hc, hb⟩)
  clear h
  have hunit : ∀ u : UInt16, (isHighSurrogate u || isLowSurrogate u) ≠ true →
      (Char.ofNat u.toNat).toNat < 128 → u < 128 := by
    intro u hu hlt
    simp only [isHighSurrogate, isLowSurrogate, ne_eq, Bool.or_eq_true, Bool.and_eq_true,
      decide_eq_true_eq] at hu
    have hlt16 := u.toNat_lt
    have hvalid : u.toNat.isValidChar := by
      unfold Nat.isValidChar
      omega
    rw [toNat_ofNat_of_valid hvalid] at hlt
    exact UInt16.lt_iff_toNat_lt.mpr hlt
  have hreplacement : ¬ replacementChar.toNat < 128 := by decide
  fun_induction decodeUtf16 s with
  | case1 => exact fun u hu => absurd hu List.not_mem_nil
  | case2 u =>
    intro v hv
    obtain rfl := List.mem_singleton.mp hv
    have hc := hchars _ (List.mem_singleton_self _)
    split at hc
    · exact absurd hc hreplacement
    · exact hunit v ‹_› hc
  | case3 u v s hpair ih =>
    have hc := hchars _ List.mem_cons_self
    have hu := u.toNat_lt
    have hv := v.toNat_lt
    simp only [isHighSurrogate, isLowSurrogate, Bool.and_eq_true, decide_eq_true_eq] at hpair
    rw [toNat_ofNat_of_valid (by unfold Nat.isValidChar; omega)] at hc
    omega
  | case4 u v s hpair hlone ih => exact absurd (hchars _ List.mem_cons_self) hreplacement
  | case5 u v s hpair hlone ih =>
    have hrest := ih fun c hc => hchars c (List.mem_cons_of_mem _ hc)
    have hfirst := hunit u hlone (hchars _ List.mem_cons_self)
    intro w hw
    rcases List.mem_cons.mp hw with rfl | hw
    · exact hfirst
    · exact hrest w hw
/-- INTERNAL: bytes that are read as ASCII characters are as many. -/
theorem length_decodeUtf8Aux {fuel : ℕ} {bs : List UInt8} (hfuel : bs.length ≤ fuel)
    (h : ∀ c ∈ decodeUtf8Aux fuel bs, c.toNat < 128) :
    (decodeUtf8Aux fuel bs).length = bs.length := by
  induction fuel generalizing bs with
  | zero =>
    rw [List.length_eq_zero_iff.mp (by omega : bs.length = 0)]
    rfl
  | succ fuel ih =>
    cases bs with
    | nil => rfl
    | cons b bs =>
      rw [decodeUtf8Aux] at h ⊢
      split at h
      · rename_i c hc
        have hsize : c.utf8Size = 1 :=
          Char.utf8Size_eq_one_iff.mpr (UInt32.le_iff_toNat_le.mpr
            (Nat.le_of_lt_succ (h c List.mem_cons_self)))
        simp only [hsize, List.drop_succ_cons, List.drop_zero] at h ⊢
        rw [List.length_cons, List.length_cons,
          ih (Nat.le_of_succ_le_succ hfuel) fun d hd => h d (List.mem_cons_of_mem _ hd)]
      · exact absurd (h replacementChar List.mem_cons_self) (by decide)

/-- INTERNAL: a scalar value with one ASCII code unit. -/
theorem toNat_lt_of_utf16 {c : Char} (h : ∀ u ∈ utf16EncodeChar c, u < 128) :
    c.toNat < 128 ∧ (utf16EncodeChar c).length = 1 := by
  have hr := char_toNat_range c
  unfold utf16EncodeChar at h ⊢
  split at h
  · rename_i hlt
    have := UInt16.lt_iff_toNat_lt.mp (h _ List.mem_cons_self)
    rw [UInt16.toNat_ofNat', Nat.mod_eq_of_lt hlt] at this
    exact ⟨this, by rw [if_pos hlt]; rfl⟩
  · rename_i hlt
    have := UInt16.lt_iff_toNat_lt.mp (h _ List.mem_cons_self)
    rw [UInt16.toNat_ofNat', Nat.mod_eq_of_lt (by omega)] at this
    have h128 : (128 : UInt16).toNat = 128 := rfl
    omega

/-- **Bytes that are read as ASCII text have its length.** -/
theorem length_utf8ToUtf16_ascii {bs : List UInt8} (h : AsciiUtf16 (utf8ToUtf16 bs)) :
    (utf8ToUtf16 bs).length = bs.length := by
  have hchars : ∀ c ∈ decodeUtf8 bs, c.toNat < 128 ∧ (utf16EncodeChar c).length = 1 :=
    fun c hc => toNat_lt_of_utf16 fun u hu => h u (List.mem_flatMap.mpr ⟨c, hc, hu⟩)
  rw [← length_decodeUtf8Aux (Nat.le_refl bs.length) fun c hc => (hchars c hc).1,
    utf8ToUtf16, List.length_flatMap, List.map_congr_left fun c hc => (hchars c hc).2,
    List.map_const', List.sum_replicate_nat, Nat.mul_one]
  rfl

/-- INTERNAL: the number of bytes of a code unit that is a scalar value. -/
theorem length_encode_unit {u : UInt16}
    (hlone : ¬ (isHighSurrogate u || isLowSurrogate u) = true) :
    1 ≤ (String.utf8EncodeChar (Char.ofNat u.toNat)).length ∧
      ((String.utf8EncodeChar (Char.ofNat u.toNat)).length = 1 → u < 128) := by
  have hvalid : u.toNat.isValidChar := by
    have hu := u.toNat_lt
    simp only [isHighSurrogate, isLowSurrogate, Bool.or_eq_true, Bool.and_eq_true,
      decide_eq_true_eq] at hlone
    unfold Nat.isValidChar
    omega
  rw [String.length_utf8EncodeChar]
  refine ⟨Char.utf8Size_pos _, fun h => ?_⟩
  have hsmall := UInt32.le_iff_toNat_le.mp (Char.utf8Size_eq_one_iff.mp h)
  have hunit := toNat_ofNat_of_valid hvalid
  rw [UInt16.lt_iff_toNat_lt, ← hunit]
  exact Nat.lt_succ_of_le hsmall

/-- INTERNAL: the number of bytes of a surrogate pair. -/
theorem length_encode_pair {u v : UInt16}
    (hpair : (isHighSurrogate u && isLowSurrogate v) = true) :
    2 < (String.utf8EncodeChar (Char.ofNat
      (0x10000 + (u.toNat - 0xD800) * 0x400 + (v.toNat - 0xDC00)))).length := by
  simp only [isHighSurrogate, isLowSurrogate, Bool.and_eq_true, decide_eq_true_eq] at hpair
  have hvalid : (0x10000 + (u.toNat - 0xD800) * 0x400 + (v.toNat - 0xDC00)).isValidChar := by
    unfold Nat.isValidChar
    omega
  have hunit := toNat_ofNat_of_valid hvalid
  rw [String.length_utf8EncodeChar]
  generalize Char.ofNat (0x10000 + (u.toNat - 0xD800) * 0x400 + (v.toNat - 0xDC00)) = c at hunit ⊢
  have hlarge : 0x10000 ≤ c.val.toNat := by
    rw [show c.val.toNat = c.toNat from rfl, hunit]
    omega
  simp only [Char.utf8Size, UInt32.le_iff_toNat_le]
  split_ifs with h1 h2 h3
  · exact absurd (Nat.le_trans hlarge h1) (by decide)
  · exact absurd (Nat.le_trans hlarge h2) (by decide)
  · decide
  · decide

/-- INTERNAL: UTF-8 takes a byte for each code unit at least. -/
theorem length_utf16ToUtf8 (s : List UInt16) :
    s.length ≤ (utf16ToUtf8 s).length ∧
      ((utf16ToUtf8 s).length = s.length → AsciiUtf16 s) := by
  have hreplaced : 1 < (String.utf8EncodeChar replacementChar).length := by decide
  unfold utf16ToUtf8 AsciiUtf16
  fun_induction decodeUtf16 s with
  | case1 => exact ⟨Nat.le_refl 0, fun _ u hu => absurd hu List.not_mem_nil⟩
  | case2 u =>
    rw [List.flatMap_singleton, List.length_singleton]
    split
    · exact ⟨Nat.le_of_lt hreplaced, fun h => absurd h (by omega)⟩
    · rename_i hlone
      refine ⟨(length_encode_unit hlone).1, fun h v hv => ?_⟩
      rw [List.mem_singleton.mp hv]
      exact (length_encode_unit hlone).2 h
  | case3 u v s hpair ih =>
    have hbytes := length_encode_pair hpair
    rw [List.flatMap_cons, List.length_append, List.length_cons, List.length_cons]
    exact ⟨by omega, fun h => absurd h (by omega)⟩
  | case4 u v s hpair hlone ih =>
    rw [List.length_cons] at ih
    rw [List.flatMap_cons, List.length_append, List.length_cons, List.length_cons]
    exact ⟨by omega, fun h => absurd h (by omega)⟩
  | case5 u v s hpair hlone ih =>
    obtain ⟨hone, hsmall⟩ := length_encode_unit hlone
    rw [List.length_cons] at ih
    rw [List.flatMap_cons, List.length_append, List.length_cons, List.length_cons]
    refine ⟨by omega, fun h w hw => ?_⟩
    rcases List.mem_cons.mp hw with rfl | hw
    · exact hsmall (by omega)
    · exact ih.2 (by omega) w hw

/-- **The code units themselves are the UTF-8 form of ASCII text only.** -/
theorem map_toUInt8_eq_utf16ToUtf8_iff {s : List UInt16} :
    s.map UInt16.toUInt8 = utf16ToUtf8 s ↔ AsciiUtf16 s := by
  refine ⟨fun h => (length_utf16ToUtf8 s).2 ?_, fun h => (utf16ToUtf8_ascii h).symm⟩
  rw [← h, List.length_map]

end IspSession.Library
