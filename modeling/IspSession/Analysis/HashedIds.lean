import IspSession.Model.HashedIds

/-!
# The hash of an id as a number

The hash a page sees in place of an id is an `unsigned long` that is turned into a text as an `int`,
with room for ten characters. `hashedIds_iff` says for which ids the text is the number.
-/

set_option autoImplicit false

namespace IspSession.Analysis

open IspSession.Library IspSession.Model

/-! ## The claim -/

/-- **The answer is the numeral of the text's hash**, and has room in the buffer. -/
def ShowsHash (text : Bstr) (answer : Run (Option Bstr)) : Prop :=
  (decimalText (getHashcode text).toNat).length + 1 ≤ 10 ∧
    answer = .ok (some (decimalText (getHashcode text).toNat))

/-- The bytes of a text that count: all of them, unless there are more than a counter can tell. -/
def hashedBytes (text : Bstr) : Bytes :=
  let count := (utf16ToUtf8 text).length % 2 ^ 32
  if count ≤ 2 ^ 31 then (utf16ToUtf8 text).take count else []

/-- A byte that is led through the table by others, the last one first. -/
def tableWalk (bytes : Bytes) (d : UInt8) : UInt8 :=
  bytes.foldr (fun src d => hashDataEntry (src ^^^ d)) d

/-- The number of the four bytes that start as 0, 1, 2 and 3, the first one lowest. -/
def walkedNumber (text : Bstr) : ℕ := ofLeBytes ([0, 1, 2, 3].map (tableWalk (hashedBytes text)))

/-! ## The hash -/

/-- INTERNAL: bytes that are replaced one by one. -/
theorem foldr_map_bytes (f : UInt8 → UInt8 → UInt8) (bytes dest : Bytes) :
    bytes.foldr (fun src dest => dest.map (f src)) dest =
      dest.map fun d => bytes.foldr f d := by
  induction bytes with
  | nil => rw [List.foldr_nil]; exact (List.map_id dest).symm
  | cons src bytes ih => rw [List.foldr_cons, ih, List.map_map]; rfl

/-- INTERNAL: the counter of the source bytes, as an `INT`. -/
theorem srcCount_eq (n : ℕ) :
    ((BitVec.ofNat 32 n - 1).slt 0 = true ↔ n % 2 ^ 32 = 0 ∨ 2 ^ 31 < n % 2 ^ 32) ∧
      (n % 2 ^ 32 ≠ 0 → (BitVec.ofNat 32 n - 1).toNat + 1 = n % 2 ^ 32) := by
  have hone : (1 : BitVec 32).toNat = 1 := rfl
  have hcount : (BitVec.ofNat 32 n - 1).toNat = (2 ^ 32 - 1 + n % 2 ^ 32) % 2 ^ 32 := by
    rw [BitVec.toNat_sub, hone, BitVec.toNat_ofNat]
  have hlt := Nat.mod_lt n (Nat.two_pow_pos 32)
  have hzero : (0 : BitVec 32).toInt = 0 := rfl
  constructor
  · rw [BitVec.slt, decide_eq_true_eq, hzero, BitVec.toInt_eq_toNat_cond, hcount]
    split <;> omega
  · intro hne
    omega

/-- INTERNAL: the bytes that `HashData2` reads of a text. -/
theorem read_eq_hashedBytes (text : Bstr) :
    (if (BitVec.ofNat 32 (utf16ToUtf8 text).length - 1).slt 0 then []
      else (utf16ToUtf8 text).take
        ((BitVec.ofNat 32 (utf16ToUtf8 text).length - 1).toNat + 1)) = hashedBytes text := by
  obtain ⟨hsign, hcount⟩ := srcCount_eq (utf16ToUtf8 text).length
  rw [hashedBytes]
  by_cases hneg : (BitVec.ofNat 32 (utf16ToUtf8 text).length - 1).slt 0 = true
  · rw [if_pos hneg]
    rcases hsign.mp hneg with hzero | hlarge
    · rw [hzero, if_pos (Nat.zero_le _), List.take_zero]
    · rw [if_neg (by omega)]
  · have hbounds := mt hsign.mpr hneg
    rw [if_neg hneg, hcount (by omega), if_pos (by omega)]

/-- INTERNAL: what `HashData2` makes of a text. -/
theorem hashData2_eq (text : Bstr) :
    hashData2 (utf16ToUtf8 text) (BitVec.ofNat 32 (utf16ToUtf8 text).length) 4 =
      [0, 1, 2, 3].map (tableWalk (hashedBytes text)) := by
  have hstart : (List.range 4).map UInt8.ofNat = [0, 1, 2, 3] := by decide
  unfold hashData2
  dsimp only
  rw [hstart, read_eq_hashedBytes, foldr_map_bytes fun src d => hashDataEntry (src ^^^ d)]
  rfl

/-- INTERNAL: the hash of a text that is not empty. -/
theorem toNat_getHashcode {text : Bstr} (h : text ≠ []) :
    (getHashcode text).toNat = walkedNumber text := by
  have hlt : walkedNumber text < 256 ^ 4 :=
    ofLeBytes_lt ([0, 1, 2, 3].map (tableWalk (hashedBytes text)))
  have hhash : getHashcode text = BitVec.ofNat 32 (walkedNumber text) := by
    rw [getHashcode, if_neg h, walkedNumber, ← hashData2_eq]
    rfl
  rw [hhash, BitVec.toNat_ofNat]
  exact Nat.mod_eq_of_lt hlt

/-! ## The numeral -/

/-- INTERNAL: a numeral that starts with a minus sign is none of a natural number. -/
theorem minus_ne_decimalText (s : Bstr) (n : ℕ) : 45 :: s ≠ decimalText n := by
  intro h
  have hdigit := isDigit_of_mem_decimalText (h ▸ List.mem_cons_self : (45 : UInt16) ∈ decimalText n)
  cases hdigit

/-- INTERNAL: when the conversion is right. -/
theorem itow_eq_iff (value : BitVec 32) :
    itow value 10 = .ok (decimalText value.toNat) ↔ value.toNat < 10 ^ 9 := by
  have hlength := length_decimalText_le_iff (n := value.toNat) (k := 9) (by decide)
  unfold itow
  by_cases hneg : value.slt 0
  · have hlarge : ¬ value.toNat < 10 ^ 9 := by
      rw [BitVec.slt, decide_eq_true_eq, BitVec.toInt_eq_toNat_cond] at hneg
      split at hneg
      · exact absurd hneg (by simp)
      · omega
    refine iff_of_false ?_ hlarge
    rw [if_pos hneg]
    dsimp only
    split
    · intro h
      exact minus_ne_decimalText _ _ (Except.ok.inj h)
    · intro h
      cases h
  · rw [if_neg hneg]
    dsimp only
    split
    · rename_i hfits
      exact iff_of_true rfl (hlength.mp (by omega))
    · rename_i hfits
      refine iff_of_false (fun h => by cases h) fun h => hfits ?_
      have := hlength.mpr h
      omega

/-- INTERNAL: the answer of a property that converts the hash of a text. -/
theorem showsHash_iff (text : Bstr) :
    (ShowsHash text do
      let buffer ← itow (getHashcode text) 10
      pure (some buffer)) ↔ (getHashcode text).toNat < 10 ^ 9 := by
  have hlength := length_decimalText_le_iff (n := (getHashcode text).toNat) (k := 9) (by decide)
  rw [← itow_eq_iff]
  constructor
  · rintro ⟨-, hanswer⟩
    obtain ⟨buffer, hitow, hbuffer⟩ := Run.bind_eq_ok hanswer
    rw [hitow]
    exact congrArg _ (Option.some.inj (Except.ok.inj hbuffer))
  · intro hitow
    refine ⟨?_, ?_⟩
    · have hfits := hlength.mpr ((itow_eq_iff _).mp hitow)
      omega
    · rw [hitow]
      rfl

/-! ## The result -/

/-- **The ids that a page is shown as a number**: exactly those whose four table bytes make a number
below a thousand million. -/
theorem hashedIds_iff {r : SessionIds} (hguid : r.guid ≠ 0) (hhashed : r.bHashsessionID = true) :
    (ShowsHash r.strGUID r.getSessionID ↔ walkedNumber r.strGUID < 10 ^ 9) ∧
    (ShowsHash r.m_OldSessionId r.getOldSessionID ↔ walkedNumber r.m_OldSessionId < 10 ^ 9) := by
  have hempty : walkedNumber [] < 10 ^ 9 := by decide
  constructor
  · rw [SessionIds.getSessionID, if_neg hguid, if_pos hhashed, showsHash_iff]
    by_cases hid : r.strGUID = []
    · rw [hid]
      exact iff_of_true (by decide) hempty
    · rw [toNat_getHashcode hid]
  · rw [SessionIds.getOldSessionID]
    by_cases hid : r.m_OldSessionId = []
    · rw [if_pos hid, hid]
      exact iff_of_true ⟨by decide, rfl⟩ hempty
    · rw [if_neg hid, if_pos hhashed, showsHash_iff, toNat_getHashcode hid]

/-- A session whose ids are shown as numbers. -/
def shownAsNumbers (strGUID m_OldSessionId : Bstr) : SessionIds where
  guid := 1
  strGUID := strGUID
  m_OldSessionId := m_OldSessionId
  bHashsessionID := true

/-- An id whose hash is 563539143. -/
def lowHashId : Bstr := Bstr.ofString "00000000000000000000000000000002"

/-- An id whose hash is 3354170913. -/
def highHashId : Bstr := Bstr.ofString "00000000000000000000000000000001"

/-- INTERNAL: its table bytes. -/
theorem walkedNumber_lowHashId : walkedNumber lowHashId < 10 ^ 9 := by decide +kernel

theorem lowHashId_hashedIds :
    ShowsHash (shownAsNumbers lowHashId []).strGUID (shownAsNumbers lowHashId []).getSessionID ∧
      ShowsHash (shownAsNumbers lowHashId lowHashId).m_OldSessionId
        (shownAsNumbers lowHashId lowHashId).getOldSessionID :=
  ⟨(hashedIds_iff (r := shownAsNumbers lowHashId []) (by decide) rfl).1.mpr
      walkedNumber_lowHashId,
    (hashedIds_iff (r := shownAsNumbers lowHashId lowHashId) (by decide) rfl).2.mpr
      walkedNumber_lowHashId⟩

/-- **A hash with ten digits**: as an `int` it is -940796383, whose text and zero are eleven
characters. -/
theorem highHashId_not_hashedIds :
    ¬ ShowsHash highHashId (shownAsNumbers highHashId highHashId).getSessionID ∧
      ¬ ShowsHash highHashId (shownAsNumbers highHashId highHashId).getOldSessionID := by
  have hhash : getHashcode highHashId = 3354170913 := by decide +kernel
  have hlong : ¬ (decimalText (getHashcode highHashId).toNat).length + 1 ≤ 10 := by
    rw [hhash]
    decide
  exact ⟨fun h => hlong h.1, fun h => hlong h.1⟩

end IspSession.Analysis
