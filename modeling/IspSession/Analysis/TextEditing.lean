import IspSession.Analysis.TextReplacement
import IspSession.Model.SessionCookie

/-!
# Inserting, removing and cutting out

`Insert`, `Remove` and `Substring` of a `CComBSTR2` against taking and dropping characters of a list.
Positions and counts are `unsigned int`, and their sums may wrap; a text that was empty has nothing
copied into it. `edits_iff` says when the three agree with the lists.
-/

set_option autoImplicit false

namespace IspSession.Analysis

open IspSession.Library IspSession.Model IspSession.Model.CComBSTR2

/-! ## The claim -/

/-- The text of a `BSTR`, of which a null pointer has none. -/
def textOf (m_str : Option Bstr) : Bstr := m_str.getD []

@[simp] theorem textOf_none : textOf none = [] := rfl

@[simp] theorem textOf_some (s : Bstr) : textOf (some s) = s := rfl

/-- A call that works on the text of an object. A null pointer stays one when it fails. -/
def onText (call : Bstr → Run (HResult × Bstr)) (m_str : Option Bstr) :
    Run (HResult × Option Bstr) := do
  let (hr, s) ← call (textOf m_str)
  .ok (hr, if m_str = none ∧ hr.failed then none else some s)

/-- The call returns, succeeds exactly when it should, and then yields a text; otherwise it leaves
the old one. -/
def Edits (m_str : Option Bstr) (allowed : Prop) (edited : Bstr)
    (call : Run (HResult × Option Bstr)) : Prop :=
  ∃ hr after, call = .ok (hr, after) ∧ (hr.failed = false ↔ allowed) ∧
    (hr.failed = false → textOf after = edited) ∧ (hr.failed = true → after = m_str)

/-- **The law of `Insert`**, whatever new memory holds. -/
def InsertLaw (m_str value : Option Bstr) (atPosition : BitVec 32) : Prop :=
  ∀ memory, Edits m_str (atPosition.toNat ≤ (textOf m_str).length)
    ((textOf m_str).take atPosition.toNat ++ textOf value ++ (textOf m_str).drop atPosition.toNat)
    (onText (CComBSTR2.insert memory atPosition.toNat value) m_str)

/-- **The law of `Remove`**. -/
def RemoveLaw (m_str : Option Bstr) (startIndex count : BitVec 32) : Prop :=
  Edits m_str (startIndex.toNat < (textOf m_str).length)
    ((textOf m_str).take startIndex.toNat ++
      (textOf m_str).drop (startIndex.toNat + count.toNat))
    (onText (remove startIndex.toNat count.toNat) m_str)

/-- **The law of `Substring`**. -/
def SubstringLaw (m_str : Option Bstr) (startIndex length : BitVec 32) : Prop :=
  startIndex.toNat ≤ (textOf m_str).length →
    textOf (m_str.bind (substring startIndex.toNat length.toNat)) =
      ((textOf m_str).drop startIndex.toNat).take length.toNat

/-! ## Numbers of 32 bits -/

/-- INTERNAL: an `unsigned int` that is in range. -/
theorem uint_of_lt {x : ℤ} {n : ℕ} (hx : x = n) (hn : n < 2 ^ 32) : uint x = n := by
  rw [uint, hx, BitVec.ofInt_natCast, BitVec.toNat_ofNat, Nat.mod_eq_of_lt hn]

/-- INTERNAL: a sum that wraps. -/
theorem uint_of_wrap {x : ℤ} {n : ℕ} (hx : x = n + 2 ^ 32) (hn : n < 2 ^ 32) : uint x = n := by
  have hcast : x = ((n + 2 ^ 32 : ℕ) : ℤ) := by
    rw [hx]
    push_cast
    rfl
  rw [uint, hcast, BitVec.ofInt_natCast, BitVec.toNat_ofNat, Nat.add_mod_right,
    Nat.mod_eq_of_lt hn]

/-! ## `Remove` -/

/-- INTERNAL: `Remove` of a part of the text, of all that is left when the count is too large. -/
theorem remove_parts (pre cutOut post : Bstr) {count : ℕ} (hne : cutOut ++ post ≠ [])
    (hfits : FitsBstr (pre ++ (cutOut ++ post)))
    (hcount : count = cutOut.length ∨ post = [] ∧ cutOut.length < count)
    (hwrap : pre.length + count < 2 ^ 32) :
    remove pre.length count (pre ++ (cutOut ++ post)) = .ok (.sOk, pre ++ post) := by
  have hlength : (pre ++ (cutOut ++ post)).length =
      pre.length + (cutOut.length + post.length) := by
    rw [List.length_append, List.length_append]
  have hpos := List.length_pos_iff.mpr hne
  rw [List.length_append] at hpos
  have hsmall : pre.length + (cutOut.length + post.length) < 2 ^ 31 := hlength ▸ hfits
  have hsum : uint (count + pre.length) = count + pre.length :=
    uint_of_lt (by push_cast; ring) (by omega)
  have hplace : uint (pre.length + cutOut.length) = pre.length + cutOut.length :=
    uint_of_lt (by push_cast; ring) (by omega)
  have hrest : uint ((pre.length + (cutOut.length + post.length) : ℕ) - pre.length) =
      cutOut.length + post.length := uint_of_lt (by push_cast; ring) (by omega)
  have hbehind : uint ((pre.length + (cutOut.length + post.length) : ℕ) - pre.length -
      cutOut.length) = post.length := uint_of_lt (by push_cast; ring) (by omega)
  have hleft : uint ((pre.length + (cutOut.length + post.length) : ℕ) - cutOut.length) =
      (pre ++ post).length :=
    uint_of_lt (by rw [List.length_append]; push_cast; ring) (by rw [List.length_append]; omega)
  -- the count that remains
  have hcorrected : (if pre.length + (cutOut.length + post.length) < count + pre.length then
      cutOut.length + post.length else count) = cutOut.length := by
    rcases hcount with rfl | ⟨rfl, hlong⟩
    · exact if_neg (by omega)
    · rw [List.length_nil] at hsmall ⊢
      rw [if_pos (by omega), Nat.add_zero]
  rw [remove, hlength, hsum, hrest, hcorrected, hbehind, if_pos (by omega), hleft, hplace]
  split
  · have hmove : wmemmoveS pre.length
        ((pre.length + (cutOut.length + post.length) : ℕ) - pre.length) (pre ++ cutOut).length
        post.length ((pre ++ cutOut) ++ (post ++ [])) = _ :=
      @wmemmoveS_append (pre ++ cutOut) post [] pre.length
        ((pre.length + (cutOut.length + post.length) : ℕ) - pre.length) post.length pre.length
        rfl rfl (by push_cast; omega) (by simp only [List.length_append, List.length_nil]; omega)
    rw [List.append_nil, List.append_assoc, List.take_left, List.length_append] at hmove
    rw [hmove, Run.ok_bind, ← List.append_assoc]
    dsimp only
    rw [List.take_left]
  · rename_i hzero
    obtain rfl : post = [] := List.length_eq_zero_iff.mp (not_ne_iff.mp hzero)
    rw [Run.ok_bind, List.append_nil, List.append_nil]
    dsimp only
    rw [List.take_left]

/-- **`Remove` where the sum does not wrap.** -/
theorem remove_eq {s : Bstr} (hfits : FitsBstr s) {startIndex count : ℕ}
    (hstart : startIndex < s.length) (hwrap : startIndex + count < 2 ^ 32) :
    remove startIndex count s = .ok (.sOk, s.take startIndex ++ s.drop (startIndex + count)) := by
  have hparts : s = s.take startIndex ++ ((s.drop startIndex).take count ++
      s.drop (startIndex + count)) := by
    rw [← List.drop_drop, List.take_append_drop, List.take_append_drop]
  have hplace : (s.take startIndex).length = startIndex := by
    rw [List.length_take]
    omega
  have hcut : ((s.drop startIndex).take count).length = min count (s.length - startIndex) := by
    rw [List.length_take, List.length_drop]
  have h := @remove_parts (s.take startIndex) ((s.drop startIndex).take count)
    (s.drop (startIndex + count)) count
    (by
      rw [← List.drop_drop, List.take_append_drop]
      exact List.ne_nil_of_length_pos (by rw [List.length_drop]; omega))
    (hparts ▸ hfits)
    (by
      rw [hcut]
      by_cases hlong : s.length < startIndex + count
      · exact .inr ⟨List.drop_eq_nil_of_le (by omega), by omega⟩
      · exact .inl (by omega))
    (by rw [hplace]; exact hwrap)
  rwa [← hparts, hplace] at h

/-- **`Remove` where the sum wraps** moves more than there is room for. -/
theorem remove_wrap {s : Bstr} (hfits : FitsBstr s) {startIndex count : ℕ}
    (hstart : startIndex < s.length) (hcount : count < 2 ^ 32)
    (hwrap : 2 ^ 32 ≤ startIndex + count) : remove startIndex count s = .error .fault := by
  obtain ⟨m, hm⟩ := Nat.exists_eq_add_of_le hwrap
  rw [FitsBstr] at hfits
  have hsum : uint (count + startIndex) = m := uint_of_wrap (by omega) (by omega)
  have hsum' : uint (startIndex + count) = m := uint_of_wrap (by omega) (by omega)
  have hbehind : uint ((s.length : ℤ) - startIndex - count) = s.length - m := by
    rw [uint, BitVec.toNat_ofInt]
    omega
  rw [remove, hsum, if_neg (by omega : ¬ s.length < m), hbehind, hsum', if_pos hstart]
  dsimp only
  rw [if_pos (by omega), wmemmoveS, if_neg (by omega), if_neg (by omega)]
  rfl

/-! ## `Insert` -/

/-- INTERNAL: `wmemcpy_s` over a part of its length. -/
theorem wmemcpyS_append (pre value old post : Bstr) {destSize : ℕ}
    (hold : old.length = value.length) (hsize : value.length ≤ destSize) :
    wmemcpyS pre.length destSize value (pre ++ (old ++ post)) = .ok (pre ++ (value ++ post)) := by
  have hroom : pre.length + value.length ≤ (pre ++ (old ++ post)).length := by
    simp only [List.length_append]
    omega
  rw [wmemcpyS, if_pos ⟨hsize, hroom⟩, List.take_left, List.drop_length_add_append, ← hold,
    List.drop_left]

/-- INTERNAL: the copies of `Insert` into the room that `SetLength` has made. -/
theorem insert_copies (pre post value room : Bstr) (hroom : room.length = value.length)
    (hfits : FitsBstr (pre ++ post ++ value)) :
    (do
      let m_str ← wmemmoveS (uint (pre.length + value.length))
        (uint (uint ((pre ++ post).length + value.length) - pre.length)) pre.length
        ((pre ++ post).length - pre.length) (pre ++ (post ++ room))
      let m_str ← wmemcpyS pre.length
        (uint (uint ((pre ++ post).length + value.length) - pre.length)) value m_str
      .ok (HResult.sOk, m_str)) = (.ok (.sOk, pre ++ (value ++ post)) : Run (HResult × Bstr)) := by
  rw [FitsBstr, List.length_append, List.length_append] at hfits
  have hlength : (pre ++ post).length = pre.length + post.length := List.length_append
  have hplace : uint (pre.length + value.length) = pre.length + value.length :=
    uint_of_lt (by push_cast; ring) (by omega)
  have htotal : uint ((pre ++ post).length + value.length) =
      pre.length + post.length + value.length :=
    uint_of_lt (by rw [hlength]; push_cast; ring) (by omega)
  have hsize : uint ((pre.length + post.length + value.length : ℕ) - pre.length) =
      post.length + value.length := uint_of_lt (by push_cast; ring) (by omega)
  have hmove := @wmemmoveS_append pre post room (pre.length + value.length : ℕ)
    (post.length + value.length : ℕ) ((pre ++ post).length - pre.length)
    (pre.length + value.length) rfl (by rw [hlength]; push_cast; ring)
    (by rw [hlength]; push_cast; omega)
    (by simp only [List.length_append]; omega)
  -- what is behind the place is moved, and then the value written over what stands there
  have hend : (pre ++ (post ++ room)).drop (pre.length + value.length + post.length) = [] :=
    List.drop_eq_nil_of_le (by simp only [List.length_append]; omega)
  have hold : ((post ++ room).take value.length).length = value.length := by
    rw [List.length_take, List.length_append]
    omega
  rw [hend, List.append_nil, List.take_length_add_append, List.append_assoc] at hmove
  rw [hplace, htotal, hsize, hmove, Run.ok_bind, wmemcpyS_append _ _ _ _ hold (by omega),
    Run.ok_bind]

/-- **`Insert` into a text that is not empty.** -/
theorem insert_eq (memory : ℕ → UInt16) {s value : Bstr} {atPosition : ℕ} (hne : s ≠ [])
    (hat : atPosition ≤ s.length) (hfits : FitsBstr (s ++ value)) :
    CComBSTR2.insert memory atPosition (some value) s =
      .ok (.sOk, s.take atPosition ++ value ++ s.drop atPosition) := by
  have hsmall := hfits
  rw [FitsBstr, List.length_append] at hsmall
  have hlength : uint (s.length + value.length) = s.length + value.length :=
    uint_of_lt (by push_cast; ring) (by omega)
  have hpre : (s.take atPosition).length = atPosition := by
    rw [List.length_take]
    omega
  have hset : setLength memory (uint (s.length + value.length)) s =
      (.sOk, s ++ (List.range value.length).map memory) := by
    rw [hlength, setLength, if_pos (by omega), List.take_of_length_le (by omega),
      Nat.add_sub_cancel_left]
  rw [CComBSTR2.insert]
  dsimp only
  rw [if_neg (by omega), hset]
  dsimp only
  by_cases hvalue : value = []
  · rw [if_neg (fun h => h.2.2 (by rw [hvalue]; rfl)), hvalue, List.append_nil, List.length_nil,
      List.range_zero, List.map_nil, List.append_nil, List.take_append_drop]
  · have hcopies := insert_copies (s.take atPosition) (s.drop atPosition) value
      ((List.range value.length).map memory) (by rw [List.length_map, List.length_range])
      (by rwa [List.take_append_drop])
    rw [← List.append_assoc, List.take_append_drop, hpre] at hcopies
    rw [if_pos ⟨rfl, mt List.length_eq_zero_iff.mp hne, mt List.length_eq_zero_iff.mp hvalue⟩,
      List.append_assoc]
    exact hcopies

/-- **`Insert` into an empty text** only makes room. -/
theorem insert_nil (memory : ℕ → UInt16) {value : Bstr} (hfits : FitsBstr value) :
    CComBSTR2.insert memory 0 (some value) [] =
      .ok (.sOk, (List.range value.length).map memory) := by
  have hlength : uint ((([] : Bstr).length : ℤ) + value.length) = value.length :=
    uint_of_lt (Int.zero_add _) (Nat.lt_trans hfits (by decide))
  have hroom : value.length < 2 ^ 31 := hfits
  rw [CComBSTR2.insert]
  dsimp only
  rw [if_neg (Nat.not_lt_zero _), hlength, setLength, if_pos hroom]
  dsimp only
  rw [if_neg fun h => h.2.1 rfl, List.take_nil, List.nil_append, List.length_nil, Nat.sub_zero]

/-- **`Insert` of a text for which there is no room** fails. -/
theorem insert_tooLong (memory : ℕ → UInt16) {s value : Bstr} {atPosition : ℕ}
    (hat : atPosition ≤ s.length) (hs : FitsBstr s) (hvalue : FitsBstr value)
    (hfits : ¬ FitsBstr (s ++ value)) :
    CComBSTR2.insert memory atPosition (some value) s = .ok (.eOutOfMemory, s) := by
  rw [FitsBstr, List.length_append] at hfits
  rw [FitsBstr] at hs hvalue
  have hlength : uint (s.length + value.length) = s.length + value.length :=
    uint_of_lt (by push_cast; ring) (by omega)
  have hset : setLength memory (uint (s.length + value.length)) s = (.eOutOfMemory, s) := by
    rw [hlength, setLength, if_neg hfits]
  rw [CComBSTR2.insert]
  dsimp only
  rw [if_neg (by omega), hset]
  rfl

/-! ## `Substring` -/

/-- **`Substring` where the sum does not wrap.** -/
theorem substring_eq {s : Bstr} (hfits : FitsBstr s) {startIndex length : ℕ}
    (hstart : startIndex ≤ s.length) (hwrap : startIndex + length < 2 ^ 32) :
    substring startIndex length s = some ((s.drop startIndex).take length) := by
  rw [FitsBstr] at hfits
  have hsum : uint (startIndex + length) = startIndex + length :=
    uint_of_lt (by push_cast; ring) hwrap
  have hrest : uint ((s.length : ℤ) - startIndex) = s.length - startIndex :=
    uint_of_lt (by omega) (by omega)
  rw [substring, hsum, hrest, if_pos hstart, sysAllocStringLen]
  split
  · rw [if_pos (by omega), List.take_of_length_le (i := s.length - startIndex)
      (by rw [List.length_drop]), List.take_of_length_le (by rw [List.length_drop]; omega)]
  · rw [if_pos (by omega)]

/-- **`Substring` where the sum wraps** asks for more than there can be. -/
theorem substring_wrap {s : Bstr} (hfits : FitsBstr s) {startIndex length : ℕ}
    (hstart : startIndex ≤ s.length) (hlength : length < 2 ^ 32)
    (hwrap : 2 ^ 32 ≤ startIndex + length) : substring startIndex length s = none := by
  obtain ⟨m, hm⟩ := Nat.exists_eq_add_of_le hwrap
  rw [FitsBstr] at hfits
  have hsum : uint (startIndex + length) = m := uint_of_wrap (by omega) (by omega)
  rw [substring, hsum, if_pos hstart, if_neg (by omega), sysAllocStringLen, if_neg (by omega)]

/-! ## The laws -/

/-- INTERNAL: a call that keeps the text when it fails. -/
theorem edits_of_ok {m_str : Option Bstr} {call : Bstr → Run (HResult × Bstr)} {hr : HResult}
    {s edited : Bstr} {allowed : Prop} (h : call (textOf m_str) = .ok (hr, s))
    (hkeep : hr.failed = true → s = textOf m_str) :
    Edits m_str allowed edited (onText call m_str) ↔
      (hr.failed = false ↔ allowed) ∧ (hr.failed = false → s = edited) := by
  have hrun : onText call m_str =
      .ok (hr, if m_str = none ∧ hr.failed = true then none else some s) := by
    rw [onText, h]
    rfl
  have hafter : hr.failed = true →
      (if m_str = none ∧ hr.failed = true then none else some s) = m_str := by
    intro hfailed
    cases m_str with
    | none => exact if_pos ⟨rfl, hfailed⟩
    | some t =>
      rw [if_neg (fun h => nomatch h.1), hkeep hfailed, textOf_some]
  have htext : hr.failed = false →
      textOf (if m_str = none ∧ hr.failed = true then none else some s) = s := by
    intro hok
    rw [if_neg fun h => by rw [hok] at h; exact Bool.false_ne_true h.2]
    rfl
  constructor
  · rintro ⟨hr', after, hrun', hallowed, hedited, -⟩
    rw [hrun] at hrun'
    cases hrun'
    exact ⟨hallowed, fun hok => (htext hok).symm.trans (hedited hok)⟩
  · rintro ⟨hallowed, hedited⟩
    exact ⟨hr, _, hrun, hallowed, fun hok => (htext hok).trans (hedited hok), hafter⟩

/-- **The condition on `Insert`**: a value that is no null pointer, not into an empty text unless it
is empty, and room for both. -/
def InsertsWell (m_str value : Option Bstr) (atPosition : BitVec 32) : Prop :=
  atPosition.toNat ≤ (textOf m_str).length →
    value ≠ none ∧ (textOf m_str = [] → textOf value = []) ∧
      FitsBstr (textOf m_str ++ textOf value)

/-- INTERNAL: the law of `Insert`. -/
theorem insertLaw_iff {m_str value : Option Bstr} (hs : FitsBstr (textOf m_str))
    (hvalue : FitsBstr (textOf value)) (atPosition : BitVec 32) :
    InsertLaw m_str value atPosition ↔ InsertsWell m_str value atPosition := by
  by_cases hat : atPosition.toNat ≤ (textOf m_str).length
  swap
  · -- outside of the text the call is refused
    refine iff_of_true (fun memory => ?_) fun h => absurd h hat
    have hrun : CComBSTR2.insert memory atPosition.toNat value (textOf m_str) =
        .ok (.eInvalidArg, textOf m_str) := by
      cases value with
      | none => rfl
      | some value =>
        rw [CComBSTR2.insert]
        exact if_pos (Nat.lt_of_not_le hat)
    rw [edits_of_ok hrun fun _ => rfl]
    exact ⟨iff_of_false nofun hat, nofun⟩
  cases value with
  | none =>
    refine iff_of_false (fun h => ?_) fun h => (h hat).1 rfl
    have hlaw := h fun _ => 0
    have hresult := (edits_of_ok rfl fun _ => rfl).mp hlaw
    exact nomatch hresult.1.mpr hat
  | some value =>
    rw [textOf_some] at hvalue
    have hallowed : InsertsWell m_str (some value) atPosition ↔
        (textOf m_str = [] → value = []) ∧ FitsBstr (textOf m_str ++ value) :=
      ⟨fun h => (h hat).2, fun h _ => ⟨nofun, h⟩⟩
    rw [hallowed]
    by_cases hfits : FitsBstr (textOf m_str ++ value)
    swap
    · refine iff_of_false (fun h => ?_) fun h => hfits h.2
      have hlaw := h fun _ => 0
      rw [edits_of_ok (insert_tooLong _ hat hs hvalue hfits) fun _ => rfl] at hlaw
      exact nomatch hlaw.1.mpr hat
    by_cases hempty : textOf m_str = []
    · -- the new characters are what the memory holds
      have hplace : atPosition.toNat = 0 := by
        rw [hempty] at hat
        exact Nat.le_zero.mp hat
      have hrun : ∀ memory, CComBSTR2.insert memory atPosition.toNat (some value) (textOf m_str) =
          .ok (.sOk, (List.range value.length).map memory) := by
        intro memory
        rw [hplace, hempty]
        exact insert_nil memory hvalue
      have hlaw : InsertLaw m_str (some value) atPosition ↔
          ∀ memory, (List.range value.length).map memory = value := by
        refine forall_congr' fun memory => ?_
        rw [edits_of_ok (hrun memory) nofun, hplace, hempty, List.take_nil, List.drop_nil,
          List.append_nil, List.nil_append]
        exact ⟨fun h => h.2 rfl, fun h => ⟨iff_of_true rfl (Nat.zero_le _), fun _ => h⟩⟩
      rw [hlaw]
      constructor
      · intro h
        refine ⟨fun _ => ?_, hfits⟩
        cases value with
        | nil => rfl
        | cons c value =>
          have hhead := congrArg List.head? (h fun _ => c + 1)
          rw [List.length_cons, List.range_succ_eq_map] at hhead
          have hsame : c + 1 = c := Option.some.inj hhead
          exact absurd hsame (by grind)
      · rintro ⟨hnil, -⟩ memory
        rw [hnil hempty]
        rfl
    · refine iff_of_true (fun memory => ?_) ⟨fun h => absurd h hempty, hfits⟩
      rw [edits_of_ok (insert_eq memory hempty hat hfits) nofun]
      exact ⟨iff_of_true rfl hat, fun _ => rfl⟩

/-- INTERNAL: the law of `Remove`. -/
theorem removeLaw_iff {m_str : Option Bstr} (hs : FitsBstr (textOf m_str))
    (startIndex count : BitVec 32) :
    RemoveLaw m_str startIndex count ↔
      (startIndex.toNat < (textOf m_str).length → startIndex.toNat + count.toNat < 2 ^ 32) := by
  by_cases hstart : startIndex.toNat < (textOf m_str).length
  swap
  · refine iff_of_true ?_ fun h => absurd h hstart
    have hrun : remove startIndex.toNat count.toNat (textOf m_str) =
        .ok (.eInvalidArg, textOf m_str) := by
      rw [remove]
      exact if_neg hstart
    rw [RemoveLaw, edits_of_ok hrun fun _ => rfl]
    exact ⟨iff_of_false nofun hstart, nofun⟩
  by_cases hwrap : startIndex.toNat + count.toNat < 2 ^ 32
  · refine iff_of_true ?_ fun _ => hwrap
    rw [RemoveLaw, edits_of_ok (remove_eq hs hstart hwrap) nofun]
    exact ⟨iff_of_true rfl hstart, fun _ => rfl⟩
  · refine iff_of_false ?_ fun h => hwrap (h hstart)
    rintro ⟨hr, after, hrun, -⟩
    rw [onText, remove_wrap hs hstart count.isLt (Nat.le_of_not_lt hwrap)] at hrun
    cases hrun

/-- INTERNAL: the law of `Substring`. -/
theorem substringLaw_iff {m_str : Option Bstr} (hs : FitsBstr (textOf m_str))
    (startIndex length : BitVec 32) :
    SubstringLaw m_str startIndex length ↔
      (startIndex.toNat < (textOf m_str).length → startIndex.toNat + length.toNat < 2 ^ 32) := by
  cases m_str with
  | none =>
    refine iff_of_true (fun _ => ?_) fun h => absurd h (Nat.not_lt_zero _)
    rw [Option.bind_none, textOf_none, List.drop_nil, List.take_nil]
  | some s =>
    rw [textOf_some] at hs
    rw [SubstringLaw, Option.bind_some, textOf_some]
    by_cases hstart : startIndex.toNat ≤ s.length
    swap
    · exact iff_of_true (fun h => absurd h hstart) fun h => absurd (Nat.le_of_lt h) hstart
    by_cases hwrap : startIndex.toNat + length.toNat < 2 ^ 32
    · refine iff_of_true (fun _ => ?_) fun _ => hwrap
      rw [substring_eq hs hstart hwrap]
      rfl
    · rw [substring_wrap hs hstart length.isLt (Nat.le_of_not_lt hwrap)]
      -- then nothing is given, and that is right only at the end
      have hshort : s.length - startIndex.toNat ≤ length.toNat := by
        rw [FitsBstr] at hs
        omega
      have hrest : (s.drop startIndex.toNat).take length.toNat = s.drop startIndex.toNat :=
        List.take_of_length_le (by rw [List.length_drop]; exact hshort)
      rw [hrest]
      constructor
      · intro h hlt
        have hnil : s.drop startIndex.toNat = [] := (h hstart).symm
        rw [List.drop_eq_nil_iff] at hnil
        exact absurd hlt (Nat.not_lt_of_le hnil)
      · intro h _
        exact (List.drop_eq_nil_of_le (Nat.le_of_not_lt fun hlt => hwrap (h hlt))).symm

/-- **When the editing of a text matches the lists**: `Insert` of a text that is no null pointer,
into a text that is not empty, when both together fit; `Remove` and `Substring` when the end of the
part has 32 bits. -/
theorem edits_iff {m_str value : Option Bstr} (hs : FitsBstr (textOf m_str))
    (hvalue : FitsBstr (textOf value)) (position count : BitVec 32) :
    (InsertLaw m_str value position ↔ InsertsWell m_str value position) ∧
    (RemoveLaw m_str position count ↔
      (position.toNat < (textOf m_str).length → position.toNat + count.toNat < 2 ^ 32)) ∧
    (SubstringLaw m_str position count ↔
      (position.toNat < (textOf m_str).length → position.toNat + count.toNat < 2 ^ 32)) :=
  ⟨insertLaw_iff hs hvalue position, removeLaw_iff hs position count,
    substringLaw_iff hs position count⟩

/-- The three in a text of two characters. -/
theorem shortText_edits :
    InsertLaw (some [97, 98]) (some [120]) 1 ∧ RemoveLaw (some [97, 98]) 1 5 ∧
      SubstringLaw (some [97, 98]) 1 5 := by
  have h := @edits_iff (some [97, 98]) (some [120]) (by decide) (by decide) 1 5
  exact ⟨h.1.mpr fun _ => ⟨nofun, nofun, by decide⟩, h.2.1.mpr fun _ => by decide,
    h.2.2.mpr fun _ => by decide⟩

/-- **The counterexample**: all three fail. -/
theorem shortText_not_edits :
    ¬ InsertLaw (some []) (some [120]) 0 ∧ ¬ RemoveLaw (some [97, 98]) 1 0xFFFFFFFF ∧
      ¬ SubstringLaw (some [97, 98]) 1 0xFFFFFFFF := by
  refine ⟨fun h => ?_, ?_, fun h => ?_⟩
  · obtain ⟨hr, after, hrun, -, hedited, -⟩ := h fun _ => 0
    cases hrun
    exact absurd (hedited rfl) (by decide)
  · rintro ⟨hr, after, hrun, -⟩
    cases hrun
  · exact absurd (h (by decide)) (by decide)

end IspSession.Analysis
