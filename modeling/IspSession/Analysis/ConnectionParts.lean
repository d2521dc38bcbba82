import Mathlib.Data.List.TakeWhile
import IspSession.Library.Fields
import IspSession.Model.ConnectionString

/-!
# What the parts of a connection string are read as

`split` gives the trimmed parts between the delimiters (`split_parts`), and with a `maxCount` of 1
the second one is all that is behind the first delimiter (`split_once`). The password and the
number of the database are each read from the first part that names them, the host and the port
from the first part of all.
-/

set_option autoImplicit false

namespace IspSession.Analysis

open IspSession.Library
open IspSession.Model

/-! ## Splitting -/

variable {s : Bstr} {delim : UInt16}

/-- INTERNAL: the search finds the delimiter, and what stands before it has none. -/
theorem wfind_eq (s : Bstr) (delim : UInt16) (pos : ℕ) :
    (delim ∉ s.drop pos ∧ wfind delim pos s = none) ∨
      ∃ a b, s.drop pos = a ++ delim :: b ∧ delim ∉ a ∧
        wfind delim pos s = some (pos + a.length) := by
  by_cases hmem : delim ∈ s.drop pos
  · obtain ⟨a, b, hdrop, ha⟩ := List.eq_append_cons_of_mem hmem
    refine Or.inr ⟨a, b, hdrop, ha, ?_⟩
    have hplace : (a ++ delim :: b).idxOf? delim = some a.length := by
      rw [List.idxOf?_eq_some_iff]
      refine ⟨by simp, by simp, fun j hj hsame => ha ?_⟩
      rw [List.getElem_append_left hj] at hsame
      exact hsame ▸ List.getElem_mem hj
    rw [wfind, hdrop, hplace]
    rfl
  · exact Or.inl ⟨hmem, by rw [wfind, List.idxOf?_eq_none_iff.mpr hmem]; rfl⟩

/-- INTERNAL: what is behind a delimiter. -/
theorem drop_behind {a b : Bstr} {pos : ℕ} (h : s.drop pos = a ++ delim :: b) :
    s.drop (pos + a.length + 1) = b ∧ pos + a.length + 1 ≤ s.length := by
  constructor
  · rw [Nat.add_assoc, ← List.drop_drop, h, List.drop_append, List.drop_of_length_le (by omega),
      Nat.add_sub_cancel_left]
    rfl
  · have hlength := congrArg List.length h
    simp only [List.length_drop, List.length_append, List.length_cons] at hlength
    omega

/-- INTERNAL: a part of the text up to its end. -/
theorem substr_rest {pos : ℕ} (h : pos ≤ s.length) :
    substr pos s.length s = .ok (s.drop pos) := by
  rw [substr, if_pos h, List.take_of_length_le (by simp)]

/-- INTERNAL: the loop of `split` without a limit, or with one that is not reached. -/
theorem splitLoop_parts (s : Bstr) (delim : UInt16) {maxCount x pos : ℕ} (hpos : pos ≤ s.length)
    (hlimit : maxCount = 0 ∨ x + (s.drop pos).count delim ≤ maxCount) :
    splitLoop s delim maxCount ((s.drop pos).count delim + 1) x pos =
      .ok (((s.drop pos).splitOn delim).map trim) := by
  induction hcount : (s.drop pos).count delim generalizing x pos with
  | zero =>
    have hmem : delim ∉ s.drop pos := List.count_eq_zero.mp hcount
    obtain ⟨-, hfind⟩ | ⟨a, b, hdrop, -, -⟩ := wfind_eq s delim pos
    · rw [splitLoop, hfind, List.splitOn_eq_singleton hmem]
      dsimp only
      rw [substr_rest hpos]
      rfl
    · exact absurd (hdrop ▸ List.mem_append_right a List.mem_cons_self) hmem
  | succ n ih =>
    obtain ⟨hmem, -⟩ | ⟨a, b, hdrop, ha, hfind⟩ := wfind_eq s delim pos
    · rw [List.count_eq_zero.mpr hmem] at hcount
      cases hcount
    · obtain ⟨hbehind, hend⟩ := drop_behind hdrop
      have hrest : (s.drop (pos + a.length + 1)).count delim = n := by
        rw [hdrop, List.count_append, List.count_eq_zero.mpr ha, List.count_cons_self] at hcount
        rw [hbehind]
        omega
      have hfirst : substr pos (pos + a.length - pos) s = .ok a := by
        rw [substr, if_pos hpos, hdrop, Nat.add_sub_cancel_left, List.take_left]
      rw [splitLoop, hfind]
      dsimp only
      rw [if_pos (by omega), hfirst, ih hend (by omega) hrest, hbehind, hdrop,
        List.splitOn_append_cons_self_of_not_mem ha]
      rfl

/-- **`split` gives the trimmed parts between the delimiters**, and a text without a delimiter as
it is. -/
theorem split_parts (hs : s ≠ []) :
    split s delim 0 = .ok (if delim ∈ s then (s.splitOn delim).map trim else [s]) := by
  have hloop := @splitLoop_parts s delim 0 0 0 (Nat.zero_le s.length) (.inl rfl)
  rw [List.drop_zero] at hloop
  have hlimit : (if 0 < 0 ∧ s.count delim < 0 then 0 else s.count delim) = s.count delim :=
    if_neg fun h => absurd h.1 (lt_irrefl 0)
  rw [split, if_neg hs]
  dsimp only
  rw [hlimit]
  by_cases hmem : delim ∈ s
  · rw [if_neg fun h => List.count_eq_zero.mp h hmem, if_pos hmem, hloop]
  · rw [if_pos (List.count_eq_zero.mpr hmem), if_neg hmem]

/-- INTERNAL: the loop of `split` never throws. -/
theorem splitLoop_ok (s : Bstr) (delim : UInt16) (maxCount left x : ℕ) {pos : ℕ}
    (hpos : pos ≤ s.length) :
    ∃ elems, splitLoop s delim maxCount left x pos = .ok elems := by
  induction left generalizing x pos with
  | zero => exact ⟨[], rfl⟩
  | succ left ih =>
    obtain ⟨-, hfind⟩ | ⟨a, b, hdrop, -, hfind⟩ := wfind_eq s delim pos
    · obtain ⟨elems, helems⟩ := ih (x + 1) (Nat.zero_le s.length)
      rw [splitLoop, hfind]
      dsimp only
      rw [substr_rest hpos, helems]
      exact ⟨_, rfl⟩
    · obtain ⟨elems, helems⟩ := ih (x + 1) (drop_behind hdrop).2
      rw [splitLoop, hfind]
      dsimp only
      rw [substr, if_pos hpos, helems]
      exact ⟨_, rfl⟩

/-- INTERNAL: every round of the loop gives an element. -/
theorem length_splitLoop {s : Bstr} {delim : UInt16} {maxCount left x pos : ℕ} {elems : List Bstr}
    (h : splitLoop s delim maxCount left x pos = .ok elems) : elems.length = left := by
  induction left generalizing x pos elems with
  | zero =>
    cases h
    rfl
  | succ left ih =>
    have hcons : ∀ {x' pos' : ℕ} {r : StdRun Bstr}, (do
        let lastEl ← r
        let elems ← splitLoop s delim maxCount left x' pos'
        .ok (trim lastEl :: elems)) = .ok elems → elems.length = left + 1 := by
      intro x' pos' r hr
      cases r with
      | error e => cases hr
      | ok lastEl =>
        cases hrest : splitLoop s delim maxCount left x' pos' with
        | error e =>
          simp only [hrest] at hr
          cases hr
        | ok rest =>
          simp only [hrest] at hr
          cases hr
          rw [List.length_cons, ih hrest]
    rw [splitLoop] at h
    split at h
    · exact hcons h
    · exact hcons h

/-- What is behind the first `=`, or all of a text without one. -/
def settingText (s : Bstr) : Bstr := if 0x3D ∈ s then (s.dropWhile (· != 0x3D)).tail else s

/-- INTERNAL: a text with an `=`. -/
theorem settingText_append {a b : Bstr} (ha : 0x3D ∉ a) : settingText (a ++ 0x3D :: b) = b := by
  rw [settingText, if_pos (List.mem_append_right a List.mem_cons_self),
    List.dropWhile_append_of_pos (p := (· != 0x3D)) fun c hc =>
      bne_iff_ne.mpr (ne_of_mem_of_not_mem hc ha)]
  rfl

/-- INTERNAL: a round at or behind the limit takes all that is left. -/
theorem splitLoop_limit (s : Bstr) (delim : UInt16) {maxCount x pos : ℕ} (left : ℕ)
    (hpos : pos ≤ s.length) (hx : maxCount ≤ x) (hlimit : maxCount ≠ 0) :
    ∃ elems, splitLoop s delim maxCount (left + 1) x pos = .ok (trim (s.drop pos) :: elems) := by
  obtain ⟨-, hfind⟩ | ⟨a, b, hdrop, -, hfind⟩ := wfind_eq s delim pos
  · obtain ⟨elems, helems⟩ := splitLoop_ok s delim maxCount left (x + 1) (Nat.zero_le s.length)
    rw [splitLoop, hfind]
    dsimp only
    rw [substr_rest hpos, helems]
    exact ⟨_, rfl⟩
  · obtain ⟨elems, helems⟩ := splitLoop_ok s delim maxCount left (x + 1) (drop_behind hdrop).2
    rw [splitLoop, hfind]
    dsimp only
    rw [if_neg (by omega), substr_rest hpos, helems]
    exact ⟨_, rfl⟩

/-- **With a limit of 1 the second part is all that is behind the first `=`**, and the text itself
when there is none. -/
theorem split_once (hs : s ≠ []) :
    (split s 0x3D 1 >>= fun arr2 => vectorAt arr2 1) = .ok (trim (settingText s)) := by
  have hrounds : ∃ left, (if 0 < 1 ∧ s.count 0x3D < 1 then 1 else s.count 0x3D) = left + 1 := by
    by_cases hcount : s.count 0x3D < 1
    · exact ⟨0, if_pos ⟨by omega, hcount⟩⟩
    · exact ⟨s.count 0x3D - 1, by rw [if_neg (by omega)]; omega⟩
  obtain ⟨left, hleft⟩ := hrounds
  rw [split, if_neg hs]
  dsimp only
  rw [hleft, if_neg (Nat.succ_ne_zero left), splitLoop, Nat.zero_add]
  obtain ⟨hmem, hfind⟩ | ⟨a, b, hdrop, ha, hfind⟩ := wfind_eq s 0x3D 0
  · obtain ⟨elems, helems⟩ := splitLoop_limit s 0x3D left
      (Nat.zero_le s.length) (le_refl 1) one_ne_zero
    rw [hfind]
    dsimp only
    rw [List.drop_zero] at hmem
    rw [substr_rest (Nat.zero_le s.length), helems, settingText, if_neg hmem]
    rfl
  · obtain ⟨hbehind, hend⟩ := drop_behind hdrop
    obtain ⟨elems, helems⟩ := splitLoop_limit s 0x3D left hend
      (le_refl 1) one_ne_zero
    rw [List.drop_zero] at hdrop
    rw [hfind]
    dsimp only
    rw [substr, if_pos (Nat.zero_le s.length), helems, hbehind, hdrop, settingText_append ha]
    rfl

/-! ## Trimming -/

/-- No white space at either end. -/
def NoOuterSpace (s : Bstr) : Prop :=
  (∀ c ∈ s.head?, isSpace c = false) ∧ ∀ c ∈ s.getLast?, isSpace c = false

instance (s : Bstr) : Decidable (NoOuterSpace s) :=
  inferInstanceAs (Decidable ((∀ c ∈ s.head?, isSpace c = false) ∧
    ∀ c ∈ s.getLast?, isSpace c = false))

/-- INTERNAL: nothing is dropped in front. -/
theorem dropWhile_isSpace (h : ∀ c ∈ s.head?, isSpace c = false) : s.dropWhile isSpace = s := by
  cases s with
  | nil => rfl
  | cons c s => exact List.dropWhile_cons_of_neg (by rw [h c rfl]; exact Bool.false_ne_true)

theorem trim_of_noOuterSpace (h : NoOuterSpace s) : trim s = s := by
  rw [trim, dropWhile_isSpace h.1, List.rdropWhile_eq_self_iff]
  intro hne hspace
  rw [h.2 _ (List.getLast?_eq_some_getLast hne)] at hspace
  cases hspace

/-- A text without white space. -/
theorem noOuterSpace_of_forall (h : ∀ c ∈ s, isSpace c = false) : NoOuterSpace s :=
  ⟨fun c hc => h c (List.mem_of_mem_head? hc), fun c hc => h c (List.mem_of_getLast? hc)⟩

/-- INTERNAL: digits are no white space. -/
theorem isSpace_of_isDigit {c : UInt16} (h : isDigit c = true) :
    isSpace c = false ∧ isWhiteSpace c = false ∧ c ≠ 0x2C ∧ c ≠ 0x3A ∧ c ≠ 0x3D ∧ c ≠ 0x2D ∧
      c ≠ 0x2B := by
  have hall : ∀ k < 10, isSpace (UInt16.ofNat (48 + k)) = false ∧
      isWhiteSpace (UInt16.ofNat (48 + k)) = false ∧ UInt16.ofNat (48 + k) ≠ 0x2C ∧
      UInt16.ofNat (48 + k) ≠ 0x3A ∧ UInt16.ofNat (48 + k) ≠ 0x3D ∧
      UInt16.ofNat (48 + k) ≠ 0x2D ∧ UInt16.ofNat (48 + k) ≠ 0x2B := by
    decide
  rw [isDigit, Bool.and_eq_true, decide_eq_true_eq, decide_eq_true_eq, UInt16.le_iff_toNat_le,
    UInt16.le_iff_toNat_le] at h
  have hlower : 48 ≤ c.toNat := h.1
  have hupper : c.toNat ≤ 57 := h.2
  have hc := hall (c.toNat - 48) (by omega)
  rwa [show 48 + (c.toNat - 48) = c.toNat by omega, UInt16.ofNat_toNat] at hc

/-! ## Numbers -/

/-- **`stoi` reads a number that an `int` can hold.** -/
theorem stoi_decimalText (n : ℕ) :
    stoi (decimalText n) = if n < 2 ^ 31 then .ok (n : ℤ) else .error .outOfRange := by
  have hdigits : ∀ c ∈ decimalText n, isDigit c = true := fun c hc => isDigit_of_mem_decimalText hc
  obtain ⟨c, text, htext⟩ := List.exists_cons_of_ne_nil (decimalText_ne_nil n)
  obtain ⟨-, hspace, -, -, -, hminus, hplus⟩ :=
    isSpace_of_isDigit (hdigits c (htext ▸ List.mem_cons_self))
  have hfront : (decimalText n).dropWhile isWhiteSpace = decimalText n := by
    rw [htext]
    exact List.dropWhile_cons_of_neg (by rw [hspace]; exact Bool.false_ne_true)
  have hsign : readSign (decimalText n) = (false, decimalText n) := by
    rw [htext, readSign]
    · exact fun t ht => hminus (List.cons.inj ht).1
    · exact fun t ht => hplus (List.cons.inj ht).1
  have hall : (decimalText n).takeWhile isDigit = decimalText n :=
    List.takeWhile_eq_self_iff.mpr hdigits
  rw [stoi, hfront, hsign]
  dsimp only
  rw [hall, if_neg (decimalText_ne_nil n), signedNumber, if_neg Bool.false_ne_true,
    ofDigits_decimalText]
  by_cases hn : n < 2 ^ 31
  · rw [if_pos hn, if_pos (by omega)]
  · rw [if_neg hn, if_neg (by omega)]

/-! ## The settings of classic ASP -/

/-- The text of a number, behind the first `=` and up to the next. -/
def numberText (s : Bstr) : Bstr := (settingText s).takeWhile (· != 0x3D)

/-- INTERNAL: the first part. -/
theorem head?_splitOn (s : Bstr) : (s.splitOn delim)[0]? = some (s.takeWhile (· != delim)) := by
  by_cases hmem : delim ∈ s
  · obtain ⟨a, b, rfl, ha⟩ := List.eq_append_cons_of_mem hmem
    rw [List.splitOn_append_cons_self_of_not_mem ha,
      List.takeWhile_append_of_pos (p := (· != delim)) fun c hc =>
        bne_iff_ne.mpr (ne_of_mem_of_not_mem hc ha),
      List.takeWhile_cons_of_neg (by simp), List.append_nil]
    rfl
  · rw [List.splitOn_eq_singleton hmem, List.takeWhile_eq_self_iff.mpr fun c hc =>
      bne_iff_ne.mpr (ne_of_mem_of_not_mem hc hmem)]
    rfl

/-- INTERNAL: the second part. -/
theorem second_part (hs : s ≠ []) :
    (split s 0x3D 0 >>= fun arr2 => vectorAt arr2 1) =
      if 0x3D ∈ s then .ok (trim (numberText s)) else .error .outOfRange := by
  rw [split_parts hs]
  by_cases hmem : 0x3D ∈ s
  · obtain ⟨a, b, rfl, ha⟩ := List.eq_append_cons_of_mem hmem
    have hsecond : ((b.splitOn 0x3D).map trim)[0]? =
        some (trim (b.takeWhile (· != 0x3D))) := by
      rw [List.getElem?_map, head?_splitOn]
      rfl
    rw [if_pos hmem, if_pos hmem, List.splitOn_append_cons_self_of_not_mem ha, numberText,
      settingText_append ha]
    show vectorAt (trim a :: (b.splitOn 0x3D).map trim) 1 = _
    rw [vectorAt, List.getElem?_cons_succ, hsecond]
  · rw [if_neg hmem, if_neg hmem]
    rfl

namespace CSessionDL

/-- The part that the password is read from decides it. -/
theorem readPassword_eq (arr : List Bstr) :
    CSessionDL.readPassword arr =
      .ok (match arr.find? CSessionDL.namesPassword with
        | none => []
        | some e => narrowed (trim (settingText e))) := by
  rw [CSessionDL.readPassword]
  cases hfind : arr.find? CSessionDL.namesPassword with
  | none => rfl
  | some e =>
    have hne : e ≠ [] := by
      rintro rfl
      exact absurd (List.find?_some hfind) (by decide)
    have hvalue := congrArg (· >>= fun value => (.ok (narrowed value) : StdRun Bytes))
      (split_once hne)
    dsimp only at hvalue ⊢
    rw [bind_assoc] at hvalue
    exact hvalue

/-- The part that the number is read from decides it. -/
theorem readDatabase_eq (arr : List Bstr) :
    CSessionDL.readDatabase arr =
      match arr.find? CSessionDL.namesDatabase with
      | none => .ok 0
      | some e => if 0x3D ∈ e then stoi (trim (numberText e)) else .error .outOfRange := by
  rw [CSessionDL.readDatabase]
  cases hfind : arr.find? CSessionDL.namesDatabase with
  | none => rfl
  | some e =>
    have hne : e ≠ [] := by
      rintro rfl
      exact absurd (List.find?_some hfind) (by decide)
    have hvalue := congrArg (· >>= stoi) (second_part hne)
    dsimp only at hvalue ⊢
    rw [bind_assoc] at hvalue
    rw [hvalue]
    by_cases hmem : 0x3D ∈ e
    · rw [if_pos hmem, if_pos hmem]
      rfl
    · rw [if_neg hmem, if_neg hmem]
      rfl

end CSessionDL

/-! ## The host and the port -/

/-- A host: there is one, without white space, commas and colons. -/
structure IsHost (host : Bstr) : Prop where
  ne_nil : host ≠ []
  plain : ∀ c ∈ host, isSpace c = false ∧ c ≠ 0x2C ∧ c ≠ 0x3A

/-- INTERNAL: a host whose characters have been looked at. -/
theorem isHost_of_all {host : Bstr} (hne : host ≠ [])
    (h : (host.all fun c => !isSpace c && c != 0x2C && c != 0x3A) = true) : IsHost host := by
  refine ⟨hne, fun c hc => ?_⟩
  have hc' := List.all_eq_true.mp h c hc
  rw [Bool.and_eq_true, Bool.and_eq_true, bne_iff_ne, bne_iff_ne, Bool.not_eq_true'] at hc'
  exact ⟨hc'.1.1, hc'.1.2, hc'.2⟩

/-- A host and perhaps a port. -/
def hostText (host : Bstr) : Option ℕ → Bstr
  | none => host
  | some port => host ++ 0x3A :: decimalText port

/-- A `DataSource` string. -/
def dataSourceText (first : Bstr) (options : List Bstr) : Bstr :=
  [0x2C].intercalate (first :: options)

variable {host : Bstr} {options : List Bstr}

/-- INTERNAL: the characters of a host with a port. -/
theorem IsHost.text (h : IsHost host) (port : Option ℕ) {c : UInt16} (hc : c ∈ hostText host port) :
    isSpace c = false ∧ c ≠ 0x2C := by
  cases port with
  | none => exact ⟨(h.plain c hc).1, (h.plain c hc).2.1⟩
  | some n =>
    rcases List.mem_append.mp hc with hc | hc
    · exact ⟨(h.plain c hc).1, (h.plain c hc).2.1⟩
    rcases List.mem_cons.mp hc with rfl | hc
    · exact ⟨by decide, by decide⟩
    · obtain ⟨hspace, -, hcomma, -⟩ := isSpace_of_isDigit (isDigit_of_mem_decimalText hc)
      exact ⟨hspace, hcomma⟩

theorem IsHost.text_ne_nil (h : IsHost host) (port : Option ℕ) : hostText host port ≠ [] := by
  cases port with
  | none => exact h.ne_nil
  | some n => exact List.append_ne_nil_of_left_ne_nil h.ne_nil _

theorem IsHost.trim_text (h : IsHost host) (port : Option ℕ) :
    trim (hostText host port) = hostText host port :=
  trim_of_noOuterSpace (noOuterSpace_of_forall fun _ hc => (h.text port hc).1)

/-- The parts between the commas. -/
theorem IsHost.splitOn (h : IsHost host) (port : Option ℕ) (hoptions : ∀ o ∈ options, 0x2C ∉ o) :
    (dataSourceText (hostText host port) options).splitOn 0x2C = hostText host port :: options := by
  refine List.splitOn_intercalate 0x2C (fun l hl => ?_) (List.cons_ne_nil _ _)
  rcases List.mem_cons.mp hl with rfl | hl
  · exact fun hmem => (h.text port hmem).2 rfl
  · exact hoptions l hl

/-- INTERNAL: the elements of the string. -/
theorem IsHost.split_text (h : IsHost host) (port : Option ℕ)
    (hoptions : ∀ o ∈ options, 0x2C ∉ o) :
    split (dataSourceText (hostText host port) options) 0x2C 0 =
      .ok (hostText host port :: options.map trim) := by
  have hne : dataSourceText (hostText host port) options ≠ [] := by
    intro hnil
    have hparts := h.splitOn port hoptions
    rw [hnil] at hparts
    exact h.text_ne_nil port (List.cons.inj hparts).1.symm
  rw [split_parts hne, h.splitOn port hoptions, List.map_cons, h.trim_text port]
  by_cases hmem : 0x2C ∈ dataSourceText (hostText host port) options
  · rw [if_pos hmem]
  · have hparts := h.splitOn port hoptions
    rw [List.splitOn_eq_singleton hmem] at hparts
    obtain ⟨htext, hnil⟩ := List.cons.inj hparts
    rw [if_neg hmem, htext, ← hnil]
    rfl

/-- The port that is read, none where it is no `int`. -/
def portRead : Option ℕ → StdRun (BitVec 32)
  | none => .ok 6379
  | some n => if n < 2 ^ 31 then .ok (BitVec.ofNat 32 n) else .error .outOfRange

/-- **The host and the port are read from a plain first part.** -/
theorem IsHost.readHost (h : IsHost host) (port : Option ℕ) :
    CSessionDL.readHost (hostText host port) = (portRead port).map fun p => (host, p) := by
  have hcolon : 0x3A ∉ host := fun hmem => (h.plain _ hmem).2.2 rfl
  have htrim : trim host = host := h.trim_text none
  rw [CSessionDL.readHost, split_parts (h.text_ne_nil port)]
  cases port with
  | none =>
    rw [hostText, if_neg hcolon]
    rfl
  | some n =>
    have hdigits : ∀ c ∈ decimalText n, isSpace c = false ∧ c ≠ 0x3A := fun c hc =>
      ⟨(isSpace_of_isDigit (isDigit_of_mem_decimalText hc)).1,
        (isSpace_of_isDigit (isDigit_of_mem_decimalText hc)).2.2.2.1⟩
    have hlast : (decimalText n).splitOn 0x3A = [decimalText n] :=
      List.splitOn_eq_singleton fun hmem => (hdigits _ hmem).2 rfl
    have hport : trim (decimalText n) = decimalText n :=
      trim_of_noOuterSpace (noOuterSpace_of_forall fun c hc => (hdigits c hc).1)
    rw [hostText, if_pos (List.mem_append_right host List.mem_cons_self),
      List.splitOn_append_cons_self_of_not_mem hcolon, hlast, List.map_cons, List.map_singleton,
      htrim, hport]
    show (stoi (decimalText n) >>= fun portParsed => .ok (host, BitVec.ofInt 32 portParsed)) = _
    rw [stoi_decimalText, portRead]
    by_cases hn : n < 2 ^ 31
    · rw [if_pos hn, if_pos hn]
      exact congrArg (fun p => Except.ok (host, p)) (BitVec.ofInt_natCast 32 n)
    · rw [if_neg hn, if_neg hn]
      rfl

/-- **What a pool is asked for**: the password and the number of the database are looked for in
all parts, the first one among them. -/
theorem IsHost.openDBConnection (h : IsHost host) (port : Option ℕ)
    (hoptions : ∀ o ∈ options, 0x2C ∉ o) :
    CSessionDL.openDBConnection (dataSourceText (hostText host port) options) =
      (do
        let pw ← CSessionDL.readPassword (hostText host port :: options.map trim)
        let databaseNo ← CSessionDL.readDatabase (hostText host port :: options.map trim)
        let p ← portRead port
        .ok (some {
          host := ws2s host
          port := p
          password := pw
          database := if 0 < databaseNo then databaseNo.toNat else 0 })) := by
  rw [CSessionDL.openDBConnection, h.split_text port hoptions]
  show (do
      let pw ← CSessionDL.readPassword (hostText host port :: options.map trim)
      let databaseNo ← CSessionDL.readDatabase (hostText host port :: options.map trim)
      let hostAndPort ← CSessionDL.readHost (hostText host port)
      .ok (some (PoolRequest.mk (ws2s hostAndPort.1) hostAndPort.2 pw
        (if 0 < databaseNo then databaseNo.toNat else 0)))) = _
  rw [h.readHost port]
  cases portRead port <;> rfl

end IspSession.Analysis
