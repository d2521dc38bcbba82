import IspSession.Analysis.ConnectionParts

/-!
# `split` as a partition

A `maxCount` should limit the cuts. `split` takes it for the number of rounds when it is larger than
the number of delimiters, and goes on after the limit when it is smaller; a text without a delimiter
is not trimmed. `partitions_iff` says when the elements are the pieces of the text.
-/

set_option autoImplicit false

namespace IspSession.Analysis

open IspSession.Library IspSession.Model

variable {s : Bstr} {delim : UInt16} {maxCount : ℕ}

/-! ## The claim -/

/-- The pieces into which a text is cut at its first `n` delimiters: they make up the text, and only
the last one may hold further delimiters. -/
structure CutAt (delim : UInt16) (n : ℕ) (s : Bstr) (parts : List Bstr) : Prop where
  number : parts.length = n + 1
  joined : [delim].intercalate parts = s
  plain : ∀ part ∈ parts.dropLast, delim ∉ part

/-- How many delimiters are cut at. -/
def cutNumber (s : Bstr) (delim : UInt16) (maxCount : ℕ) : ℕ :=
  if maxCount = 0 then s.count delim else min maxCount (s.count delim)

/-- **The elements are the trimmed pieces**, and the rounds can be counted. -/
def Partitions (s : Bstr) (delim : UInt16) (maxCount : ℕ) : Prop :=
  ∃ parts, CutAt delim (cutNumber s delim maxCount) s parts ∧
    splitLast s delim maxCount + 1 < 2 ^ 31 ∧
    split s delim maxCount = .ok (parts.map trim)

/-- **The condition**: no limit, or exactly as many delimiters as the limit; a text without
delimiters has no white space at its ends; and an `int` can count the delimiters. -/
def PartitionsWell (s : Bstr) (delim : UInt16) (maxCount : ℕ) : Prop :=
  (maxCount = 0 ∨ maxCount = s.count delim) ∧ (delim ∉ s → trim s = s) ∧
    s.count delim + 1 < 2 ^ 31

/-! ## The pieces -/

/-- INTERNAL: all parts of a text are such pieces. -/
theorem cutAt_splitOn (s : Bstr) (delim : UInt16) :
    CutAt delim (s.count delim) s (s.splitOn delim) where
  number := length_splitOn delim s
  joined := List.intercalate_splitOn delim
  plain _ h := notMem_of_mem_splitOn (List.mem_of_mem_dropLast h)

/-- **There is only one way to cut.** -/
theorem CutAt.unique {n : ℕ} {parts others : List Bstr} (h : CutAt delim n s parts)
    (hothers : CutAt delim n s others) : parts = others := by
  induction n generalizing s parts others with
  | zero =>
    obtain ⟨part, rfl⟩ := List.length_eq_one_iff.mp h.number
    obtain ⟨other, rfl⟩ := List.length_eq_one_iff.mp hothers.number
    have hpart := h.joined
    have hother := hothers.joined
    rw [List.intercalate_singleton] at hpart hother
    rw [hpart, hother]
  | succ n ih =>
    obtain ⟨part, rest, rfl⟩ := List.exists_cons_of_length_eq_add_one h.number
    obtain ⟨other, others, rfl⟩ := List.exists_cons_of_length_eq_add_one hothers.number
    have hrest : rest ≠ [] := fun hnil => by simpa [hnil] using h.number
    have hrest' : others ≠ [] := fun hnil => by simpa [hnil] using hothers.number
    have hjoined := h.joined.trans hothers.joined.symm
    have hplain := h.plain
    have hplain' := hothers.plain
    rw [List.intercalate_cons_of_ne_nil hrest, List.intercalate_cons_of_ne_nil hrest',
      List.append_assoc, List.append_assoc] at hjoined
    rw [List.dropLast_cons_of_ne_nil hrest] at hplain
    rw [List.dropLast_cons_of_ne_nil hrest'] at hplain'
    obtain ⟨rfl, hbehind⟩ := append_cons_inj (hplain part List.mem_cons_self)
      (hplain' other List.mem_cons_self) hjoined
    have hfirst : CutAt delim n ([delim].intercalate rest) rest :=
      ⟨Nat.succ.inj h.number, rfl, fun p hp => hplain p (List.mem_cons_of_mem part hp)⟩
    have hsecond : CutAt delim n ([delim].intercalate rest) others :=
      ⟨Nat.succ.inj hothers.number, hbehind.symm,
        fun p hp => hplain' p (List.mem_cons_of_mem part hp)⟩
    rw [ih hfirst hsecond]

/-- INTERNAL: the number of the elements. -/
theorem length_split (hs : s ≠ []) {elems : List Bstr} (h : split s delim maxCount = .ok elems) :
    elems.length = splitLast s delim maxCount + 1 := by
  rw [split, if_neg hs] at h
  change (if splitLast s delim maxCount = 0 then .ok [s]
    else splitLoop s delim maxCount (splitLast s delim maxCount + 1) 0 0) = .ok elems at h
  split at h
  · rename_i hzero
    rw [hzero]
    cases h
    rfl
  · exact length_splitLoop h

/-! ## The partition -/

/-- **When the elements are the trimmed pieces.** -/
theorem partitions_iff (hs : s ≠ []) :
    Partitions s delim maxCount ↔ PartitionsWell s delim maxCount := by
  have hlast : maxCount = 0 ∨ maxCount = s.count delim → splitLast s delim maxCount =
      s.count delim := by
    intro h
    exact if_neg fun hlarge => by omega
  constructor
  · rintro ⟨parts, hcut, hrounds, hsplit⟩
    have hlength := length_split hs hsplit
    rw [List.length_map, hcut.number, Nat.add_left_inj, cutNumber] at hlength
    have hlimit : maxCount = 0 ∨ maxCount = s.count delim := by
      rw [splitLast] at hlength
      by_cases hzero : maxCount = 0
      · exact .inl hzero
      · rw [if_neg hzero] at hlength
        split at hlength <;> omega
    rw [hlast hlimit] at hrounds
    refine ⟨hlimit, fun hmem => ?_, hrounds⟩
    -- a text without delimiters is the one piece
    have hzero := List.count_eq_zero.mpr hmem
    have hmax : maxCount = 0 := by omega
    subst hmax
    rw [cutNumber, if_pos rfl, hzero] at hcut
    obtain ⟨part, rfl⟩ := List.length_eq_one_iff.mp hcut.number
    obtain rfl : part = s := by
      have hjoined := hcut.joined
      rwa [List.intercalate_singleton] at hjoined
    rw [split_parts hs, if_neg hmem] at hsplit
    exact (List.cons.inj (Except.ok.inj hsplit)).1.symm
  · rintro ⟨hlimit, htrim, hfits⟩
    have hnumber : cutNumber s delim maxCount = s.count delim := by
      rw [cutNumber]
      split
      · rfl
      · omega
    refine ⟨s.splitOn delim, hnumber ▸ cutAt_splitOn s delim, by rw [hlast hlimit]; exact hfits, ?_⟩
    by_cases hmem : delim ∈ s
    · have hloop := @splitLoop_parts s delim maxCount 0 0 (Nat.zero_le s.length)
        (by rw [List.drop_zero]; omega)
      rw [List.drop_zero] at hloop
      rw [split, if_neg hs]
      change (if splitLast s delim maxCount = 0 then .ok [s]
        else splitLoop s delim maxCount (splitLast s delim maxCount + 1) 0 0) = _
      rw [hlast hlimit, if_neg fun h => List.count_eq_zero.mp h hmem, hloop]
    · have hzero := List.count_eq_zero.mpr hmem
      have hmax : maxCount = 0 := by omega
      rw [hmax, split_parts hs, if_neg hmem, List.splitOn_eq_singleton hmem, List.map_singleton,
        htrim hmem]

/-- A text with two delimiters and a limit of two. -/
theorem twoCuts_partitions : Partitions (Bstr.ofString "a, b,c") 0x2C 2 :=
  (partitions_iff (by decide)).mpr ⟨.inr (by decide), fun h => absurd (by decide) h, by decide⟩

/-- **The counterexample**: with a limit of three, the first piece comes again. -/
theorem limitedCuts_not_partitions :
    ¬ ∀ (s : Bstr) (delim : UInt16) (maxCount : ℕ), s ≠ [] → Partitions s delim maxCount := by
  intro h
  obtain ⟨parts, hcut, -, hsplit⟩ := h (Bstr.ofString "a,b") 0x2C 3 (by decide)
  have hthree : split (Bstr.ofString "a,b") 0x2C 3 = .ok
      [Bstr.ofString "a", Bstr.ofString "b", Bstr.ofString "a", Bstr.ofString "b"] := rfl
  rw [hthree] at hsplit
  have hlength := congrArg List.length (Except.ok.inj hsplit)
  rw [List.length_map, hcut.number] at hlength
  exact absurd hlength (by decide)

end IspSession.Analysis
