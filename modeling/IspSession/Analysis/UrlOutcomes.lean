import Mathlib.Data.List.Find
import IspSession.Analysis.TextEditing
import IspSession.Analysis.SessionKeys
import IspSession.Analysis.UrlParameters

/-!
# What `get_URL` makes of a text

The first `name=` decides: when there is none, the id is appended; when thirty-two characters from
the fifth place behind its beginning on are an id, they are written over; when there are that many
and they are none, the id is appended; when there are fewer, the text up to the next `&` is taken
out together with the character before, and the id is appended.
-/

set_option autoImplicit false

namespace IspSession.Analysis

open IspSession.Library IspSession.Model IspSession.Model.CComBSTR2

variable {loc : Collation} {name id u before rest : Bstr}

/-- What is searched: the name and `=`. -/
def nameToken (name : Bstr) : Bstr := name ++ [0x3D]

/-- `CompareStringW` takes no other text for the name and `=`, and no other character for `&`. -/
structure SearchesExactly (loc : Collation) (name : Bstr) : Prop where
  token : ∀ text, loc.equalText text (nameToken name) = true → text = nameToken name
  ampersand : ∀ c, loc.compare [c] [0x26] = .eq → c = 0x26

/-! ## Searching -/

/-- INTERNAL: what is searched is not empty. -/
theorem nameToken_ne_nil (name : Bstr) : nameToken name ≠ [] :=
  List.append_ne_nil_of_right_ne_nil name (List.cons_ne_nil _ _)

theorem length_nameToken (name : Bstr) : (nameToken name).length = name.length + 1 :=
  List.length_append

/-- INTERNAL: it has no NUL. -/
theorem notMem_nameToken (hnul : 0 ∉ name) : (0 : UInt16) ∉ nameToken name := by
  rw [nameToken, List.mem_append, not_or]
  exact ⟨hnul, by decide⟩

/-- INTERNAL: the first `name=` is found. -/
theorem indexOf_nameToken (h : SearchesExactly loc name) (hnul : 0 ∉ name) (u : Bstr) :
    indexOf loc u (nameToken name) 0 false =
      (cut (nameToken name) u).map fun p => p.1.length := by
  have hordinal := indexOf_append (nameToken_ne_nil name) (notMem_nameToken hnul) [] u
  have hcompare : ∀ text, compareString loc false text (nameToken name) =
      compareString .ordinal false text (nameToken name) := by
    intro text
    rw [Bool.eq_iff_iff, compareString, compareString, if_neg Bool.false_ne_true,
      if_neg Bool.false_ne_true]
    constructor
    · exact fun heq => beq_iff_eq.mpr (h.token text heq)
    · intro heq
      rw [beq_iff_eq.mp heq]
      exact loc.equalText_refl _
  rw [List.nil_append, List.length_nil] at hordinal
  rw [indexOf, zeroTerminated_eq (notMem_nameToken hnul)] at hordinal ⊢
  simp only [hcompare, hordinal, Nat.zero_add]

/-- INTERNAL: a `?` is found where there is one. -/
theorem indexOf_question (loc : Collation) (u : Bstr) :
    (indexOf loc u [0x3F] 0 false).isSome = decide (0x3F ∈ u) := by
  have hsrc : zeroTerminated [0x3F] = [0x3F] := zeroTerminated_eq (by decide)
  rw [indexOf, hsrc, Bool.eq_iff_iff, decide_eq_true_eq]
  dsimp only [List.length_singleton]
  constructor
  · intro h
    split at h
    · obtain ⟨x, hx, hfound⟩ := List.find?_isSome.mp h
      rw [Bool.false_or, Bool.and_eq_true, beq_iff_eq] at hfound
      exact List.mem_of_getElem? hfound.1
    · cases h
  · intro h
    obtain ⟨a, b, rfl⟩ := List.append_of_mem h
    rw [if_pos ⟨by rw [List.length_append, List.length_cons]; omega, Nat.one_pos⟩,
      List.find?_isSome]
    refine ⟨a.length, List.mem_range'_1.mpr
      ⟨Nat.zero_le _, by rw [List.length_append, List.length_cons]; omega⟩, ?_⟩
    rw [Bool.false_or, Bool.and_eq_true, beq_iff_eq, List.drop_left]
    refine ⟨by rw [List.getElem?_append_right (Nat.le_refl _), Nat.sub_self]; rfl, ?_⟩
    exact loc.equalText_refl [0x3F]

/-- INTERNAL: the next `&` is found. -/
theorem indexOf_ampersand (h : SearchesExactly loc name) (a b : Bstr) :
    indexOf loc (a ++ b) [0x26] a.length true =
      (cut [0x26] b).map fun p => a.length + p.1.length := by
  rw [← indexOf_append (by decide) (by decide), indexOf, indexOf, zeroTerminated_eq (by decide)]
  dsimp only [List.length_singleton]
  split
  · refine List.find?_congr fun x hx => ?_
    have hlt : x < (a ++ b).length := by
      rw [List.mem_range'_1] at hx
      omega
    have htext : ((a ++ b).drop x).take 1 = [(a ++ b)[x]] := by
      rw [List.drop_eq_getElem_cons hlt]
      rfl
    rw [htext, Bool.eq_iff_iff, Bool.true_or, Bool.true_and, Bool.false_or, Bool.and_eq_true,
      beq_iff_eq, List.getElem?_eq_getElem hlt, compareString, compareString, if_pos rfl,
      if_neg Bool.false_ne_true, beq_iff_eq]
    constructor
    · intro heq
      rw [h.ampersand _ heq]
      exact ⟨rfl, rfl⟩
    · rintro ⟨hhead, -⟩
      rw [Option.some.inj hhead]
      exact Std.ReflCmp.compare_self
  · rfl

/-- INTERNAL: where the first of a character is. -/
theorem cut_singleton (c : UInt16) (s : Bstr) :
    (c ∉ s ∧ cut [c] s = none ∧ s.dropWhile (· ≠ c) = []) ∨
      ∃ a b, s = a ++ c :: b ∧ cut [c] s = some (a, b) ∧ s.dropWhile (· ≠ c) = c :: b := by
  induction s with
  | nil => exact .inl ⟨List.not_mem_nil, rfl, rfl⟩
  | cons d s ih =>
    by_cases hd : d = c
    · subst hd
      exact .inr ⟨[], s, rfl, by rw [cut, if_pos ⟨s, rfl⟩]; rfl,
        List.dropWhile_cons_of_neg (by simp)⟩
    · have hbegins : ¬ [c] <+: d :: s := fun h => hd (List.cons_prefix_cons.mp h).1.symm
      rw [cut, if_neg hbegins, List.dropWhile_cons_of_pos (by simpa using hd)]
      rcases ih with ⟨hnot, hcut, hdrop⟩ | ⟨a, b, rfl, hcut, hdrop⟩
      · refine .inl ⟨?_, by rw [hcut]; rfl, hdrop⟩
        rw [List.mem_cons, not_or]
        exact ⟨fun h => hd h.symm, hnot⟩
      · exact .inr ⟨d :: a, b, rfl, by rw [hcut]; rfl, hdrop⟩

/-! ## Ids -/

/-- A text that `setstring` takes: thirty-two characters whose lower bytes are digits. -/
def TakenForId (t : Bstr) : Prop := t.length = 32 ∧ ∀ c ∈ t, (hexValue c.toUInt8).isSome = true

/-- INTERNAL: what `setstring` takes of a short text. -/
theorem setstring_iff {t : Bstr} (ht : t.length ≤ 32) :
    (setstring (List.replicate 16 0) t).1 = true ↔ TakenForId t := by
  rw [setstring, TakenForId]
  by_cases hlength : t.length = 32
  · have hbytes : ∀ bx, (byteAt t bx).isSome = true ↔
        (hexValue (t.getD (2 * bx) 0).toUInt8).isSome = true ∧
          (hexValue (t.getD (2 * bx + 1) 0).toUInt8).isSome = true := by
      intro bx
      rw [byteAt]
      cases hexValue (t.getD (2 * bx) 0).toUInt8 <;>
        cases hexValue (t.getD (2 * bx + 1) 0).toUInt8 <;> simp
    rw [if_pos (by omega), (setstringLoop_eq t 16 _ (by simp)).1, and_iff_right hlength]
    simp only [hbytes]
    constructor
    · intro h c hc
      obtain ⟨i, hi, rfl⟩ := List.mem_iff_getElem.mp hc
      have hpair := h (i / 2) (by omega)
      rcases Nat.mod_two_eq_zero_or_one i with heven | hodd
      · have hplace := hpair.1
        rwa [show 2 * (i / 2) = i by omega, List.getD_eq_getElem _ _ hi] at hplace
      · have hplace := hpair.2
        rwa [show 2 * (i / 2) + 1 = i by omega, List.getD_eq_getElem _ _ hi] at hplace
    · intro h bx hbx
      rw [List.getD_eq_getElem _ _ (by omega : 2 * bx < t.length),
        List.getD_eq_getElem _ _ (by omega : 2 * bx + 1 < t.length)]
      exact ⟨h _ (List.getElem_mem _), h _ (List.getElem_mem _)⟩
  · rw [if_neg (by omega)]
    exact iff_of_false Bool.false_ne_true fun h => hlength h.1

/-- INTERNAL: a character that is no digit is in no id. -/
theorem TakenForId.notMem {t : Bstr} (h : TakenForId t) {c : UInt16} (hc : hexValue c.toUInt8 = none) :
    c ∉ t := by
  intro hmem
  have hdigit := h.2 c hmem
  rw [hc] at hdigit
  cases hdigit

/-! ## The outcomes -/

/-- What stands between the text and the name that is appended. -/
def parSeparator (u : Bstr) : Bstr := if 0x3F ∈ u then 0x26 :: ampEscape else [0x3F]

/-- The id appended to what is left of a text. -/
def attached (name id u left : Bstr) : Bstr := left ++ (parSeparator u ++ (nameToken name ++ id))

/-- The thirty-two characters that are taken for the value. -/
def valueWindow (name rest : Bstr) : Bstr := ((nameToken name ++ rest).drop 5).take 32

/-- INTERNAL: appending what fits. -/
theorem append_of_fits {lpsz m_str : Bstr} (h : FitsBstr (m_str ++ lpsz)) :
    (append lpsz m_str).2 = m_str ++ lpsz := by
  rw [append, if_pos (by rw [FitsBstr, List.length_append] at h; exact h)]

/-- INTERNAL: a part of a text fits when the text does. -/
theorem fitsBstr_left {a b : Bstr} (h : FitsBstr (a ++ b)) : FitsBstr a := by
  rw [FitsBstr, List.length_append] at h
  exact Nat.lt_of_le_of_lt (Nat.le_add_right _ _) h

/-- INTERNAL: the id is appended. -/
theorem appendGUID_eq (hnul : 0 ∉ name) (hid : TakenForId id) {left : Bstr}
    (h : FitsBstr (attached name id u left)) :
    NWCSession.appendGUID (indexOf loc u [0x3F] 0 false).isSome name id left =
      attached name id u left := by
  have hsep : (if (indexOf loc u [0x3F] 0 false).isSome = true then
      ([0x26, 0x61, 0x6D, 0x70, 0x3B] : Bstr) else [0x3F]) = parSeparator u := by
    rw [indexOf_question]
    exact if_congr decide_eq_true_iff rfl rfl
  have hshape : attached name id u left = left ++ parSeparator u ++ name ++ [0x3D] ++ id := by
    rw [attached, nameToken]
    simp only [List.append_assoc]
  rw [hshape] at h ⊢
  have hidNul : (0 : UInt16) ∉ id := hid.notMem rfl
  rw [NWCSession.appendGUID, hsep, zeroTerminated_eq hnul, zeroTerminated_eq hidNul,
    append_of_fits (fitsBstr_left (fitsBstr_left (fitsBstr_left h))),
    append_of_fits (fitsBstr_left (fitsBstr_left h)), append_of_fits (fitsBstr_left h),
    append_of_fits h]

/-- INTERNAL: `Remove` of a part of the text. -/
theorem remove_append (pre cutOut post : Bstr) (hne : cutOut ≠ [])
    (hfits : FitsBstr (pre ++ (cutOut ++ post))) :
    remove pre.length cutOut.length (pre ++ (cutOut ++ post)) = .ok (.sOk, pre ++ post) := by
  have hsmall := hfits
  rw [FitsBstr, List.length_append, List.length_append] at hsmall
  exact remove_parts pre cutOut post (List.append_ne_nil_of_left_ne_nil hne post) hfits (.inl rfl)
    (by omega)

section Outcomes

variable (hexact : SearchesExactly loc name) (hnul : 0 ∉ name) (huNul : 0 ∉ u)
  (hsmall : name.length + 1 < 2 ^ 31)
include hexact hnul huNul hsmall

/-- INTERNAL: what the call starts with. -/
theorem getURL_eq : NWCSession.getURL loc name id u =
    match (cut (nameToken name) u).map fun p => p.1.length with
    | none => .ok (NWCSession.appendGUID (indexOf loc u [0x3F] 0 false).isSome name id u)
    | some foundGUID =>
      if (BitVec.ofNat 32 (foundGUID + 5 + 32)).toInt ≤ (u.length : ℤ) then
        match substring (foundGUID + 5) 32 u with
        | none => .error .fault
        | some tempGuid =>
          if (setstring (List.replicate 16 0) (zeroTerminated tempGuid)).1 then
            .ok (mergeString (foundGUID + 5) id u)
          else .ok (NWCSession.appendGUID (indexOf loc u [0x3F] 0 false).isSome name id u)
      else NWCSession.removeGUID loc foundGUID u >>= fun p =>
        .ok (NWCSession.appendGUID (indexOf loc u [0x3F] 0 false).isSome name id p.2) := by
  have htoken : (append [0x3D] (zeroTerminated name)).2 = nameToken name := by
    rw [zeroTerminated_eq hnul]
    exact append_of_fits (by rw [FitsBstr, List.length_append]; exact hsmall)
  rewrite [NWCSession.getURL, zeroTerminated_eq huNul, htoken, indexOf_nameToken hexact hnul]
  rfl

/-- INTERNAL: the text has room for an id. -/
theorem getURL_long (hcut : cut (nameToken name) u = some (before, rest)) (hu : FitsBstr u)
    (hlong : 37 ≤ (nameToken name ++ rest).length) :
    NWCSession.getURL loc name id u =
      if (setstring (List.replicate 16 0) (valueWindow name rest)).1 then
        .ok (mergeString (before.length + 5) id u)
      else .ok (NWCSession.appendGUID (indexOf loc u [0x3F] 0 false).isSome name id u) := by
  have hu' : u = before ++ (nameToken name ++ rest) := by
    rw [eq_of_cut hcut, List.append_assoc]
  have hlength : u.length = before.length + (nameToken name ++ rest).length := by
    conv_lhs => rw [hu', List.length_append]
  have hsmall' : before.length + 5 + 32 < 2 ^ 31 := by
    rw [FitsBstr] at hu
    omega
  have hplace : (BitVec.ofNat 32 (before.length + 5 + 32)).toInt = before.length + 37 := by
    rw [BitVec.toInt_ofNat', Int.bmod_eq_of_le (by push_cast; omega) (by push_cast; omega)]
    push_cast
    ring
  have hsub : substring (before.length + 5) 32 u = some (valueWindow name rest) := by
    rw [substring_eq hu (by omega) (by omega), valueWindow]
    conv_lhs => rw [hu', List.drop_length_add_append]
  have hwindow : zeroTerminated (valueWindow name rest) = valueWindow name rest := by
    refine zeroTerminated_eq fun hmem => huNul ?_
    rw [hu']
    exact List.mem_append_right _ (List.mem_of_mem_drop (List.mem_of_mem_take hmem))
  rw [getURL_eq hexact hnul huNul hsmall, hcut, Option.map_some]
  dsimp only
  rw [hplace, if_pos (by omega), hsub]
  dsimp only
  rw [hwindow]

/-- INTERNAL: the text has no room for an id. -/
theorem getURL_short (hcut : cut (nameToken name) u = some (before, rest))
    (hroom : before.length + 37 < 2 ^ 31) (hshort : (nameToken name ++ rest).length < 37) :
    NWCSession.getURL loc name id u = NWCSession.removeGUID loc before.length u >>= fun p =>
      .ok (NWCSession.appendGUID (indexOf loc u [0x3F] 0 false).isSome name id p.2) := by
  have hlength : u.length = before.length + (nameToken name ++ rest).length := by
    conv_lhs => rw [eq_of_cut hcut, List.append_assoc, List.length_append]
  have hplace : (BitVec.ofNat 32 (before.length + 5 + 32)).toInt = before.length + 37 := by
    rw [BitVec.toInt_ofNat', Int.bmod_eq_of_le (by push_cast; omega) (by push_cast; omega)]
    push_cast
    ring
  rw [getURL_eq hexact hnul huNul hsmall, hcut, Option.map_some]
  dsimp only
  rw [hplace, if_neg (by omega)]

variable (hid : TakenForId id)
include hid

/-- **Without `name=` the id is appended.** -/
theorem getURL_absent (hcut : cut (nameToken name) u = none)
    (hfits : FitsBstr (attached name id u u)) :
    NWCSession.getURL loc name id u = .ok (attached name id u u) := by
  rw [getURL_eq hexact hnul huNul hsmall, hcut, Option.map_none]
  dsimp only
  rw [appendGUID_eq hnul hid hfits]

/-- **An id behind the first `name=` is written over.** -/
theorem getURL_taken (hcut : cut (nameToken name) u = some (before, rest)) (hu : FitsBstr u)
    (htaken : TakenForId (valueWindow name rest)) :
    NWCSession.getURL loc name id u = .ok (before ++ ((nameToken name ++ rest).take 5 ++
      (id ++ (nameToken name ++ rest).drop 37))) := by
  have hlength := htaken.1
  rw [valueWindow, List.length_take, List.length_drop] at hlength
  rw [getURL_long hexact hnul huNul hsmall hcut hu (by omega),
    if_pos ((setstring_iff (le_of_eq htaken.1)).mpr htaken)]
  have hparts : u = (before ++ (nameToken name ++ rest).take 5) ++
      (valueWindow name rest ++ (nameToken name ++ rest).drop 37) := by
    have hdrop : (nameToken name ++ rest).drop 37 =
        ((nameToken name ++ rest).drop 5).drop 32 := by rw [List.drop_drop]
    rw [hdrop, valueWindow, List.take_append_drop, List.append_assoc, List.take_append_drop,
      ← List.append_assoc]
    exact eq_of_cut hcut
  have hplace : before.length + 5 = (before ++ (nameToken name ++ rest).take 5).length := by
    rw [List.length_append, List.length_take]
    omega
  have hmerge := mergeString_append (before ++ (nameToken name ++ rest).take 5) id
    (valueWindow name rest) ((nameToken name ++ rest).drop 37) (hid.1.trans htaken.1.symm)
  rw [← hparts, ← hplace] at hmerge
  rw [hmerge, List.append_assoc]

/-- **Other characters there are left, and the id is appended.** -/
theorem getURL_other (hcut : cut (nameToken name) u = some (before, rest)) (hu : FitsBstr u)
    (hlong : 37 ≤ (nameToken name ++ rest).length) (hother : ¬ TakenForId (valueWindow name rest))
    (hfits : FitsBstr (attached name id u u)) :
    NWCSession.getURL loc name id u = .ok (attached name id u u) := by
  have hwindow : (valueWindow name rest).length ≤ 32 := List.length_take_le 32 _
  rw [getURL_long hexact hnul huNul hsmall hcut hu hlong,
    if_neg fun h => hother ((setstring_iff hwindow).mp h),
    appendGUID_eq hnul hid hfits]

/-- **A short value at the beginning of the text stays**, and the id is appended. -/
theorem getURL_first (hcut : cut (nameToken name) u = some ([], rest))
    (hshort : (nameToken name ++ rest).length < 37) (hfits : FitsBstr (attached name id u u)) :
    NWCSession.getURL loc name id u = .ok (attached name id u u) := by
  have hlength : u.length = (nameToken name ++ rest).length := by
    conv_lhs => rw [eq_of_cut hcut, List.nil_append]
  have houtside : ∀ count, remove (uint (((0 : ℕ) : ℤ) - 1)) count u = .ok (.eInvalidArg, u) := by
    intro count
    have hstart : uint (((0 : ℕ) : ℤ) - 1) = 2 ^ 32 - 1 := by decide
    rw [hstart, remove]
    dsimp only
    rw [if_neg (by omega)]
  rw [getURL_short hexact hnul huNul hsmall hcut (by decide) hshort, NWCSession.removeGUID]
  rw [List.length_nil]
  cases indexOf loc u [0x26] 0 true with
  | none =>
    dsimp only
    rw [houtside, Run.ok_bind]
    dsimp only
    rw [appendGUID_eq hnul hid hfits]
  | some nextToken =>
    dsimp only
    rw [houtside, Run.ok_bind]
    dsimp only
    rw [appendGUID_eq hnul hid hfits]

/-- **A short value elsewhere is taken out** with its name and the character before, and the id is
appended. -/
theorem getURL_cutOut {pre : Bstr} {c : UInt16} (hamp : 0x26 ∉ name)
    (hcut : cut (nameToken name) u = some (pre ++ [c], rest)) (hu : FitsBstr u)
    (hroom : pre.length + 38 < 2 ^ 31) (hshort : (nameToken name ++ rest).length < 37)
    (hfits : FitsBstr (attached name id u (pre ++ rest.dropWhile (· ≠ 0x26)))) :
    NWCSession.getURL loc name id u =
      .ok (attached name id u (pre ++ rest.dropWhile (· ≠ 0x26))) := by
  have hplace : (pre ++ [c]).length = pre.length + 1 := List.length_append
  have hu' : u = pre ++ ((c :: nameToken name) ++ rest) := by
    rw [eq_of_cut hcut]
    simp only [List.append_assoc, List.cons_append, List.nil_append]
  have htoken : 0x26 ∉ nameToken name := by
    rw [nameToken, List.mem_append, not_or]
    exact ⟨hamp, by decide⟩
  have hstart : uint ((pre.length + 1 : ℕ) - 1) = pre.length :=
    uint_of_lt (by push_cast; ring) (by omega)
  have hsearch := indexOf_ampersand hexact (pre ++ [c]) (nameToken name ++ rest)
  rw [← List.append_assoc, ← eq_of_cut hcut, hplace] at hsearch
  have hskip : (nameToken name ++ rest).dropWhile (fun d => decide (d ≠ 0x26)) =
      rest.dropWhile (fun d => decide (d ≠ 0x26)) :=
    List.dropWhile_append_of_pos fun d hd => decide_eq_true fun heq => htoken (heq ▸ hd)
  rw [getURL_short hexact hnul huNul hsmall hcut (by omega) hshort, NWCSession.removeGUID,
    hplace, hsearch]
  have hdone : ∀ cutOut, cutOut ≠ [] → u = pre ++ (cutOut ++ rest.dropWhile (· ≠ 0x26)) →
      remove pre.length cutOut.length u = .ok (.sOk, pre ++ rest.dropWhile (· ≠ 0x26)) := by
    intro cutOut hne heq
    have hremove := remove_append pre cutOut _ hne (heq ▸ hu)
    rwa [← heq] at hremove
  rcases cut_singleton 0x26 (nameToken name ++ rest) with
    ⟨-, hnone, hdrop⟩ | ⟨a, b, hab, hsome, hdrop⟩
  · rw [hskip] at hdrop
    have hcount : uint (u.length - (pre.length + 1 : ℕ) + 1) = (c :: (nameToken name ++ rest)).length := by
      refine uint_of_lt ?_ ?_
      · rw [hu']
        simp only [List.length_append, List.length_cons]
        push_cast
        ring
      · rw [List.length_cons]
        omega
    rw [hnone, Option.map_none]
    dsimp only
    rw [hstart, hcount, hdone _ (List.cons_ne_nil _ _)
      (by rw [hdrop, List.append_nil]; exact hu'), Run.ok_bind]
    dsimp only
    rw [appendGUID_eq hnul hid hfits]
  · rw [hskip] at hdrop
    have ha : a.length ≤ (nameToken name ++ rest).length := by
      rw [hab, List.length_append]
      omega
    have hcount : uint ((pre.length + 1 + a.length : ℕ) - (pre.length + 1 : ℕ) + 1) =
        (c :: a).length := by
      refine uint_of_lt ?_ ?_
      · rw [List.length_cons]
        push_cast
        ring
      · rw [List.length_cons]
        omega
    rw [hsome, Option.map_some]
    dsimp only
    rw [hstart, hcount, hdone (c :: a) (List.cons_ne_nil _ _)
      (by rw [hdrop, hu', List.cons_append, hab]; rfl), Run.ok_bind]
    dsimp only
    rw [appendGUID_eq hnul hid hfits]

end Outcomes

end IspSession.Analysis
