import IspSession.Analysis.TextEditing

/-!
# Splitting a text and joining it again

`Split` searches twice, first to count and then to cut, and goes on behind the whole delimiter, of
which the search knows only the part before a NUL. `Join` adds up the bytes from the last element and
copies from the first. `splitJoin_iff` says when they are inverse.
-/

set_option autoImplicit false

namespace IspSession.Analysis

open IspSession.Library IspSession.Model IspSession.Model.CComBSTR2

/-! ## The claim -/

/-- **`Split` and `Join` are inverse**: the elements lie between the leftmost delimiters that do not
overlap, and joined they are the text. -/
def SplitJoinLaw (memory : ℕ → UInt16) (s d : Bstr) : Prop :=
  ∃ elements, CComBSTR2.split .ordinal s d false = .ok elements ∧
    elements.length = (if s = [] then 0 else tokenNumber d s + 1) ∧
    (∀ element ∈ elements, ¬ d <:+: element) ∧
    joinArray memory (elements.map some) d = .ok s

/-- Where the part `p` of the delimiter is found first, and behind each delimiter so found first
again, the whole delimiter stands. -/
inductive FoundWhole (p d : Bstr) : Bstr → Prop
  | done {s : Bstr} (h : cut p s = none) : FoundWhole p d s
  | step {before behind rest : Bstr} (h : cut p (before ++ d ++ rest) = some (before, behind))
    (hrest : FoundWhole p d rest) : FoundWhole p d (before ++ d ++ rest)

/-- **The condition**: the part of the delimiter before a NUL is only found where the delimiter is;
if the delimiter begins with one it does not occur. -/
def SplitsWell (s d : Bstr) : Prop :=
  if zeroTerminated d = [] then ¬ d <:+: s else FoundWhole (zeroTerminated d) d s

/-! ## Searching -/

section Search

variable {loc : Collation} {caseInsensitive : Bool} {d p : Bstr}

/-- `IndexOf` finds the first part `p` of the delimiter. -/
structure Searched (loc : Collation) (caseInsensitive : Bool) (d p : Bstr) : Prop where
  ne_nil : p ≠ []
  begins : p <+: d
  found : ∀ out rest, indexOf loc (out ++ rest) d out.length caseInsensitive =
    (cut p rest).map fun q => out.length + q.1.length

/-- INTERNAL: nothing is found behind the text. -/
theorem indexOf_outside {text : Bstr} {x : ℕ} (hx : text.length < x) :
    indexOf loc text d x caseInsensitive = none := by
  rw [indexOf]
  split
  · have hnone : text.length + 1 - (zeroTerminated d).length - x = 0 := by omega
    rw [hnone, List.range'_zero, List.find?_nil]
  · rfl

/-- INTERNAL: the part before a NUL has none. -/
theorem notMem_zeroTerminated (d : Bstr) : (0 : UInt16) ∉ zeroTerminated d := by
  intro hmem
  simpa using List.mem_takeWhile_imp hmem

/-- INTERNAL: the ordinal search. -/
theorem searched_ordinal (hne : zeroTerminated d ≠ []) :
    Searched .ordinal false d (zeroTerminated d) where
  ne_nil := hne
  begins := List.takeWhile_prefix _
  found out rest := by
    have hnul := notMem_zeroTerminated d
    rw [← indexOf_append hne hnul, indexOf, indexOf, zeroTerminated_eq hnul]

/-- INTERNAL: a delimiter that is searched as it is is found whole. -/
theorem foundWhole_self (hne : d ≠ []) (s : Bstr) : FoundWhole d d s := by
  induction s using token_induction hne with
  | done s h => exact .done h
  | step s before behind h ih =>
    have hs := eq_of_cut h
    rw [hs] at h ⊢
    exact .step h ih

/-- INTERNAL: the first part is the first delimiter. -/
theorem cut_of_begins (hne : p ≠ []) (hp : p <+: d) {before behind rest : Bstr}
    (h : cut p (before ++ d ++ rest) = some (before, behind)) :
    cut d (before ++ d ++ rest) = some (before, rest) := by
  have hd : d ≠ [] := by
    rintro rfl
    exact hne (List.prefix_nil.mp hp)
  exact cut_eq_some hd fun i hi hbegins => not_prefix_of_cut h i hi (hp.trans hbegins)

/-- INTERNAL: without the part there is no delimiter. -/
theorem cut_none_of_begins (hne : p ≠ []) (hp : p <+: d) {s : Bstr} (h : cut p s = none) :
    cut d s = none := by
  have hd : d ≠ [] := by
    rintro rfl
    exact hne (List.prefix_nil.mp hp)
  rw [cut_eq_none_iff hd]
  exact fun hin => (cut_eq_none_iff hne).mp h (hp.isInfix.trans hin)

end Search

/-! ## `Split` -/

section Split

variable {loc : Collation} {caseInsensitive : Bool} {d p : Bstr}

/-- INTERNAL: the part of a text behind another part. -/
theorem substring_append (out part rest : Bstr) (hfits : FitsBstr (out ++ (part ++ rest))) :
    substring out.length part.length (out ++ (part ++ rest)) = some part := by
  have hsmall := hfits
  rw [FitsBstr, List.length_append, List.length_append] at hsmall
  rw [substring_eq hfits (by rw [List.length_append]; omega) (by omega), List.drop_left,
    List.take_left]

/-- INTERNAL: the last element. -/
theorem splitElements_last {out rest : Bstr} (hfits : FitsBstr (out ++ rest))
    (hnone : indexOf loc (out ++ rest) d out.length caseInsensitive = none) :
    splitElements loc (out ++ rest) d caseInsensitive 1 out.length = .ok [rest] := by
  have hpart := substring_append out rest [] (by rwa [List.append_nil])
  have hbehind : (out ++ rest).length - out.length = rest.length := by
    rw [List.length_append, Nat.add_sub_cancel_left]
  rw [List.append_nil] at hpart
  rw [splitElements, hnone]
  dsimp only
  rw [hbehind, hpart]
  rfl

/-- INTERNAL: an element with the characters behind it that are skipped for a delimiter. -/
theorem splitElements_step {out before skipped rest : Bstr} (hskipped : skipped.length = d.length)
    (hfits : FitsBstr (out ++ (before ++ skipped ++ rest)))
    (hfound : indexOf loc (out ++ (before ++ skipped ++ rest)) d out.length caseInsensitive =
      some (out.length + before.length)) (n : ℕ) :
    splitElements loc (out ++ (before ++ skipped ++ rest)) d caseInsensitive (n + 1) out.length =
      (splitElements loc ((out ++ (before ++ skipped)) ++ rest) d caseInsensitive n
        (out ++ (before ++ skipped)).length).map (before :: ·) := by
  have hpart := substring_append out before (skipped ++ rest)
    (by rwa [← List.append_assoc before])
  have hplace : out.length + before.length + d.length = (out ++ (before ++ skipped)).length := by
    rw [List.length_append, List.length_append, hskipped, Nat.add_assoc]
  rw [← List.append_assoc before] at hpart
  rw [splitElements, hfound]
  dsimp only
  rw [Nat.add_sub_cancel_left, hpart, hplace, List.append_assoc out]
  cases splitElements loc (out ++ (before ++ skipped ++ rest)) d caseInsensitive n
      (out ++ (before ++ skipped)).length <;> rfl

/-- INTERNAL: the delimiters are counted. -/
theorem splitCount_whole (h : Searched loc caseInsensitive d p) {rest : Bstr}
    (hwhole : FoundWhole p d rest) (out : Bstr) (fuel found : ℕ)
    (hfuel : tokenNumber d rest < fuel) :
    splitCount loc (out ++ rest) d caseInsensitive fuel out.length found =
      .ok (found + tokenNumber d rest) := by
  induction hwhole generalizing out fuel found with
  | done hcut =>
    rw [tokenNumber_of_cut_none (cut_none_of_begins h.ne_nil h.begins hcut)] at hfuel ⊢
    obtain ⟨fuel, rfl⟩ := Nat.exists_eq_add_one_of_ne_zero (Nat.ne_of_gt hfuel)
    rw [splitCount, h.found, hcut]
    rfl
  | @step before behind rest hcut _ ih =>
    have hd : d ≠ [] := fun hnil => h.ne_nil (List.prefix_nil.mp (hnil ▸ h.begins))
    rw [tokenNumber_of_cut hd (cut_of_begins h.ne_nil h.begins hcut)] at hfuel ⊢
    obtain ⟨fuel, rfl⟩ := Nat.exists_eq_add_one_of_ne_zero (Nat.ne_of_gt (Nat.zero_lt_of_lt hfuel))
    have hnext := ih (out ++ (before ++ d)) fuel (found + 1) (by omega)
    rw [List.append_assoc, List.length_append, List.length_append, ← Nat.add_assoc] at hnext
    rw [splitCount, h.found, hcut, Option.map_some]
    dsimp only
    rw [hnext, Nat.add_assoc, Nat.add_comm 1]

/-- INTERNAL: the elements are the pieces. -/
theorem splitElements_whole (h : Searched loc caseInsensitive d p) {rest : Bstr}
    (hwhole : FoundWhole p d rest) (out : Bstr) (hfits : FitsBstr (out ++ rest)) :
    splitElements loc (out ++ rest) d caseInsensitive (tokenNumber d rest + 1) out.length =
      .ok (pieces d rest) := by
  induction hwhole generalizing out with
  | done hcut =>
    have hnone := cut_none_of_begins h.ne_nil h.begins hcut
    rw [tokenNumber_of_cut_none hnone, pieces_of_cut_none hnone]
    exact splitElements_last hfits (by rw [h.found, hcut]; rfl)
  | @step before behind rest hcut _ ih =>
    have hd : d ≠ [] := fun hnil => h.ne_nil (List.prefix_nil.mp (hnil ▸ h.begins))
    have hfirst := cut_of_begins h.ne_nil h.begins hcut
    rw [tokenNumber_of_cut hd hfirst, pieces_of_cut hd hfirst,
      splitElements_step rfl hfits (by rw [h.found, hcut]; rfl),
      ih (out ++ (before ++ d)) (by rwa [List.append_assoc])]
    rfl

/-- **`Split` gives the pieces of a text** in which the delimiter is only found whole. -/
theorem split_whole (h : Searched loc caseInsensitive d p) {s : Bstr}
    (hwhole : FoundWhole p d s) (hfits : FitsBstr s) (hne : s ≠ []) :
    CComBSTR2.split loc s d caseInsensitive = .ok (pieces d s) := by
  have hd : d ≠ [] := fun hnil => h.ne_nil (List.prefix_nil.mp (hnil ▸ h.begins))
  have hcount := splitCount_whole h hwhole [] (s.length + 1) 0
    (Nat.lt_succ_of_le (tokenNumber_le_length hd s))
  have helements := splitElements_whole h hwhole [] hfits
  rw [List.nil_append, List.length_nil] at hcount helements
  rw [Nat.zero_add] at hcount
  rw [CComBSTR2.split, if_neg hne, hcount]
  exact helements

/-- INTERNAL: whatever is found, what `Split` gives is joined again to the text only if the delimiter
was found whole. -/
theorem split_rest (h : Searched loc caseInsensitive d p) (rest : Bstr) :
    ∃ n, (∀ out fuel found, rest.length < fuel →
        splitCount loc (out ++ rest) d caseInsensitive fuel out.length found =
          .ok (found + n)) ∧
      ∀ out elements, FitsBstr (out ++ rest) →
        splitElements loc (out ++ rest) d caseInsensitive (n + 1) out.length = .ok elements →
        elements ≠ [] ∧ (d.intercalate elements = rest → FoundWhole p d rest) := by
  have hpos : 0 < d.length :=
    Nat.lt_of_lt_of_le (List.length_pos_iff.mpr h.ne_nil) h.begins.length_le
  induction hn : rest.length using Nat.strong_induction_on generalizing rest with
  | _ n ih =>
    cases hcut : cut p rest with
    | none =>
      refine ⟨0, fun out fuel found hfuel => ?_, fun out elements hfits helements => ?_⟩
      · obtain ⟨fuel, rfl⟩ := Nat.exists_eq_add_one_of_ne_zero (Nat.ne_of_gt (Nat.zero_lt_of_lt hfuel))
        rw [splitCount, h.found, hcut]
        rfl
      · rw [splitElements_last hfits (by rw [h.found, hcut]; rfl)] at helements
        cases helements
        exact ⟨List.cons_ne_nil _ _, fun _ => .done hcut⟩
    | some q =>
      obtain ⟨before, behind⟩ := q
      have hfound : ∀ out, indexOf loc (out ++ rest) d out.length caseInsensitive =
          some (out.length + before.length) := by
        intro out
        rw [h.found, hcut]
        rfl
      have hrest := eq_of_cut hcut
      by_cases hlong : before.length + d.length ≤ rest.length
      · -- the search goes on behind as many characters as the delimiter has
        have hparts : rest = before ++ (rest.drop before.length).take d.length ++
            rest.drop (before.length + d.length) := by
          conv_lhs => rw [← List.take_append_drop before.length rest,
            ← List.take_append_drop d.length (rest.drop before.length), List.drop_drop,
            ← List.append_assoc]
          congr 2
          rw [hrest, List.append_assoc, List.take_left]
        have hskipped : ((rest.drop before.length).take d.length).length = d.length := by
          rw [List.length_take, List.length_drop]
          omega
        generalize (rest.drop before.length).take d.length = skipped at hparts hskipped
        generalize rest.drop (before.length + d.length) = next at hparts
        subst hparts
        obtain ⟨m, hcount, helements⟩ := ih next.length
          (by rw [← hn]; simp only [List.length_append]; omega) next rfl
        refine ⟨m + 1, fun out fuel found hfuel => ?_, fun out elements hfits hsplit => ?_⟩
        · obtain ⟨fuel, rfl⟩ := Nat.exists_eq_add_one_of_ne_zero
            (Nat.ne_of_gt (Nat.zero_lt_of_lt hfuel))
          have hnext := hcount (out ++ (before ++ skipped)) fuel (found + 1)
            (by rw [← hn] at hfuel; simp only [List.length_append] at hfuel; omega)
          rw [List.append_assoc, List.length_append, List.length_append, hskipped,
            ← Nat.add_assoc] at hnext
          rw [splitCount, hfound]
          dsimp only
          rw [hnext, Nat.add_assoc, Nat.add_comm 1]
        · rw [splitElements_step hskipped hfits (hfound out)] at hsplit
          cases hlast : splitElements loc (out ++ (before ++ skipped) ++ next) d caseInsensitive
              (m + 1) (out ++ (before ++ skipped)).length with
          | error e =>
            rw [hlast] at hsplit
            cases hsplit
          | ok others =>
            rw [hlast] at hsplit
            cases hsplit
            obtain ⟨hne, hwhole⟩ := helements (out ++ (before ++ skipped)) others
              (by rwa [List.append_assoc]) hlast
            refine ⟨List.cons_ne_nil _ _, fun hjoin => ?_⟩
            rw [List.intercalate_cons_of_ne_nil hne, List.append_assoc, List.append_assoc] at hjoin
            obtain ⟨rfl, hnext⟩ := List.append_inj (List.append_cancel_left hjoin) hskipped.symm
            exact .step hcut (hwhole hnext)
      · -- it goes on behind the text, of which there is no element
        refine ⟨1, fun out fuel found hfuel => ?_, fun out elements hfits hsplit => ?_⟩
        · have hlength := congrArg List.length hrest
          have hpart := List.length_pos_iff.mpr h.ne_nil
          simp only [List.length_append] at hlength
          obtain ⟨fuel, rfl⟩ : ∃ f, fuel = f + 1 + 1 := ⟨fuel - 2, by omega⟩
          rw [splitCount, hfound]
          dsimp only
          rw [splitCount, indexOf_outside (by rw [List.length_append]; omega)]
        · rw [splitElements, hfound] at hsplit
          dsimp only at hsplit
          rw [splitElements, indexOf_outside (by rw [List.length_append]; omega)] at hsplit
          have hnone : substring (out.length + before.length + d.length)
              ((out ++ rest).length - (out.length + before.length + d.length)) (out ++ rest) =
              none := by
            rw [substring]
            exact if_neg (by rw [List.length_append]; omega)
          dsimp only at hsplit
          rw [hnone] at hsplit
          cases hfirst : substring out.length (out.length + before.length - out.length)
              (out ++ rest) with
          | none =>
            rw [hfirst] at hsplit
            cases hsplit
          | some first =>
            rw [hfirst] at hsplit
            cases hsplit

end Split

/-! ## `Join` -/

section Join

variable {d : Bstr}

/-- INTERNAL: `wmemcpy_s` behind a text, into the room that is left. -/
theorem wmemcpyS_room (pre value room : Bstr) :
    wmemcpyS pre.length value.length value (pre ++ room) =
      if value.length ≤ room.length then .ok (pre ++ (value ++ room.drop value.length))
      else .error .fault := by
  rw [wmemcpyS]
  refine if_congr ?_ ?_ rfl
  · rw [and_iff_right (Nat.le_refl _), List.length_append]
    omega
  · rw [List.take_left, List.drop_length_add_append]

/-- INTERNAL: the second loop. -/
theorem joinCopy_eq (elements : List Bstr) (pre room : Bstr) :
    joinCopy d (elements.map some) pre.length (pre ++ room) =
      if (d.intercalate elements).length ≤ room.length then
        .ok (pre ++ (d.intercalate elements ++ room.drop (d.intercalate elements).length))
      else .error .fault := by
  induction elements generalizing pre room with
  | nil =>
    rw [List.intercalate_nil, List.length_nil, if_pos (Nat.zero_le _)]
    rfl
  | cons s rest ih =>
    rw [List.map_cons, joinCopy, Option.getD_some, wmemcpyS_room]
    by_cases hroom : s.length ≤ room.length
    swap
    · have hlong : ¬ (d.intercalate (s :: rest)).length ≤ room.length := by
        cases rest with
        | nil => rwa [List.intercalate_singleton]
        | cons t rest =>
          rw [List.intercalate_cons_cons, List.length_append, List.length_append]
          omega
      rw [if_neg hroom, if_neg hlong]
      rfl
    rw [if_pos hroom, Run.ok_bind]
    cases rest with
    | nil =>
      rw [List.intercalate_singleton, if_pos hroom]
      rw [List.map_nil, if_neg fun h => h.2 rfl]
      rfl
    | cons t rest =>
      have hmore : (List.map some (t :: rest) : List (Option Bstr)) ≠ [] := by simp
      have hplace : pre.length + s.length = (pre ++ s).length := List.length_append.symm
      rw [List.intercalate_cons_cons, hplace, ← List.append_assoc]
      by_cases hd : d = []
      · -- nothing stands between the elements
        rw [if_neg fun h => h.1 hd, ih, List.length_drop, hd, List.append_nil,
          List.length_append, List.drop_drop]
        refine if_congr (by omega) ?_ rfl
        rw [List.append_assoc, List.append_assoc]
      · rw [if_pos ⟨hd, hmore⟩, wmemcpyS_room, List.length_drop]
        by_cases hdelimiter : d.length ≤ room.length - s.length
        · have hnext : (pre ++ s).length + d.length = (pre ++ s ++ d).length :=
            List.length_append.symm
          rw [if_pos hdelimiter, Run.ok_bind, hnext, ← List.append_assoc (pre ++ s), ih,
            List.drop_drop, List.length_drop, List.drop_drop, List.length_append,
            List.length_append]
          refine if_congr (by omega) ?_ rfl
          simp only [List.append_assoc, Nat.add_assoc]
        · rw [if_neg hdelimiter, if_neg]
          · rfl
          · simp only [List.length_append]
            omega

/-- INTERNAL: one more element in a joined text. -/
theorem length_intercalate_append (elements : List Bstr) (s : Bstr) :
    (d.intercalate (elements ++ [s])).length = (d.intercalate elements).length +
      (if elements = [] then 0 else d.length) + s.length := by
  induction elements with
  | nil => rw [List.nil_append, List.intercalate_singleton, List.intercalate_nil, if_pos rfl]; simp
  | cons t rest ih =>
    rw [if_neg (List.cons_ne_nil t rest)]
    cases rest with
    | nil =>
      rw [List.cons_append, List.nil_append, List.intercalate_cons_cons,
        List.intercalate_singleton, List.intercalate_singleton, List.length_append,
        List.length_append]
    | cons u rest =>
      rw [if_neg (List.cons_ne_nil u rest)] at ih
      rw [List.cons_append, List.cons_append, List.intercalate_cons_cons,
        List.intercalate_cons_cons, ← List.cons_append, List.length_append, ih]
      simp only [List.length_append]
      omega

/-- INTERNAL: the first loop. -/
theorem joinLength_eq (elements : List Bstr) (n : ℕ) (hn : n ≤ elements.length) (totalLen : ℕ)
    (htotal : totalLen < 2 ^ 32) :
    joinLength (elements.map some) (2 * d.length) n totalLen =
      (totalLen + 2 * (d.intercalate (elements.take n)).length) % 2 ^ 32 := by
  induction n generalizing totalLen with
  | zero =>
    rw [List.take_zero, List.intercalate_nil]
    exact (Nat.mod_eq_of_lt htotal).symm
  | succ n ih =>
    have hat : elements.take (n + 1) = elements.take n ++ [elements[n]] :=
      List.take_succ_eq_append_getElem hn
    have hget : (elements.map some)[n]? = some (some elements[n]) := by
      rw [List.getElem?_map, List.getElem?_eq_getElem hn, Option.map_some]
    have huint : ∀ a b : ℕ, uint (a + b) = (a + b) % 2 ^ 32 := by
      intro a b
      rw [uint, ← Int.natCast_add, BitVec.ofInt_natCast, BitVec.toNat_ofNat]
    have hempty : elements.take n = [] ↔ n = 0 := by
      rw [List.take_eq_nil_iff]
      constructor
      · rintro (h | h)
        · exact h
        · rw [h] at hn
          exact absurd hn (Nat.not_succ_le_zero n)
      · exact .inl
    rw [joinLength, hget, hat, length_intercalate_append]
    dsimp only
    have hfirst : uint ((totalLen : ℤ) + 2 * (elements[n].length : ℕ)) =
        (totalLen + 2 * elements[n].length) % 2 ^ 32 := by
      rw [← huint]
      push_cast
      rfl
    rw [hfirst]
    by_cases hzero : n = 0
    · rw [if_neg (not_not.mpr hzero), if_pos (hempty.mpr hzero), ih (Nat.le_of_succ_le hn) _
        (Nat.mod_lt _ (by norm_num))]
      omega
    · have hsecond : uint (((totalLen + 2 * elements[n].length) % 2 ^ 32 : ℕ) +
          (2 * d.length : ℕ)) = ((totalLen + 2 * elements[n].length) % 2 ^ 32 + 2 * d.length) %
            2 ^ 32 := huint _ _
      rw [if_pos hzero, if_neg (mt hempty.mp hzero), hsecond, ih (Nat.le_of_succ_le hn) _
        (Nat.mod_lt _ (by norm_num))]
      omega

/-- **`Join` puts the delimiter between the elements.** -/
theorem joinArray_eq (memory : ℕ → UInt16) (elements : List Bstr) :
    joinArray memory (elements.map some) d = join elements d := by
  have hlength := joinLength_eq (d := d) elements elements.length (Nat.le_refl _) 0 (by norm_num)
  rw [List.take_length, Nat.zero_add] at hlength
  have hcopy := joinCopy_eq (d := d) elements []
    ((List.range (joinLength (elements.map some) (2 * d.length) elements.length 0 / 2)).map memory)
  rw [List.nil_append, List.nil_append, List.length_nil, List.length_map, List.length_range] at hcopy
  rw [joinArray, List.length_map, hcopy, join, hlength]
  by_cases hfits : (d.intercalate elements).length < 2 ^ 31
  · have hroom : 2 * (d.intercalate elements).length % 2 ^ 32 / 2 =
        (d.intercalate elements).length := by omega
    rw [hroom, if_pos (Nat.le_refl _), if_pos hfits,
      List.drop_eq_nil_of_le (by rw [List.length_map, List.length_range]), List.append_nil]
  · rw [if_neg hfits, if_neg (by omega)]

end Join

/-! ## The law -/

/-- **When splitting and joining are inverse**: where the part of the delimiter before a NUL is found,
the delimiter stands. -/
theorem splitJoin_iff (memory : ℕ → UInt16) {s d : Bstr} (hs : FitsBstr s) (hd : d ≠ []) :
    SplitJoinLaw memory s d ↔ SplitsWell s d := by
  have hjoin : ∀ elements, joinArray memory (elements.map some) d = .ok s →
      d.intercalate elements = s := by
    intro elements h
    rw [joinArray_eq, join] at h
    split at h
    · exact Except.ok.inj h
    · cases h
  have hpieces : joinArray memory ((pieces d s).map some) d = .ok s := by
    rw [joinArray_eq, join, intercalate_pieces hd]
    exact if_pos hs
  have hnumber : (pieces d s).length = tokenNumber d s + 1 := by
    have hpos := List.length_pos_iff.mpr (pieces_ne_nil d s)
    rw [tokenNumber]
    omega
  rw [SplitsWell]
  by_cases hempty : s = []
  · -- no elements
    subst hempty
    have hnone : ∀ p : Bstr, cut p [] = none := fun _ => rfl
    refine iff_of_true ⟨[], rfl, rfl, (fun _ h => by cases h), ?_⟩ ?_
    · rw [joinArray_eq]
      rfl
    · split
      · exact (cut_eq_none_iff hd).mp (hnone d)
      · exact .done (hnone _)
  split
  · rename_i hnul
    -- nothing is found, and the text is the one element
    have hfound : ∀ x, indexOf .ordinal s d x false = none := by
      intro x
      rw [indexOf, hnul]
      exact if_neg fun h => Nat.lt_irrefl 0 h.2
    have hsplit : CComBSTR2.split .ordinal s d false = .ok [s] := by
      have hlast := @splitElements_last .ordinal false d [] s hs (hfound 0)
      rw [CComBSTR2.split, if_neg hempty, splitCount, hfound]
      exact hlast
    constructor
    · rintro ⟨elements, helements, hlength, -⟩
      rw [hsplit] at helements
      cases helements
      rw [if_neg hempty, List.length_singleton, ← hnumber] at hlength
      rw [← cut_eq_none_iff hd]
      cases hcut : cut d s with
      | none => rfl
      | some q =>
        have hpos := List.length_pos_iff.mpr (pieces_ne_nil d q.2)
        have hpieces : pieces d s = q.1 :: pieces d q.2 := pieces_of_cut hd hcut
        rw [hpieces, List.length_cons] at hlength
        omega
    · intro hin
      have hone := pieces_of_cut_none ((cut_eq_none_iff hd).mpr hin)
      rw [← hone] at hsplit
      refine ⟨pieces d s, hsplit, ?_, fun element h => not_infix_of_mem_pieces hd h, hpieces⟩
      rw [if_neg hempty, hnumber]
  · rename_i hne
    have hsearch := searched_ordinal (d := d) hne
    constructor
    · rintro ⟨elements, helements, -, -, hjoined⟩
      obtain ⟨n, hcount, hrest⟩ := split_rest hsearch s
      have hcounted := hcount [] (s.length + 1) 0 (Nat.lt_succ_self _)
      rw [List.nil_append, List.length_nil, Nat.zero_add] at hcounted
      rw [CComBSTR2.split, if_neg hempty, hcounted] at helements
      exact (hrest [] elements hs helements).2 (hjoin elements hjoined)
    · intro hwhole
      refine ⟨pieces d s, split_whole hsearch hwhole hs hempty, ?_,
        fun element h => not_infix_of_mem_pieces hd h, hpieces⟩
      rw [if_neg hempty, hnumber]

/-- **A delimiter without NUL** always splits well. -/
theorem splitsWell_of_noNul {d : Bstr} (hd : d ≠ []) (hnul : (0 : UInt16) ∉ d) (s : Bstr) :
    SplitsWell s d := by
  rw [SplitsWell, zeroTerminated_eq hnul, if_neg hd]
  exact foundWhole_self hd s

/-- A text that is split at bars. -/
theorem johnSmith_splitJoin :
    SplitJoinLaw (fun _ => 0) (Bstr.ofString "John|Smith") (Bstr.ofString "|") := by
  have hd : Bstr.ofString "|" ≠ [] := by decide
  have hnul : (0 : UInt16) ∉ Bstr.ofString "|" := by decide
  exact (splitJoin_iff (fun _ => 0) (by decide) hd).mpr (splitsWell_of_noNul hd hnul _)

/-- **The counterexample**: a delimiter with a NUL behind its first character, which is found alone. -/
theorem nulDelimiter_not_splitJoin :
    ¬ ∀ (memory : ℕ → UInt16) (s d : Bstr), FitsBstr s → d ≠ [] → SplitJoinLaw memory s d := by
  intro h
  obtain ⟨elements, helements, -, -, hjoined⟩ :=
    h (fun _ => 0) [97, 120, 98] [120, 0] (by decide) (by decide)
  have hsplit : CComBSTR2.split .ordinal [97, 120, 98] [120, 0] false = .ok [[97], []] := rfl
  rw [hsplit] at helements
  cases helements
  rw [joinArray_eq] at hjoined
  exact absurd (Except.ok.inj hjoined) (by decide)

end IspSession.Analysis
