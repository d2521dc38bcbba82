import Mathlib.Data.List.TakeWhile
import IspSession.Library.Tokens
import IspSession.Model.ComBstr

/-!
# `Replace` and the reference replacement

`TokenCount` looks for tokens only in a text that is longer than the token, the loop searches a
buffer in which, when the text shrinks, old characters stand behind the text, and the search ends a
token at its first NUL where the loop takes its whole length. Otherwise `Replace` is the
replacement of the leftmost tokens that do not overlap.
-/

set_option autoImplicit false

namespace IspSession.Analysis

open IspSession.Library IspSession.Model

/-! ## The claim -/

/-- `Replace` ends, moves nothing outside of the buffer, and every leftmost token has been
replaced, with the comparison of code units. -/
def ReplacesAll (memory : ℕ → UInt16) (s find replacement : Bstr) : Prop :=
  ∃ fuel, CComBSTR2.replace .ordinal memory fuel (some s) (some find) (some replacement) false =
    .ok (.sOk, some (replaceAll find replacement s))

/-- A text that a `BSTR` can hold. -/
def FitsBstr (s : Bstr) : Prop := s.length < 2 ^ 31

instance : DecidablePred FitsBstr := fun s => inferInstanceAs (Decidable (s.length < 2 ^ 31))

/-- The old characters that stand behind the text when a token has been replaced by a shorter
text: the last ones of the token and of what follows it. -/
def leftOver (find replacement rest : Bstr) : Bstr :=
  (find ++ rest).drop (replacement.length + rest.length)

/-- The condition: the token is not the whole text, or is replaced by itself; the result fits in a
`BSTR`; when the text shrinks, the token does not occur in the text behind the last token and the
old characters behind it; and where a NUL ends the token early, neither it nor the part before the
NUL is found. -/
structure ReplacesWell (s find replacement : Bstr) : Prop where
  whole : s = find → replacement = find
  fits : FitsBstr (replaceAll find replacement s)
  behind : replacement.length < find.length →
    ¬ find <:+: behindTokens find s ++
      (List.replicate (tokenNumber find s)
        (leftOver find replacement (behindTokens find s))).flatten
  noNul : 0 ∈ find → ¬ find <:+: s ∧
    (CComBSTR2.zeroTerminated find = [] ∨ ¬ CComBSTR2.zeroTerminated find <:+: s)

/-! ## Searching -/

section Search

variable {find : Bstr}

/-- INTERNAL: a token without NUL is searched as it is. -/
theorem zeroTerminated_eq {src : Bstr} (h : (0 : UInt16) ∉ src) :
    CComBSTR2.zeroTerminated src = src :=
  List.takeWhile_eq_self_iff.mpr fun _ hu => decide_eq_true fun hzero => h (hzero ▸ hu)

/-- INTERNAL: the comparison at one place. -/
theorem compare_iff {src : Bstr} (hne : src ≠ []) (text : Bstr) (x : ℕ) :
    ((false || text[x]? == src.head?) &&
        CComBSTR2.compareString .ordinal false ((text.drop x).take src.length) src) = true ↔
      src <+: text.drop x := by
  rw [Bool.false_or, Bool.and_eq_true, beq_iff_eq, CComBSTR2.compareString,
    if_neg Bool.false_ne_true, List.prefix_iff_eq_take]
  have hequal : (Collation.ordinal.equalText ((text.drop x).take src.length) src = true) ↔
      src = (text.drop x).take src.length := by
    rw [eq_comm (a := src)]
    exact beq_iff_eq
  rw [hequal, and_iff_right_iff_imp]
  intro hsrc
  cases src with
  | nil => exact absurd rfl hne
  | cons c src =>
    rw [List.length_cons] at hsrc
    have hhead := congrArg List.head? hsrc
    rw [List.head?_take, if_neg (Nat.succ_ne_zero _), List.head?_drop] at hhead
    exact hhead.symm

/-- INTERNAL: the search finds the first token behind a place. -/
theorem indexOf_append (hne : find ≠ []) (hnul : (0 : UInt16) ∉ find) (out text : Bstr) :
    CComBSTR2.indexOf .ordinal (out ++ text) find out.length false =
      (cut find text).map fun p => out.length + p.1.length := by
  have hpos := List.length_pos_iff.mpr hne
  rw [CComBSTR2.indexOf, zeroTerminated_eq hnul]
  cases hcut : cut find text with
  | none =>
    rw [Option.map_none]
    split
    · rw [List.find?_range'_eq_none]
      intro x hx _
      rw [Bool.not_eq_true', ← Bool.not_eq_true, compare_iff hne,
        show x = out.length + (x - out.length) by omega, List.drop_length_add_append]
      exact not_prefix_of_cut_none hne hcut _
    · rfl
  | some p =>
    have htext := eq_of_cut hcut
    have hlength := congrArg List.length htext
    simp only [List.length_append] at hlength
    rw [Option.map_some, if_pos ⟨by rw [List.length_append]; omega, hpos⟩,
      List.find?_range'_eq_some]
    refine ⟨?_, List.mem_range'_1.mpr ⟨by omega, by rw [List.length_append]; omega⟩,
      fun x hx hlt => ?_⟩
    · rw [compare_iff hne, List.drop_length_add_append, htext, List.append_assoc, List.drop_left]
      exact List.prefix_append _ _
    · rw [Bool.not_eq_true', ← Bool.not_eq_true, compare_iff hne,
        show x = out.length + (x - out.length) by omega, List.drop_length_add_append]
      exact not_prefix_of_cut hcut _ (by omega)

/-- INTERNAL: the loop counts the tokens when its fuel is enough. -/
theorem tokenCountLoop_eq (hne : find ≠ []) (hnul : (0 : UInt16) ∉ find) (rest out : Bstr)
    (fuel k : ℕ) :
    CComBSTR2.tokenCountLoop .ordinal (out ++ rest) find false fuel out.length k =
      if tokenNumber find rest < fuel then .ok (k + tokenNumber find rest) else .error .fuel := by
  induction rest using token_induction hne generalizing out fuel k with
  | done rest h =>
    rw [tokenNumber_of_cut_none h]
    cases fuel with
    | zero => rfl
    | succ fuel =>
      rw [CComBSTR2.tokenCountLoop, indexOf_append hne hnul, h, if_pos (Nat.succ_pos fuel)]
      rfl
  | step rest before behind h ih =>
    rw [tokenNumber_of_cut hne h]
    cases fuel with
    | zero => rfl
    | succ fuel =>
      rw [CComBSTR2.tokenCountLoop, indexOf_append hne hnul, h]
      have hout := ih (out ++ before ++ find) fuel (k + 1)
      rw [List.append_assoc, List.append_assoc out, ← List.append_assoc before,
        ← eq_of_cut h, List.length_append, List.length_append] at hout
      rw [Option.map_some, zeroTerminated_eq hnul]
      dsimp only
      rw [hout]
      refine if_congr (by omega) (congrArg Except.ok (by omega)) rfl

/-- INTERNAL: `TokenCount` on a text that is longer than the token. -/
theorem tokenCount_eq (hne : find ≠ []) (hnul : (0 : UInt16) ∉ find) {s : Bstr}
    (hlong : find.length < s.length) (fuel : ℕ) :
    CComBSTR2.tokenCount .ordinal fuel s find false =
      if tokenNumber find s < fuel then .ok (tokenNumber find s) else .error .fuel := by
  rw [CComBSTR2.tokenCount, zeroTerminated_eq hnul, if_pos hlong]
  have h := tokenCountLoop_eq hne hnul s [] fuel 0
  rwa [List.nil_append, List.length_nil, Nat.zero_add] at h

end Search

/-! ## The loop -/

section Loop

variable {find replacement : Bstr} {newLen : ℤ}

/-- INTERNAL: `MergeString` of a text that has room. -/
theorem mergeString_append (pre value old post : Bstr) (h : value.length = old.length) :
    CComBSTR2.mergeString pre.length value (pre ++ (old ++ post)) = pre ++ (value ++ post) := by
  have hlength : (pre ++ (old ++ post)).length = pre.length + (value.length + post.length) := by
    rw [List.length_append, List.length_append, h]
  rw [CComBSTR2.mergeString, if_neg (by omega)]
  dsimp only
  rw [Nat.min_eq_left (by omega), List.take_left, List.take_length, h,
    List.drop_length_add_append, List.drop_left]

/-- INTERNAL: `wmemmove_s` of a text into room that the buffer has. -/
theorem wmemmoveS_append {pre moved post : Bstr} {dest destSize count : ℤ} {place : ℕ}
    (hdest : dest = place) (hcount : count = moved.length) (hsize : count ≤ destSize)
    (hroom : place + moved.length ≤ (pre ++ (moved ++ post)).length) :
    CComBSTR2.wmemmoveS dest destSize pre.length count (pre ++ (moved ++ post)) =
      .ok ((pre ++ (moved ++ post)).take place ++
        (moved ++ (pre ++ (moved ++ post)).drop (place + moved.length))) := by
  subst hdest hcount
  rw [CComBSTR2.wmemmoveS]
  split
  · rename_i hzero
    obtain rfl : moved = [] := List.length_eq_zero_iff.mp (by omega)
    rw [List.length_nil, Nat.add_zero]
    exact congrArg Except.ok (List.take_append_drop place _).symm
  · have hlength : (pre ++ (moved ++ post)).length =
        pre.length + (moved.length + post.length) := by
      rw [List.length_append, List.length_append]
    rw [if_pos ⟨by omega, .inr hsize, by omega, by omega, by omega, by omega⟩, Int.toNat_natCast,
      Int.toNat_natCast, Int.toNat_natCast, ← Int.natCast_add, Int.toNat_natCast, List.drop_left,
      List.take_left]

/-- INTERNAL: the text behind a token is moved to its new place. -/
theorem moveBehind_append {pre behind tail : Bstr} {oldLen : ℤ}
    (hold : oldLen = pre.length + find.length + behind.length)
    (hroom : find.length < replacement.length →
      newLen = pre.length + find.length + behind.length + tail.length ∧
        replacement.length ≤ find.length + tail.length) :
    CComBSTR2.moveBehind (replacement.length - find.length) newLen oldLen
        (pre.length + find.length) (pre ++ (find ++ (behind ++ tail))) =
      .ok (pre ++ ((find ++ (behind ++ tail)).take replacement.length ++
        (behind ++ (find ++ (behind ++ tail)).drop (replacement.length + behind.length)))) := by
  have hshape : (pre ++ (find ++ (behind ++ tail))).take (pre.length + replacement.length) ++
      (behind ++ (pre ++ (find ++ (behind ++ tail))).drop
        (pre.length + replacement.length + behind.length)) =
      pre ++ ((find ++ (behind ++ tail)).take replacement.length ++
        (behind ++ (find ++ (behind ++ tail)).drop (replacement.length + behind.length))) := by
    rw [List.take_length_add_append, Nat.add_assoc, List.drop_length_add_append, List.append_assoc]
  have hlength : (pre ++ (find ++ (behind ++ tail))).length =
      pre.length + find.length + (behind.length + tail.length) := by
    simp only [List.length_append]
    omega
  rw [← hshape, ← List.append_assoc pre find, CComBSTR2.moveBehind, ← Int.natCast_add,
    ← List.length_append]
  split
  · refine wmemmoveS_append ?_ ?_ ?_ ?_
    · rw [List.length_append]
      push_cast
      ring
    · rw [hold, List.length_append]
      push_cast
      ring
    · split
      · exact le_refl _
      · rename_i hlonger hgrows
        have := hroom (by omega)
        rw [List.length_append]
        omega
    · rw [← List.append_assoc pre find] at hlength
      rw [hlength]
      by_cases hgrows : find.length < replacement.length
      · have := hroom hgrows
        omega
      · omega
  · have hplace : pre.length + replacement.length = (pre ++ find).length := by
      rw [List.length_append]
      omega
    rw [hplace, List.take_left, ← List.drop_drop, List.drop_left, List.drop_left]

/-- INTERNAL: one round of the loop: the first token of the text is replaced, the text behind it
stands behind the replacement, and the buffer keeps its length. -/
theorem replaceLoop_step (hne : find ≠ []) (hnul : (0 : UInt16) ∉ find)
    {out rest tail before behind : Bstr} (h : cut find rest = some (before, behind))
    (hroom : find.length < replacement.length →
      newLen = (out ++ (rest ++ tail)).length ∧ replacement.length ≤ find.length + tail.length)
    (fuel : ℕ) :
    CComBSTR2.replaceLoop .ordinal find replacement false (replacement.length - find.length) newLen
        (fuel + 1) (out.length + rest.length : ℕ) out.length (out ++ (rest ++ tail)) =
      CComBSTR2.replaceLoop .ordinal find replacement false (replacement.length - find.length)
        newLen fuel ((out ++ before ++ replacement).length + behind.length : ℕ)
        (out ++ before ++ replacement).length
        ((out ++ before ++ replacement) ++ (behind ++
          (find ++ (behind ++ tail)).drop (replacement.length + behind.length))) := by
  rw [CComBSTR2.replaceLoop, indexOf_append hne hnul, cut_append h tail, Option.map_some]
  dsimp only
  have hrest := congrArg List.length (eq_of_cut h)
  simp only [List.length_append] at hrest
  have hbuffer : out ++ (rest ++ tail) = (out ++ before) ++ (find ++ (behind ++ tail)) := by
    rw [eq_of_cut h]
    simp only [List.append_assoc]
  have hplace : out.length + before.length = (out ++ before).length := List.length_append.symm
  have hmoved := @moveBehind_append find replacement newLen (out ++ before) behind tail
    (out.length + rest.length : ℕ) (by rw [← hplace]; omega) fun hlonger => by
      obtain ⟨hnew, htail⟩ := hroom hlonger
      rw [hbuffer] at hnew
      simp only [List.length_append] at hnew ⊢
      exact ⟨by omega, htail⟩
  rw [hbuffer, hplace, hmoved, Run.ok_bind]
  -- and the replacement overwrites what stands in its place
  have hold : ((find ++ (behind ++ tail)).take replacement.length).length =
      replacement.length := by
    rw [List.length_take, Nat.min_eq_left]
    simp only [List.length_append]
    by_cases hlonger : find.length < replacement.length
    · have := hroom hlonger
      omega
    · omega
  have hlen : ((out.length + rest.length : ℕ) + (replacement.length - find.length) : ℤ) =
      ((out ++ before ++ replacement).length + behind.length : ℕ) := by
    simp only [List.length_append]
    omega
  have hend : (out ++ before ++ replacement).length =
      (out ++ before).length + replacement.length := List.length_append
  rw [hlen, hend]
  split
  · rw [mergeString_append _ _ _ _ hold.symm, List.append_assoc (out ++ before)]
  · rename_i hempty
    obtain rfl : replacement = [] := List.length_eq_zero_iff.mp (by omega)
    simp only [List.length_nil, List.take_zero, List.nil_append, List.append_nil, Nat.add_zero]

/-- INTERNAL: the loop on a text that does not shrink, in a buffer with room for the result. -/
theorem replaceLoop_grows (hne : find ≠ []) (hnul : (0 : UInt16) ∉ find)
    (hdiff : find.length ≤ replacement.length) (rest out tail : Bstr) (fuel : ℕ)
    (hfuel : tokenNumber find rest < fuel)
    (htail : tail.length + tokenNumber find rest * find.length =
      tokenNumber find rest * replacement.length)
    (hnew : find.length < replacement.length → newLen = (out ++ (rest ++ tail)).length) :
    CComBSTR2.replaceLoop .ordinal find replacement false (replacement.length - find.length) newLen
        fuel (out.length + rest.length : ℕ) out.length (out ++ (rest ++ tail)) =
      .ok (out ++ replaceAll find replacement rest) := by
  induction rest using token_induction hne generalizing out tail fuel with
  | done rest h =>
    rw [tokenNumber_of_cut_none h, Nat.zero_mul, Nat.zero_mul] at htail
    obtain rfl : tail = [] := List.length_eq_zero_iff.mp htail
    obtain ⟨fuel, rfl⟩ := Nat.exists_eq_succ_of_ne_zero (Nat.ne_zero_of_lt hfuel)
    rw [List.append_nil, CComBSTR2.replaceLoop, indexOf_append hne hnul, h,
      replaceAll_of_cut_none replacement h]
    rfl
  | step rest before behind h ih =>
    obtain ⟨fuel, rfl⟩ := Nat.exists_eq_succ_of_ne_zero (Nat.ne_zero_of_lt hfuel)
    have hrest := congrArg List.length (eq_of_cut h)
    rw [tokenNumber_of_cut hne h, Nat.add_mul, Nat.add_mul, Nat.one_mul, Nat.one_mul] at htail
    rw [tokenNumber_of_cut hne h] at hfuel
    -- the tokens that remain need no more room than the tail has
    have hmany : tokenNumber find behind * find.length ≤
        tokenNumber find behind * replacement.length := Nat.mul_le_mul_left _ hdiff
    rw [replaceLoop_step hne hnul h (fun hlonger => ⟨hnew hlonger, by omega⟩),
      ih _ _ fuel (by omega), replaceAll_of_cut replacement hne h]
    · simp only [List.append_assoc]
    · simp only [List.length_drop, List.length_append]
      omega
    · intro hlonger
      rw [hnew hlonger]
      simp only [List.length_drop, List.length_append] at hrest ⊢
      omega

/-- INTERNAL: the same characters are left over by every token. -/
theorem leftOver_behindTokens (hne : find ≠ []) (replacement rest : Bstr) :
    leftOver find replacement rest = leftOver find replacement (behindTokens find rest) := by
  induction rest using token_induction hne with
  | done rest h => rw [behindTokens_of_cut_none h]
  | step rest before behind h ih =>
    rw [behindTokens_of_cut hne h, ← ih, leftOver, leftOver]
    have hrest := congrArg List.length (eq_of_cut h)
    simp only [List.length_append] at hrest
    have hplace : replacement.length + rest.length =
        (find ++ before).length + (replacement.length + behind.length) := by
      rw [List.length_append]
      omega
    rw [hplace, ← List.drop_drop]
    conv_lhs => rw [eq_of_cut h, List.append_assoc, ← List.append_assoc find, List.drop_left]

/-- INTERNAL: the loop on a text that shrinks: it ends when the token does not occur in what
stands behind the last token, and otherwise moves what is not there. -/
theorem replaceLoop_shrinks (hne : find ≠ []) (hnul : (0 : UInt16) ∉ find)
    (hdiff : replacement.length < find.length) (rest out tail : Bstr) (fuel : ℕ) :
    (¬ find <:+: behindTokens find rest ++ ((List.replicate (tokenNumber find rest)
        (leftOver find replacement (behindTokens find rest))).flatten ++ tail) →
      tokenNumber find rest < fuel →
      CComBSTR2.replaceLoop .ordinal find replacement false (replacement.length - find.length)
          newLen fuel (out.length + rest.length : ℕ) out.length (out ++ (rest ++ tail)) =
        .ok (out ++ (replaceAll find replacement rest ++
          ((List.replicate (tokenNumber find rest)
            (leftOver find replacement (behindTokens find rest))).flatten ++ tail)))) ∧
    (find <:+: behindTokens find rest ++ ((List.replicate (tokenNumber find rest)
        (leftOver find replacement (behindTokens find rest))).flatten ++ tail) →
      ∃ e, CComBSTR2.replaceLoop .ordinal find replacement false
        (replacement.length - find.length) newLen fuel (out.length + rest.length : ℕ) out.length
          (out ++ (rest ++ tail)) = .error e) := by
  induction rest using token_induction hne generalizing out tail fuel with
  | done rest h =>
    rw [tokenNumber_of_cut_none h, behindTokens_of_cut_none h, replaceAll_of_cut_none _ h,
      List.replicate_zero, List.flatten_nil, List.nil_append]
    cases fuel with
    | zero => exact ⟨fun _ hfuel => absurd hfuel (Nat.lt_irrefl 0), fun _ => ⟨_, rfl⟩⟩
    | succ fuel =>
      rw [CComBSTR2.replaceLoop, indexOf_append hne hnul]
      constructor
      · intro hnone _
        rw [(cut_eq_none_iff hne).mpr hnone]
        rfl
      · intro hoccurs
        cases hcut : cut find (rest ++ tail) with
        | none => exact absurd hoccurs ((cut_eq_none_iff hne).mp hcut)
        | some p =>
          -- the token ends behind the text
          have hend : rest.length < p.1.length + find.length := by
            by_contra hinside
            refine (cut_eq_none_iff hne).mp h ⟨p.1, rest.drop (p.1.length + find.length), ?_⟩
            have htake := congrArg (List.take (p.1.length + find.length)) (eq_of_cut hcut)
            rw [List.take_append_of_le_length (by omega), List.take_left'
              (by rw [List.length_append])] at htake
            rw [← htake, List.take_append_drop]
          refine ⟨.fault, ?_⟩
          rw [Option.map_some]
          dsimp only
          rw [CComBSTR2.moveBehind, if_pos (by omega), CComBSTR2.wmemmoveS, if_neg (by omega),
            if_neg (by omega), Run.error_bind]
  | step rest before behind h ih =>
    rw [tokenNumber_of_cut hne h, behindTokens_of_cut hne h, replaceAll_of_cut _ hne h]
    cases fuel with
    | zero => exact ⟨fun _ hfuel => absurd hfuel (Nat.not_lt_zero _), fun _ => ⟨_, rfl⟩⟩
    | succ fuel =>
      have htail : (find ++ (behind ++ tail)).drop (replacement.length + behind.length) =
          leftOver find replacement (behindTokens find behind) ++ tail := by
        rw [← leftOver_behindTokens hne, leftOver, ← List.append_assoc,
          List.drop_append_of_le_length]
        rw [List.length_append]
        omega
      have hmany : (List.replicate (tokenNumber find behind + 1)
            (leftOver find replacement (behindTokens find behind))).flatten ++ tail =
          (List.replicate (tokenNumber find behind)
            (leftOver find replacement (behindTokens find behind))).flatten ++
              (leftOver find replacement (behindTokens find behind) ++ tail) := by
        rw [List.replicate_succ', List.flatten_append, List.flatten_singleton, List.append_assoc]
      rw [replaceLoop_step hne hnul h (fun hlonger => absurd hlonger (by omega)), htail, hmany]
      obtain ⟨hok, herror⟩ := ih (out ++ before ++ replacement)
        (leftOver find replacement (behindTokens find behind) ++ tail) fuel
      refine ⟨fun hnone hfuel => ?_, herror⟩
      rw [hok hnone (by omega)]
      simp only [List.append_assoc]

/-- INTERNAL: nothing changes the length of the buffer. -/
theorem length_wmemmoveS {dest destSize src count : ℤ} {m_str moved : Bstr}
    (h : CComBSTR2.wmemmoveS dest destSize src count m_str = .ok moved) :
    moved.length = m_str.length := by
  rw [CComBSTR2.wmemmoveS] at h
  split at h
  · obtain rfl := Except.ok.inj h
    rfl
  · split at h
    · rename_i hrange
      obtain rfl := Except.ok.inj h
      simp only [List.length_append, List.length_take, List.length_drop]
      omega
    · cases h

/-- INTERNAL: nor does a merged text. -/
theorem length_mergeString (x : ℕ) (value m_str : Bstr) :
    (CComBSTR2.mergeString x value m_str).length = m_str.length := by
  rw [CComBSTR2.mergeString]
  split
  · rfl
  · simp only [List.length_append, List.length_take, List.length_drop]
    omega

/-- INTERNAL: nor the loop. -/
theorem length_replaceLoop {loc : Collation} {caseInsensitive : Bool} {lengthDiff : ℤ}
    {fuel x : ℕ} {oldLen : ℤ} {m_str out : Bstr}
    (h : CComBSTR2.replaceLoop loc find replacement caseInsensitive lengthDiff newLen fuel oldLen x
      m_str = .ok out) : out.length = m_str.length := by
  induction fuel generalizing oldLen x m_str with
  | zero => cases h
  | succ fuel ih =>
    rw [CComBSTR2.replaceLoop] at h
    split at h
    · obtain rfl := Except.ok.inj h
      rfl
    · obtain ⟨moved, hmoved, h⟩ := Run.bind_eq_ok h
      have hlength : moved.length = m_str.length := by
        rw [CComBSTR2.moveBehind] at hmoved
        split at hmoved
        · exact length_wmemmoveS hmoved
        · obtain rfl := Except.ok.inj hmoved
          rfl
      split at h
      · rw [ih h, length_mergeString, hlength]
      · rw [ih h, hlength]

end Loop

/-! ## The theorem -/

section Theorem

variable {memory : ℕ → UInt16} {s find replacement : Bstr}

/-- INTERNAL: a length that a `BSTR` can have. -/
theorem setLength_of_lt (memory : ℕ → UInt16) {length : ℕ} (h : length < 2 ^ 31) (s : Bstr) :
    CComBSTR2.setLength memory length s =
      (.sOk, s.take length ++ (List.range (length - s.length)).map memory) := if_pos h

/-- INTERNAL: without tokens nothing is done. -/
theorem replace_none {fuel : ℕ} (h : CComBSTR2.tokenCount .ordinal fuel s find false = .ok 0) :
    CComBSTR2.replace .ordinal memory fuel (some s) (some find) (some replacement) false =
      .ok (.sOk, some s) := by
  rw [CComBSTR2.replace, h, Run.ok_bind, if_pos rfl]

/-- INTERNAL: the tokens are replaced when the result fits and the loop finds no more. -/
theorem replaceTokens_eq (hne : find ≠ []) (hnul : (0 : UInt16) ∉ find)
    (hfits : FitsBstr (replaceAll find replacement s))
    (hbehind : replacement.length < find.length →
      ¬ find <:+: behindTokens find s ++ (List.replicate (tokenNumber find s)
        (leftOver find replacement (behindTokens find s))).flatten)
    {fuel : ℕ} (hfuel : tokenNumber find s < fuel) :
    CComBSTR2.replaceTokens .ordinal memory fuel s find replacement false (tokenNumber find s) =
      .ok (.sOk, replaceAll find replacement s) := by
  have hlength := length_replaceAll replacement hne s
  have hint : (s.length + tokenNumber find s * (replacement.length - find.length) : ℤ) =
      ((replaceAll find replacement s).length : ℕ) := by
    have hcast : ((replaceAll find replacement s).length : ℤ) +
        tokenNumber find s * find.length = s.length + tokenNumber find s * replacement.length := by
      exact_mod_cast hlength
    rw [mul_sub]
    omega
  have hnewLen : (BitVec.ofInt 32
      (s.length + tokenNumber find s * (replacement.length - find.length))).toNat =
        (replaceAll find replacement s).length := by
    rw [hint, BitVec.ofInt_natCast, BitVec.toNat_ofNat, Nat.mod_eq_of_lt]
    exact Nat.lt_of_lt_of_le hfits (by decide)
  have hnewInt : (BitVec.ofInt 32
      (s.length + tokenNumber find s * (replacement.length - find.length))).toInt =
        (replaceAll find replacement s).length := by
    rw [BitVec.toInt_eq_toNat_of_lt, hnewLen]
    rw [hnewLen]
    exact Nat.mul_lt_mul_of_pos_left hfits Nat.two_pos
  have hdone : ∀ b : Bstr, ¬ (HResult.sOk, b).1.failed = true := fun _ => Bool.false_ne_true
  rcases Nat.lt_trichotomy find.length replacement.length with hgrows | hsame | hshrinks
  · have hpos : (0 : ℤ) < replacement.length - find.length := by omega
    have hmany : tokenNumber find s * find.length ≤ tokenNumber find s * replacement.length :=
      Nat.mul_le_mul_left _ (le_of_lt hgrows)
    have hroom : CComBSTR2.setLength memory (replaceAll find replacement s).length s =
        (.sOk, s ++ (List.range ((replaceAll find replacement s).length - s.length)).map
          memory) := by
      rw [setLength_of_lt memory hfits, List.take_of_length_le (by omega)]
    have hloop := @replaceLoop_grows find replacement (replaceAll find replacement s).length hne
      hnul (le_of_lt hgrows) s []
      ((List.range ((replaceAll find replacement s).length - s.length)).map memory) fuel hfuel
      (by rw [List.length_map, List.length_range]; omega)
      (fun _ => by simp only [List.nil_append, List.length_append, List.length_map,
        List.length_range]; omega)
    rw [List.length_nil, Nat.zero_add, List.nil_append, List.nil_append] at hloop
    rw [CComBSTR2.replaceTokens]
    rw [if_pos hpos, hnewLen, hroom, hnewInt, if_neg (hdone _), hloop, Run.ok_bind,
      if_neg (by omega)]
  · have hloop := @replaceLoop_grows find replacement (BitVec.ofInt 32
      (s.length + tokenNumber find s * (replacement.length - find.length))).toInt hne
      hnul (le_of_eq hsame) s [] [] fuel hfuel (by rw [hsame, List.length_nil, Nat.zero_add])
      (fun hgrows => absurd hgrows (by omega))
    rw [List.length_nil, Nat.zero_add, List.nil_append, List.nil_append, List.append_nil] at hloop
    rw [CComBSTR2.replaceTokens]
    have hpos : ¬ (0 : ℤ) < replacement.length - find.length := by omega
    rw [if_neg hpos, if_neg (hdone _), hloop, Run.ok_bind, if_neg (by omega)]
  · have hneg : (replacement.length - find.length : ℤ) < 0 := by omega
    obtain ⟨hloop, -⟩ := @replaceLoop_shrinks find replacement (BitVec.ofInt 32
      (s.length + tokenNumber find s * (replacement.length - find.length))).toInt hne
      hnul hshrinks s [] [] fuel
    rw [List.length_nil, Nat.zero_add, List.nil_append, List.nil_append, List.append_nil,
      List.append_nil] at hloop
    rw [CComBSTR2.replaceTokens]
    have hpos : ¬ (0 : ℤ) < replacement.length - find.length := by omega
    rw [if_neg hpos, if_neg (hdone _), hloop (hbehind hshrinks) hfuel, Run.ok_bind,
      if_pos hneg, hnewLen, setLength_of_lt memory hfits, List.take_left,
      Nat.sub_eq_zero_of_le (by rw [List.length_append]; omega), List.range_zero, List.map_nil,
      List.append_nil]

/-- INTERNAL: otherwise they are not. -/
theorem fits_of_replaceTokens (hne : find ≠ []) (hnul : (0 : UInt16) ∉ find) (hs : FitsBstr s)
    {fuel : ℕ} (h : CComBSTR2.replaceTokens .ordinal memory fuel s find replacement false
      (tokenNumber find s) = .ok (.sOk, replaceAll find replacement s)) :
    FitsBstr (replaceAll find replacement s) ∧ (replacement.length < find.length →
      ¬ find <:+: behindTokens find s ++ (List.replicate (tokenNumber find s)
        (leftOver find replacement (behindTokens find s))).flatten) := by
  have hlength := length_replaceAll replacement hne s
  rw [CComBSTR2.replaceTokens] at h
  by_cases hgrows : find.length < replacement.length
  · refine ⟨?_, fun hshrinks => absurd hshrinks (by omega)⟩
    rw [if_pos (by omega : (0 : ℤ) < replacement.length - find.length)] at h
    split at h
    · rename_i hfailed
      rw [Except.ok.inj h] at hfailed
      cases hfailed
    · rename_i hfailed
      obtain ⟨out, hout, h⟩ := Run.bind_eq_ok h
      have hkept := length_replaceLoop hout
      rw [if_neg (by omega)] at h
      obtain rfl := (Prod.mk.inj (Except.ok.inj h)).2
      rw [FitsBstr, hkept, CComBSTR2.setLength]
      rw [CComBSTR2.setLength] at hfailed
      split
      · rename_i hlt
        simp only [List.length_append, List.length_take, List.length_map, List.length_range]
        omega
      · exact hs
  · have hmany : tokenNumber find s * replacement.length ≤ tokenNumber find s * find.length :=
      Nat.mul_le_mul_left _ (Nat.le_of_not_lt hgrows)
    refine ⟨Nat.lt_of_le_of_lt (by omega) hs, fun hshrinks hoccurs => ?_⟩
    have hpos : ¬ (0 : ℤ) < replacement.length - find.length := by omega
    rw [if_neg hpos, if_neg (show ¬ (HResult.sOk, s).1.failed = true from Bool.false_ne_true)] at h
    obtain ⟨out, hout, -⟩ := Run.bind_eq_ok h
    obtain ⟨-, herror⟩ := @replaceLoop_shrinks find replacement (BitVec.ofInt 32
      (s.length + tokenNumber find s * (replacement.length - find.length))).toInt hne
      hnul hshrinks s [] [] fuel
    rw [List.length_nil, Nat.zero_add, List.nil_append, List.append_nil, List.append_nil] at herror
    obtain ⟨e, he⟩ := herror hoccurs
    rw [he] at hout
    cases hout

/-- INTERNAL: a token that ends early at a NUL is not found. -/
theorem tokenCount_nul (hnone : CComBSTR2.zeroTerminated find = [] ∨
    ¬ CComBSTR2.zeroTerminated find <:+: s) :
    CComBSTR2.tokenCount .ordinal 1 s find false = .ok 0 := by
  have hindex : CComBSTR2.indexOf .ordinal s find 0 false = none := by
    rcases hnone with hempty | hnone
    · rw [CComBSTR2.indexOf, hempty]
      exact if_neg fun h => absurd h.2 (Nat.lt_irrefl 0)
    · have hshort : (0 : UInt16) ∉ CComBSTR2.zeroTerminated find := fun hmem =>
        absurd (List.mem_takeWhile_imp hmem) (by decide)
      have hne : CComBSTR2.zeroTerminated find ≠ [] := by
        rintro hempty
        rw [hempty] at hnone
        exact hnone (List.nil_infix)
      have h := indexOf_append hne hshort [] s
      rw [(cut_eq_none_iff hne).mpr hnone] at h
      rw [CComBSTR2.indexOf] at h ⊢
      rwa [zeroTerminated_eq hshort] at h
  rw [CComBSTR2.tokenCount]
  split
  · rw [CComBSTR2.tokenCountLoop, hindex]
  · rfl

/-- INTERNAL: a text with a token that is not longer is the token. -/
theorem eq_of_occurs (h : find <:+: s) (hlength : s.length ≤ find.length) : s = find :=
  (h.eq_of_length (le_antisymm h.length_le hlength)).symm

/-- INTERNAL: a token is found at its own beginning. -/
theorem cut_self (hne : find ≠ []) : cut find find = some ([], []) := by
  cases find with
  | nil => exact absurd rfl hne
  | cons c find => rw [cut, if_pos (List.prefix_refl _), List.drop_length]

/-- INTERNAL: the whole text is one token. -/
theorem replaceAll_self (hne : find ≠ []) : replaceAll find replacement find = replacement := by
  rw [replaceAll_of_cut replacement hne (cut_self hne), replaceAll_of_cut_none replacement rfl,
    List.nil_append, List.append_nil]

/-- INTERNAL: `TokenCount` finds the tokens, but not one that is the whole text. -/
theorem tokenCount_cases (hne : find ≠ []) (hnul : (0 : UInt16) ∉ find) (s : Bstr) :
    (cut find s = none ∨ s = find) ∧
        CComBSTR2.tokenCount .ordinal 1 s find false = .ok 0 ∧
        (∀ fuel n, CComBSTR2.tokenCount .ordinal fuel s find false = .ok n → n = 0) ∨
      find.length < s.length ∧ 0 < tokenNumber find s := by
  by_cases hlong : find.length < s.length
  · cases hcut : cut find s with
    | none =>
      refine .inl ⟨.inl rfl, ?_, fun fuel n hn => ?_⟩
      · rw [tokenCount_eq hne hnul hlong, tokenNumber_of_cut_none hcut, if_pos Nat.one_pos]
      · rw [tokenCount_eq hne hnul hlong, tokenNumber_of_cut_none hcut] at hn
        split at hn
        · exact (Except.ok.inj hn).symm
        · cases hn
    | some p =>
      rw [tokenNumber_of_cut hne hcut]
      exact .inr ⟨hlong, Nat.succ_pos _⟩
  · have hzero : ∀ fuel, CComBSTR2.tokenCount .ordinal fuel s find false = .ok 0 := by
      intro fuel
      rw [CComBSTR2.tokenCount, zeroTerminated_eq hnul, if_neg hlong]
    refine .inl ⟨?_, hzero 1, fun fuel n hn => ?_⟩
    · by_cases hoccurs : find <:+: s
      · exact .inr (eq_of_occurs hoccurs (Nat.le_of_not_lt hlong))
      · exact .inl ((cut_eq_none_iff hne).mpr hoccurs)
    · rw [hzero fuel] at hn
      exact (Except.ok.inj hn).symm

/-- INTERNAL: the result that a run with tokens has. -/
theorem replace_ok_iff (hne : find ≠ []) (hnul : (0 : UInt16) ∉ find)
    (hlong : find.length < s.length) (hmany : 0 < tokenNumber find s) (fuel : ℕ) (out : Bstr) :
    CComBSTR2.replace .ordinal memory fuel (some s) (some find) (some replacement) false =
        .ok (.sOk, some out) ↔
      tokenNumber find s < fuel ∧ CComBSTR2.replaceTokens .ordinal memory fuel s find replacement
        false (tokenNumber find s) = .ok (.sOk, out) := by
  rw [CComBSTR2.replace, tokenCount_eq hne hnul hlong]
  by_cases hfuel : tokenNumber find s < fuel
  · rw [if_pos hfuel, Run.ok_bind, if_neg (Nat.ne_of_gt hmany), and_iff_right hfuel]
    constructor
    · intro h
      obtain ⟨⟨hr, result⟩, hresult, h⟩ := Run.bind_eq_ok h
      obtain ⟨rfl, hout⟩ := Prod.mk.inj (Except.ok.inj h)
      obtain rfl := Option.some.inj hout
      exact hresult
    · intro h
      rw [h]
      rfl
  · rw [if_neg hfuel]
    exact ⟨fun h => (by cases h), fun h => absurd h.1 hfuel⟩

/-- INTERNAL: the condition of a text without tokens. -/
theorem replacesWell_of_cut_none (hne : find ≠ []) (hnul : (0 : UInt16) ∉ find) (hs : FitsBstr s)
    (hcut : cut find s = none) : ReplacesWell s find replacement where
  whole hself := by
    rw [hself, cut_self hne] at hcut
    cases hcut
  fits := by
    rw [replaceAll_of_cut_none _ hcut]
    exact hs
  behind _ := by
    rw [tokenNumber_of_cut_none hcut, behindTokens_of_cut_none hcut, List.replicate_zero,
      List.flatten_nil, List.append_nil]
    exact (cut_eq_none_iff hne).mp hcut
  noNul hmem := absurd hmem hnul

/-- **`Replace` is the reference replacement under the condition, and for a token without NUL under
no other**: for every text, every token and every replacement. -/
theorem replacesAll_of_well (hne : find ≠ []) (hs : FitsBstr s) :
    (ReplacesWell s find replacement → ReplacesAll memory s find replacement) ∧
      ((0 : UInt16) ∉ find → ReplacesAll memory s find replacement →
        ReplacesWell s find replacement) := by
  constructor
  · intro h
    by_cases hnul : (0 : UInt16) ∈ find
    · obtain ⟨hnone, hshort⟩ := h.noNul hnul
      refine ⟨1, ?_⟩
      rw [replace_none (tokenCount_nul hshort),
        replaceAll_of_cut_none _ ((cut_eq_none_iff hne).mpr hnone)]
    · rcases tokenCount_cases hne hnul s with ⟨hcut, hzero, -⟩ | ⟨hlong, hmany⟩
      · refine ⟨1, ?_⟩
        rw [replace_none hzero]
        rcases hcut with hcut | rfl
        · rw [replaceAll_of_cut_none _ hcut]
        · rw [replaceAll_self hne, h.whole rfl]
      · exact ⟨tokenNumber find s + 1, (replace_ok_iff hne hnul hlong hmany _ _).mpr
          ⟨Nat.lt_succ_self _, replaceTokens_eq hne hnul h.fits h.behind (Nat.lt_succ_self _)⟩⟩
  · rintro hnul ⟨fuel, hrun⟩
    rcases tokenCount_cases hne hnul s with ⟨hcut, -, hzero⟩ | ⟨hlong, hmany⟩
    · rcases hcut with hcut | rfl
      · exact replacesWell_of_cut_none hne hnul hs hcut
      · -- the token is the whole text, which stays as it is
        obtain ⟨n, hn, -⟩ := Run.bind_eq_ok hrun
        obtain rfl := hzero fuel n hn
        rw [replace_none hn, replaceAll_self hne] at hrun
        obtain rfl := Option.some.inj (Prod.mk.inj (Except.ok.inj hrun)).2
        refine ⟨fun _ => rfl, ?_, fun hshrinks => absurd hshrinks (Nat.lt_irrefl _),
          fun hmem => absurd hmem hnul⟩
        rw [replaceAll_self hne]
        exact hs
    · obtain ⟨-, htokens⟩ := (replace_ok_iff hne hnul hlong hmany _ _).mp hrun
      obtain ⟨hfits, hbehind⟩ := fits_of_replaceTokens hne hnul hs htokens
      exact ⟨fun hself => absurd hlong (by rw [hself]; exact Nat.lt_irrefl _), hfits, hbehind,
        fun hmem => absurd hmem hnul⟩

end Theorem

/-- Two dashes in the middle of a text become one. -/
theorem dashes_replacesAll : ReplacesAll (fun _ => 0) (Bstr.ofString "a--bc") (Bstr.ofString "--")
    (Bstr.ofString "-") := by
  refine (replacesAll_of_well (by decide) (by unfold FitsBstr; decide)).1
    ⟨by decide, by unfold FitsBstr; decide, fun _ => by decide +kernel, by decide⟩

/-- **A token at the end that is removed is found again behind the text.** -/
theorem lastToken_not_replacesAll : ¬ ReplacesAll (fun _ => 0) (Bstr.ofString "ab")
    (Bstr.ofString "b") [] := by
  rintro ⟨fuel, h⟩
  rcases fuel with _ | _ | fuel
  · cases h
  · cases h
  · cases h

end IspSession.Analysis
