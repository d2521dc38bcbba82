import Mathlib.Data.List.Basic
import Mathlib.Data.List.Infix

/-!
# Replacing a token in a text

`cut` finds the first occurrence of a token in a list. `pieces` are the parts of a list between
the occurrences, from left to right and without overlaps, and `replaceAll` joins them with
another list. `token_induction` follows the occurrences.
-/

set_option autoImplicit false

namespace IspSession.Library

variable {α : Type} [DecidableEq α] {token s t before behind : List α}

/-- The text before the first occurrence of a token, and the text behind it. -/
def cut (token : List α) : List α → Option (List α × List α)
  | [] => none
  | c :: s =>
    if token <+: c :: s then some ([], (c :: s).drop token.length)
    else (cut token s).map fun p => (c :: p.1, p.2)

/-- The text is the token between both parts. -/
theorem eq_of_cut (h : cut token s = some (before, behind)) : s = before ++ token ++ behind := by
  induction s generalizing before with
  | nil => cases h
  | cons c s ih =>
    rw [cut] at h
    split at h
    · rename_i hbegins
      obtain ⟨rfl, rfl⟩ := Prod.mk.inj (Option.some.inj h)
      obtain ⟨rest, hrest⟩ := hbegins
      rw [← hrest, List.drop_left, List.nil_append]
    · obtain ⟨p, hp, hparts⟩ := Option.map_eq_some_iff.mp h
      obtain ⟨rfl, rfl⟩ := Prod.mk.inj hparts
      rw [List.cons_append, List.cons_append, ← ih hp]

/-- It occurs nowhere before. -/
theorem not_prefix_of_cut (h : cut token s = some (before, behind)) :
    ∀ i < before.length, ¬ token <+: s.drop i := by
  induction s generalizing before with
  | nil => cases h
  | cons c s ih =>
    rw [cut] at h
    split at h
    · obtain ⟨rfl, -⟩ := Prod.mk.inj (Option.some.inj h)
      exact fun i hi => absurd hi (Nat.not_lt_zero i)
    · rename_i hbegins
      obtain ⟨p, hp, hparts⟩ := Option.map_eq_some_iff.mp h
      obtain ⟨rfl, rfl⟩ := Prod.mk.inj hparts
      intro i hi
      cases i with
      | zero => exact hbegins
      | succ i => exact ih hp i (Nat.lt_of_succ_lt_succ hi)

/-- It does not stand in the text before. -/
theorem not_infix_of_cut (hne : token ≠ []) (h : cut token s = some (before, behind)) :
    ¬ token <:+: before := by
  rintro ⟨a, b, rfl⟩
  have hpos := List.length_pos_iff.mpr hne
  refine not_prefix_of_cut h a.length ?_ ⟨b ++ token ++ behind, ?_⟩
  · simp only [List.length_append]
    omega
  · rw [eq_of_cut h]
    simp only [List.append_assoc]
    rw [List.drop_left]

omit [DecidableEq α] in
/-- Another character parts the places where it can be. -/
theorem infix_append_cons {c : α} {a b : List α} (hc : c ∉ token) (h : token <:+: a ++ c :: b) :
    token <:+: a ∨ token <:+: b := by
  obtain ⟨x, y, hxy⟩ := h
  rcases List.append_eq_append_iff.mp hxy with ⟨w, ha, -⟩ | ⟨w, hw, hb⟩
  · exact .inl ⟨x, w, ha.symm⟩
  · cases w with
    | nil => exact .inl ⟨x, [], by rw [List.append_nil]; rwa [List.append_nil] at hw⟩
    | cons d w =>
      obtain ⟨rfl, rfl⟩ := List.cons.inj (hb : c :: b = d :: (w ++ y))
      rcases List.append_eq_append_iff.mp hw with ⟨z, -, hz⟩ | ⟨z, -, hz⟩
      · exact absurd (hz ▸ List.mem_append_right z List.mem_cons_self) hc
      · cases z with
        | nil =>
          rw [List.nil_append] at hz
          exact absurd (hz ▸ List.mem_cons_self) hc
        | cons e z =>
          obtain ⟨-, rfl⟩ := List.cons.inj (hz : c :: w = e :: (z ++ token))
          exact .inr ⟨z, y, rfl⟩

/-- A token that cannot be found occurs nowhere. -/
theorem not_prefix_of_cut_none (hne : token ≠ []) (h : cut token s = none) (i : ℕ) :
    ¬ token <+: s.drop i := by
  induction s generalizing i with
  | nil =>
    rw [List.drop_nil]
    exact fun hbegins => hne (List.prefix_nil.mp hbegins)
  | cons c s ih =>
    rw [cut] at h
    split at h
    · cases h
    · rename_i hbegins
      cases i with
      | zero => exact hbegins
      | succ i => exact ih (Option.map_eq_none_iff.mp h) i

/-- It can be found exactly when it occurs. -/
theorem cut_eq_none_iff (hne : token ≠ []) : cut token s = none ↔ ¬ token <:+: s := by
  constructor
  · rintro h ⟨before, behind, rfl⟩
    refine not_prefix_of_cut_none hne h before.length ⟨behind, ?_⟩
    rw [List.append_assoc, List.drop_left]
  · intro h
    cases hcut : cut token s with
    | none => rfl
    | some p => exact absurd ⟨p.1, p.2, (eq_of_cut hcut).symm⟩ h

/-- A place where the token is first is where the text is cut. -/
theorem cut_eq_some (hne : token ≠ [])
    (h : ∀ i < before.length, ¬ token <+: (before ++ token ++ behind).drop i) :
    cut token (before ++ token ++ behind) = some (before, behind) := by
  cases hcut : cut token (before ++ token ++ behind) with
  | none => exact absurd ⟨before, behind, rfl⟩ ((cut_eq_none_iff hne).mp hcut)
  | some p =>
    have hparts := eq_of_cut hcut
    have hsame : p.1.length = before.length := by
      rcases Nat.lt_trichotomy p.1.length before.length with hlt | heq | hgt
      · refine absurd ⟨p.2, ?_⟩ (h p.1.length hlt)
        rw [hparts, List.append_assoc, List.drop_left]
      · exact heq
      · refine absurd ⟨behind, ?_⟩ (not_prefix_of_cut hcut before.length hgt)
        rw [List.append_assoc, List.drop_left]
    rw [List.append_assoc, List.append_assoc] at hparts
    obtain ⟨hbefore, hrest⟩ := List.append_inj hparts hsame.symm
    rw [List.append_cancel_left hrest, hbefore]

/-- What stands behind the first token does not matter. -/
theorem cut_congr (hne : token ≠ []) (h : cut token s = some (before, behind)) (t : List α) :
    cut token (before ++ token ++ t) = some (before, t) := by
  refine cut_eq_some hne fun i hi hbegins => not_prefix_of_cut h i hi ?_
  have hle : i ≤ (before ++ token).length := by
    rw [List.length_append]
    omega
  rw [List.drop_append_of_le_length hle] at hbegins
  rw [eq_of_cut h, List.drop_append_of_le_length hle]
  refine (List.prefix_of_prefix_length_le hbegins (List.prefix_append _ t) ?_).trans
    (List.prefix_append _ behind)
  rw [List.length_drop, List.length_append]
  omega

/-- More text behind does not change where the token is first. -/
theorem cut_append (h : cut token s = some (before, behind)) (t : List α) :
    cut token (s ++ t) = some (before, behind ++ t) := by
  induction s generalizing before with
  | nil => cases h
  | cons c s ih =>
    have hs := eq_of_cut h
    rw [cut] at h
    rw [List.cons_append, cut]
    split at h
    · rename_i hbegins
      obtain ⟨rfl, rfl⟩ := Prod.mk.inj (Option.some.inj h)
      have hlonger : token <+: c :: (s ++ t) := hbegins.trans (List.prefix_append (c :: s) t)
      rw [if_pos hlonger, ← List.cons_append, List.drop_append_of_le_length hbegins.length_le]
    · rename_i hbegins
      obtain ⟨p, hp, hparts⟩ := Option.map_eq_some_iff.mp h
      obtain ⟨rfl, rfl⟩ := Prod.mk.inj hparts
      have hlong : token.length ≤ (c :: s).length := by
        rw [hs, List.length_append, List.length_append]
        omega
      rw [if_neg, ih hp, Option.map_some]
      rw [← List.cons_append]
      exact fun hlonger => hbegins (List.prefix_of_prefix_length_le hlonger
        (List.prefix_append (c :: s) t) hlong)

/-- The parts of a text between the tokens. Of a token that has begun, `skip` characters are still
to be left out. -/
def piecesFrom (token : List α) : ℕ → List α → List (List α)
  | _, [] => [[]]
  | skip + 1, _ :: s => piecesFrom token skip s
  | 0, c :: s =>
    if token <+: c :: s then [] :: piecesFrom token (token.length - 1) s
    else
      match piecesFrom token 0 s with
      | [] => []
      | piece :: pieces => (c :: piece) :: pieces

/-- The parts of a text between the leftmost tokens that do not overlap. -/
def pieces (token s : List α) : List (List α) := piecesFrom token 0 s

/-- How many these tokens are. -/
def tokenNumber (token s : List α) : ℕ := (pieces token s).length - 1

/-- The text behind the last of them. -/
def behindTokens (token s : List α) : List α := (pieces token s).getLastD []

/-- The text with another one in the place of each of them. -/
def replaceAll (token replacement s : List α) : List α := replacement.intercalate (pieces token s)

/-- A text that is skipped is dropped. -/
theorem piecesFrom_eq (skip : ℕ) (s : List α) :
    piecesFrom token skip s = pieces token (s.drop skip) := by
  induction skip generalizing s with
  | zero => rfl
  | succ skip ih =>
    cases s with
    | nil => rfl
    | cons c s => exact ih s

/-- There is always a part. -/
theorem pieces_ne_nil (token s : List α) : pieces token s ≠ [] := by
  induction s with
  | nil => exact List.cons_ne_nil [] []
  | cons c s ih =>
    rw [pieces, piecesFrom]
    split
    · exact List.cons_ne_nil _ _
    · split
      · rename_i hnil
        exact absurd hnil ih
      · exact List.cons_ne_nil _ _

/-- A text without a token is the one part. -/
theorem pieces_of_cut_none (h : cut token s = none) : pieces token s = [s] := by
  induction s with
  | nil => rfl
  | cons c s ih =>
    rw [cut] at h
    split at h
    · cases h
    · rename_i hbegins
      have hrest : piecesFrom token 0 s = [s] := ih (Option.map_eq_none_iff.mp h)
      rw [pieces, piecesFrom, if_neg hbegins, hrest]

/-- The first token is where the text is cut. -/
theorem pieces_of_cut (hne : token ≠ []) (h : cut token s = some (before, behind)) :
    pieces token s = before :: pieces token behind := by
  induction s generalizing before with
  | nil => cases h
  | cons c s ih =>
    rw [cut] at h
    rw [pieces, piecesFrom]
    split at h
    · rename_i hbegins
      obtain ⟨rfl, rfl⟩ := Prod.mk.inj (Option.some.inj h)
      have hpos := List.length_pos_iff.mpr hne
      rw [if_pos hbegins, piecesFrom_eq]
      conv_rhs => rw [← Nat.sub_add_cancel hpos, List.drop_succ_cons]
    · rename_i hbegins
      obtain ⟨p, hp, hparts⟩ := Option.map_eq_some_iff.mp h
      obtain ⟨rfl, rfl⟩ := Prod.mk.inj hparts
      have hrest : piecesFrom token 0 s = p.1 :: pieces token p.2 := ih hp
      rw [if_neg hbegins, hrest]

/-- An induction over the tokens of a text. -/
theorem token_induction {p : List α → Prop} (hne : token ≠ [])
    (done : ∀ s, cut token s = none → p s)
    (step : ∀ s before behind, cut token s = some (before, behind) → p behind → p s)
    (s : List α) : p s := by
  induction hn : s.length using Nat.strong_induction_on generalizing s with
  | _ n ih =>
    cases hcut : cut token s with
    | none => exact done s hcut
    | some q =>
      have hlength := congrArg List.length (eq_of_cut hcut)
      have hpos := List.length_pos_iff.mpr hne
      rw [List.length_append, List.length_append] at hlength
      exact step s q.1 q.2 hcut (ih q.2.length (by omega) q.2 rfl)

/-- The pieces are parts of the text. -/
theorem infix_of_mem_pieces (hne : token ≠ []) {piece : List α} (h : piece ∈ pieces token s) :
    piece <:+: s := by
  induction s using token_induction hne with
  | done s hcut =>
    rw [pieces_of_cut_none hcut, List.mem_singleton] at h
    exact h ▸ List.infix_refl s
  | step s before behind hcut ih =>
    rw [pieces_of_cut hne hcut, List.mem_cons] at h
    rw [eq_of_cut hcut]
    rcases h with rfl | h
    · exact ⟨[], token ++ behind, by rw [List.nil_append, List.append_assoc]⟩
    · exact (ih h).trans (List.suffix_append (before ++ token) behind).isInfix

/-- A text without a character of the token is one piece. -/
theorem pieces_of_notMem {c : α} (hc : c ∈ token) (h : c ∉ s) : pieces token s = [s] :=
  pieces_of_cut_none ((cut_eq_none_iff (List.ne_nil_of_mem hc)).mpr
    fun hin => h (hin.subset hc))

/-- The first token begins with the first such character. -/
theorem pieces_append {c : α} {t : List α} (h : c ∉ before) (behind : List α) :
    pieces (c :: t) (before ++ (c :: t) ++ behind) = before :: pieces (c :: t) behind := by
  have hne : c :: t ≠ [] := List.cons_ne_nil c t
  refine pieces_of_cut hne (cut_eq_some hne fun i hi hbegins => h ?_)
  rw [List.append_assoc, List.drop_append_of_le_length (Nat.le_of_lt hi),
    List.drop_eq_getElem_cons hi, List.cons_append, List.cons_prefix_cons] at hbegins
  rw [hbegins.1]
  exact List.getElem_mem hi

/-- Pieces that have been joined are found again. -/
theorem pieces_intercalate {c : α} {t : List α} {parts : List (List α)} (hne : parts ≠ [])
    (h : ∀ part ∈ parts, c ∉ part) :
    pieces (c :: t) ((c :: t).intercalate parts) = parts := by
  induction parts with
  | nil => exact absurd rfl hne
  | cons part parts ih =>
    cases parts with
    | nil =>
      rw [List.intercalate_singleton]
      exact pieces_of_notMem List.mem_cons_self (h part List.mem_cons_self)
    | cons next parts =>
      rw [List.intercalate_cons_cons, List.append_assoc, ← List.append_assoc,
        pieces_append (h part List.mem_cons_self),
        ih (List.cons_ne_nil _ _) fun other hother => h other (List.mem_cons_of_mem _ hother)]

omit [DecidableEq α] in
/-- What is joined is a part of the text. -/
theorem infix_intercalate_of_mem {part : List α} {parts : List (List α)} (h : part ∈ parts) :
    part <:+: token.intercalate parts := by
  induction parts with
  | nil => cases h
  | cons next parts ih =>
    cases parts with
    | nil =>
      rw [List.mem_singleton.mp h, List.intercalate_singleton]
    | cons last parts =>
      rw [List.intercalate_cons_cons, List.append_assoc]
      rcases List.mem_cons.mp h with rfl | h
      · exact (List.prefix_append part _).isInfix
      · exact ((ih h).trans (List.suffix_append token _).isInfix).trans
          (List.suffix_append next _).isInfix

section Cases

variable (replacement : List α)

/-- A text without a token stays. -/
theorem replaceAll_of_cut_none (h : cut token s = none) : replaceAll token replacement s = s := by
  rw [replaceAll, pieces_of_cut_none h, List.intercalate_singleton]

/-- The first token is replaced. -/
theorem replaceAll_of_cut (hne : token ≠ []) (h : cut token s = some (before, behind)) :
    replaceAll token replacement s =
      before ++ replacement ++ replaceAll token replacement behind := by
  rw [replaceAll, replaceAll, pieces_of_cut hne h]
  cases hpieces : pieces token behind with
  | nil => exact absurd hpieces (pieces_ne_nil token behind)
  | cons piece rest =>
    rw [List.intercalate_cons_cons, List.append_assoc]

/-- No tokens. -/
theorem tokenNumber_of_cut_none (h : cut token s = none) : tokenNumber token s = 0 := by
  rw [tokenNumber, pieces_of_cut_none h]
  rfl

/-- One more token. -/
theorem tokenNumber_of_cut (hne : token ≠ []) (h : cut token s = some (before, behind)) :
    tokenNumber token s = tokenNumber token behind + 1 := by
  have hpos := List.length_pos_iff.mpr (pieces_ne_nil token behind)
  rw [tokenNumber, tokenNumber, pieces_of_cut hne h, List.length_cons]
  omega

/-- The whole text is behind no token. -/
theorem behindTokens_of_cut_none (h : cut token s = none) : behindTokens token s = s := by
  rw [behindTokens, pieces_of_cut_none h]
  rfl

/-- The text behind the last token is behind the first one. -/
theorem behindTokens_of_cut (hne : token ≠ []) (h : cut token s = some (before, behind)) :
    behindTokens token s = behindTokens token behind := by
  rw [behindTokens, behindTokens, pieces_of_cut hne h]
  cases hpieces : pieces token behind with
  | nil => exact absurd hpieces (pieces_ne_nil token behind)
  | cons piece rest => rfl

/-- The length of the text with its tokens replaced. -/
theorem length_replaceAll (hne : token ≠ []) (s : List α) :
    (replaceAll token replacement s).length + tokenNumber token s * token.length =
      s.length + tokenNumber token s * replacement.length := by
  induction s using token_induction hne with
  | done s h =>
    rw [replaceAll_of_cut_none replacement h, tokenNumber_of_cut_none h, Nat.zero_mul, Nat.zero_mul]
  | step s before behind h ih =>
    rw [replaceAll_of_cut replacement hne h, tokenNumber_of_cut hne h, Nat.add_mul, Nat.add_mul,
      congrArg List.length (eq_of_cut h)]
    simp only [List.length_append]
    omega

end Cases

/-- There are no more tokens than characters. -/
theorem tokenNumber_le_length (hne : token ≠ []) (s : List α) : tokenNumber token s ≤ s.length := by
  have hlength := length_replaceAll [] hne s
  have hle := Nat.le_mul_of_pos_right (tokenNumber token s) (List.length_pos_iff.mpr hne)
  rw [List.length_nil, Nat.mul_zero] at hlength
  omega

/-- The pieces joined with the token are the text. -/
theorem intercalate_pieces (hne : token ≠ []) (s : List α) :
    token.intercalate (pieces token s) = s := by
  induction s using token_induction hne with
  | done s h => rw [pieces_of_cut_none h, List.intercalate_singleton]
  | step s before behind h ih =>
    rw [pieces_of_cut hne h, List.intercalate_cons_of_ne_nil (pieces_ne_nil token behind), ih,
      ← eq_of_cut h]

/-- There is no token in a piece. -/
theorem not_infix_of_mem_pieces (hne : token ≠ []) {piece : List α}
    (h : piece ∈ pieces token s) : ¬ token <:+: piece := by
  induction s using token_induction hne with
  | done s hcut =>
    rw [pieces_of_cut_none hcut, List.mem_singleton] at h
    exact h ▸ (cut_eq_none_iff hne).mp hcut
  | step s before behind hcut ih =>
    rw [pieces_of_cut hne hcut, List.mem_cons] at h
    rcases h with rfl | h
    · exact not_infix_of_cut hne hcut
    · exact ih h

end IspSession.Library
