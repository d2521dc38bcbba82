import Mathlib.Data.List.Pairwise
import Mathlib.Data.Finset.Max
import IspSession.Library.Fields
import IspSession.Model.UrlCookie
import IspSession.Analysis.UrlDefects
import IspSession.Analysis.PercentServer

/-!
# Where `EnsureURLCookie` sends the browser

The address is a list of names with encoded values, the token and the current id in front. The
values come back as they were; a name is written as it is, and comes back only if it is plain
(`params_plain`). A name that is not leaves parameters with smaller names (`params_notPlain`), so
that the largest such name is lost.
-/

set_option autoImplicit false

namespace IspSession.Analysis

open IspSession.Library
open IspSession.Model
open CComBSTR2 (zeroTerminated)

variable {w : QueryServer} {token id url query : Bstr}

/-! ## The property and its condition -/

/-- A redirect carries the id once and all other parameters, and is the last one. -/
def Converges (w : QueryServer) (token id url query : Bstr) : Prop :=
  ∀ location, NWCSession.ensureURLCookie w token id url query = some location →
    w.values (w.params (queryOf location)) token = [id] ∧
    (∀ key ∈ w.keys (w.params query), w.fold key ≠ w.fold token →
      key ∈ w.keys (w.params (queryOf location))) ∧
    (∀ name, w.fold name ≠ w.fold token →
      w.values (w.params (queryOf location)) name = w.values (w.params query) name) ∧
    ∀ url', NWCSession.ensureURLCookie w token id url' (queryOf location) = none

/-- A name that can be written as it is. -/
def PlainName (w : QueryServer) (s : Bstr) : Prop :=
  (∀ c ∈ s, isDelimiter c = false) ∧ w.decode s = s

/-- The token and the other names can be written as they are, and the token is nowhere written in
another letter case. -/
structure WritesPlainly (w : QueryServer) (token url query : Bstr) : Prop where
  address : ∀ c ∈ url, c ≠ 0x23 ∧ c ≠ 0
  plain : PlainName w token
  spelled : ∀ key ∈ w.keys (w.params query),
    zeroTerminated key = token ↔ w.fold key = w.fold token
  names : ∀ key ∈ w.keys (w.params query), w.fold key ≠ w.fold token → PlainName w key

/-! ## Names and values -/

/-- INTERNAL: a name whose characters have been looked at. -/
theorem plainName_of_all {s : Bstr} (h : (s.all fun c => !isDelimiter c) = true)
    (hdecode : w.decode s = s) : PlainName w s :=
  ⟨fun c hc => Bool.not_eq_true' _ ▸ List.all_eq_true.mp h c hc, hdecode⟩

theorem PlainName.congr {a b : Bstr} (h : PlainName w a) (hfold : w.fold a = w.fold b) :
    PlainName w b := by
  refine ⟨fun c hc => ?_, w.fold_decode a b hfold h.2⟩
  by_contra hdelimiter
  rw [Bool.not_eq_false] at hdelimiter
  have ha := h.1 c (w.fold_delimiter a b hfold c hc hdelimiter)
  rw [ha] at hdelimiter
  cases hdelimiter

/-- INTERNAL: a name under which there is a value. -/
theorem values_ne_nil_iff {params : List (Bstr × Bstr)} {name : Bstr} :
    w.values params name ≠ [] ↔ ∃ param ∈ params, w.fold param.1 = w.fold name := by
  rw [QueryServer.values, ne_eq, List.map_eq_nil_iff, List.filter_eq_nil_iff]
  simp only [beq_iff_eq, not_forall, not_not, exists_prop]

/-- INTERNAL: values are looked up in any letter case. -/
theorem values_congr {params : List (Bstr × Bstr)} {a b : Bstr} (h : w.fold a = w.fold b) :
    w.values params a = w.values params b := by
  rw [QueryServer.values, h, QueryServer.values]

theorem values_append (params params' : List (Bstr × Bstr)) (name : Bstr) :
    w.values (params ++ params') name = w.values params name ++ w.values params' name := by
  rw [QueryServer.values, List.filter_append, List.map_append]
  rfl

theorem values_cons (param : Bstr × Bstr) (params : List (Bstr × Bstr)) (name : Bstr) :
    w.values (param :: params) name =
      if w.fold param.1 = w.fold name then param.2 :: w.values params name
      else w.values params name := by
  rw [QueryServer.values, List.filter_cons]
  by_cases hfold : w.fold param.1 = w.fold name
  · rw [if_pos (beq_iff_eq.mpr hfold), if_pos hfold]
    rfl
  · rw [if_neg (mt beq_iff_eq.mp hfold), if_neg hfold]
    rfl

/-- INTERNAL: an enumerated name is one of the parameters. -/
theorem exists_of_mem_keys {params : List (Bstr × Bstr)} {key : Bstr} (h : key ∈ w.keys params) :
    ∃ param ∈ params, param.1 = key := by
  induction params with
  | nil => cases h
  | cons param params ih =>
    rcases List.mem_cons.mp h with rfl | h
    · exact ⟨param, List.mem_cons_self, rfl⟩
    · obtain ⟨param', hmem, hname⟩ := ih (List.mem_filter.mp h).1
      exact ⟨param', List.mem_cons_of_mem _ hmem, hname⟩

/-- INTERNAL: each parameter is enumerated under some spelling. -/
theorem exists_mem_keys {params : List (Bstr × Bstr)} {param : Bstr × Bstr} (h : param ∈ params) :
    ∃ key ∈ w.keys params, w.fold key = w.fold param.1 := by
  induction params with
  | nil => cases h
  | cons first params ih =>
    rcases List.mem_cons.mp h with rfl | h
    · exact ⟨_, List.mem_cons_self, rfl⟩
    · obtain ⟨key, hkey, hfold⟩ := ih h
      by_cases hsame : w.fold key = w.fold first.1
      · exact ⟨_, List.mem_cons_self, hsame.symm.trans hfold⟩
      · exact ⟨key, List.mem_cons_of_mem _ (List.mem_filter.mpr ⟨hkey, bne_iff_ne.mpr hsame⟩),
          hfold⟩

/-- INTERNAL: each name is enumerated once. -/
theorem pairwise_keys (params : List (Bstr × Bstr)) :
    (w.keys params).Pairwise fun a b => w.fold a ≠ w.fold b := by
  induction params with
  | nil => exact List.Pairwise.nil
  | cons param params ih =>
    refine List.pairwise_cons.mpr ⟨fun key hkey hsame => ?_, ih.filter _⟩
    exact bne_iff_ne.mp (List.mem_filter.mp hkey).2 hsame.symm

/-- INTERNAL: a name that is written in one way only is enumerated. -/
theorem mem_keys_of_unique (w : QueryServer) {params : List (Bstr × Bstr)} (param : Bstr × Bstr)
    (h : param ∈ params) (hunique : ∀ other ∈ params, w.fold other.1 = w.fold param.1 →
      other.1 = param.1) : param.1 ∈ w.keys params := by
  obtain ⟨key, hkey, hfold⟩ := exists_mem_keys (w := w) h
  obtain ⟨other, hother, rfl⟩ := exists_of_mem_keys hkey
  exact hunique other hother hfold ▸ hkey

/-- INTERNAL: an enumerated name is the only one of its spellings. -/
theorem eq_of_mem_keys {params : List (Bstr × Bstr)} {a b : Bstr} (ha : a ∈ w.keys params)
    (hb : b ∈ w.keys params) (h : w.fold a = w.fold b) : a = b := by
  by_contra hne
  have hsymm : Std.Symm fun a b => w.fold a ≠ w.fold b := ⟨fun _ _ hab hba => hab hba.symm⟩
  exact (pairwise_keys params).forall ha hb hne h

/-! ## What is read back of one parameter -/

/-- A name and an encoded value. -/
def segmentText (segment : Bstr × Bstr) : Bstr := segment.1 ++ 0x3D :: segment.2

/-- What a request keeps of an address: neither a NUL nor a fragment. -/
def requested (s : Bstr) : Bstr := s.takeWhile fun c => c != 0 && c != 0x23

/-- INTERNAL: nothing is cut off. -/
theorem requested_eq_self {s : Bstr} (h : ∀ c ∈ s, c ≠ 0 ∧ c ≠ 0x23) : requested s = s :=
  List.takeWhile_eq_self_iff.mpr fun c hc => by
    rw [Bool.and_eq_true, bne_iff_ne, bne_iff_ne]
    exact h c hc

/-- INTERNAL: what is no delimiter. -/
theorem ne_of_not_isDelimiter {c : UInt16} (h : isDelimiter c = false) :
    c ≠ 0x26 ∧ c ≠ 0x3D ∧ c ≠ 0x23 ∧ c ≠ 0 := by
  simp only [isDelimiter, Bool.or_eq_false_iff, beq_eq_false_iff_ne] at h
  exact ⟨h.1.1.1, h.1.1.2, h.1.2, h.2⟩

theorem params_append_cons (a b : Bstr) :
    w.params (a ++ 0x26 :: b) = w.params a ++ w.params b := by
  rw [QueryServer.params, List.splitOn_append_cons_self, List.filterMap_append]
  rfl

/-- **A plain name comes back with its value.** -/
theorem params_plain {segment : Bstr × Bstr} (hname : PlainName w segment.1)
    (hvalue : ∀ c ∈ segment.2, isDelimiter c = false) :
    w.params (requested (segmentText segment)) = [(segment.1, w.decode segment.2)] := by
  have hplain : ∀ c ∈ segmentText segment, c ≠ 0x26 ∧ c ≠ 0 ∧ c ≠ 0x23 := by
    intro c hc
    rcases List.mem_append.mp hc with hc | hc
    · obtain ⟨hamp, -, hhash, hnul⟩ := ne_of_not_isDelimiter (hname.1 c hc)
      exact ⟨hamp, hnul, hhash⟩
    rcases List.mem_cons.mp hc with rfl | hc
    · exact ⟨by decide, by decide, by decide⟩
    · obtain ⟨hamp, -, hhash, hnul⟩ := ne_of_not_isDelimiter (hvalue c hc)
      exact ⟨hamp, hnul, hhash⟩
  have hequals : ∀ c ∈ segment.1, (c != 0x3D) = true := fun c hc =>
    bne_iff_ne.mpr (ne_of_not_isDelimiter (hname.1 c hc)).2.1
  rw [requested_eq_self fun c hc => (hplain c hc).2, QueryServer.params,
    List.splitOn_eq_singleton fun hmem => (hplain _ hmem).1 rfl]
  show (w.param (segmentText segment)).toList = _
  rw [QueryServer.param, segmentText, if_pos (List.mem_append_right _ List.mem_cons_self),
    List.takeWhile_append_of_pos hequals, List.dropWhile_append_of_pos hequals,
    List.takeWhile_cons_of_neg (by decide), List.dropWhile_cons_of_neg (by decide),
    List.append_nil, hname.2]
  rfl

/-- INTERNAL: the size of a part. -/
theorem queryWeight_part {x y : Bstr} (h : x <:+: y) :
    queryWeight x ≤ queryWeight y ∧ (x.length < y.length → queryWeight x < queryWeight y) := by
  have hlength := h.length_le
  have hcount := h.sublist.count_le 0x2B
  rw [queryWeight, queryWeight]
  exact ⟨by omega, fun hlt => by omega⟩

/-- The text of the name in a part. -/
def nameText (part : Bstr) : Bstr := part.takeWhile (· != 0x3D)

/-- INTERNAL: a name is not larger than its text. -/
theorem queryWeight_param {part : Bstr} {param : Bstr × Bstr} (h : w.param part = some param) :
    queryWeight param.1 ≤ queryWeight (nameText part) ∧
      (0x3D ∈ part → param.1 = w.decode (nameText part)) := by
  rw [QueryServer.param] at h
  split at h
  · obtain rfl := Option.some.inj h
    refine ⟨?_, fun _ => rfl⟩
    rcases w.decode_weight (nameText part) with hsame | hless
    · exact le_of_eq (congrArg queryWeight hsame)
    · exact le_of_lt hless
  · rename_i hmem
    have hall : nameText part = part := List.takeWhile_eq_self_iff.mpr fun c hc =>
      bne_iff_ne.mpr (ne_of_mem_of_not_mem hc hmem)
    rw [hall]
    exact ⟨w.bare_weight part param h, fun hin => absurd hin hmem⟩

/-- INTERNAL: the text before an `=` ends with the name. -/
theorem takeWhile_append_begins (name value : Bstr) :
    (name ++ 0x3D :: value).takeWhile (· != 0x3D) <+: name := by
  induction name with
  | nil => exact List.prefix_rfl
  | cons c name ih =>
    rw [List.cons_append, List.takeWhile_cons]
    split
    · exact (List.prefix_cons_inj c).mpr ih
    · exact List.nil_prefix

/-- INTERNAL: a part with a name and a value. -/
theorem splitOn_segment {name value : Bstr} (hname : 0x26 ∉ name) (hvalue : 0x26 ∉ value) :
    (name ++ 0x3D :: value).splitOn 0x26 = [name ++ 0x3D :: value] := by
  refine List.splitOn_eq_singleton fun hmem => ?_
  rcases List.mem_append.mp hmem with hmem | hmem
  · exact hname hmem
  rcases List.mem_cons.mp hmem with hmem | hmem
  · cases hmem
  · exact hvalue hmem

/-- INTERNAL: a name text is cut out of what stands in front of the value. -/
theorem nameText_infix {value : Bstr} (hvalue : 0x26 ∉ value) (n : ℕ) :
    ∀ name : Bstr, name.length ≤ n → ∀ part ∈ (name ++ 0x3D :: value).splitOn 0x26,
      nameText part <:+: name := by
  induction n with
  | zero =>
    intro name hn part hpart
    obtain rfl := List.length_eq_zero_iff.mp (Nat.le_zero.mp hn)
    rw [splitOn_segment List.not_mem_nil hvalue] at hpart
    obtain rfl := List.mem_singleton.mp hpart
    exact (takeWhile_append_begins [] value).isInfix
  | succ n ih =>
    intro name hn part hpart
    by_cases hmem : 0x26 ∈ name
    · obtain ⟨a, b, rfl, -⟩ := List.eq_append_cons_of_mem hmem
      rw [List.append_assoc, List.cons_append, List.splitOn_append_cons_self] at hpart
      rcases List.mem_append.mp hpart with hpart | hpart
      · exact ((List.takeWhile_prefix _).isInfix.trans (infix_of_mem_splitOn hpart).1).trans
          (List.prefix_append a _).isInfix
      · rw [List.length_append, List.length_cons] at hn
        exact (ih b (by omega) part hpart).trans
          ((List.suffix_cons 0x26 b).trans (List.suffix_append a _)).isInfix
    · rw [splitOn_segment hmem hvalue] at hpart
      obtain rfl := List.mem_singleton.mp hpart
      rw [nameText]
      exact (takeWhile_append_begins name value).isInfix

/-- **A name that is not plain leaves smaller ones.** -/
theorem params_notPlain {segment : Bstr × Bstr} (hname : ¬ PlainName w segment.1)
    (hvalue : ∀ c ∈ segment.2, isDelimiter c = false) {param : Bstr × Bstr}
    (h : param ∈ w.params (requested (segmentText segment))) :
    queryWeight param.1 < queryWeight segment.1 := by
  obtain ⟨name, value⟩ := segment
  dsimp only at hname hvalue ⊢
  have hamp : 0x26 ∉ value := fun hmem => (ne_of_not_isDelimiter (hvalue _ hmem)).1 rfl
  have hrest : requested (0x3D :: value) = 0x3D :: value := requested_eq_self fun c hc => by
    rcases List.mem_cons.mp hc with rfl | hc
    · exact ⟨by decide, by decide⟩
    · obtain ⟨-, -, hhash, hnul⟩ := ne_of_not_isDelimiter (hvalue c hc)
      exact ⟨hnul, hhash⟩
  obtain ⟨part, hpart, hparam⟩ := List.mem_filterMap.mp h
  obtain ⟨hweight, hdecoded⟩ := queryWeight_param hparam
  have hsmaller : ∀ x : Bstr, nameText part <:+: x → x <:+: name → x.length < name.length →
      queryWeight param.1 < queryWeight name := fun x hx hin hlt =>
    lt_of_le_of_lt (hweight.trans (queryWeight_part hx).1) ((queryWeight_part hin).2 hlt)
  by_cases hkept : ∀ c ∈ name, (c != 0 && c != 0x23) = true
  · have hwhole : requested (segmentText (name, value)) = name ++ 0x3D :: value := by
      rw [requested, segmentText, List.takeWhile_append_of_pos hkept]
      exact congrArg (name ++ ·) hrest
    rw [hwhole] at hpart
    have hinfix := nameText_infix hamp name.length name le_rfl part hpart
    by_cases hshort : (nameText part).length < name.length
    · exact hsmaller _ List.infix_rfl hinfix hshort
    -- the text of the name is the whole name: there is no delimiter in it, but an escape
    · have hsame : nameText part = name :=
        hinfix.eq_of_length (le_antisymm hinfix.length_le (not_lt.mp hshort))
      have hsub : ∀ c ∈ name, c ∈ part := fun c hc =>
        (List.takeWhile_prefix _).subset (hsame ▸ hc)
      have hnoamp : 0x26 ∉ name := fun hmem => (infix_of_mem_splitOn hpart).2 (hsub _ hmem)
      have hnoequals : 0x3D ∉ name := fun hmem =>
        absurd (List.mem_takeWhile_imp (hsame ▸ hmem : 0x3D ∈ nameText part)) (by decide)
      have hplain : ∀ c ∈ name, isDelimiter c = false := by
        intro c hc
        have hgood := hkept c hc
        rw [Bool.and_eq_true, bne_iff_ne, bne_iff_ne] at hgood
        simp only [isDelimiter, Bool.or_eq_false_iff, beq_eq_false_iff_ne]
        exact ⟨⟨⟨ne_of_mem_of_not_mem hc hnoamp, ne_of_mem_of_not_mem hc hnoequals⟩, hgood.2⟩,
          hgood.1⟩
      rw [splitOn_segment hnoamp hamp] at hpart
      obtain rfl := List.mem_singleton.mp hpart
      rw [hdecoded (List.mem_append_right name List.mem_cons_self), hsame]
      exact (w.decode_weight name).resolve_left fun hdecode => hname ⟨hplain, hdecode⟩
  · have hshort : (requested name).length < name.length := by
      refine lt_of_le_of_ne (List.takeWhile_prefix _).length_le fun hlength => hkept ?_
      exact List.takeWhile_eq_self_iff.mp ((List.takeWhile_prefix _).eq_of_length hlength)
    have hcut : requested (segmentText (name, value)) = requested name := by
      rw [requested, segmentText, List.takeWhile_append, if_neg]
      · rfl
      · exact hshort.ne
    rw [hcut] at hpart
    exact hsmaller (requested name)
      ((List.takeWhile_prefix _).isInfix.trans (infix_of_mem_splitOn hpart).1)
      (List.takeWhile_prefix _).isInfix hshort

/-! ## The address -/

/-- The text of several names with their values. -/
def queryText (first : Bstr × Bstr) (rest : List (Bstr × Bstr)) : Bstr :=
  segmentText first ++ rest.flatMap fun segment => 0x26 :: segmentText segment

theorem queryText_cons (first segment : Bstr × Bstr) (rest : List (Bstr × Bstr)) :
    queryText first (segment :: rest) = segmentText first ++ 0x26 :: queryText segment rest := by
  rw [queryText, List.flatMap_cons, queryText]
  rfl

/-- INTERNAL: what a request keeps of two parts. -/
theorem requested_append_cons (a b : Bstr) :
    requested (a ++ 0x26 :: b) =
      if requested a = a then a ++ 0x26 :: requested b else requested a := by
  by_cases hall : requested a = a
  · rw [if_pos hall, requested, List.takeWhile_append, if_pos]
    · rfl
    · exact congrArg List.length hall
  · rw [if_neg hall, requested, List.takeWhile_append, if_neg]
    · rfl
    · exact fun hlength => hall ((List.takeWhile_prefix _).eq_of_length hlength)

/-- INTERNAL: a parameter comes from one of the segments. -/
theorem mem_params_queryText {first : Bstr × Bstr} {rest : List (Bstr × Bstr)}
    {param : Bstr × Bstr} (h : param ∈ w.params (requested (queryText first rest))) :
    ∃ segment ∈ first :: rest, param ∈ w.params (requested (segmentText segment)) := by
  induction rest generalizing first with
  | nil =>
    rw [queryText, List.flatMap_nil, List.append_nil] at h
    exact ⟨first, List.mem_cons_self, h⟩
  | cons segment rest ih =>
    rw [queryText_cons, requested_append_cons] at h
    split at h
    · rename_i hall
      rw [params_append_cons] at h
      rcases List.mem_append.mp h with h | h
      · exact ⟨first, List.mem_cons_self, hall.symm ▸ h⟩
      · obtain ⟨segment', hmem, hparam⟩ := ih h
        exact ⟨segment', List.mem_cons_of_mem _ hmem, hparam⟩
    · exact ⟨first, List.mem_cons_self, h⟩

/-- **Plain names all come back, in their order.** -/
theorem params_queryText {first : Bstr × Bstr} {rest : List (Bstr × Bstr)}
    (hname : ∀ segment ∈ first :: rest, PlainName w segment.1)
    (hvalue : ∀ segment ∈ first :: rest, ∀ c ∈ segment.2, isDelimiter c = false) :
    w.params (requested (queryText first rest)) =
      (first :: rest).map fun segment => (segment.1, w.decode segment.2) := by
  have hfirst := params_plain (hname first List.mem_cons_self) (hvalue first List.mem_cons_self)
  induction rest generalizing first with
  | nil =>
    rw [queryText, List.flatMap_nil, List.append_nil]
    exact hfirst
  | cons segment rest ih =>
    have hwhole : requested (segmentText first) = segmentText first := by
      refine requested_eq_self fun c hc => ?_
      rcases List.mem_append.mp hc with hc | hc
      · obtain ⟨-, -, hhash, hnul⟩ :=
          ne_of_not_isDelimiter ((hname first List.mem_cons_self).1 c hc)
        exact ⟨hnul, hhash⟩
      rcases List.mem_cons.mp hc with rfl | hc
      · exact ⟨by decide, by decide⟩
      · obtain ⟨-, -, hhash, hnul⟩ := ne_of_not_isDelimiter (hvalue first List.mem_cons_self c hc)
        exact ⟨hnul, hhash⟩
    have hin : ∀ segment' ∈ segment :: rest, segment' ∈ first :: segment :: rest := fun _ h =>
      List.mem_cons_of_mem first h
    rw [queryText_cons, requested_append_cons, if_pos hwhole, params_append_cons,
      ih (fun s hs => hname s (hin s hs)) (fun s hs => hvalue s (hin s hs))
        (params_plain (hname segment (hin segment List.mem_cons_self))
          (hvalue segment (hin segment List.mem_cons_self)))]
    rw [hwhole] at hfirst
    rw [hfirst]
    rfl

/-- The names that are appended behind the token. -/
def keptKeys (w : QueryServer) (token : Bstr) (params : List (Bstr × Bstr)) : List Bstr :=
  (w.keys params).filter fun key => token != zeroTerminated key

/-- The names behind the token, each with its values. -/
def keptSegments (w : QueryServer) (token : Bstr) (params : List (Bstr × Bstr)) :
    List (Bstr × Bstr) :=
  (keptKeys w token params).flatMap fun key =>
    (w.values params key).map fun value => (key, w.urlEncode value)

/-- INTERNAL: the address in segments. -/
theorem urlWithCookie_eq (htoken : 0 ∉ token) (hid : 0 ∉ id) (params : List (Bstr × Bstr)) :
    NWCSession.urlWithCookie w token id url params =
      url ++ 0x3F :: queryText (token, id) (keptSegments w token params) := by
  have hvalues : NWCSession.appendValues w params = fun key =>
      ((w.values params key).map fun value => (key, w.urlEncode value)).flatMap fun segment =>
        0x26 :: segmentText segment := by
    funext key
    rw [List.flatMap_map]
    rfl
  rw [NWCSession.urlWithCookie, zeroTerminated_eq htoken, zeroTerminated_eq hid, queryText,
    keptSegments, List.flatMap_assoc, keptKeys, hvalues]
  simp only [segmentText, List.append_assoc, List.cons_append]

/-- INTERNAL: the query string of the address. -/
theorem queryOf_append (hurl : 0x3F ∉ url) (text : Bstr) :
    ((∀ c ∈ url, c ≠ 0x23 ∧ c ≠ 0) → queryOf (url ++ 0x3F :: text) = requested text) ∧
      ((¬ ∀ c ∈ url, c ≠ 0x23 ∧ c ≠ 0) → queryOf (url ++ 0x3F :: text) = []) := by
  have hquestion : ∀ c ∈ url, (c != 0x3F) = true := fun c hc =>
    bne_iff_ne.mpr (ne_of_mem_of_not_mem hc hurl)
  refine ⟨fun hplain => ?_, fun hplain => ?_⟩
  · have hkept : ∀ c ∈ url, (c != 0 && c != 0x23) = true := fun c hc => by
      rw [Bool.and_eq_true, bne_iff_ne, bne_iff_ne]
      exact (hplain c hc).symm
    rw [queryOf, List.takeWhile_append_of_pos hkept,
      List.takeWhile_cons_of_pos (by decide), List.dropWhile_append_of_pos hquestion,
      List.dropWhile_cons_of_neg (by decide)]
    rfl
  · have hcut : (url ++ 0x3F :: text).takeWhile (fun c => c != 0 && c != 0x23) = requested url := by
      rw [List.takeWhile_append, if_neg]
      · rfl
      · intro hlength
        refine hplain fun c hc => ?_
        have hall := List.takeWhile_eq_self_iff.mp ((List.takeWhile_prefix _).eq_of_length hlength)
        have hc' := hall c hc
        rw [Bool.and_eq_true, bne_iff_ne, bne_iff_ne] at hc'
        exact hc'.symm
    have hnone : (requested url).dropWhile (· != 0x3F) = [] :=
      List.dropWhile_eq_nil_iff.mpr fun c hc => hquestion c ((List.takeWhile_prefix _).subset hc)
    rw [queryOf, hcut, hnone]
    rfl

/-! ## The values that come back -/

/-- INTERNAL: the values of names that are each there once. -/
theorem values_flatMap (keys : List Bstr) (values : Bstr → List Bstr) (name : Bstr) :
    w.values (keys.flatMap fun key => (values key).map fun value => (key, value)) name =
      keys.flatMap fun key => if w.fold key = w.fold name then values key else [] := by
  induction keys with
  | nil => rfl
  | cons key keys ih =>
    rw [List.flatMap_cons, List.flatMap_cons, values_append, ih]
    refine congrArg (· ++ _) ?_
    rw [QueryServer.values, List.filter_map]
    by_cases hfold : w.fold key = w.fold name
    · have hall : (values key).filter ((fun param => w.fold param.1 == w.fold name) ∘
          fun value => (key, value)) = values key :=
        List.filter_eq_self.mpr fun value _ => beq_iff_eq.mpr hfold
      rw [if_pos hfold, hall, List.map_map]
      exact List.map_id _
    · have hnone : (values key).filter ((fun param => w.fold param.1 == w.fold name) ∘
          fun value => (key, value)) = [] :=
        List.filter_eq_nil_iff.mpr fun value _ h => hfold (beq_iff_eq.mp h)
      rw [if_neg hfold, hnone]
      rfl

/-- INTERNAL: one of them. -/
theorem flatMap_of_unique {keys : List Bstr} (hpair : keys.Pairwise fun a b => w.fold a ≠ w.fold b)
    (values : Bstr → List Bstr) {key name : Bstr} (hkey : key ∈ keys)
    (hfold : w.fold key = w.fold name) :
    (keys.flatMap fun key => if w.fold key = w.fold name then values key else []) =
      values key := by
  induction keys with
  | nil => cases hkey
  | cons first keys ih =>
    obtain ⟨hfirst, hrest⟩ := List.pairwise_cons.mp hpair
    rw [List.flatMap_cons]
    rcases List.mem_cons.mp hkey with rfl | hkey
    · have hnone : (keys.flatMap fun key => if w.fold key = w.fold name then values key else []) =
          [] := List.flatMap_eq_nil_iff.mpr fun other hother =>
        if_neg fun hsame => hfirst other hother (hfold.trans hsame.symm)
      rw [if_pos hfold, hnone, List.append_nil]
    · rw [if_neg fun hsame => hfirst key hkey (hsame.trans hfold.symm), List.nil_append,
        ih hrest hkey]

/-- INTERNAL: what a segment behind the token is. -/
theorem mem_keptSegments {params : List (Bstr × Bstr)} {segment : Bstr × Bstr} :
    segment ∈ keptSegments w token params ↔ ∃ key ∈ keptKeys w token params,
      ∃ value ∈ w.values params key, (key, w.urlEncode value) = segment := by
  rw [keptSegments, List.mem_flatMap]
  simp only [List.mem_map]

/-- INTERNAL: what a kept name is. -/
theorem mem_keptKeys {params : List (Bstr × Bstr)} {key : Bstr} :
    key ∈ keptKeys w token params ↔ key ∈ w.keys params ∧ zeroTerminated key ≠ token := by
  rw [keptKeys, List.mem_filter, bne_iff_ne, ne_comm]

/-- INTERNAL: there is a value under an enumerated name. -/
theorem values_of_mem_keys {params : List (Bstr × Bstr)} {key : Bstr} (h : key ∈ w.keys params) :
    w.values params key ≠ [] := by
  obtain ⟨param, hparam, rfl⟩ := exists_of_mem_keys h
  exact values_ne_nil_iff.mpr ⟨param, hparam, rfl⟩

/-- INTERNAL: neither the id nor an encoded value has a delimiter. -/
theorem value_plain {params : List (Bstr × Bstr)} {segment : Bstr × Bstr} (hid : TakenForId id)
    (h : segment ∈ (token, id) :: keptSegments w token params) :
    ∀ c ∈ segment.2, isDelimiter c = false := by
  rcases List.mem_cons.mp h with rfl | h
  · intro c hc
    by_contra hdelimiter
    simp only [isDelimiter, Bool.not_eq_false, Bool.or_eq_true, beq_iff_eq] at hdelimiter
    rcases hdelimiter with ((rfl | rfl) | rfl) | rfl <;> exact hid.notMem (by decide) hc
  · obtain ⟨key, -, value, -, rfl⟩ := mem_keptSegments.mp h
    exact w.urlEncode_plain value

/-- INTERNAL: plain names come back as they are. -/
theorem params_kept {params : List (Bstr × Bstr)} (hid : TakenForId id)
    (hplain : ∀ segment ∈ (token, id) :: keptSegments w token params, PlainName w segment.1) :
    w.params (requested (queryText (token, id) (keptSegments w token params))) =
      (token, id) :: (keptKeys w token params).flatMap fun key =>
        (w.values params key).map fun value => (key, value) := by
  rw [params_queryText hplain fun _ => value_plain hid, List.map_cons,
    w.decode_plain id (hid.notMem (by decide)) (hid.notMem (by decide)), keptSegments,
    List.map_flatMap]
  refine congrArg ((token, id) :: ·) (congrArg (fun f => List.flatMap f _) (funext fun key => ?_))
  rw [List.map_map]
  exact List.map_congr_left fun value _ => congrArg (Prod.mk key) (w.decode_urlEncode value)

/-- **All names of an address that carries the parameters are plain**: the largest one that is not
would be lost. -/
theorem plain_of_carries {params : List (Bstr × Bstr)} (hid : TakenForId id)
    (htoken : w.values (w.params (requested
      (queryText (token, id) (keptSegments w token params)))) token = [id])
    (hnames : ∀ name, w.fold name ≠ w.fold token →
      w.values (w.params (requested (queryText (token, id) (keptSegments w token params)))) name =
        w.values params name) :
    ∀ segment ∈ (token, id) :: keptSegments w token params, PlainName w segment.1 := by
  classical
  have hfound : ∀ segment ∈ (token, id) :: keptSegments w token params,
      ∃ param ∈ w.params (requested (queryText (token, id) (keptSegments w token params))),
        w.fold param.1 = w.fold segment.1 := by
    intro segment hsegment
    refine values_ne_nil_iff.mp ?_
    by_cases hsame : w.fold segment.1 = w.fold token
    · rw [values_congr hsame, htoken]
      exact List.cons_ne_nil _ _
    · rw [hnames _ hsame]
      rcases List.mem_cons.mp hsegment with rfl | hsegment
      · exact absurd rfl hsame
      · obtain ⟨key, hkey, value, -, rfl⟩ := mem_keptSegments.mp hsegment
        exact values_of_mem_keys (mem_keptKeys.mp hkey).1
  by_contra hsome
  simp only [not_forall] at hsome
  obtain ⟨bad, hbad, hnot⟩ := hsome
  obtain ⟨largest, hlargest, hmax⟩ := Finset.exists_max_image
    (((token, id) :: keptSegments w token params).filter
      fun segment => ¬ PlainName w segment.1).toFinset (fun segment => queryWeight segment.1)
    ⟨bad, List.mem_toFinset.mpr (List.mem_filter.mpr ⟨hbad, decide_eq_true hnot⟩)⟩
  obtain ⟨hmem, hlost⟩ := List.mem_filter.mp (List.mem_toFinset.mp hlargest)
  obtain ⟨param, hparam, hfold⟩ := hfound largest hmem
  obtain ⟨source, hsource, hread⟩ := mem_params_queryText hparam
  by_cases hplain : PlainName w source.1
  · rw [params_plain hplain (value_plain hid hsource)] at hread
    obtain rfl := List.mem_singleton.mp hread
    exact of_decide_eq_true hlost (hplain.congr hfold)
  · have hsmaller := params_notPlain hplain (value_plain hid hsource) hread
    have hatMost := hmax source (List.mem_toFinset.mpr
      (List.mem_filter.mpr ⟨hsource, decide_eq_true hplain⟩))
    rw [w.fold_weight _ _ hfold] at hsmaller
    omega

/-! ## The redirect -/

/-- INTERNAL: the redirect of a page whose address is plain. -/
theorem queryOf_urlWithCookie (htoken : 0 ∉ token) (hid : 0 ∉ id) (hurl : 0x3F ∉ url)
    (params : List (Bstr × Bstr)) :
    ((∀ c ∈ url, c ≠ 0x23 ∧ c ≠ 0) → queryOf (NWCSession.urlWithCookie w token id url params) =
        requested (queryText (token, id) (keptSegments w token params))) ∧
      ((¬ ∀ c ∈ url, c ≠ 0x23 ∧ c ≠ 0) →
        queryOf (NWCSession.urlWithCookie w token id url params) = []) := by
  rw [urlWithCookie_eq htoken hid]
  exact queryOf_append hurl _

/-- **A page that writes all names plainly converges.** -/
theorem converges_of_writesPlainly (htoken : 0 ∉ token) (hid : TakenForId id) (hurl : 0x3F ∉ url)
    (h : WritesPlainly w token url query) : Converges w token id url query := by
  intro location hlocation
  have hnul : 0 ∉ id := hid.notMem (by decide)
  rw [NWCSession.ensureURLCookie] at hlocation
  split at hlocation
  · cases hlocation
  obtain rfl := Option.some.inj hlocation
  have hkept : ∀ key, key ∈ keptKeys w token (w.params query) ↔
      key ∈ w.keys (w.params query) ∧ w.fold key ≠ w.fold token := by
    intro key
    rw [mem_keptKeys]
    exact and_congr_right fun hkey => not_congr (h.spelled key hkey)
  have hplain : ∀ segment ∈ (token, id) :: keptSegments w token (w.params query),
      PlainName w segment.1 := by
    intro segment hsegment
    rcases List.mem_cons.mp hsegment with rfl | hsegment
    · exact h.plain
    · obtain ⟨key, hkey, value, -, rfl⟩ := mem_keptSegments.mp hsegment
      exact h.names key ((hkept key).mp hkey).1 ((hkept key).mp hkey).2
  have hpair : (keptKeys w token (w.params query)).Pairwise fun a b => w.fold a ≠ w.fold b :=
    (pairwise_keys _).filter _
  rw [(queryOf_urlWithCookie htoken hnul hurl _).1 h.address, params_kept hid hplain]
  have hcurrent : w.values ((token, id) :: (keptKeys w token (w.params query)).flatMap fun key =>
      (w.values (w.params query) key).map fun value => (key, value)) token = [id] := by
    rw [values_cons, if_pos rfl, values_flatMap,
      List.flatMap_eq_nil_iff.mpr fun key hkey => if_neg ((hkept key).mp hkey).2]
  have hothers : ∀ name, w.fold name ≠ w.fold token →
      w.values ((token, id) :: (keptKeys w token (w.params query)).flatMap fun key =>
        (w.values (w.params query) key).map fun value => (key, value)) name =
      w.values (w.params query) name := by
    intro name hname
    rw [values_cons, if_neg hname.symm, values_flatMap]
    by_cases hnone : w.values (w.params query) name = []
    · rw [hnone]
      refine List.flatMap_eq_nil_iff.mpr fun key hkey => ?_
      by_cases hsame : w.fold key = w.fold name
      · rw [if_pos hsame, values_congr hsame, hnone]
      · exact if_neg hsame
    · obtain ⟨param, hparam, hfold⟩ := values_ne_nil_iff.mp hnone
      obtain ⟨key, hkey, hsame⟩ := exists_mem_keys (w := w) hparam
      have hclass := hsame.trans hfold
      rw [flatMap_of_unique hpair _ ((hkept key).mpr ⟨hkey, fun h => hname (hclass.symm.trans h)⟩)
        hclass, values_congr hclass]
  refine ⟨hcurrent, fun key hkey hfold => ?_, hothers, fun url' => ?_⟩
  · obtain ⟨value, hvalue⟩ := List.exists_mem_of_ne_nil _ (values_of_mem_keys hkey)
    have hkeptKey := (hkept key).mpr ⟨hkey, hfold⟩
    refine mem_keys_of_unique w (key, value) (List.mem_cons_of_mem _ (List.mem_flatMap.mpr
      ⟨key, hkeptKey, List.mem_map.mpr ⟨value, hvalue, rfl⟩⟩)) fun other hother hsame => ?_
    rcases List.mem_cons.mp hother with rfl | hother
    · exact absurd hsame.symm hfold
    · obtain ⟨key', hkey', hother⟩ := List.mem_flatMap.mp hother
      obtain ⟨value', -, rfl⟩ := List.mem_map.mp hother
      exact eq_of_mem_keys ((hkept key').mp hkey').1 hkey hsame
  · rw [NWCSession.ensureURLCookie, params_kept hid hplain, zeroTerminated_eq htoken, hcurrent,
      NWCSession.isCurrent, zeroTerminated_eq hnul, if_pos (beq_self_eq_true id)]

/-- **A page that is redirected and converges writes all names plainly.** -/
theorem writesPlainly_of_converges (hname : token ≠ []) (htoken : 0 ∉ token) (hid : TakenForId id)
    (hurl : 0x3F ∉ url)
    (hredirect : NWCSession.isCurrent id (w.values (w.params query) token) = false)
    (h : Converges w token id url query) : WritesPlainly w token url query := by
  have hnul : 0 ∉ id := hid.notMem (by decide)
  have hlocation : NWCSession.ensureURLCookie w token id url query =
      some (NWCSession.urlWithCookie w token id url (w.params query)) := by
    rw [NWCSession.ensureURLCookie, zeroTerminated_eq htoken,
      if_neg (by rw [hredirect]; exact Bool.false_ne_true)]
  obtain ⟨hcurrent, -, hothers, -⟩ := h _ hlocation
  obtain ⟨hquery, hnoQuery⟩ := queryOf_urlWithCookie (w := w) htoken hnul hurl (w.params query)
  have haddress : ∀ c ∈ url, c ≠ 0x23 ∧ c ≠ 0 := by
    by_contra hno
    rw [hnoQuery hno] at hcurrent
    obtain ⟨param, hparam, hfold⟩ := values_ne_nil_iff.mp
      (hcurrent ▸ List.cons_ne_nil id [] : w.values (w.params []) token ≠ [])
    obtain ⟨part, hpart, hread⟩ := List.mem_filterMap.mp hparam
    have hempty : part = [] := List.mem_singleton.mp hpart
    subst hempty
    have hweight := (queryWeight_param hread).1
    rw [w.fold_weight _ _ hfold] at hweight
    have hpos : 0 < token.length := List.length_pos_iff.mpr hname
    have hnone : queryWeight (nameText []) = 0 := rfl
    rw [hnone, queryWeight] at hweight
    omega
  rw [hquery haddress] at hcurrent hothers
  have hplain := plain_of_carries hid hcurrent hothers
  rw [params_kept hid hplain] at hcurrent hothers
  rw [values_cons, if_pos rfl, List.cons.injEq, and_iff_right rfl, values_flatMap,
    List.flatMap_eq_nil_iff] at hcurrent
  have hkept : ∀ key ∈ keptKeys w token (w.params query), w.fold key ≠ w.fold token := by
    intro key hkey hsame
    have hnone := hcurrent key hkey
    rw [if_pos hsame] at hnone
    exact values_of_mem_keys (mem_keptKeys.mp hkey).1 hnone
  have hspelled : ∀ key ∈ w.keys (w.params query),
      zeroTerminated key = token ↔ w.fold key = w.fold token := by
    refine fun key hkey => ⟨fun hsame => ?_, fun hfold => ?_⟩
    · by_contra hfold
      have hvalues := hothers key hfold
      rw [values_cons, if_neg (Ne.symm hfold), values_flatMap,
        List.flatMap_eq_nil_iff.mpr fun key' hkey' => if_neg fun hclass => ?_] at hvalues
      · exact values_of_mem_keys hkey hvalues.symm
      · obtain ⟨hmem, hne⟩ := mem_keptKeys.mp hkey'
        exact hne (eq_of_mem_keys hmem hkey hclass ▸ hsame)
    · by_contra hne
      exact hkept key (mem_keptKeys.mpr ⟨hkey, hne⟩) hfold
  refine ⟨haddress, hplain _ List.mem_cons_self, hspelled, fun key hkey hfold => ?_⟩
  obtain ⟨value, hvalue⟩ := List.exists_mem_of_ne_nil _ (values_of_mem_keys hkey)
  exact hplain (key, w.urlEncode value) (List.mem_cons_of_mem _ (mem_keptSegments.mpr
    ⟨key, mem_keptKeys.mpr ⟨hkey, mt (hspelled key hkey).mp hfold⟩, value, hvalue, rfl⟩))

/-- **`EnsureURLCookie` converges and keeps the query exactly if there is nothing to redirect or all
names are written plainly.** -/
theorem converges_iff (w : QueryServer) (query : Bstr) (hname : token ≠ []) (htoken : 0 ∉ token)
    (hid : TakenForId id) (hurl : 0x3F ∉ url) :
    Converges w token id url query ↔
      NWCSession.isCurrent id (w.values (w.params query) token) = true ∨
        WritesPlainly w token url query := by
  constructor
  · intro h
    cases hcurrent : NWCSession.isCurrent id (w.values (w.params query) token) with
    | true => exact Or.inl rfl
    | false => exact Or.inr (writesPlainly_of_converges hname htoken hid hurl hcurrent h)
  · rintro (hcurrent | hplainly)
    · intro location hlocation
      rw [NWCSession.ensureURLCookie, zeroTerminated_eq htoken, if_pos hcurrent] at hlocation
      cases hlocation
    · exact converges_of_writesPlainly htoken hid hurl hplainly

/-- **The parameters `a` and `b` are kept.** -/
theorem page_converges :
    Converges percentServer guidName zeroId (Bstr.ofString "/page") (Bstr.ofString "a=1&b=2") := by
  have hnames : percentServer.keys (percentServer.params (Bstr.ofString "a=1&b=2")) =
      [[0x61], [0x62]] := by decide
  refine (converges_iff percentServer (Bstr.ofString "a=1&b=2") (by decide) (by decide)
    takenForId_zeroId (by decide)).mpr (Or.inr ⟨fun c hc => ?_, ?_, ?_, fun key hkey _ => ?_⟩)
  · have haddress : (Bstr.ofString "/page").all (fun c => c != 0x23 && c != 0) = true := by decide
    simpa only [Bool.and_eq_true, bne_iff_ne] using List.all_eq_true.mp haddress c hc
  · exact plainName_of_all (by decide) (by decide)
  · rw [hnames]
    decide
  · rw [hnames] at hkey
    rcases List.mem_cons.mp hkey with rfl | hkey
    · exact plainName_of_all (by decide) (by decide)
    · obtain rfl := List.mem_singleton.mp hkey
      exact plainName_of_all (by decide) (by decide)

/-- **With the name of the cookie in another letter case the browser is sent on for ever.** -/
theorem lowerCase_not_converges :
    ¬ Converges percentServer guidName zeroId (Bstr.ofString "/page")
      (Bstr.ofString "guid=1") := by
  intro h
  have hredirect : NWCSession.ensureURLCookie percentServer guidName zeroId
      (Bstr.ofString "/page") (Bstr.ofString "guid=1") =
        some (Bstr.ofString "/page?GUID=" ++ zeroId ++ Bstr.ofString "&guid=1") := by
    decide
  obtain ⟨hcurrent, -⟩ := h _ hredirect
  revert hcurrent
  decide

end IspSession.Analysis
