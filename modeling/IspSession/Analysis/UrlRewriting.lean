import IspSession.Analysis.UrlOutcomes

/-!
# `get_URL` and the parameters of the URL

The fixed distance of five belongs to a name of four letters. With any other name the id that was
appended is not found again, so a second call changes the text once more. A value that is too short
is cut out with the character before the name, and the separator is chosen by the `?` that stood in
the text before, so the query is lost when its first parameter is cut out, and `&amp` stays when the
name stood behind `&amp;`. A long value that is no id is left beside the new one.
-/

set_option autoImplicit false

namespace IspSession.Analysis

open IspSession.Library IspSession.Model

variable {loc : Collation} {name id u before rest : Bstr}

/-! ## The claim -/

/-- The call ends, its result means the same as the URL but for the one parameter with the id, and
calling again changes nothing. -/
def RewritesUrl (loc : Collation) (name id u : Bstr) : Prop :=
  ∃ r, NWCSession.getURL loc name id u = .ok r ∧ Carries name id u r ∧
    NWCSession.getURL loc name id r = .ok r

/-- The parameters of the name in a URL. -/
def namedParameters (name u : Bstr) : List Bstr :=
  (urlParameters (readAmp u)).filter (namedBy name)

/-- A name that can be the name of a parameter. -/
structure IsPlain (name : Bstr) : Prop where
  ampersand : 0x26 ∉ name
  equals : 0x3D ∉ name
  fragment : 0x23 ∉ name

/-- The condition. The id is appended to a text without the name, and will be found again; or the
URL carries the id already; or another id is the value of the one parameter of the name; or a short
value is cut out of the query, from a `&` to the next one, and no other `name=` stands behind it; or
the text is a name of one letter and `=`. -/
inductive CarriesWell (name id u : Bstr) : Prop
  | absent (hcut : cut (nameToken name) u = none) (hplain : IsPlain name)
      (hvalue : valueWindow name id = id) (hnone : namedParameters name u = [])
      (hfits : FitsBstr (attached name id u u)) : CarriesWell name id u
  | kept {before rest : Bstr} (hcut : cut (nameToken name) u = some (before, rest))
      (hvalue : valueWindow name rest = id)
      (hone : namedParameters name u = [nameToken name ++ id]) : CarriesWell name id u
  | replaced {before rest : Bstr} (hcut : cut (nameToken name) u = some (before, rest))
      (hlength : name.length ≤ 4) (hvalue : TakenForId (valueWindow name rest))
      (hplace : (ampFields (urlQuery (before ++ (nameToken name ++ rest).take 5))).getLast? =
        some (nameToken name))
      (hend : ∀ c ∈ ((nameToken name ++ rest).drop 37).head?, c = 0x26)
      (hone : (namedParameters name u).length = 1) : CarriesWell name id u
  | cutOut {pre rest : Bstr} (hcut : cut (nameToken name) u = some (pre ++ [0x26], rest))
      (hlength : name.length = 4) (hescape : name ≠ ampEscape) (hquery : 0x3F ∈ pre)
      (hshort : (nameToken name ++ rest).length < 37)
      (hfirst : ¬ nameToken name <:+: rest.dropWhile (· ≠ 0x26))
      (hone : (namedParameters name u).length = 1)
      (hfits : FitsBstr (attached name id u (pre ++ rest.dropWhile (· ≠ 0x26)))) :
      CarriesWell name id u
  | lone (hlength : name.length = 1) (hplain : IsPlain name) (hquestion : 0x3F ∉ name)
      (hu : u = nameToken name) : CarriesWell name id u

/-! ## Names -/

section Names

/-- INTERNAL: what stands before the first `=`. -/
theorem takeWhile_equals {s : Bstr} (hs : 0x3D ∉ s) (t : Bstr) :
    (s ++ 0x3D :: t).takeWhile (fun c => decide (c ≠ 0x3D)) = s := by
  have hall : ∀ c ∈ s, decide (c ≠ 0x3D) = true := fun c hc =>
    decide_eq_true fun heq => hs (heq ▸ hc)
  rw [List.takeWhile_append_of_pos hall, List.takeWhile_cons_of_neg (by simp), List.append_nil]

/-- INTERNAL: the name of a parameter with a value. -/
theorem namedBy_nameToken (hequals : 0x3D ∉ name) (v : Bstr) :
    namedBy name (nameToken name ++ v) = true := by
  rw [namedBy, nameToken, List.append_assoc, List.singleton_append, takeWhile_equals hequals]
  exact beq_self_eq_true name

theorem nameToken_append (name v : Bstr) : nameToken name ++ v = name ++ 0x3D :: v := by
  rw [nameToken, List.append_assoc, List.singleton_append]

/-- INTERNAL: such a parameter belongs to the name. -/
theorem filter_nameToken (hequals : 0x3D ∉ name) (v : Bstr) :
    [nameToken name ++ v].filter (namedBy name) = [nameToken name ++ v] ∧
      [nameToken name ++ v].filter (otherThan name) = [] := by
  have hnamed := namedBy_nameToken hequals v
  have hother : otherThan name (nameToken name ++ v) = false := by
    rw [otherThan, hnamed]
    exact decide_eq_false fun h => h.2 rfl
  rw [List.filter_cons_of_pos hnamed, List.filter_cons_of_neg (by rw [hother]; decide)]
  exact ⟨rfl, rfl⟩

/-- INTERNAL: a parameter of the name, by whether it has a value. -/
theorem namedBy_cases {p : Bstr} (h : namedBy name p = true) :
    0x3D ∉ name ∧ (p = name ∨ ∃ v, p = nameToken name ++ v) := by
  have hname : p.takeWhile (· ≠ 0x3D) = name := beq_iff_eq.mp h
  have hequals : 0x3D ∉ name := by
    intro hmem
    rw [← hname] at hmem
    have hne := List.mem_takeWhile_imp hmem
    exact of_decide_eq_true hne rfl
  refine ⟨hequals, ?_⟩
  have hparts := List.takeWhile_append_dropWhile (p := fun c => decide (c ≠ 0x3D)) (l := p)
  rw [hname] at hparts
  cases hrest : p.dropWhile (· ≠ 0x3D) with
  | nil =>
    rw [hrest, List.append_nil] at hparts
    exact .inl hparts.symm
  | cons c v =>
    have hc : ¬ (c ≠ 0x3D) := by
      intro hne
      have hhead := List.head?_dropWhile_not (fun c => decide (c ≠ 0x3D)) p
      rw [hrest] at hhead
      simp [hne] at hhead
    rw [hrest, not_ne_iff.mp hc] at hparts
    refine .inr ⟨v, ?_⟩
    rw [nameToken, List.append_assoc]
    exact hparts.symm

/-- INTERNAL: a name that a parameter has is plain. -/
theorem isPlain_of_named {s p : Bstr} (hs : 0x23 ∉ s) (hp : p ∈ ampFields (urlQuery s))
    (h : namedBy name p = true) : IsPlain name := by
  obtain ⟨hequals, hcases⟩ := namedBy_cases h
  obtain ⟨hoccurs, hamp⟩ := infix_of_mem_fields hp
  have hsub : name <+: p := by
    rcases hcases with rfl | ⟨v, rfl⟩
    · exact List.prefix_refl p
    · rw [nameToken, List.append_assoc]
      exact List.prefix_append name _
  refine ⟨fun hmem => hamp (hsub.subset hmem), hequals, fun hmem => hs ?_⟩
  have hquery : urlQuery s <:+: s :=
    ((List.tail_suffix _).trans (List.dropWhile_suffix _)).isInfix.trans
      (List.takeWhile_prefix _).isInfix
  exact hquery.subset (hoccurs.subset (hsub.subset hmem))

end Names

/-! ## What is appended -/

section Attached

variable {left : Bstr}

/-- INTERNAL: an id has none of the characters that part a URL. -/
theorem TakenForId.plain (hid : TakenForId id) : 0x26 ∉ id ∧ 0x3D ∉ id ∧ 0x23 ∉ id ∧ 0x3F ∉ id :=
  ⟨hid.notMem rfl, hid.notMem rfl, hid.notMem rfl, hid.notMem rfl⟩

/-- INTERNAL: the parameter that is appended is one part. -/
theorem notMem_parameter (hplain : IsPlain name) (hid : TakenForId id) :
    0x26 ∉ nameToken name ++ id ∧ 0x23 ∉ nameToken name ++ id := by
  obtain ⟨hamp, -, hfragment, -⟩ := hid.plain
  rw [nameToken]
  simp only [List.mem_append, List.mem_singleton, not_or]
  exact ⟨⟨⟨hplain.ampersand, by decide⟩, hamp⟩, ⟨hplain.fragment, by decide⟩, hfragment⟩

/-- INTERNAL: no fragment comes in. -/
theorem notMem_attached (hplain : IsPlain name) (hid : TakenForId id) (hleft : 0x23 ∉ left)
    (u : Bstr) : 0x23 ∉ attached name id u left := by
  rw [attached, List.mem_append, List.mem_append, not_or, not_or]
  refine ⟨hleft, ?_, (notMem_parameter hplain hid).2⟩
  rw [parSeparator]
  split <;> decide

/-- INTERNAL: no NUL comes in. -/
theorem notMem_nul_attached (hnul : 0 ∉ name) (hid : TakenForId id) (hleft : 0 ∉ left) (u : Bstr) :
    (0 : UInt16) ∉ attached name id u left := by
  have hseparator : (0 : UInt16) ∉ parSeparator u := by
    rw [parSeparator]
    split <;> decide
  have hidNul : (0 : UInt16) ∉ id := hid.notMem rfl
  rw [attached]
  simp only [List.mem_append, not_or]
  exact ⟨hleft, hseparator, notMem_nameToken hnul, hidNul⟩

/-- INTERNAL: a parameter more, behind a query. -/
theorem attached_query {p q : Bstr} (hplain : IsPlain name) (hid : TakenForId id) (hu : 0x3F ∈ u)
    (hleft : 0x23 ∉ p ++ 0x3F :: q) (hp : 0x3F ∉ p) :
    urlPath (attached name id u (p ++ 0x3F :: q)) = p ∧
      ampFields (urlQuery (attached name id u (p ++ 0x3F :: q))) =
        ampFields q ++ [nameToken name ++ id] := by
  have hfragment := notMem_attached hplain hid hleft u
  rw [attached, parSeparator, if_pos hu, List.append_assoc, List.cons_append, List.cons_append]
    at hfragment ⊢
  obtain ⟨hpath, hquery⟩ := url_of_append hfragment hp
  rw [hpath, hquery, ampFields, fields_append_cons, fieldsBehind_escape (by decide),
    fields_of_notMem (notMem_parameter hplain hid).1]
  exact ⟨rfl, rfl⟩

/-- INTERNAL: the first parameter. -/
theorem attached_path (hplain : IsPlain name) (hid : TakenForId id) (hu : 0x3F ∉ u)
    (hleft : 0x23 ∉ left) (hpath : 0x3F ∉ left) :
    urlPath (attached name id u left) = left ∧
      ampFields (urlQuery (attached name id u left)) = [nameToken name ++ id] := by
  have hfragment := notMem_attached hplain hid hleft u
  rw [attached, parSeparator, if_neg hu, List.singleton_append] at hfragment ⊢
  obtain ⟨hpath', hquery⟩ := url_of_append hfragment hpath
  rw [hpath', hquery, ampFields, fields_of_notMem (notMem_parameter hplain hid).1]
  exact ⟨rfl, rfl⟩

/-- INTERNAL: `name=` ends with its only `=`. -/
theorem cut_nameToken {s : Bstr} (hequals : 0x3D ∉ name) (hs : ¬ nameToken name <:+: s)
    (t : Bstr) : cut (nameToken name) (s ++ nameToken name ++ t) = some (s, t) := by
  refine cut_eq_some (nameToken_ne_nil name) fun i hi hbegins => hs ?_
  rw [List.append_assoc, List.drop_append_of_le_length (Nat.le_of_lt hi)] at hbegins
  have hne : s.drop i ≠ [] := List.drop_eq_nil_iff.not.mpr (by omega)
  have hoccurs : nameToken name <+: s.drop i := by
    by_cases heq : 0x3D ∈ s.drop i
    · obtain ⟨a, b, hab, ha⟩ := List.eq_append_cons_of_mem heq
      obtain ⟨z, hz⟩ := hbegins
      rw [hab, nameToken, List.append_assoc, List.append_assoc, List.singleton_append,
        List.cons_append] at hz
      have hname : name = a := by
        have htake := congrArg (List.takeWhile fun c => decide (c ≠ 0x3D)) hz
        rwa [takeWhile_equals hequals, takeWhile_equals ha] at htake
      rw [hab, nameToken, hname]
      exact ⟨b, by rw [List.append_assoc]; rfl⟩
    · obtain ⟨z, hz⟩ := hbegins
      rw [nameToken, List.append_assoc, List.append_assoc, ← List.append_assoc (s.drop i)] at hz
      have htake := congrArg (List.takeWhile fun c => decide (c ≠ 0x3D)) hz
      have hlong : 0x3D ∉ s.drop i ++ name := by
        rw [List.mem_append, not_or]
        exact ⟨heq, hequals⟩
      rw [List.singleton_append, List.singleton_append, takeWhile_equals hequals,
        takeWhile_equals hlong] at htake
      have hlength := congrArg List.length htake
      rw [List.length_append] at hlength
      exact absurd (List.length_eq_zero_iff.mp (by omega)) hne
  exact hoccurs.isInfix.trans (List.drop_suffix i s).isInfix

/-- INTERNAL: text without `=` behind a text completes no `name=`. -/
theorem not_infix_append {s t : Bstr} (hs : ¬ nameToken name <:+: s) (ht : 0x3D ∉ t) :
    ¬ nameToken name <:+: s ++ t := by
  rintro ⟨a, b, hab⟩
  rw [nameToken, ← List.append_assoc, List.append_assoc (a ++ name)] at hab
  rcases List.append_eq_append_iff.mp hab with ⟨w, hw, hb⟩ | ⟨w, -, hb⟩
  · cases w with
    | nil =>
      rw [List.nil_append] at hb
      exact ht (hb ▸ List.mem_append_left b (List.mem_singleton_self _))
    | cons c w =>
      obtain ⟨rfl, rfl⟩ := List.cons.inj (hb : 0x3D :: b = c :: (w ++ t))
      exact hs ⟨a, w, by rw [hw, nameToken]; simp only [List.append_assoc, List.singleton_append]⟩
  · refine ht (hb ▸ ?_)
    exact List.mem_append_right w (List.mem_append_left b (List.mem_singleton_self _))

/-- INTERNAL: the name that was appended is found. -/
theorem cut_attached (hequals : 0x3D ∉ name) (hleft : ¬ nameToken name <:+: left) (u : Bstr) :
    cut (nameToken name) (attached name id u left) = some (left ++ parSeparator u, id) := by
  have hseparator : 0x3D ∉ parSeparator u := by
    rw [parSeparator]
    split <;> decide
  have hcut := cut_nameToken hequals (not_infix_append hleft hseparator) id
  rwa [List.append_assoc, List.append_assoc] at hcut

end Attached

/-! ## The characters that are taken for the value -/

/-- INTERNAL: thirty-two digits stand in one part, and no `amp;` goes through them. -/
theorem exists_ampFields_window (a : Bstr) : ∃ init g, ampFields a = init ++ [g] ∧
    ∀ t m tail, TakenForId t → 0x26 ∉ m → (∀ c ∈ tail.head?, c = 0x26) →
      ampFields (a ++ (t ++ (m ++ tail))) = init ++ [g ++ (t ++ m)] ++ (ampFields tail).tail := by
  have hone : ∀ t m, TakenForId t → 0x26 ∉ m → 0x26 ∉ t ++ m := by
    intro t m ht hm
    rw [List.mem_append, not_or]
    exact ⟨ht.plain.1, hm⟩
  obtain ⟨init, last, ⟨hfields, hmore⟩ | ⟨hfields, hmore⟩⟩ :=
    exists_fields_append 0x26 ampEscape a
  · refine ⟨init, last, hfields, fun t m tail ht hm htail => ?_⟩
    rw [← List.append_assoc t, ← List.append_assoc a, ampFields, fields_append htail,
      hmore _ (hone t m ht hm)]
    rfl
  · refine ⟨init, dropEscape ampEscape last, hfields, fun t m tail ht hm htail => ?_⟩
    have hescape : ampEscape = [0x61, 0x6D, 0x70] ++ [0x3B] := rfl
    have hlong : ([0x61, 0x6D, 0x70] : Bstr).length < t.length := by rw [ht.1]; decide
    rw [← List.append_assoc t, ← List.append_assoc a, ampFields, fields_append htail,
      hmore _ (hone t m ht hm), hescape, dropEscape_append (ht.notMem rfl) hlong]
    rfl

/-! ## The condition is enough -/

section Enough

variable (hexact : SearchesExactly loc name) (hnul : 0 ∉ name) (hid : TakenForId id)
include hexact hnul hid

/-- INTERNAL: a text with the id where it is looked for stays. -/
theorem getURL_fixed {r : Bstr} (hr : FitsBstr r) (hrNul : 0 ∉ r)
    (hcut : cut (nameToken name) r = some (before, rest)) (hvalue : valueWindow name rest = id) :
    NWCSession.getURL loc name id r = .ok r := by
  have hparts : r = before ++ (nameToken name ++ rest) := by
    rw [eq_of_cut hcut, List.append_assoc]
  have hsmall : name.length + 1 < 2 ^ 31 := by
    rw [hparts] at hr
    rw [FitsBstr, List.length_append, List.length_append, length_nameToken] at hr
    omega
  have hdrop : (nameToken name ++ rest).drop 37 = ((nameToken name ++ rest).drop 5).drop 32 := by
    rw [List.drop_drop]
  rw [getURL_taken hexact hnul hrNul hsmall hid hcut hr (hvalue ▸ hid)]
  conv_lhs => rw [← hvalue, valueWindow, hdrop, List.take_append_drop, List.take_append_drop]
  rw [← hparts]

variable (huNul : 0 ∉ u)
include huNul

/-- INTERNAL: the id is there already. -/
theorem rewritesUrl_kept (hu : FitsBstr u)
    (hcut : cut (nameToken name) u = some (before, rest)) (hvalue : valueWindow name rest = id)
    (hone : namedParameters name u = [nameToken name ++ id]) : RewritesUrl loc name id u := by
  have hfixed := getURL_fixed hexact hnul hid hu huNul hcut hvalue
  exact ⟨u, hfixed, ⟨rfl, by rw [← nameToken_append]; exact hone, rfl⟩, hfixed⟩

variable (hname : name ≠ []) (hurl : 0x23 ∉ u)
include hname hurl

/-- INTERNAL: the id is appended to a text without the name. -/
theorem rewritesUrl_absent (hcut : cut (nameToken name) u = none) (hplain : IsPlain name)
    (hvalue : valueWindow name id = id) (hnone : namedParameters name u = [])
    (hfits : FitsBstr (attached name id u u)) : RewritesUrl loc name id u := by
  have hsmall : name.length + 1 < 2 ^ 31 := by
    have hlong := hfits
    rw [attached, FitsBstr] at hlong
    simp only [List.length_append, length_nameToken] at hlong
    omega
  have hnot : ¬ nameToken name <:+: u := (cut_eq_none_iff (nameToken_ne_nil name)).mp hcut
  refine ⟨attached name id u u, getURL_absent hexact hnul huNul hsmall hid hcut hfits, ?_,
    getURL_fixed hexact hnul hid hfits (notMem_nul_attached hnul hid huNul u)
      (cut_attached hplain.equals hnot u) hvalue⟩
  rw [namedParameters, (parameters_readAmp hname hurl).1] at hnone
  rw [carries_iff hname hurl (notMem_attached hplain hid hurl u)]
  obtain ⟨hnamed, hother⟩ := filter_nameToken hplain.equals id
  rw [← nameToken_append]
  rcases url_cases hurl with ⟨hno, hpath, hquery⟩ | ⟨p, q, rfl, hp, hpath, hquery⟩
  · obtain ⟨hpath', hquery'⟩ := attached_path hplain hid hno hurl hno
    rw [hpath', hquery', hpath, hquery]
    exact ⟨rfl, hnamed, hother⟩
  · have hquestion : 0x3F ∈ p ++ 0x3F :: q := List.mem_append_right p List.mem_cons_self
    obtain ⟨hpath', hquery'⟩ := attached_query hplain hid hquestion hurl hp
    rw [hpath', hquery', hpath, hquery]
    rw [hquery] at hnone
    refine ⟨rfl, ?_, ?_⟩
    · rw [List.filter_append, hnone, hnamed, List.nil_append]
    · rw [List.filter_append, hother, List.append_nil]

/-- INTERNAL: another id is the value of the one parameter. -/
theorem rewritesUrl_replaced (hu : FitsBstr u)
    (hcut : cut (nameToken name) u = some (before, rest)) (hlength : name.length ≤ 4)
    (hvalue : TakenForId (valueWindow name rest))
    (hplace : (ampFields (urlQuery (before ++ (nameToken name ++ rest).take 5))).getLast? =
      some (nameToken name))
    (hend : ∀ c ∈ ((nameToken name ++ rest).drop 37).head?, c = 0x26)
    (hone : (namedParameters name u).length = 1) : RewritesUrl loc name id u := by
  have hlong := hvalue.1
  rw [valueWindow, List.length_take, List.length_drop] at hlong
  -- the text around the value
  generalize hhead : (nameToken name ++ rest).take 5 = head at hplace
  generalize htail : (nameToken name ++ rest).drop 37 = tail at hend
  generalize hwindow : valueWindow name rest = window at hvalue
  have hparts : nameToken name ++ rest = head ++ (window ++ tail) := by
    have hdrop : tail = ((nameToken name ++ rest).drop 5).drop 32 := by rw [List.drop_drop, ← htail]
    rw [hdrop, ← hwindow, valueWindow, List.take_append_drop, ← hhead, List.take_append_drop]
  have hu' : u = before ++ head ++ (window ++ tail) := by
    rw [eq_of_cut hcut, List.append_assoc, hparts, List.append_assoc]
  have hheadLength : head.length = 5 := by
    rw [← hhead, List.length_take]
    omega
  have hrun : NWCSession.getURL loc name id u = .ok (before ++ head ++ (id ++ tail)) := by
    have hsmall : name.length + 1 < 2 ^ 31 := by omega
    rw [getURL_taken hexact hnul huNul hsmall hid hcut hu (hwindow ▸ hvalue), hhead, htail,
      List.append_assoc]
  have hone' := hone
  rw [namedParameters, (parameters_readAmp hname hurl).1] at hone'
  have hplain : IsPlain name := by
    obtain ⟨p, hp⟩ := List.exists_mem_of_length_pos (by omega : 0 < ((ampFields
      (urlQuery u)).filter (namedBy name)).length)
    exact isPlain_of_named hurl (List.mem_filter.mp hp).1 (List.mem_filter.mp hp).2
  -- the second call
  have hfixed : NWCSession.getURL loc name id (before ++ head ++ (id ++ tail)) =
      .ok (before ++ head ++ (id ++ tail)) := by
    have hhead' : head = nameToken name ++ rest.take (4 - name.length) := by
      rw [← hhead, List.take_append, List.take_of_length_le (by rw [length_nameToken]; omega),
        length_nameToken, show 5 - (name.length + 1) = 4 - name.length by omega]
    have hcut' := cut_congr (nameToken_ne_nil name) hcut
      (rest.take (4 - name.length) ++ (id ++ tail))
    have hshape : before ++ nameToken name ++ (rest.take (4 - name.length) ++ (id ++ tail)) =
        before ++ head ++ (id ++ tail) := by
      rw [hhead']
      simp only [List.append_assoc]
    rw [hshape] at hcut'
    refine getURL_fixed hexact hnul hid ?_ ?_ hcut' ?_
    · rw [hu', FitsBstr] at hu
      rw [FitsBstr]
      simp only [List.length_append, hvalue.1, hid.1] at hu ⊢
      exact hu
    · rw [hu'] at huNul
      have hidNul : (0 : UInt16) ∉ id := hid.notMem rfl
      simp only [List.mem_append, not_or] at huNul ⊢
      exact ⟨huNul.1, hidNul, huNul.2.2⟩
    · rw [valueWindow, ← List.append_assoc, ← hhead', ← hheadLength, List.drop_left, ← hid.1,
        List.take_left]
  refine ⟨_, hrun, ?_, hfixed⟩
  -- the parts of both texts
  have hfragment : 0x23 ∉ before ++ head ++ (id ++ tail) := by
    rw [hu'] at hurl
    simp only [List.mem_append, not_or] at hurl ⊢
    exact ⟨hurl.1, hid.plain.2.2.1, hurl.2.2⟩
  have hfront : 0x23 ∉ before ++ head := fun hmem => hfragment (List.mem_append_left _ hmem)
  rcases url_cases hfront with ⟨-, -, hquery⟩ | ⟨p, q, hpq, hp, -, hquery⟩
  · rw [hquery, ampFields, fields_of_notMem List.not_mem_nil] at hplace
    exact absurd (Option.some.inj hplace).symm (nameToken_ne_nil name)
  · obtain ⟨init, g, hfields, hparameter⟩ := exists_ampFields_window q
    rw [hquery, hfields, List.getLast?_append_of_ne_nil _ (List.cons_ne_nil _ _)] at hplace
    obtain rfl : g = nameToken name := Option.some.inj hplace
    have hsplit : ∀ t, TakenForId t → 0x23 ∉ before ++ head ++ (t ++ tail) →
        urlPath (before ++ head ++ (t ++ tail)) = p ∧
          ampFields (urlQuery (before ++ head ++ (t ++ tail))) =
            init ++ [nameToken name ++ t] ++ (ampFields tail).tail := by
      intro t ht hno
      rw [hpq, List.append_assoc, List.cons_append] at hno ⊢
      obtain ⟨hpath, hquery'⟩ := url_of_append hno hp
      have hlast := hparameter t [] tail ht List.not_mem_nil hend
      rw [List.nil_append, List.append_nil] at hlast
      rw [hpath, hquery', hlast]
      exact ⟨rfl, rfl⟩
    obtain ⟨hpath, hparts'⟩ := hsplit id hid hfragment
    obtain ⟨hpathU, hpartsU⟩ := hsplit window hvalue (hu' ▸ hurl)
    obtain ⟨hnamed, hother⟩ := filter_nameToken hplain.equals id
    obtain ⟨hnamedU, hotherU⟩ := filter_nameToken hplain.equals window
    rw [hu', hpartsU, List.filter_append, List.filter_append, hnamedU, List.length_append,
      List.length_append, List.length_singleton] at hone'
    have hbefore := List.length_eq_zero_iff.mp (by omega : (init.filter (namedBy name)).length = 0)
    have hbehind := List.length_eq_zero_iff.mp
      (by omega : ((ampFields tail).tail.filter (namedBy name)).length = 0)
    rw [carries_iff hname hurl hfragment, hpath, hparts', hu', hpathU, hpartsU, ← nameToken_append]
    simp only [List.filter_append, hnamed, hother, hotherU, hbefore, hbehind, List.nil_append,
      List.append_nil, and_self]

/-- INTERNAL: a short value is cut out of the query. -/
theorem rewritesUrl_cutOut {pre : Bstr} (hu : FitsBstr u)
    (hcut : cut (nameToken name) u = some (pre ++ [0x26], rest)) (hlength : name.length = 4)
    (hescape : name ≠ ampEscape) (hquestion : 0x3F ∈ pre)
    (hshort : (nameToken name ++ rest).length < 37)
    (hfirst : ¬ nameToken name <:+: rest.dropWhile (· ≠ 0x26))
    (hone : (namedParameters name u).length = 1)
    (hfits : FitsBstr (attached name id u (pre ++ rest.dropWhile (· ≠ 0x26)))) :
    RewritesUrl loc name id u := by
  rw [namedParameters, (parameters_readAmp hname hurl).1] at hone
  have hplain : IsPlain name := by
    obtain ⟨p, hp⟩ := List.exists_mem_of_length_pos (by omega : 0 < ((ampFields
      (urlQuery u)).filter (namedBy name)).length)
    exact isPlain_of_named hurl (List.mem_filter.mp hp).1 (List.mem_filter.mp hp).2
  have hroom : pre.length + 38 < 2 ^ 31 := by
    have hseparator : 0 < (parSeparator u).length := by
      rw [parSeparator]
      split <;> decide
    rw [attached, FitsBstr] at hfits
    simp only [List.length_append, length_nameToken, hid.1] at hfits
    omega
  have hrun := getURL_cutOut hexact hnul huNul (by omega) hid hplain.ampersand hcut hu hroom hshort
    hfits
  -- what stands before the value, the value and what stands behind it
  generalize hmid : rest.takeWhile (· ≠ 0x26) = mid
  generalize hpost : rest.dropWhile (· ≠ 0x26) = post at hfirst hfits hrun
  have hrest : rest = mid ++ post := by
    rw [← hmid, ← hpost, List.takeWhile_append_dropWhile]
  have hmidAmp : 0x26 ∉ mid := by
    rw [← hmid]
    intro hmem
    have hne := List.mem_takeWhile_imp hmem
    exact of_decide_eq_true hne rfl
  have hpostAmp : ∀ c ∈ post.head?, c = 0x26 := by
    intro c hc
    have hhead := List.head?_dropWhile_not (fun c => decide (c ≠ 0x26)) rest
    rw [hpost, Option.mem_def.mp hc] at hhead
    simpa using hhead
  obtain ⟨p, q, rfl, hp⟩ := List.eq_append_cons_of_mem hquestion
  have hu' : u = p ++ 0x3F :: (q ++ 0x26 :: (nameToken name ++ mid ++ post)) := by
    rw [eq_of_cut hcut, hrest]
    simp only [List.append_assoc, List.cons_append, List.nil_append]
  have hquestionU : 0x3F ∈ u := by
    rw [hu']
    exact List.mem_append_right p List.mem_cons_self
  have hleft : 0x23 ∉ p ++ 0x3F :: q ++ post := by
    rw [hu'] at hurl
    simp only [List.mem_append, List.mem_cons, not_or] at hurl ⊢
    exact ⟨⟨hurl.1, hurl.2.1, hurl.2.2.1⟩, hurl.2.2.2.2.2⟩
  -- the second call
  have hampToken : 0x26 ∉ nameToken name := by
    rw [nameToken, List.mem_append, not_or]
    exact ⟨hplain.ampersand, by decide⟩
  have hnotPre : ¬ nameToken name <:+: p ++ 0x3F :: q := fun hoccurs =>
    not_infix_of_cut (nameToken_ne_nil name) hcut (hoccurs.trans (List.prefix_append _ _).isInfix)
  have hnotLeft : ¬ nameToken name <:+: p ++ 0x3F :: q ++ post := by
    cases post with
    | nil => rwa [List.append_nil]
    | cons c b =>
      obtain rfl := hpostAmp c rfl
      intro hoccurs
      rcases infix_append_cons hampToken hoccurs with hoccurs | hoccurs
      · exact hnotPre hoccurs
      · exact hfirst (hoccurs.trans (List.suffix_cons _ b).isInfix)
  have hvalue : valueWindow name id = id := by
    have hfive : (nameToken name).length = 5 := by rw [length_nameToken, hlength]
    rw [valueWindow, ← hfive, List.drop_left, ← hid.1, List.take_length]
  refine ⟨_, hrun, ?_, getURL_fixed hexact hnul hid hfits (notMem_nul_attached hnul hid ?_ u)
    (cut_attached hplain.equals hnotLeft u) hvalue⟩
  · have hnotEscape : ¬ ampEscape <+: nameToken name ++ mid := by
      intro hbegins
      rw [nameToken, List.append_assoc] at hbegins
      have hsame := List.prefix_of_prefix_length_le hbegins (List.prefix_append name _)
        (le_of_eq hlength.symm)
      exact hescape (hsame.eq_of_length hlength.symm).symm
    have hone' : 0x26 ∉ nameToken name ++ mid := by
      rw [List.mem_append, not_or]
      exact ⟨hampToken, hmidAmp⟩
    have hpartsU : ampFields (q ++ 0x26 :: (nameToken name ++ mid ++ post)) =
        ampFields q ++ ([nameToken name ++ mid] ++ (ampFields post).tail) := by
      rw [ampFields, fields_append_cons, fieldsBehind_append hpostAmp, fieldsBehind_of_notMem hone',
        dropEscape, if_neg hnotEscape]
      rfl
    have hparts : ampFields (q ++ post) = ampFields q ++ (ampFields post).tail :=
      fields_append hpostAmp _ _
    rw [List.append_assoc, List.cons_append] at hleft ⊢
    obtain ⟨hpath, hquery⟩ := attached_query hplain hid hquestionU hleft hp
    obtain ⟨hpathU, hqueryU⟩ := url_of_append (hu' ▸ hurl) hp
    rw [← hu'] at hpathU hqueryU
    obtain ⟨hnamed, hother⟩ := filter_nameToken hplain.equals id
    obtain ⟨hnamedU, hotherU⟩ := filter_nameToken hplain.equals mid
    rw [hqueryU, hpartsU, List.filter_append, List.filter_append, hnamedU, List.length_append,
      List.length_append, List.length_singleton] at hone
    have hbefore := List.length_eq_zero_iff.mp
      (by omega : ((ampFields q).filter (namedBy name)).length = 0)
    have hbehind := List.length_eq_zero_iff.mp
      (by omega : ((ampFields post).tail.filter (namedBy name)).length = 0)
    rw [carries_iff hname hurl (notMem_attached hplain hid hleft u), hpath, hquery, hpathU, hqueryU,
      hparts, hpartsU, ← nameToken_append]
    simp only [List.filter_append, hnamed, hother, hotherU, hbefore, hbehind, List.nil_append,
      List.append_nil, and_self]
  · rw [hu'] at huNul
    simp only [List.mem_append, List.mem_cons, not_or] at huNul ⊢
    exact ⟨⟨huNul.1, huNul.2.1, huNul.2.2.1⟩, huNul.2.2.2.2.2⟩

/-- INTERNAL: a name of one letter and `=`. -/
theorem rewritesUrl_lone (hlength : name.length = 1) (hplain : IsPlain name)
    (hquestion : 0x3F ∉ name) (hu : u = nameToken name) : RewritesUrl loc name id u := by
  have hcut : cut (nameToken name) u = some ([], []) := by
    rw [hu]
    exact cut_self (nameToken_ne_nil name)
  have hlengthU : u.length = 2 := by rw [hu, length_nameToken, hlength]
  have hno : 0x3F ∉ u := by
    rw [hu, nameToken, List.mem_append, not_or]
    exact ⟨hquestion, by decide⟩
  have hshape : attached name id u u = u ++ ([0x3F] ++ (nameToken name ++ id)) := by
    rw [attached, parSeparator, if_neg hno]
  have hfits : FitsBstr (attached name id u u) := by
    rw [hshape, FitsBstr]
    simp only [List.length_append, length_nameToken, hlength, hlengthU, hid.1]
    decide
  have hrun := getURL_first hexact hnul huNul (by omega) hid hcut
    (by rw [List.length_append, length_nameToken, hlength]; decide) hfits
  refine ⟨_, hrun, ?_, ?_⟩
  · obtain ⟨hpath, hquery⟩ := url_of_notMem hurl hno
    obtain ⟨hpath', hquery'⟩ := attached_path hplain hid hno hurl hno
    obtain ⟨hnamed, hother⟩ := filter_nameToken hplain.equals id
    rw [carries_iff hname hurl (notMem_attached hplain hid hurl u), hpath, hquery, hpath', hquery',
      ← nameToken_append]
    exact ⟨rfl, hnamed, hother⟩
  · have hcut' := cut_append hcut ([0x3F] ++ (nameToken name ++ id))
    rw [← hshape] at hcut'
    refine getURL_fixed hexact hnul hid hfits (notMem_nul_attached hnul hid huNul u) hcut' ?_
    have hfive : (nameToken name ++ ([0x3F] ++ nameToken name)).length = 5 := by
      simp only [List.length_append, length_nameToken, hlength]
      rfl
    rw [valueWindow, List.nil_append, ← List.append_assoc, ← List.append_assoc,
      List.append_assoc (nameToken name), ← hfive, List.drop_left, ← hid.1, List.take_length]

end Enough

end IspSession.Analysis
