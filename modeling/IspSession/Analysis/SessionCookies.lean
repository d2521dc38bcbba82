import IspSession.Analysis.CookieSplitting
import IspSession.Analysis.UrlDefects

/-!
# What is read of the session cookie

A cookie is taken apart at every `=`, and only one with a name and a value is looked at. So a value
with `=` in it, as every value with keys has, is passed over, and the next cookie of that name is
selected, or none. The cookie that `Flush` writes has no `=` in its value.
-/

set_option autoImplicit false

namespace IspSession.Analysis

open IspSession.Library IspSession.Model IspSession.Model.CComBSTR2

variable {loc : Collation} {token : Bstr}

/-! ## The claim -/

/-- A cookie as it stands in a header. -/
structure Cookie where
  name : Bstr
  value : Bstr
  name_plain : ∀ c ∈ name, c ≠ 0x3D ∧ c ≠ 0x3B ∧ c ≠ 0
  value_plain : ∀ c ∈ value, c ≠ 0x3B ∧ c ≠ 0

/-- `name=value`. -/
def Cookie.text (cookie : Cookie) : Bstr := cookie.name ++ [0x3D] ++ cookie.value

/-- A line of the header `Cookie`. -/
def cookieLine (cookies : List Cookie) : Bstr := [0x3B, 0x20].intercalate (cookies.map Cookie.text)

/-- The lines as `HTTP_COOKIE` has them. -/
def cookieLines (lines : List (List Cookie)) : Option (List Bstr) := some (lines.map cookieLine)

/-- The first cookie of a name. -/
def firstNamed (token : Bstr) (cookies : List Cookie) : Option Cookie :=
  cookies.find? fun cookie => cookie.name == token

/-- The classic form `k1=w1&…&km=wm`. -/
structure Classic (loc : Collation) (value : Bstr) (pairs : List (Bstr × Bstr)) : Prop where
  several : 2 ≤ pairs.length
  plain : ∀ pair ∈ pairs, ∀ c ∈ pair.1 ++ pair.2, c ≠ 0x3D ∧ c ≠ 0x26
  apart : pairs.Pairwise fun a b => loc.compare a.1 b.1 ≠ .eq
  value_eq : value = [0x26].intercalate (pairs.map fun pair => pair.1 ++ [0x3D] ++ pair.2)

/-- A value is answered: a plain text as it is, one in the classic form by its keys. -/
structure Answers (pReadCookie : ReadSessionCookie loc) (value : Bstr) : Prop where
  selected : pReadCookie.m_CookieValue = value
  plain : (∀ pairs, ¬ Classic loc value pairs) →
    pReadCookie.getItem .missing = (.sOk, some value)
  hasKeys : ∀ pairs, Classic loc value pairs → pReadCookie.getHasKeys = true
  count : ∀ pairs, Classic loc value pairs → pReadCookie.getCount = pairs.length
  byKey : ∀ pairs, Classic loc value pairs → ∀ pair ∈ pairs,
    pReadCookie.getItem (.bstr pair.1) = (.sOk, some pair.2)
  byIndex : ∀ pairs, Classic loc value pairs → ∀ index : ℕ, 1 ≤ index → index ≤ pairs.length →
    ∃ pair ∈ pairs, pReadCookie.getItem (.i4 index) = (.sOk, some pair.2)

/-- `NWCSession::Initialize` comes to the id, when there is none in the query string that is looked
at first. -/
def ObtainsId (loc : Collation) (httpCookie : Option (List Bstr)) (token id : Bstr) : Prop :=
  ∀ blnSnifQueryStringFirst vitem strGUID,
    (blnSnifQueryStringFirst = true →
      (NWCSession.readCookieFromQueryString vitem false strGUID).1 = false) →
    NWCSession.initializeGuid loc blnSnifQueryStringFirst vitem httpCookie token false strGUID =
      .ok (false, id)

/-- The cookie in a header `Set-Cookie`. -/
def cookiePair (header : Bstr) : Bstr := header.takeWhile (· ≠ 0x3B)

/-- The cookies of a request are read as they are meant, and the one that has been written is read
back. -/
structure ReadsBack (loc : Collation) (token : Bstr) (lines : List (List Cookie)) : Prop where
  none_of : firstNamed token lines.flatten = none →
    ∃ hr, ReadSessionCookie.initializeFrom (cookieLines lines) token =
      .ok (hr, (.new : ReadSessionCookie loc)) ∧ hr ≠ .sOk
  selects : ∀ cookie, firstNamed token lines.flatten = some cookie →
    ∃ pReadCookie : ReadSessionCookie loc,
      ReadSessionCookie.initializeFrom (cookieLines lines) token = .ok (.sOk, pReadCookie) ∧
        Answers pReadCookie cookie.value
  obtains : ∀ cookie, firstNamed token lines.flatten = some cookie →
    (isHexNotation cookie.value = true →
      ObtainsId loc (cookieLines lines) token cookie.value) ∧
    ∀ pairs, Classic loc cookie.value pairs → (∀ pair ∈ pairs, isHexNotation pair.2 = true) →
      ∃ pair ∈ pairs, ObtainsId loc (cookieLines lines) token pair.2
  written : ∀ (cookie : Cookie) (pWriteCookie : WriteSessionCookie) (header : Bstr),
    pWriteCookie.m_CookieKey = token → pWriteCookie.m_CookieValue = cookie.value →
    cookie.name = token → isHexNotation cookie.value = true → FitsBstr cookie.text →
    pWriteCookie.flush = .ok header →
    cookiePair header = cookie.text ∧ ∀ before behind,
      FitsBstr (cookieLine (before ++ cookie :: behind)) →
      firstNamed token before = none →
      (∃ pReadCookie : ReadSessionCookie loc,
        ReadSessionCookie.initializeFrom (cookieLines [before ++ cookie :: behind]) token =
            .ok (.sOk, pReadCookie) ∧
          pReadCookie.getItem .missing = (.sOk, some cookie.value)) ∧
        ObtainsId loc (cookieLines [before ++ cookie :: behind]) token cookie.value

/-- The separators are found where they are. -/
structure SplitsExactly (loc : Collation) : Prop where
  cookies : FoundExactly loc [0x3B, 0x20]
  value : FoundExactly loc [0x3D]
  pairs : FoundExactly loc [0x26]

/-! ## One cookie -/

/-- INTERNAL: a part without `=` is no pair. -/
theorem readPairs_eq (hloc : SplitsExactly loc) {lines : List Bstr}
    (h : ∀ line ∈ lines, FitsBstr line ∧ 0x3D ∉ line) (dictionary : OrderedMap loc.compare Bstr) :
    ReadSessionCookie.readPairs lines dictionary = .ok dictionary := by
  induction lines with
  | nil => rfl
  | cons line lines ih =>
    obtain ⟨hfits, hnot⟩ := h line List.mem_cons_self
    have hrest := ih fun other hother => h other (List.mem_cons_of_mem line hother)
    rw [ReadSessionCookie.readPairs]
    by_cases hne : line = []
    · rw [hne, CComBSTR2.split, if_pos rfl]
      exact hrest
    · rw [split_eq hloc.value hfits hne, pieces_of_notMem (List.mem_singleton_self _) hnot]
      exact hrest

/-- INTERNAL: a value without `=` has no keys. -/
theorem readValue_eq (hloc : SplitsExactly loc) {value : Bstr} (hfits : FitsBstr value)
    (hnot : 0x3D ∉ value) (pReadCookie : ReadSessionCookie loc) :
    ReadSessionCookie.readValue value pReadCookie = .ok ⟨pReadCookie.dictionary, value⟩ := by
  have hindex := indexOf_exactly hloc.pairs [] value
  rw [List.nil_append, List.length_nil] at hindex
  rw [ReadSessionCookie.readValue, hindex]
  cases hcut : cut [0x26] value with
  | none => rfl
  | some parts =>
    have hne : value ≠ [] := by
      rintro rfl
      cases hcut
    have hpieces : ∀ line ∈ pieces [0x26] value, FitsBstr line ∧ 0x3D ∉ line := by
      intro line hline
      have hin := infix_of_mem_pieces hloc.pairs.ne_nil hline
      exact ⟨lt_of_le_of_lt hin.length_le hfits, fun hmem => hnot (hin.subset hmem)⟩
    rw [Option.map_some, Nat.zero_add]
    split
    · rw [split_eq hloc.pairs hfits hne]
      dsimp only [bind, Except.bind]
      rw [readPairs_eq hloc hpieces]
    · rfl

/-- INTERNAL: there is at least the `=`. -/
theorem text_ne_nil (cookie : Cookie) : cookie.text ≠ [] := by
  rw [Cookie.text, List.append_assoc]
  exact List.append_ne_nil_of_right_ne_nil _ (List.cons_ne_nil _ _)

/-- INTERNAL: a name and a value are two pieces exactly if the value has no `=`. -/
theorem split_text (hloc : SplitsExactly loc) (cookie : Cookie) (hfits : FitsBstr cookie.text) :
    CComBSTR2.split loc cookie.text [0x3D] true =
      .ok (cookie.name :: pieces [0x3D] cookie.value) := by
  have hname : (0x3D : UInt16) ∉ cookie.name := fun hmem => (cookie.name_plain _ hmem).1 rfl
  rw [split_eq hloc.value hfits (text_ne_nil cookie), Cookie.text, pieces_append hname]

/-- INTERNAL: names have no NUL. -/
theorem zeroTerminated_name (cookie : Cookie) : zeroTerminated cookie.name = cookie.name :=
  zeroTerminated_eq fun hmem => (cookie.name_plain _ hmem).2.2 rfl

/-- INTERNAL: nor have values. -/
theorem zeroTerminated_value (cookie : Cookie) : zeroTerminated cookie.value = cookie.value :=
  zeroTerminated_eq fun hmem => (cookie.value_plain _ hmem).2 rfl

/-- INTERNAL: a cookie has no `;`. -/
theorem notMem_text (cookie : Cookie) : (0x3B : UInt16) ∉ cookie.text := by
  intro hmem
  rw [Cookie.text, List.mem_append, List.mem_append, List.mem_singleton] at hmem
  rcases hmem with (hmem | hmem) | hmem
  · exact (cookie.name_plain _ hmem).2.1 rfl
  · cases hmem
  · exact (cookie.value_plain _ hmem).1 rfl

/-! ## The header -/

/-- The first cookie of a name with a value without `=`. -/
def firstPlain (token : Bstr) (cookies : List Cookie) : Option Cookie :=
  cookies.find? fun cookie => cookie.name == token && !cookie.value.contains 0x3D

/-- **A line is searched for the first cookie of that name with a value without `=`.** -/
theorem readCookies_eq (hloc : SplitsExactly loc) {cookies : List Cookie}
    (hfits : ∀ cookie ∈ cookies, FitsBstr cookie.text) (pReadCookie : ReadSessionCookie loc) :
    ReadSessionCookie.readCookies token (cookies.map Cookie.text) pReadCookie =
      .ok ((firstPlain token cookies).map fun cookie => ⟨pReadCookie.dictionary, cookie.value⟩) := by
  induction cookies with
  | nil => rfl
  | cons cookie cookies ih =>
    have htext := hfits cookie List.mem_cons_self
    have hrest := ih fun other hother => hfits other (List.mem_cons_of_mem cookie hother)
    rw [List.map_cons, ReadSessionCookie.readCookies, split_text hloc cookie htext, firstPlain,
      List.find?_cons]
    rw [firstPlain] at hrest
    by_cases hequal : (0x3D : UInt16) ∈ cookie.value
    · obtain ⟨a, b, hvalue, ha⟩ := List.eq_append_cons_of_mem hequal
      have hpieces : pieces [0x3D] cookie.value = a :: pieces [0x3D] b := by
        have happend := pieces_append (t := []) ha b
        rwa [List.append_assoc, List.singleton_append, ← hvalue] at happend
      obtain ⟨piece, more, hmore⟩ := List.exists_cons_of_ne_nil (pieces_ne_nil [0x3D] b)
      rw [hpieces, hmore, List.contains_iff_mem.mpr hequal, Bool.not_true, Bool.and_false]
      exact hrest
    · have hvalue : FitsBstr cookie.value := by
        refine lt_of_le_of_lt ?_ htext
        rw [Cookie.text, List.length_append]
        exact Nat.le_add_left _ _
      have hcontains : cookie.value.contains 0x3D = false :=
        Bool.eq_false_iff.mpr (mt List.contains_iff_mem.mp hequal)
      rw [pieces_of_notMem (List.mem_singleton_self _) hequal, hcontains, Bool.not_false,
        Bool.and_true]
      dsimp only [bind, Except.bind]
      rw [zeroTerminated_name]
      by_cases hname : cookie.name = token
      · rw [if_pos hname, readValue_eq hloc hvalue hequal, beq_iff_eq.mpr hname]
        rfl
      · rw [if_neg hname, beq_eq_false_iff_ne.mpr hname]
        exact hrest

/-- INTERNAL: what a line is made of fits in a text if the line does. -/
theorem fits_text {cookies : List Cookie} (h : FitsBstr (cookieLine cookies)) :
    ∀ cookie ∈ cookies, FitsBstr cookie.text := by
  intro cookie hcookie
  have hin : cookie.text <:+: cookieLine cookies :=
    infix_intercalate_of_mem (List.mem_map_of_mem hcookie)
  exact lt_of_le_of_lt hin.length_le h

/-- **The lines are searched one after the other.** -/
theorem readHeaders_eq (hloc : SplitsExactly loc) {lines : List (List Cookie)}
    (hfits : ∀ cookies ∈ lines, FitsBstr (cookieLine cookies))
    (pReadCookie : ReadSessionCookie loc) :
    ReadSessionCookie.readHeaders token (lines.map cookieLine) pReadCookie =
      .ok ((firstPlain token lines.flatten).map
        fun cookie => ⟨pReadCookie.dictionary, cookie.value⟩) := by
  induction lines with
  | nil => rfl
  | cons cookies lines ih =>
    have hline := hfits cookies List.mem_cons_self
    have hrest := ih fun other hother => hfits other (List.mem_cons_of_mem cookies hother)
    have hsplit : CComBSTR2.split loc (cookieLine cookies) [0x3B, 0x20] true =
        .ok (cookies.map Cookie.text) := by
      cases cookies with
      | nil => rfl
      | cons cookie cookies =>
        have hin : cookie.text <:+: cookieLine (cookie :: cookies) :=
          infix_intercalate_of_mem (List.mem_map_of_mem List.mem_cons_self)
        have hne : cookieLine (cookie :: cookies) ≠ [] := by
          intro hnil
          rw [hnil, List.infix_nil] at hin
          exact text_ne_nil cookie hin
        rw [split_eq hloc.cookies hline hne, cookieLine, pieces_intercalate]
        · exact List.cons_ne_nil _ _
        · intro part hpart
          obtain ⟨other, -, rfl⟩ := List.mem_map.mp hpart
          exact notMem_text other
    rw [List.map_cons, ReadSessionCookie.readHeaders, hsplit]
    dsimp only [bind, Except.bind]
    rw [readCookies_eq hloc (fits_text hline), List.flatten_cons]
    rw [firstPlain] at hrest
    rw [firstPlain, firstPlain, List.find?_append]
    cases cookies.find? fun cookie => cookie.name == token && !cookie.value.contains 0x3D with
    | none => exact hrest
    | some cookie => rfl

/-- **`Initialize` selects the first cookie of the name with a value without `=`, and there are never
keys.** -/
theorem initializeFrom_eq (hloc : SplitsExactly loc) (hname : token ≠ [])
    {lines : List (List Cookie)} (hfits : ∀ cookies ∈ lines, FitsBstr (cookieLine cookies)) :
    (ReadSessionCookie.initializeFrom (cookieLines lines) token :
      Run (HResult × ReadSessionCookie loc)) =
      .ok (match firstPlain token lines.flatten with
        | some cookie => (.sOk, ⟨.empty, cookie.value⟩)
        | none => (.sFalse, .new)) := by
  rw [cookieLines, ReadSessionCookie.initializeFrom, if_neg hname]
  dsimp only [bind, Except.bind]
  rw [readHeaders_eq hloc hfits]
  cases firstPlain token lines.flatten <;> rfl

/-! ## The first cookie -/

/-- INTERNAL: the cookie that is selected has no `=` in its value. -/
theorem notMem_of_firstPlain {cookies : List Cookie} {cookie : Cookie}
    (h : firstPlain token cookies = some cookie) : (0x3D : UInt16) ∉ cookie.value := by
  have hfound := List.find?_some h
  rw [Bool.and_eq_true, Bool.not_eq_true'] at hfound
  exact fun hmem => Bool.eq_false_iff.mp hfound.2 (List.contains_iff_mem.mpr hmem)

/-- INTERNAL: no cookie of the name, none to select. -/
theorem firstPlain_none {cookies : List Cookie} (h : firstNamed token cookies = none) :
    firstPlain token cookies = none := by
  rw [firstNamed, List.find?_eq_none] at h
  rw [firstPlain, List.find?_eq_none]
  intro cookie hcookie hfound
  rw [Bool.and_eq_true] at hfound
  exact h cookie hcookie hfound.1

/-- INTERNAL: a first cookie without `=` is selected. -/
theorem firstPlain_of_firstNamed {cookies : List Cookie} {cookie : Cookie}
    (h : firstNamed token cookies = some cookie) (hnot : (0x3D : UInt16) ∉ cookie.value) :
    firstPlain token cookies = some cookie := by
  obtain ⟨hname, before, behind, rfl, hbefore⟩ := List.find?_eq_some_iff_append.mp h
  refine List.find?_eq_some_iff_append.mpr ⟨?_, before, behind, rfl, fun other hother => ?_⟩
  · rw [hname, Bool.true_and, Bool.not_eq_true', Bool.eq_false_iff]
    exact mt List.contains_iff_mem.mp hnot
  · rw [Bool.not_eq_true', Bool.eq_false_iff]
    intro hfound
    have hother' := hbefore other hother
    rw [Bool.and_eq_true] at hfound
    rw [hfound.1] at hother'
    cases hother'

/-- INTERNAL: an id has digits only. -/
theorem notMem_of_isHexNotation {id : Bstr} (h : isHexNotation id = true) :
    (0x3D : UInt16) ∉ id := by
  rw [isHexNotation, Bool.and_eq_true, List.all_eq_true] at h
  exact fun hmem => absurd (h.2 _ hmem) (by decide)

/-- INTERNAL: a value in the classic form has an `=`. -/
theorem mem_of_classic {value : Bstr} {pairs : List (Bstr × Bstr)} (h : Classic loc value pairs) :
    (0x3D : UInt16) ∈ value := by
  obtain ⟨pair, more, rfl⟩ := List.exists_cons_of_length_pos (lt_of_lt_of_le Nat.two_pos h.several)
  have hin : pair.1 ++ [0x3D] ++ pair.2 <:+: value := by
    rw [h.value_eq]
    exact infix_intercalate_of_mem (List.mem_map_of_mem List.mem_cons_self)
  refine hin.subset ?_
  rw [List.append_assoc]
  exact List.mem_append_right _ List.mem_cons_self

/-- **An id in a selected cookie is the id of the session.** -/
theorem obtainsId_of_firstPlain (hloc : SplitsExactly loc) (hname : token ≠ [])
    {lines : List (List Cookie)} (hfits : ∀ cookies ∈ lines, FitsBstr (cookieLine cookies))
    {cookie : Cookie} (h : firstPlain token lines.flatten = some cookie)
    (hid : isHexNotation cookie.value = true) :
    ObtainsId loc (cookieLines lines) token cookie.value := by
  intro blnSnifQueryStringFirst vitem strGUID hsniffed
  have hlength : 0 < cookie.value.length := by
    rw [isHexNotation, Bool.and_eq_true, decide_eq_true_eq] at hid
    rw [hid.1]
    decide
  have hfirst : (if blnSnifQueryStringFirst then
      NWCSession.readCookieFromQueryString vitem false strGUID else (false, strGUID)).1 = false := by
    cases blnSnifQueryStringFirst with
    | true => exact hsniffed rfl
    | false => rfl
  have hask : NWCSession.askCookie (⟨.empty, cookie.value⟩ : ReadSessionCookie loc) =
      some cookie.value := rfl
  rw [NWCSession.initializeGuid]
  dsimp only
  rw [if_neg (by rw [hfirst]; exact Bool.false_ne_true), initializeFrom_eq hloc hname hfits, h]
  dsimp only [bind, Except.bind]
  rw [hask, Option.getD_some, if_pos hlength, zeroTerminated_value, if_pos hid]

/-! ## The cookie that is written -/

/-- INTERNAL: an attribute comes behind the others. -/
theorem addAttribute_begins (present : Bool) (text : Bstr) {bufItems : Bstr × List Bstr}
    {item : Bstr} (h : ∃ more, bufItems.2 = item :: more) :
    ∃ more, (WriteSessionCookie.addAttribute present text bufItems).2 = item :: more := by
  obtain ⟨more, hmore⟩ := h
  cases present with
  | false => exact ⟨more, hmore⟩
  | true => exact ⟨more ++ [format text bufItems.1], congrArg (· ++ _) hmore⟩

/-- INTERNAL: the cookie comes first, and it is not alone. -/
theorem attributes_begins (pWriteCookie : WriteSessionCookie) : ∃ next more,
    pWriteCookie.attributes =
      format (zeroTerminated pWriteCookie.m_CookieKey ++ [0x3D] ++
        zeroTerminated pWriteCookie.m_CookieValue) [] :: next :: more := by
  rw [WriteSessionCookie.attributes]
  generalize format (zeroTerminated pWriteCookie.m_CookieKey ++ [0x3D] ++
    zeroTerminated pWriteCookie.m_CookieValue) [] = buf
  have hcookie : ∃ more, ((buf, [buf]) : Bstr × List Bstr).2 = buf :: more := ⟨[], rfl⟩
  have hpath := addAttribute_begins (pWriteCookie.m_Path ≠ [])
    (Bstr.ofString "Path=" ++ zeroTerminated pWriteCookie.m_Path) hcookie
  have hdomain := addAttribute_begins (pWriteCookie.m_Domain ≠ [])
    (Bstr.ofString "Domain=" ++ zeroTerminated pWriteCookie.m_Domain) hpath
  have hexpires := addAttribute_begins (0 < pWriteCookie.m_Expires.toInt)
    (Bstr.ofString "Max-Age=" ++ WriteSessionCookie.intText (pWriteCookie.m_Expires * 60).toInt)
    hdomain
  have hexpired := addAttribute_begins (pWriteCookie.m_Expires.toInt < 0)
    (Bstr.ofString "Max-Age=0") hexpires
  obtain ⟨more, hmore⟩ := addAttribute_begins pWriteCookie.m_secure (Bstr.ofString "Secure")
    hexpired
  rw [hmore]
  cases more with
  | nil => exact ⟨_, _, rfl⟩
  | cons next more => exact ⟨_, _, rfl⟩

/-- **The header `Set-Cookie` has the cookie in front of its first `;`.** -/
theorem cookiePair_flush {cookie : Cookie} {pWriteCookie : WriteSessionCookie} {header : Bstr}
    (hkey : pWriteCookie.m_CookieKey = cookie.name)
    (hvalue : pWriteCookie.m_CookieValue = cookie.value) (hfits : FitsBstr cookie.text)
    (h : pWriteCookie.flush = .ok header) : cookiePair header = cookie.text := by
  obtain ⟨next, more, hattributes⟩ := attributes_begins pWriteCookie
  have hlength : cookie.text.length < 2 ^ 31 := hfits
  rw [hkey, hvalue, zeroTerminated_name, zeroTerminated_value, ← Cookie.text, format,
    if_pos hlength] at hattributes
  rw [WriteSessionCookie.flush, join, hattributes, List.intercalate_cons_cons] at h
  split at h
  · obtain rfl := Except.ok.inj h
    have hall : ∀ c ∈ cookie.text, decide (c ≠ 0x3B) = true := fun c hc =>
      decide_eq_true fun heq => notMem_text cookie (heq ▸ hc)
    rw [cookiePair, List.append_assoc, List.takeWhile_append_of_pos hall]
    exact List.append_nil _
  · cases h

/-! ## The law -/

/-- **The cookies are read as they are meant exactly if the first one of the name has no `=` in its
value.** -/
theorem readsBack_iff (hloc : SplitsExactly loc) (hname : token ≠ []) (lines : List (List Cookie))
    (hfits : ∀ cookies ∈ lines, FitsBstr (cookieLine cookies)) :
    ReadsBack loc token lines ↔
      ∀ cookie, firstNamed token lines.flatten = some cookie → 0x3D ∉ cookie.value := by
  have hread := initializeFrom_eq hloc hname hfits
  constructor
  · intro h cookie hcookie
    obtain ⟨pReadCookie, hrun, hanswers⟩ := h.selects cookie hcookie
    rw [hread] at hrun
    cases hplain : firstPlain token lines.flatten with
    | none =>
      rw [hplain] at hrun
      cases hrun
    | some other =>
      rw [hplain] at hrun
      obtain ⟨-, rfl⟩ := Prod.mk.inj (Except.ok.inj hrun)
      rw [← hanswers.selected]
      exact notMem_of_firstPlain hplain
  · intro h
    refine ⟨fun hnone => ?_, fun cookie hcookie => ?_, fun cookie hcookie => ?_, ?_⟩
    · refine ⟨.sFalse, ?_, by decide⟩
      rw [hread, firstPlain_none hnone]
    · have hnot := h cookie hcookie
      have hno : ∀ pairs, ¬ Classic loc cookie.value pairs := fun pairs hclassic =>
        hnot (mem_of_classic hclassic)
      refine ⟨⟨.empty, cookie.value⟩, by rw [hread, firstPlain_of_firstNamed hcookie hnot], ?_⟩
      exact {
        selected := rfl
        plain := fun _ => rfl
        hasKeys := fun pairs hclassic => absurd hclassic (hno pairs)
        count := fun pairs hclassic => absurd hclassic (hno pairs)
        byKey := fun pairs hclassic => absurd hclassic (hno pairs)
        byIndex := fun pairs hclassic => absurd hclassic (hno pairs) }
    · have hnot := h cookie hcookie
      exact ⟨obtainsId_of_firstPlain hloc hname hfits (firstPlain_of_firstNamed hcookie hnot),
        fun pairs hclassic => absurd (mem_of_classic hclassic) hnot⟩
    · intro cookie pWriteCookie header hkey hvalue htoken hid hcookie hflush
      refine ⟨cookiePair_flush (hkey.trans htoken.symm) hvalue hcookie hflush,
        fun before behind hline hbefore => ?_⟩
      have hfits' : ∀ cookies ∈ [before ++ cookie :: behind], FitsBstr (cookieLine cookies) :=
        fun cookies hcookies => List.mem_singleton.mp hcookies ▸ hline
      have hnamed : firstNamed token [before ++ cookie :: behind].flatten = some cookie := by
        rw [List.flatten_singleton, firstNamed, List.find?_append, ← firstNamed, hbefore,
          List.find?_cons, beq_iff_eq.mpr htoken]
        rfl
      have hplain := firstPlain_of_firstNamed hnamed (notMem_of_isHexNotation hid)
      refine ⟨⟨⟨.empty, cookie.value⟩, ?_, rfl⟩,
        obtainsId_of_firstPlain hloc hname hfits' hplain hid⟩
      rw [initializeFrom_eq hloc hname hfits', hplain]

/-- INTERNAL: a cookie of texts whose characters have been looked at. -/
def cookieOf (name value : Bstr)
    (h : (name.all (fun c => c != 0x3D && c != 0x3B && c != 0) &&
      value.all fun c => c != 0x3B && c != 0) = true) : Cookie where
  name := name
  value := value
  name_plain c hc := by
    have hall := List.all_eq_true.mp (Bool.and_eq_true _ _ ▸ h).1 c hc
    simpa only [Bool.and_eq_true, bne_iff_ne, and_assoc] using hall
  value_plain c hc := by
    have hall := List.all_eq_true.mp (Bool.and_eq_true _ _ ▸ h).2 c hc
    simpa only [Bool.and_eq_true, bne_iff_ne] using hall

/-- A cookie of another component, and the one with the id. -/
def plainCookies : List Cookie :=
  [cookieOf (Bstr.ofString "lang") (Bstr.ofString "a=b&c=d") (by decide),
    cookieOf guidName zeroId (by decide)]

/-- The cookie has the id under a key. -/
def keyedCookies : List Cookie :=
  [cookieOf guidName (Bstr.ofString "SID=" ++ zeroId ++ Bstr.ofString "&v=1") (by decide)]

/-- INTERNAL: the separators are found by their code units. -/
theorem foundExactly_ordinal (hne : token ≠ []) (hnul : (0 : UInt16) ∉ token) :
    FoundExactly .ordinal token :=
  ⟨hne, hnul, fun text _ h => by
    have hsame : List.compareLex Ord.compare text token = .eq := h
    exact Std.LawfulEqCmp.eq_of_compare hsame⟩

theorem splitsExactly_ordinal : SplitsExactly .ordinal :=
  ⟨foundExactly_ordinal (by decide) (by decide), foundExactly_ordinal (by decide) (by decide),
    foundExactly_ordinal (by decide) (by decide)⟩

/-- **The id is read among other cookies.** -/
theorem plainCookies_readsBack : ReadsBack .ordinal guidName [plainCookies] :=
  (readsBack_iff splitsExactly_ordinal (by decide) [plainCookies] fun cookies hcookies => by
    rw [List.mem_singleton.mp hcookies, FitsBstr]
    decide).mpr fun cookie hcookie => by
      have hnamed : firstNamed guidName [plainCookies].flatten =
        some (cookieOf guidName zeroId (by decide)) := rfl
      obtain rfl := Option.some.inj (hnamed.symm.trans hcookie)
      decide

/-- **A cookie with keys is not found.** -/
theorem keyedCookies_not_readsBack : ¬ ReadsBack .ordinal guidName [keyedCookies] := by
  intro h
  have hfits : ∀ cookies ∈ [keyedCookies], FitsBstr (cookieLine cookies) := by
    intro cookies hcookies
    rw [List.mem_singleton.mp hcookies, FitsBstr]
    decide
  have hnone : firstPlain guidName [keyedCookies].flatten = none := rfl
  obtain ⟨pReadCookie, hrun, -⟩ := h.selects _ rfl
  rw [initializeFrom_eq splitsExactly_ordinal (by decide) hfits, hnone] at hrun
  cases hrun

end IspSession.Analysis
