import IspSession.Library.Fields
import IspSession.Model.SessionUrl

/-!
# The parameters of a URL

What a link means: the path, and the parameters of the query, which are the parts between the
`&` that are not empty. `&amp;` is read as `&`, so the parameters are the `fields` of the query with
`amp;` as their escape.
-/

set_option autoImplicit false

namespace IspSession.Analysis

open IspSession.Library IspSession.Model

variable {name p q s : Bstr}

/-! ## Reading a URL -/

/-- `amp;` -/
def ampEscape : Bstr := [0x61, 0x6D, 0x70, 0x3B]

/-- A text with `&` for `&amp;`. -/
def readAmp (s : Bstr) : Bstr := replaceAll (0x26 :: ampEscape) [0x26] s

/-- A URL without its fragment. -/
def withoutFragment (s : Bstr) : Bstr := s.takeWhile (· ≠ 0x23)

/-- What stands before the `?`. -/
def urlPath (s : Bstr) : Bstr := (withoutFragment s).takeWhile (· ≠ 0x3F)

/-- What stands behind the `?`. -/
def urlQuery (s : Bstr) : Bstr := ((withoutFragment s).dropWhile (· ≠ 0x3F)).tail

/-- The parameters of the query. -/
def urlParameters (s : Bstr) : List Bstr := ((urlQuery s).splitOn 0x26).filter (· ≠ [])

/-- A parameter of this name, with a value or without. -/
def namedBy (name p : Bstr) : Bool := p.takeWhile (· ≠ 0x3D) == name

/-- A text means the same as the URL, but for the one parameter of the name, which has the id as
its value. -/
structure Carries (name id url text : Bstr) : Prop where
  path : urlPath (readAmp text) = urlPath (readAmp url)
  named : (urlParameters (readAmp text)).filter (namedBy name) = [name ++ 0x3D :: id]
  others : (urlParameters (readAmp text)).filter (fun p => ¬ namedBy name p) =
    (urlParameters (readAmp url)).filter fun p => ¬ namedBy name p

/-! ## Path and query -/

/-- INTERNAL: a URL without a query. -/
theorem url_of_notMem (hs : 0x23 ∉ s) (h : 0x3F ∉ s) : urlPath s = s ∧ urlQuery s = [] := by
  have hfragment : withoutFragment s = s :=
    List.takeWhile_eq_self_iff.mpr fun c hc => decide_eq_true fun heq => hs (heq ▸ hc)
  have hall : ∀ c ∈ s, decide (c ≠ 0x3F) = true := fun c hc => decide_eq_true fun heq => h (heq ▸ hc)
  refine ⟨?_, ?_⟩
  · rw [urlPath, hfragment]
    exact List.takeWhile_eq_self_iff.mpr hall
  · rw [urlQuery, hfragment, List.dropWhile_eq_nil_iff.mpr hall]
    rfl

/-- INTERNAL: a URL with a query. -/
theorem url_of_append (hs : 0x23 ∉ p ++ 0x3F :: q) (h : 0x3F ∉ p) :
    urlPath (p ++ 0x3F :: q) = p ∧ urlQuery (p ++ 0x3F :: q) = q := by
  have hfragment : withoutFragment (p ++ 0x3F :: q) = p ++ 0x3F :: q :=
    List.takeWhile_eq_self_iff.mpr fun c hc => decide_eq_true fun heq => hs (heq ▸ hc)
  have hall : ∀ c ∈ p, decide (c ≠ 0x3F) = true := fun c hc => decide_eq_true fun heq => h (heq ▸ hc)
  refine ⟨?_, ?_⟩
  · rw [urlPath, hfragment, List.takeWhile_append_of_pos hall, List.takeWhile_cons_of_neg (by simp),
      List.append_nil]
  · rw [urlQuery, hfragment, List.dropWhile_append_of_pos hall, List.dropWhile_cons_of_neg (by simp)]
    rfl

/-- INTERNAL: the two kinds of URL. -/
theorem url_cases (hs : 0x23 ∉ s) : (0x3F ∉ s ∧ urlPath s = s ∧ urlQuery s = []) ∨
    ∃ p q, s = p ++ 0x3F :: q ∧ 0x3F ∉ p ∧ urlPath s = p ∧ urlQuery s = q := by
  by_cases h : 0x3F ∈ s
  · obtain ⟨p, q, rfl, hp⟩ := List.eq_append_cons_of_mem h
    obtain ⟨hpath, hquery⟩ := url_of_append hs hp
    exact .inr ⟨p, q, rfl, hp, hpath, hquery⟩
  · exact .inl ⟨h, url_of_notMem hs h⟩

/-- INTERNAL: a URL in two parts. -/
theorem url_append {a b : Bstr} (hs : 0x23 ∉ a ++ b) (ha : 0x3F ∉ a) :
    urlPath (a ++ b) = a ++ urlPath b ∧ urlQuery (a ++ b) = urlQuery b := by
  have hb : 0x23 ∉ b := fun hmem => hs (List.mem_append_right a hmem)
  rcases url_cases hb with ⟨hno, hpath, hquery⟩ | ⟨p, q, rfl, hp, hpath, hquery⟩
  · rw [hpath, hquery]
    refine url_of_notMem hs ?_
    rw [List.mem_append, not_or]
    exact ⟨ha, hno⟩
  · rw [hpath, hquery, ← List.append_assoc] at *
    refine url_of_append hs ?_
    rw [List.mem_append, not_or]
    exact ⟨ha, hp⟩

/-- INTERNAL: `&amp;` parts neither path nor query. -/
theorem url_readAmp (hs : 0x23 ∉ s) :
    urlPath (readAmp s) = readAmp (urlPath s) ∧ urlQuery (readAmp s) = readAmp (urlQuery s) := by
  have hread : 0x23 ∉ readAmp s := notMem_replaceAll (by decide) hs
  rcases url_cases hs with ⟨h, hpath, hquery⟩ | ⟨p, q, rfl, hp, hpath, hquery⟩
  · rw [hpath, hquery]
    exact url_of_notMem hread (notMem_replaceAll (by decide) h)
  · rw [hpath, hquery]
    have hparts : readAmp (p ++ 0x3F :: q) = readAmp p ++ 0x3F :: readAmp q :=
      replaceAll_append_cons (by decide) (by decide) p q
    rw [hparts] at hread ⊢
    exact url_of_append hread (notMem_replaceAll (by decide) hp)

/-! ## The fields of the query -/

/-- The parts of a text, read with `&` for `&amp;`. -/
def ampFields (s : Bstr) : List Bstr := fields 0x26 ampEscape s

/-- The parts behind a `&`. -/
def ampFieldsBehind (s : Bstr) : List Bstr := fieldsBehind 0x26 ampEscape s

/-- A part that is a parameter of another name. -/
def otherThan (name p : Bstr) : Bool := p ≠ [] ∧ ¬ namedBy name p

/-- INTERNAL: the parts of a text that is read. -/
theorem splitOn_readAmp (s : Bstr) : (readAmp s).splitOn 0x26 = ampFields s :=
  splitOn_replaceAll (by decide) s

/-- INTERNAL: an empty part has no name. -/
theorem not_namedBy_nil (hname : name ≠ []) : namedBy name [] = false :=
  beq_eq_false_iff_ne.mpr hname.symm

/-- INTERNAL: the parameters by their names. -/
theorem parameters_readAmp (hname : name ≠ []) (hs : 0x23 ∉ s) :
    (urlParameters (readAmp s)).filter (namedBy name) =
        (ampFields (urlQuery s)).filter (namedBy name) ∧
      (urlParameters (readAmp s)).filter (fun p => ¬ namedBy name p) =
        (ampFields (urlQuery s)).filter (otherThan name) := by
  rw [urlParameters, (url_readAmp hs).2, splitOn_readAmp, List.filter_filter, List.filter_filter]
  refine ⟨List.filter_congr fun p _ => ?_, List.filter_congr fun p _ => ?_⟩
  · cases p with
    | nil => rw [not_namedBy_nil hname, Bool.false_and]
    | cons c p => simp
  · rw [otherThan, Bool.and_comm, Bool.decide_and]

/-- INTERNAL: what has to be shown about the parts. -/
theorem carries_iff {id url text : Bstr} (hname : name ≠ []) (hurl : 0x23 ∉ url)
    (htext : 0x23 ∉ text) : Carries name id url text ↔
      readAmp (urlPath text) = readAmp (urlPath url) ∧
      (ampFields (urlQuery text)).filter (namedBy name) = [name ++ 0x3D :: id] ∧
      (ampFields (urlQuery text)).filter (otherThan name) =
        (ampFields (urlQuery url)).filter (otherThan name) := by
  obtain ⟨hnamed, hothers⟩ := parameters_readAmp hname htext
  obtain ⟨-, hothers'⟩ := parameters_readAmp hname hurl
  rw [← (url_readAmp hurl).1, ← (url_readAmp htext).1, ← hnamed, ← hothers, ← hothers']
  exact ⟨fun h => ⟨h.path, h.named, h.others⟩, fun h => ⟨h.1, h.2.1, h.2.2⟩⟩

end IspSession.Analysis
