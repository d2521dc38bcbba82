import IspSession.Analysis.UrlOutcomes
import IspSession.Analysis.SplitJoin

/-!
# Splitting a text

`Split` gives the pieces between the separators when the locale takes no other text for a
separator.
-/

set_option autoImplicit false

namespace IspSession.Analysis

open IspSession.Library IspSession.Model IspSession.Model.CComBSTR2

variable {loc : Collation} {token m_str out rest : Bstr}

/-- `CompareStringW` with `NORM_IGNORECASE` takes no other text of its length for the token. -/
structure FoundExactly (loc : Collation) (token : Bstr) : Prop where
  ne_nil : token ≠ []
  noNul : (0 : UInt16) ∉ token
  eq_of_compare : ∀ text, text.length = token.length → loc.compare text token = .eq → text = token

/-- INTERNAL: the token is searched as it is. -/
theorem indexOf_exactly (h : FoundExactly loc token) (out rest : Bstr) :
    indexOf loc (out ++ rest) token out.length true =
      (cut token rest).map fun p => out.length + p.1.length := by
  rw [← indexOf_append h.ne_nil h.noNul, indexOf, indexOf, zeroTerminated_eq h.noNul]
  split
  · refine List.find?_congr fun x hx => ?_
    have hlength : (((out ++ rest).drop x).take token.length).length = token.length := by
      rw [List.mem_range'_1] at hx
      rw [List.length_take, List.length_drop]
      omega
    rw [Bool.eq_iff_iff, compare_iff h.ne_nil, Bool.true_or, Bool.true_and, compareString,
      if_pos rfl, beq_iff_eq, List.prefix_iff_eq_take]
    constructor
    · exact fun heq => (h.eq_of_compare _ hlength heq).symm
    · intro heq
      rw [← heq]
      exact Std.ReflCmp.compare_self
  · rfl

/-- INTERNAL: that search finds the token. -/
theorem FoundExactly.searched (h : FoundExactly loc token) : Searched loc true token token where
  ne_nil := h.ne_nil
  begins := List.prefix_refl token
  found := indexOf_exactly h

/-- **`Split` gives the pieces of a text.** -/
theorem split_eq (h : FoundExactly loc token) (hfits : FitsBstr m_str) (hne : m_str ≠ []) :
    CComBSTR2.split loc m_str token true = .ok (pieces token m_str) :=
  split_whole h.searched (foundWhole_self h.ne_nil m_str) hfits hne

end IspSession.Analysis
