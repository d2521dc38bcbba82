import IspSession.Analysis.Lossless

/-!
# The calls on a dictionary, one specification for each

`get_Item` either leaves the dictionary as it is or replaces a flagged stream by what it is
loaded to; `mutate_spec` says what the other calls store.
-/

set_option autoImplicit false

namespace IspSession.Analysis

open IspSession.Library IspSession.Model

variable {loc : Collation}

/-- What a stream is loaded to: nothing, where it cannot be loaded. -/
def loadedFrom (oleLoad : List UInt8 → Option ComObject) (wrap : ComObject → Variant)
    (bytes : List UInt8) : Variant :=
  match oleLoad bytes with
  | some o => wrap o
  | none => .empty

/-- **What `get_Item` leaves.** -/
theorem getVariable_leaves {oleLoad : List UInt8 → Option ComObject}
    {d d' : VariantDictionary loc} {varKey : VariantDictionary.VariantKey} {hr : HResult}
    {v : Variant} (h : d.getVariable oleLoad varKey = .ok (hr, v, d')) :
    d' = d ∨ ∃ bstrVal bytes wrap, (wrap = Variant.unknown ∨ wrap = Variant.dispatch) ∧
      varKey.bstrVal = some bstrVal ∧ d.isSerialized bstrVal = true ∧
      d.dictionary.find (lpcolestr varKey.keycopy) = some (wrap (.packed bytes)) ∧
      d' = { d with
        dictionary :=
          d.dictionary.assign (lpcolestr varKey.keycopy) (loadedFrom oleLoad wrap bytes)
        isserialized := d.isserialized.assign (lpcolestr bstrVal) false } := by
  have hobject : ∀ wrap o, (wrap = Variant.unknown ∨ wrap = Variant.dispatch) →
      d.dictionary.find (lpcolestr varKey.keycopy) = some (wrap o) →
      d.getObject oleLoad varKey wrap o = .ok (hr, v, d') →
      d' = d ∨ ∃ bstrVal bytes wrap, (wrap = Variant.unknown ∨ wrap = Variant.dispatch) ∧
        varKey.bstrVal = some bstrVal ∧ d.isSerialized bstrVal = true ∧
        d.dictionary.find (lpcolestr varKey.keycopy) = some (wrap (.packed bytes)) ∧
        d' = { d with
          dictionary :=
            d.dictionary.assign (lpcolestr varKey.keycopy) (loadedFrom oleLoad wrap bytes)
          isserialized := d.isserialized.assign (lpcolestr bstrVal) false } := by
    intro wrap o hwrap hfind h
    unfold VariantDictionary.getObject at h
    cases htext : varKey.bstrVal with
    | none =>
      rw [htext] at h
      cases h
    | some bstrVal =>
      rw [htext] at h
      dsimp only at h
      split at h
      · rename_i hflag
        cases o with
        | packed bytes =>
          refine .inr ⟨bstrVal, bytes, wrap, hwrap, rfl, hflag, hfind, ?_⟩
          unfold loadedFrom
          dsimp only at h
          cases hload : oleLoad bytes with
          | none =>
            rw [hload] at h
            cases h
            rfl
          | some o =>
            rw [hload] at h
            cases h
            rfl
        | _ => cases h
      · split at h
        · cases h
        · cases h
          exact .inl rfl
  unfold VariantDictionary.getVariable at h
  split at h
  · cases h
    exact .inl rfl
  · rename_i o hfind
    exact hobject .unknown o (.inl rfl) hfind h
  · rename_i o hfind
    exact hobject .dispatch o (.inr rfl) hfind h
  · cases h
    exact .inl rfl

end IspSession.Analysis
