import IspSession.Analysis.WritesPersisted

/-!
# Session ids agree

Whether the id a request has sent last is that of the record. `put_LiquidCookie` goes back
to the old id only when it remembers one, which it does not in a new session; `Execute` and
`Transfer` read the session again under `guid`, which a liquid session has not been saved
under, and save it for good, so that it cannot be moved any more. Requests that do none of
this end with one record, under the id they have sent.
-/

set_option autoImplicit false

namespace IspSession.Analysis

open IspSession.Library IspSession.Model

variable {loc : Collation} (p : Platform)

/-- The session has its record under the id sent last, with the given contents, and none
under the id presented when that is another one. -/
def Agrees (presented : Option Guid) (r : Request loc) (c : Contents loc) : Prop :=
  ∃ id record, r.strGUID = some id ∧ r.store id = some record ∧ Loads p record c ∧
    ∀ id', presented = some id' → id' ≠ id → r.store id' = none

/-- **Session ids agree** at the end of a request whose calls are all safe, and the record
holds what was loaded, changed by the calls. -/
theorem agrees_of_serve (effect : Page → Contents loc → Contents loc) (store : SessionStore)
    (drawn : ℕ) (lngTimeOutSetting dtExpires : BitVec 32) (blnSnifQueryStringFirst : Bool)
    (cookie query : Option Guid) (calls : List Request.Call) {r r' : Request loc}
    {c : Contents loc}
    (hr : r = .start store drawn lngTimeOutSetting dtExpires blnSnifQueryStringFirst)
    (hwell : StartsWell p (r.identify cookie query) c)
    (hsafe : SafeRequest p effect cookie query calls r)
    (hrun : r.serve p cookie query calls = .ok r') :
    Agrees p (r.identify cookie query).strGUID r'
      (calls.foldl (fun c call => effectOf effect call c) c) := by
  obtain ⟨hcontents, id, record, hid, hrecord, hholds, hgone⟩ :=
    serve_ready p hr hwell hsafe hrun
  exact ⟨id, record, hid, hrecord, hcontents ▸ hholds.loads p, hgone⟩

/-- A session that is made liquid ends under the new id, and not under the one presented. -/
theorem madeLiquid_agrees :
    ∃ r', nextRequest.serve .counting (some 7) none [.putLiquidCookie true] = .ok r' ∧
      Agrees .counting (some 7) r' (contents (oneNumber : VariantDictionary .ordinal)) := by
  have hruns : (nextRequest.serve .counting (some 7) none
      [.putLiquidCookie true]).toOption.isSome := by decide +kernel
  obtain ⟨r', hr'⟩ := Option.isSome_iff_exists.mp hruns
  have hrun := Run.eq_ok_of_toOption hr'
  have hwell : StartsWell .counting (nextRequest.identify (some 7) none)
      (contents (oneNumber : VariantDictionary .ordinal)) := by
    refine ⟨by decide, ⟨7, rfl⟩, .saved .zero oneNumber exact_oneNumber rfl rfl rfl, by decide,
      fun _ => rfl, ?_, inOrder_none .counting⟩
    intro key e he _ bytes hobject
    obtain rfl : e = (Bstr.ofString "a", .scalar .i4 7) := List.mem_singleton.mp he
    rcases hobject with hobject | hobject <;> cases hobject
  refine ⟨r', hrun, agrees_of_serve .counting (fun _ c => c) _ 0 20 0 false (some 7) none
    [.putLiquidCookie true] rfl hwell ?_ hrun⟩
  intro hr r₁ (hstart : nextRequest.onStartPage .counting (some 7) none = .ok (hr, r₁))
  have hpending : ((nextRequest.onStartPage .counting (some 7) none).toOption.map
      fun res => res.2.blnPersistDoneByOnEndPage) = some false := by decide +kernel
  rw [hstart] at hpending
  exact ⟨.inr (Option.some.inj hpending), fun _ _ => trivial⟩

/-- In a new session the cookie stays at the second id when `put_LiquidCookie` has been
called with `VARIANT_TRUE` and `VARIANT_FALSE`, and there is no record under it. -/
theorem toggledLiquid_not_agrees :
    ∃ r', firstRequest.serve .counting none none
        [.putLiquidCookie true, .putLiquidCookie false] = .ok r' ∧
      ∀ c, ¬ Agrees .counting none r' c := by
  have hend : ((firstRequest.serve .counting none none
      [.putLiquidCookie true, .putLiquidCookie false]).toOption.map fun r' =>
        (r'.strGUID, (r'.store 1000).isSome, (r'.store 1001).isSome)) =
      some (some 1001, true, false) := by decide +kernel
  obtain ⟨r', hr', hend⟩ := Option.map_eq_some_iff.mp hend
  simp only [Prod.mk.injEq] at hend
  obtain ⟨hsent, -, hnone⟩ := hend
  refine ⟨r', Run.eq_ok_of_toOption hr', ?_⟩
  rintro c ⟨id, record, hid, hrecord, -⟩
  obtain rfl : 1001 = id := Option.some.inj (hsent.symm.trans hid)
  rw [hrecord] at hnone
  cases hnone

end IspSession.Analysis
