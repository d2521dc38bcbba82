import IspSession.Analysis.SessionRuns

/-!
# Writes are persisted

Whether what a request has written is in Redis at its end. `RemoveAll` and `putref_Item`
leave the dirty flag alone, so that `PersistSession` may see nothing to write, and
`Execute` and `Transfer` save the session once and for all, so that whatever the request
writes after them is lost. Requests that do neither are saved.
-/

set_option autoImplicit false

namespace IspSession.Analysis

open IspSession.Library IspSession.Model

variable {loc : Collation} (p : Platform)

/-- The record under the session's id holds what the dictionary holds: a request that
loads it sees that. -/
def Persistent (r : Request loc) : Prop :=
  ∃ id record, r.strGUID = some id ∧ r.store id = some record ∧
    Loads p record (contents r.m_piVarDict)

/-- **Every write of a request is persisted** when its calls are all safe. -/
theorem persistent_of_serve (effect : Page → Contents loc → Contents loc) (store : SessionStore)
    (drawn : ℕ) (lngTimeOutSetting dtExpires : BitVec 32) (blnSnifQueryStringFirst : Bool)
    (cookie query : Option Guid) (calls : List Request.Call) {r r' : Request loc}
    {c : Contents loc}
    (hr : r = .start store drawn lngTimeOutSetting dtExpires blnSnifQueryStringFirst)
    (hwell : StartsWell p (r.identify cookie query) c)
    (hsafe : SafeRequest p effect cookie query calls r)
    (hrun : r.serve p cookie query calls = .ok r') : Persistent p r' := by
  obtain ⟨-, id, record, hid, hrecord, hholds, -⟩ := serve_ready p hr hwell hsafe hrun
  exact ⟨id, record, hid, hrecord, hholds.loads p⟩

/-! ## Requests on concrete input -/

/-- A request without a session. -/
def firstRequest : Request .ordinal := .start (fun _ => none) 0 20 0 false

/-- A request with a session that holds a number under `a`. -/
def nextRequest : Request .ordinal :=
  .start (Function.update (fun _ => none) 7 (some (oneNumberRecord true false))) 0 20 0 false

/-- A page that puts a number under `a`. -/
def putsNumber : List Request.Call :=
  [.putValue (Bstr.ofString "a") (.value (.scalar .i4 7)) []]

/-- INTERNAL: this is a safe request where there is no session. -/
theorem safeRequest_putsNumber :
    SafeRequest .counting (fun _ c => c) none none putsNumber firstRequest := by
  intro hr r' hstart
  have hinserted : firstRequest.onStartPage .counting none none =
      .ok (.sOk, inserted .counting (firstRequest.identify none none)) := rfl
  rw [hinserted] at hstart
  cases hstart
  refine ⟨⟨?_, ?_, .inr ⟨rfl, .inl rfl⟩⟩, fun _ _ => trivial⟩
  · refine safeCall_new rfl ⟨⟨"a".toList, rfl⟩, by unfold StringFits; decide⟩
      ⟨⟨trivial, trivial⟩, trivial⟩ ?_
    rintro w (rfl | rfl) mem
    · exact Nat.lt_of_le_of_lt (Nat.le_of_ble_eq_true rfl : _ ≤ 64) (by decide)
    · exact Nat.lt_of_le_of_lt (Nat.le_of_ble_eq_true rfl : _ ≤ 64) (by decide)
  · rintro key v hputs hloses
    cases hputs
    cases hloses

/-- The number put in a new session is persisted. -/
theorem putsNumber_persistent :
    ∃ r', firstRequest.serve .counting none none putsNumber = .ok r' ∧
      Persistent .counting r' := by
  have hruns : (firstRequest.serve .counting none none putsNumber).toOption.isSome := by
    decide +kernel
  obtain ⟨r', hr'⟩ := Option.isSome_iff_exists.mp hruns
  have hrun := Run.eq_ok_of_toOption hr'
  exact ⟨r', hrun, persistent_of_serve .counting (fun _ c => c) (fun _ => none) 0 20 0 false none
    none putsNumber rfl ⟨by decide, rfl⟩ safeRequest_putsNumber hrun⟩

/-- The names in the dictionary at the end of a request, and those a request loads from
the record under the id it has sent. -/
def namesAtEnd (r : Request .ordinal) : List Bstr × Option (List Bstr) :=
  (r.m_piVarDict.dictionary.keys, do
    let record ← r.store (← r.strGUID)
    let (_, loaded) ← (firstRequest.loadRecord .counting (rowsetOf record) .sOk).toOption
    pure loaded.m_piVarDict.dictionary.keys)

/-- INTERNAL: where writes are persisted these are the same names. -/
theorem namesAtEnd_of_persistent {r : Request .ordinal} (h : Persistent .counting r) :
    (namesAtEnd r).2 = some (namesAtEnd r).1 := by
  obtain ⟨id, record, hid, hrecord, hloads⟩ := h
  obtain ⟨r', hload, hcontents⟩ := hloads firstRequest rfl
  have hkeys : r'.m_piVarDict.dictionary.keys = r.m_piVarDict.dictionary.keys := by
    have hentries := congrArg OrderedMap.keys hcontents
    simpa [OrderedMap.keys, contents, Function.comp_def] using hentries
  simp only [namesAtEnd, hid, hrecord, hload, Except.toOption, Option.bind_eq_bind,
    Option.bind_some, Option.pure_def, hkeys]

/-- `RemoveAll` alone is not persisted: the record still holds the number. -/
theorem removeAll_not_persistent :
    ∃ r', nextRequest.serve .counting (some 7) none [.contentsRemoveAll] = .ok r' ∧
      ¬ Persistent .counting r' := by
  have hnames : (nextRequest.serve .counting (some 7) none [.contentsRemoveAll]).toOption.map
      namesAtEnd = some ([], some [Bstr.ofString "a"]) := by decide +kernel
  obtain ⟨r', hr', hnames⟩ := Option.map_eq_some_iff.mp hnames
  refine ⟨r', Run.eq_ok_of_toOption hr', fun h => ?_⟩
  have hsame := namesAtEnd_of_persistent h
  rw [hnames] at hsame
  cases hsame

end IspSession.Analysis
