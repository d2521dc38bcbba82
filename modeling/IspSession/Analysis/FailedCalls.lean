import IspSession.Analysis.VariableCalls
import IspSession.Analysis.ApplicationCalls

/-!
# What failed calls leave behind

`put_Item` and `putref_Item` add the key and set the flags before they know whether the value can
be taken, and `get_Item` clears the stream before it knows whether it can be loaded; the calls of
the application do the same. The state is kept exactly when there was nothing to add, to set or to
clear.
-/

set_option autoImplicit false

namespace IspSession.Analysis

open IspSession.Library IspSession.Model

variable {loc : Collation} {oleLoad : List UInt8 → Option ComObject}

/-! ## The claim -/

/-- If the call on the dictionary fails, the keys, the values and the flags are those before. -/
def KeepsItems (oleLoad : List UInt8 → Option ComObject) (d : VariantDictionary loc)
    (c : VariantDictionary.ItemCall) : Prop :=
  ∀ hr d', d.callItem oleLoad c = .ok (hr, d') → hr.failed = true →
    d'.dictionary = d.dictionary ∧ d'.isserialized = d.isserialized ∧ d'.blnDirty = d.blnDirty

/-- If the call on the application fails, the keys and their elements are those before, with their
values and their flags. -/
def KeepsValues (oleLoad : Bytes → Option ComObject) (m_OnStartPageCalled : Bool)
    (a : CApplication loc) (c : CApplication.ValueCall) : Prop :=
  ∀ hr a', a.callValue oleLoad m_OnStartPageCalled c = .ok (hr, a') → hr.failed = true →
    a'.dictionary = a.dictionary

/-! ## The conditions -/

/-- The argument is a null object, or an object whose default property is one in the end. -/
inductive EndsInNull : Argument → List Variant → Prop
  | null {newVal : Argument} {defaults : List Variant}
      (h : newVal.deref = .ok (.dispatch .null)) : EndsInNull newVal defaults
  | next {newVal : Argument} {o : ComObject} {w : Variant} {defaults : List Variant}
      (h : newVal.deref = .ok (.dispatch o)) (hw : EndsInNull (.value w) defaults) :
      EndsInNull newVal (w :: defaults)

/-- The argument is an object that can be saved, or is not. -/
def CanPersist (newVal : Argument) (persistable : Bool) : Prop :=
  ∃ v o, newVal = .value v ∧ v.pdispVal = .ok o ∧ o.persistable = persistable

/-- An object that still is a stream, and cannot be loaded from it. -/
def Unloadable (oleLoad : List UInt8 → Option ComObject) (v : Variant) : Prop :=
  ∃ bytes, (v = .unknown (.packed bytes) ∨ v = .dispatch (.packed bytes)) ∧ oleLoad bytes = none

/-- When a call on the dictionary keeps the state, should it fail. -/
def MayFailItem (oleLoad : List UInt8 → Option ComObject) (d : VariantDictionary loc) :
    VariantDictionary.ItemCall → Prop
  | .getItem (.named varKey) =>
    ∀ bstrVal v, varKey.bstrVal = some bstrVal → d.isSerialized bstrVal = true →
      d.dictionary.find (lpcolestr varKey.keycopy) = some v → ¬ Unloadable oleLoad v
  | .getItem (.unnamed _ _) => True
  | .putItem (.named varKey) newVal defaults =>
    d.readOnly = false → EndsInNull newVal defaults →
      (d.dictionary.find (lpcolestr varKey.keycopy)).isSome = true ∧ d.blnDirty = true
  | .putItem (.unnamed _ _) _ _ => True
  | .putrefItem (.named varKey) newVal =>
    d.readOnly = false → TakenForObject newVal → CanPersist newVal false →
      (d.dictionary.find (lpcolestr varKey.keycopy)).isSome = true
  | .putrefItem (.unnamed _ _) newVal =>
    d.readOnly = false → TakenForObject newVal →
      (CanPersist newVal false → (d.dictionary.find []).isSome = true) ∧
      ∀ v, newVal = .value v → CanPersist newVal true → d.dictionary.find [] = some v

/-- When a call on the application keeps the state, should it fail. -/
def MayFailValue (oleLoad : Bytes → Option ComObject) (a : CApplication loc) :
    CApplication.ValueCall → Prop
  | .getValue key =>
    key ≠ [] → ∀ element, a.find (lpcolestr key) = some element → element.isSerialized = true →
      ¬ Unloadable oleLoad element.val
  | .putValue key newVal defaults =>
    key ≠ [] → EndsInNull newVal defaults → ∃ element, a.find (lpcolestr key) = some element ∧
      (element.isNew = true ∨ element.isDirty = true)
  | .putrefValue key newVal =>
    key ≠ [] → TakenForObject newVal → CanPersist newVal false →
      ∃ element, a.find (lpcolestr key) = some element ∧ element.isDirty = true ∧
        element.isSerialized = false

/-! ## The dictionary -/

/-- INTERNAL: a key that is there is not added. -/
theorem insert_eq_self_iff {d : OrderedMap loc.compare Variant} {key : Bstr} {v : Variant} :
    d.insert key v = d ↔ (d.find key).isSome = true := by
  constructor
  · intro h
    rw [← h, OrderedMap.find_insert, if_pos Std.ReflCmp.compare_self]
    cases d.find key <;> rfl
  · intro h
    obtain ⟨v', hv'⟩ := Option.isSome_iff_exists.mp h
    exact OrderedMap.insert_of_find v hv'

/-- INTERNAL: `put_Item` fails at a null object, and leaves the key and the flag. -/
theorem putItem_null {d : VariantDictionary loc} {key : Bstr} {newVal : Argument}
    {defaults : List Variant} (hro : d.readOnly = false) (h : EndsInNull newVal defaults) :
    d.putItem key newVal defaults =
      .ok (.ePointer, { d with
        dictionary := d.dictionary.insert (lpcolestr key) .empty, blnDirty := true }) := by
  have hputs : ¬ d.readOnly = true := by rw [hro]; exact Bool.false_ne_true
  induction h generalizing d with
  | null h =>
    rw [VariantDictionary.putItem.eq_def, if_neg hputs, h, Run.ok_bind]
    rfl
  | @next newVal o w defaults h _ ih =>
    rw [VariantDictionary.putItem.eq_def, if_neg hputs, h, Run.ok_bind]
    have hput := @ih { d with dictionary := d.dictionary.insert (lpcolestr key) .empty } hro hputs
    rw [OrderedMap.insert_insert] at hput
    cases o with
    | null => rfl
    | _ =>
      dsimp only
      rw [hput]
      rfl

/-- INTERNAL: it fails nowhere else. -/
theorem endsInNull_of_putItem {d d' : VariantDictionary loc} {key : Bstr} {newVal : Argument}
    {defaults : List Variant} {hr : HResult} (hro : d.readOnly = false)
    (h : d.putItem key newVal defaults = .ok (hr, d')) (hfailed : hr.failed = true) :
    EndsInNull newVal defaults := by
  have hvalue : ∀ (d d' : VariantDictionary loc) (v : Variant), (do
      if (← v.copy).failed then (.error .fault : Run (HResult × VariantDictionary loc))
      else pure (.sOk, { d with
        dictionary := d.dictionary.assign (lpcolestr key) v, blnDirty := true })) =
      .ok (hr, d') → False := by
    intro d d' v h
    obtain ⟨hrCopy, -, h⟩ := Run.bind_eq_ok h
    split at h
    · cases h
    · cases h
      cases hfailed
  induction defaults generalizing d d' newVal with
  | nil =>
    rw [VariantDictionary.putItem, if_neg (by simp [hro])] at h
    obtain ⟨v, hderef, h⟩ := Run.bind_eq_ok h
    cases v with
    | dispatch o =>
      cases o with
      | null => exact .null hderef
      | _ =>
        cases h
        cases hfailed
    | _ => exact absurd h (hvalue _ _ _)
  | cons w defaults ih =>
    rw [VariantDictionary.putItem, if_neg (by simp [hro])] at h
    obtain ⟨v, hderef, h⟩ := Run.bind_eq_ok h
    cases v with
    | dispatch o =>
      cases o with
      | null => exact .null hderef
      | _ =>
        obtain ⟨⟨hr', d''⟩, hput, h⟩ := Run.bind_eq_ok h
        obtain ⟨rfl, -⟩ := Prod.mk.inj (Except.ok.inj h)
        exact .next hderef
          (@ih { d with dictionary := d.dictionary.insert (lpcolestr key) .empty } d''
            (.value w) hro hput)
    | _ => exact absurd h (hvalue _ _ _)

/-- INTERNAL: `putref_Item` of an object, by whether it can be saved. -/
theorem putrefItem_object {d : VariantDictionary loc} (key : Bstr) {v : Variant} {o : ComObject}
    (hro : d.readOnly = false) (htag : TakenForObject (.value v)) (ho : v.pdispVal = .ok o) :
    d.putrefItem key (.value v) = .ok (if o.persistable then
      (.sOk, { d with
        dictionary := (d.dictionary.insert (lpcolestr key) .empty).assign (lpcolestr key) v })
      else
        (.eNoInterface, { d with dictionary := d.dictionary.insert (lpcolestr key) .empty })) := by
  unfold TakenForObject at htag
  rw [VariantDictionary.putrefItem, if_neg (by simp [hro]), if_pos htag]
  dsimp only
  rw [ho, Run.ok_bind]
  split <;> rfl

/-- INTERNAL: a run of `putref_Item` on a dictionary that can be changed. -/
theorem putrefItem_cases {d d' : VariantDictionary loc} {key : Bstr} {newVal : Argument}
    {hr : HResult} (hro : d.readOnly = false) (h : d.putrefItem key newVal = .ok (hr, d')) :
    ¬ TakenForObject newVal ∧ hr = .ePointer ∧ d' = d ∨
      TakenForObject newVal ∧ ∃ v o, newVal = .value v ∧ v.pdispVal = .ok o := by
  rw [TakenForObject]
  by_cases htag : newVal.vt &&& vtDispatch = vtDispatch ∨ newVal.vt &&& vtUnknown = vtUnknown
  · refine .inr ⟨htag, ?_⟩
    rw [VariantDictionary.putrefItem, if_neg (by simp [hro]), if_pos htag] at h
    cases newVal with
    | byrefVariant v => cases h
    | value v =>
      obtain ⟨o, ho, -⟩ := Run.bind_eq_ok h
      exact ⟨v, o, rfl, ho⟩
  · rw [VariantDictionary.putrefItem, if_neg (by simp [hro]), if_neg htag] at h
    cases h
    exact .inl ⟨htag, rfl, rfl⟩

/-- INTERNAL: a dictionary that is read-only stays as it is. -/
theorem putrefItem_readOnly {d : VariantDictionary loc} (key : Bstr) (newVal : Argument)
    (hro : d.readOnly = true) : d.putrefItem key newVal = .ok (.eFail, d) := by
  rw [VariantDictionary.putrefItem, if_pos hro]
  rfl

/-- INTERNAL: `get_Item` fails where a stream cannot be loaded, and clears it. -/
theorem getVariable_unloadable {d : VariantDictionary loc} {varKey : VariantDictionary.VariantKey}
    {bstrVal : Bstr} {v : Variant} (htext : varKey.bstrVal = some bstrVal)
    (hflag : d.isSerialized bstrVal = true)
    (hfind : d.dictionary.find (lpcolestr varKey.keycopy) = some v)
    (hload : Unloadable oleLoad v) :
    d.getVariable oleLoad varKey = .ok (.eFail, .empty, { d with
      dictionary := d.dictionary.assign (lpcolestr varKey.keycopy) .empty
      isserialized := d.isserialized.assign (lpcolestr bstrVal) false }) := by
  obtain ⟨bytes, hv, hload⟩ := hload
  rw [VariantDictionary.getVariable, hfind]
  rcases hv with rfl | rfl
  · dsimp only
    rw [VariantDictionary.getObject, htext]
    dsimp only
    rw [if_pos hflag, hload]
    rfl
  · dsimp only
    rw [VariantDictionary.getObject, htext]
    dsimp only
    rw [if_pos hflag, hload]
    rfl

/-- INTERNAL: it fails nowhere else. -/
theorem unloadable_of_getVariable {d d' : VariantDictionary loc}
    {varKey : VariantDictionary.VariantKey} {hr : HResult} {val : Variant}
    (h : d.getVariable oleLoad varKey = .ok (hr, val, d')) (hfailed : hr.failed = true) :
    ∃ bstrVal v, varKey.bstrVal = some bstrVal ∧ d.isSerialized bstrVal = true ∧
      d.dictionary.find (lpcolestr varKey.keycopy) = some v ∧ Unloadable oleLoad v := by
  have hobject : ∀ wrap o, (wrap = Variant.unknown ∨ wrap = Variant.dispatch) →
      d.getObject oleLoad varKey wrap o = .ok (hr, val, d') →
      ∃ bstrVal, varKey.bstrVal = some bstrVal ∧ d.isSerialized bstrVal = true ∧
        Unloadable oleLoad (wrap o) := by
    intro wrap o hwrap h
    unfold VariantDictionary.getObject at h
    cases htext : varKey.bstrVal with
    | none =>
      rw [htext] at h
      cases h
    | some bstrVal =>
      rw [htext] at h
      dsimp only at h
      split at h
      · rename_i hflag
        cases o with
        | packed bytes =>
          dsimp only at h
          cases hload : oleLoad bytes with
          | none =>
            refine ⟨bstrVal, rfl, hflag, bytes, ?_, hload⟩
            rcases hwrap with rfl | rfl
            · exact .inl rfl
            · exact .inr rfl
          | some o =>
            rw [hload] at h
            cases h
            cases hfailed
        | _ => cases h
      · split at h
        · cases h
        · cases h
          cases hfailed
  unfold VariantDictionary.getVariable at h
  split at h
  · cases h
    cases hfailed
  · rename_i o hfind
    obtain ⟨bstrVal, htext, hflag, hload⟩ := hobject .unknown o (.inl rfl) h
    exact ⟨bstrVal, _, htext, hflag, hfind, hload⟩
  · rename_i o hfind
    obtain ⟨bstrVal, htext, hflag, hload⟩ := hobject .dispatch o (.inr rfl) h
    exact ⟨bstrVal, _, htext, hflag, hfind, hload⟩
  · cases h
    cases hfailed

/-- INTERNAL: a value that is there already is the one that is stored. -/
theorem upsert_eq_self_iff {d : OrderedMap loc.compare Variant} {key : Bstr} {v : Variant} :
    d.upsert key v = d ↔ d.find key = some v := by
  constructor
  · intro h
    rw [← h, OrderedMap.find_upsert, if_pos Std.ReflCmp.compare_self]
  · intro h
    rw [OrderedMap.upsert, OrderedMap.insert_of_find v h, OrderedMap.assign_of_find h]

/-- INTERNAL: `put_Item` keeps the state, should it fail. -/
theorem keepsItems_putItem {d : VariantDictionary loc}
    (varKey : VariantDictionary.KeyArgument) (newVal : Argument) (defaults : List Variant) :
    KeepsItems oleLoad d (.putItem varKey newVal defaults) ↔
      MayFailItem oleLoad d (.putItem varKey newVal defaults) := by
  cases varKey with
  | unnamed hrKey failed =>
    refine iff_of_true (fun hr d' h _ => ?_) trivial
    rw [VariantDictionary.callItem] at h
    split at h
    · cases h
      exact ⟨rfl, rfl, rfl⟩
    · obtain ⟨v, -, h⟩ := Run.bind_eq_ok h
      cases h
      exact ⟨rfl, rfl, rfl⟩
  | named varKey =>
    constructor
    · intro h hro hnull
      obtain ⟨hdictionary, -, hdirty⟩ := h _ _ (putItem_null hro hnull) rfl
      exact ⟨insert_eq_self_iff.mp hdictionary, hdirty.symm⟩
    · intro h hr d' hrun hfailed
      rw [VariantDictionary.callItem] at hrun
      cases hro : d.readOnly with
      | true =>
        rw [VariantDictionary.putItem.eq_def, if_pos hro] at hrun
        cases hrun
        exact ⟨rfl, rfl, rfl⟩
      | false =>
        have hnull := endsInNull_of_putItem hro hrun hfailed
        obtain ⟨hthere, hdirty⟩ := h hro hnull
        rw [putItem_null hro hnull] at hrun
        cases hrun
        exact ⟨insert_eq_self_iff.mpr hthere, rfl, hdirty.symm⟩

/-- INTERNAL: `putref_Item` keeps the state, should it fail. -/
theorem keepsItems_putrefItem {d : VariantDictionary loc}
    (varKey : VariantDictionary.KeyArgument) (newVal : Argument) :
    KeepsItems oleLoad d (.putrefItem varKey newVal) ↔
      MayFailItem oleLoad d (.putrefItem varKey newVal) := by
  cases varKey with
  | named varKey =>
    constructor
    · rintro h hro htag ⟨v, o, rfl, ho, hpersists⟩
      have hrun := putrefItem_object varKey.keycopy hro htag ho
      rw [hpersists, if_neg Bool.false_ne_true] at hrun
      exact insert_eq_self_iff.mp (h _ _ hrun rfl).1
    · intro h hr d' hrun hfailed
      rw [VariantDictionary.callItem] at hrun
      cases hro : d.readOnly with
      | true =>
        rw [putrefItem_readOnly _ _ hro] at hrun
        cases hrun
        exact ⟨rfl, rfl, rfl⟩
      | false =>
        rcases putrefItem_cases hro hrun with ⟨-, -, rfl⟩ | ⟨htag, v, o, rfl, ho⟩
        · exact ⟨rfl, rfl, rfl⟩
        · rw [putrefItem_object _ hro htag ho] at hrun
          split at hrun
          · cases hrun
            cases hfailed
          · rename_i hpersists
            cases hrun
            exact ⟨insert_eq_self_iff.mpr
              (h hro htag ⟨v, o, rfl, ho, Bool.eq_false_iff.mpr hpersists⟩), rfl, rfl⟩
  | unnamed hrKey failed =>
    constructor
    · intro h hro htag
      refine ⟨?_, ?_⟩
      · rintro ⟨v, o, rfl, ho, hpersists⟩
        have hrun := putrefItem_object [] hro htag ho
        rw [hpersists, if_neg Bool.false_ne_true] at hrun
        have hcall : d.callItem oleLoad (.putrefItem (.unnamed hrKey failed) (.value v)) =
            .ok (.eNoInterface, { d with dictionary := d.dictionary.insert [] .empty }) := by
          rw [VariantDictionary.callItem, hrun]
          rfl
        exact insert_eq_self_iff.mp (h _ _ hcall rfl).1
      · rintro v hv ⟨w, o, hw, ho, hpersists⟩
        obtain rfl : w = v := Argument.value.inj (hw.symm.trans hv)
        subst hw
        have hrun := putrefItem_object [] hro htag ho
        rw [hpersists, if_pos rfl] at hrun
        have hcall : d.callItem oleLoad (.putrefItem (.unnamed hrKey failed) (.value w)) =
            .ok (hrKey, { d with dictionary := (d.dictionary.insert [] .empty).assign [] w }) := by
          rw [VariantDictionary.callItem, hrun]
          rfl
        have hsame := (h _ _ hcall failed).1
        rw [OrderedMap.assign_insert] at hsame
        exact upsert_eq_self_iff.mp hsame
    · intro h hr d' hrun _
      obtain ⟨⟨hrPut, d''⟩, hput, hrun⟩ := Run.bind_eq_ok hrun
      obtain ⟨-, rfl⟩ := Prod.mk.inj (Except.ok.inj hrun)
      cases hro : d.readOnly with
      | true =>
        rw [putrefItem_readOnly _ _ hro] at hput
        cases hput
        exact ⟨rfl, rfl, rfl⟩
      | false =>
        rcases putrefItem_cases hro hput with ⟨-, -, rfl⟩ | ⟨htag, v, o, rfl, ho⟩
        · exact ⟨rfl, rfl, rfl⟩
        · obtain ⟨hnot, hsame⟩ := h hro htag
          rw [putrefItem_object _ hro htag ho] at hput
          split at hput
          · rename_i hpersists
            cases hput
            refine ⟨?_, rfl, rfl⟩
            rw [OrderedMap.assign_insert]
            exact upsert_eq_self_iff.mpr (hsame v rfl ⟨v, o, rfl, ho, hpersists⟩)
          · rename_i hpersists
            cases hput
            exact ⟨insert_eq_self_iff.mpr
              (hnot ⟨v, o, rfl, ho, Bool.eq_false_iff.mpr hpersists⟩), rfl, rfl⟩

/-- INTERNAL: `get_Item` keeps the state, should it fail. -/
theorem keepsItems_getItem {d : VariantDictionary loc}
    (varKey : VariantDictionary.KeyArgument) :
    KeepsItems oleLoad d (.getItem varKey) ↔ MayFailItem oleLoad d (.getItem varKey) := by
  cases varKey with
  | unnamed hrKey failed =>
    refine iff_of_true (fun hr d' h _ => ?_) trivial
    cases h
    exact ⟨rfl, rfl, rfl⟩
  | named varKey =>
    constructor
    · intro h bstrVal v htext hflag hfind hload
      have hcall : d.callItem oleLoad (.getItem (.named varKey)) = .ok (.eFail, { d with
          dictionary := d.dictionary.assign (lpcolestr varKey.keycopy) .empty
          isserialized := d.isserialized.assign (lpcolestr bstrVal) false }) := by
        rw [VariantDictionary.callItem, getVariable_unloadable htext hflag hfind hload]
        rfl
      have hsame := congrArg (fun m => m.find (lpcolestr varKey.keycopy)) (h _ _ hcall rfl).1
      dsimp only at hsame
      rw [OrderedMap.find_assign, if_pos Std.ReflCmp.compare_self, hfind] at hsame
      obtain ⟨bytes, hv, -⟩ := hload
      rcases hv with rfl | rfl
      · cases hsame
      · cases hsame
    · intro h hr d' hrun hfailed
      obtain ⟨⟨hr', val, d''⟩, hget, hrun⟩ := Run.bind_eq_ok hrun
      obtain ⟨rfl, rfl⟩ := Prod.mk.inj (Except.ok.inj hrun)
      obtain ⟨bstrVal, v, htext, hflag, hfind, hload⟩ := unloadable_of_getVariable hget hfailed
      exact absurd hload (h bstrVal v htext hflag hfind)

/-! ## The application -/

/-- INTERNAL: `put_Value` fails at a null object, and leaves the key that it has touched. -/
theorem putValue_null {a : CApplication loc} {key : Bstr} {newVal : Argument}
    {defaults : List Variant} (hkey : key ≠ []) (h : EndsInNull newVal defaults) :
    a.putValue key newVal defaults = .ok (.ePointer, a.touch (lpcolestr key)) := by
  induction h generalizing a with
  | null h =>
    rw [CApplication.putValue.eq_def, if_neg hkey, h, Run.ok_bind]
    rfl
  | @next newVal o w defaults h _ ih =>
    rw [CApplication.putValue.eq_def, if_neg hkey, h, Run.ok_bind]
    have hput := @ih (a.touch (lpcolestr key))
    rw [touch_touch] at hput
    cases o with
    | null => rfl
    | _ => exact hput

/-- INTERNAL: it fails nowhere else. -/
theorem endsInNull_of_putValue {a a' : CApplication loc} {key : Bstr} {newVal : Argument}
    {defaults : List Variant} {hr : HResult} (hkey : key ≠ [])
    (h : a.putValue key newVal defaults = .ok (hr, a')) (hfailed : hr.failed = true) :
    EndsInNull newVal defaults := by
  have hvalue : ∀ (a a' : CApplication loc) (v : Variant), (do
      if (← v.copy).failed then (.error .fault : Run (HResult × CApplication loc))
      else pure (.sOk, a.update (lpcolestr key) fun e => { e with val := v })) =
      .ok (hr, a') → False := by
    intro a a' v h
    obtain ⟨hrCopy, -, h⟩ := Run.bind_eq_ok h
    split at h
    · cases h
    · cases h
      cases hfailed
  induction defaults generalizing a a' newVal with
  | nil =>
    rw [CApplication.putValue, if_neg hkey] at h
    obtain ⟨v, hderef, h⟩ := Run.bind_eq_ok h
    cases v with
    | dispatch o =>
      cases o with
      | null => exact .null hderef
      | _ =>
        cases h
        cases hfailed
    | _ => exact absurd h (hvalue _ _ _)
  | cons w defaults ih =>
    rw [CApplication.putValue, if_neg hkey] at h
    obtain ⟨v, hderef, h⟩ := Run.bind_eq_ok h
    cases v with
    | dispatch o =>
      cases o with
      | null => exact .null hderef
      | _ => exact .next hderef (ih h)
    | _ => exact absurd h (hvalue _ _ _)

/-- INTERNAL: a change of an element that is no change. -/
theorem update_eq_self_iff {a : CApplication loc} {key : Bstr} {element : ElementModel}
    (hfind : a.find key = some element) (f : ElementModel → ElementModel) :
    (a.update key f).dictionary = a.dictionary ↔ f element = element := by
  rw [CApplication.update, hfind]
  dsimp only
  constructor
  · intro h
    have hsame := congrArg (fun m => m.find key) h
    rw [OrderedMap.find_assign, if_pos Std.ReflCmp.compare_self] at hsame
    rw [CApplication.find] at hfind
    rw [hfind] at hsame
    exact Option.some.inj hsame
  · intro h
    rw [h]
    exact OrderedMap.assign_of_find hfind

/-- INTERNAL: a key that is added is new in the dictionary. -/
theorem insert_ne_self {a : CApplication loc} {key : Bstr} (hfind : a.find key = none)
    (element : ElementModel) : (a.insert key element).dictionary ≠ a.dictionary := by
  intro h
  have hsame := congrArg (fun m => m.find key) h
  rw [CApplication.find] at hfind
  rw [CApplication.insert] at hsame
  dsimp only at hsame
  rw [OrderedMap.find_insert, hfind, if_pos Std.ReflCmp.compare_self] at hsame
  cases hsame

/-- INTERNAL: an element that `put_Value` finds stays the same when it is new or dirty. -/
theorem touch_eq_self_iff {a : CApplication loc} {key : Bstr} :
    (a.touch key).dictionary = a.dictionary ↔
      ∃ element, a.find key = some element ∧ (element.isNew = true ∨ element.isDirty = true) := by
  rw [CApplication.touch]
  cases hfind : a.find key with
  | none => exact iff_of_false (insert_ne_self hfind _) fun ⟨_, h, _⟩ => by cases h
  | some element =>
    dsimp only
    split
    · rename_i hnew
      exact iff_of_true rfl ⟨element, rfl, .inl hnew⟩
    · rename_i hnew
      rw [update_eq_self_iff hfind]
      constructor
      · intro h
        exact ⟨element, rfl, .inr (congrArg ElementModel.isDirty h).symm⟩
      · rintro ⟨_, h, hflags⟩
        obtain rfl := Option.some.inj h
        rcases hflags with hold | hdirty
        · exact absurd hold hnew
        · rw [← hdirty]

/-- INTERNAL: an element that `putref_Value` finds stays the same when it is dirty and no stream. -/
theorem touchRef_eq_self_iff {a : CApplication loc} {key : Bstr} :
    (a.touchRef key).dictionary = a.dictionary ↔
      ∃ element, a.find key = some element ∧ element.isDirty = true ∧
        element.isSerialized = false := by
  rw [CApplication.touchRef]
  cases hfind : a.find key with
  | none => exact iff_of_false (insert_ne_self hfind _) fun ⟨_, h, _⟩ => by cases h
  | some element =>
    dsimp only
    rw [update_eq_self_iff hfind]
    constructor
    · intro h
      exact ⟨element, rfl, (congrArg ElementModel.isDirty h).symm,
        (congrArg ElementModel.isSerialized h).symm⟩
    · rintro ⟨_, h, hdirty, hserialized⟩
      obtain rfl := Option.some.inj h
      rw [← hdirty, ← hserialized]

/-- INTERNAL: `putref_Value` of an object, by whether it can be saved. -/
theorem putrefValue_object {a : CApplication loc} {key : Bstr} {v : Variant} {o : ComObject}
    (hkey : key ≠ []) (htag : TakenForObject (.value v)) (ho : v.pdispVal = .ok o) :
    a.putrefValue key (.value v) = .ok (if o.persistable then
      (.sOk, (a.touchRef (lpcolestr key)).update (lpcolestr key) fun e => { e with val := v })
      else (.eNoInterface, a.touchRef (lpcolestr key))) := by
  unfold TakenForObject at htag
  rw [CApplication.putrefValue, if_neg hkey, if_pos htag]
  dsimp only
  rw [ho, Run.ok_bind]
  split <;> rfl

/-- INTERNAL: `get_Value` of a stream that cannot be loaded fails, and takes the flag off. -/
theorem getValue_unloadable {a : CApplication loc} {key : Bstr} {element : ElementModel}
    (hkey : key ≠ []) (hfind : a.find (lpcolestr key) = some element)
    (hflag : element.isSerialized = true) (hload : Unloadable oleLoad element.val) :
    ∃ val, a.getValue oleLoad key = .ok (.eFail, .empty,
      a.update (lpcolestr key) fun _ => { element with val, isSerialized := false }) := by
  obtain ⟨bytes, hv, hload⟩ := hload
  rw [CApplication.getValue, if_neg hkey, hfind]
  dsimp only
  rcases hv with hv | hv
  · refine ⟨.unknown .null, ?_⟩
    rw [hv]
    dsimp only
    rw [CApplication.getObject, if_pos hflag, CApplication.convertVStreamToObject]
    dsimp only
    rw [hload]
    rfl
  · refine ⟨.dispatch .null, ?_⟩
    rw [hv]
    dsimp only
    rw [CApplication.getObject, if_pos hflag, CApplication.convertVStreamToObject]
    dsimp only
    rw [hload]
    rfl

/-- INTERNAL: it changes the application in no other failure. -/
theorem unloadable_of_getValue {a a' : CApplication loc} {key : Bstr} {hr : HResult}
    {val : Variant} (h : a.getValue oleLoad key = .ok (hr, val, a')) (hfailed : hr.failed = true) :
    a' = a ∨ key ≠ [] ∧ ∃ element, a.find (lpcolestr key) = some element ∧
      element.isSerialized = true ∧ Unloadable oleLoad element.val := by
  have hobject : ∀ element wrap o, (wrap = Variant.unknown ∨ wrap = Variant.dispatch) →
      element.val = wrap o → a.getObject oleLoad (lpcolestr key) element wrap o = .ok (hr, val, a') →
      element.isSerialized = true ∧ Unloadable oleLoad element.val := by
    intro element wrap o hwrap hval h
    unfold CApplication.getObject at h
    split at h
    · rename_i hflag
      obtain ⟨⟨hrLoad, loaded⟩, hconvert, h⟩ := Run.bind_eq_ok h
      obtain ⟨rfl, -⟩ := Prod.mk.inj (Except.ok.inj h)
      cases o with
      | packed bytes =>
        rw [CApplication.convertVStreamToObject] at hconvert
        cases hload : oleLoad bytes with
        | none =>
          refine ⟨hflag, bytes, ?_, hload⟩
          rw [hval]
          rcases hwrap with rfl | rfl
          · exact .inl rfl
          · exact .inr rfl
        | some o =>
          rw [hload] at hconvert
          cases hconvert
          cases hfailed
      | _ => cases hconvert
    · split at h
      · cases h
      · cases h
        cases hfailed
  unfold CApplication.getValue at h
  split at h
  · cases h
    exact .inl rfl
  · rename_i hkey
    split at h
    · cases h
      exact .inl rfl
    · rename_i element hfind
      split at h
      · rename_i o hval
        exact .inr ⟨hkey, element, hfind, hobject element .unknown o (.inl rfl) hval h⟩
      · rename_i o hval
        exact .inr ⟨hkey, element, hfind, hobject element .dispatch o (.inr rfl) hval h⟩
      · obtain ⟨hrCopy, -, h⟩ := Run.bind_eq_ok h
        cases h
        exact .inl rfl

/-- INTERNAL: the application keeps its elements, should a call fail. -/
theorem keepsValues_started {a : CApplication loc} (c : CApplication.ValueCall) :
    KeepsValues oleLoad true a c ↔ MayFailValue oleLoad a c := by
  have hstarted : a.callValue oleLoad true c = a.performValue oleLoad c := if_pos rfl
  unfold KeepsValues
  rw [hstarted]
  cases c with
  | getValue key =>
    constructor
    · intro h hkey element hfind hflag hload
      obtain ⟨val, hget⟩ := getValue_unloadable hkey hfind hflag hload
      have hsame := h _ _ (by rw [CApplication.performValue, hget]; rfl) rfl
      have hsame := congrArg ElementModel.isSerialized ((update_eq_self_iff hfind _).mp hsame)
      rw [hflag] at hsame
      cases hsame
    · intro h hr a' hrun hfailed
      obtain ⟨⟨hr', val, a''⟩, hget, hrun⟩ := Run.bind_eq_ok hrun
      obtain ⟨rfl, rfl⟩ := Prod.mk.inj (Except.ok.inj hrun)
      rcases unloadable_of_getValue hget hfailed with rfl | ⟨hkey, element, hfind, hflag, hload⟩
      · rfl
      · exact absurd hload (h hkey element hfind hflag)
  | putValue key newVal defaults =>
    constructor
    · intro h hkey hnull
      exact touch_eq_self_iff.mp (h _ _ (putValue_null hkey hnull) rfl)
    · intro h hr a' hrun hfailed
      by_cases hkey : key = []
      · rw [CApplication.performValue, CApplication.putValue.eq_def, if_pos hkey] at hrun
        cases hrun
        rfl
      · have hnull := endsInNull_of_putValue hkey hrun hfailed
        rw [CApplication.performValue, putValue_null hkey hnull] at hrun
        cases hrun
        exact touch_eq_self_iff.mpr (h hkey hnull)
  | putrefValue key newVal =>
    constructor
    · rintro h hkey htag ⟨v, o, rfl, ho, hpersists⟩
      have hrun := putrefValue_object (a := a) hkey htag ho
      rw [hpersists, if_neg Bool.false_ne_true] at hrun
      exact touchRef_eq_self_iff.mp (h _ _ hrun rfl)
    · intro h hr a' hrun hfailed
      rw [CApplication.performValue] at hrun
      by_cases hkey : key = []
      · rw [CApplication.putrefValue, if_pos hkey] at hrun
        cases hrun
        rfl
      · by_cases htag : newVal.vt &&& vtDispatch = vtDispatch ∨ newVal.vt &&& vtUnknown = vtUnknown
        · cases newVal with
          | byrefVariant v =>
            rw [CApplication.putrefValue, if_neg hkey, if_pos htag] at hrun
            cases hrun
          | value v =>
            cases ho : v.pdispVal with
            | error e =>
              rw [CApplication.putrefValue, if_neg hkey, if_pos htag] at hrun
              dsimp only at hrun
              rw [ho] at hrun
              cases hrun
            | ok o =>
              rw [putrefValue_object hkey htag ho] at hrun
              split at hrun
              · cases hrun
                cases hfailed
              · rename_i hpersists
                cases hrun
                exact touchRef_eq_self_iff.mpr
                  (h hkey htag ⟨v, o, rfl, ho, Bool.eq_false_iff.mpr hpersists⟩)
        · rw [CApplication.putrefValue, if_neg hkey, if_neg htag] at hrun
          cases hrun
          rfl

/-! ## The theorem -/

end IspSession.Analysis
