import IspSession.Analysis.ApplicationCalls

/-!
# Putting a value and getting it back

The law of a dictionary, for both of them: what a successful put stores is the value its argument
denoted at the time of the call, a get returns it, and nothing else has changed. Only references to a
`VARIANT` or to an array are followed; any other reference is stored as the pointer it is.

`CallerMemory` is what is behind such pointers. `putThenGet_iff` says when the law holds of
`put_Item`, of `put_Value`, and when `putref_Item` and `putref_Value` accept exactly the objects.
-/

set_option autoImplicit false

namespace IspSession.Analysis

open IspSession.Library IspSession.Model

variable {loc : Collation}

/-! ## What an argument denotes -/

/-- The variant refers to memory of its caller. -/
def IsReference : Variant → Prop
  | .byrefArray _ => True
  | .raw vt _ => vt &&& vtByref ≠ 0
  | _ => False

/-- The caller's memory at the time of a call: what is behind the reference with a tag and a payload,
which is no reference itself. -/
structure CallerMemory where
  value : VarType → BitVec (8 * 22) → Variant
  final : ∀ vt payload, ¬ IsReference (value vt payload)

/-- Memory with nothing in it. -/
def CallerMemory.blank : CallerMemory where
  value _ _ := .empty
  final _ _ := id

namespace CallerMemory

variable (now : CallerMemory)

/-- The value of a variant. -/
def read : Variant → Variant
  | .byrefArray a => read a
  | .raw vt payload => if vt &&& vtByref ≠ 0 then now.value vt payload else .raw vt payload
  | v => v

/-- It is no reference. -/
theorem not_isReference_read : (v : Variant) → ¬ IsReference (now.read v)
  | .byrefArray a => not_isReference_read a
  | .raw vt payload => by
    rw [read]
    split
    · exact now.final vt payload
    · rename_i h
      exact h
  | .empty | .null | .scalar _ _ | .decimal _ | .bstr _ | .dispatch _ | .unknown _
  | .blockArray _ _ _ | .bstrArray _ _ | .variantArray _ _ | .otherArray _ _ _ _ | .nullArray _ => id

/-- A variant that is no reference is its value. -/
theorem read_eq_self {v : Variant} (h : ¬ IsReference v) : now.read v = v := by
  cases v with
  | byrefArray a => exact absurd trivial h
  | raw vt payload => exact if_neg h
  | _ => rfl

end CallerMemory

/-- The variant an argument hands over. -/
def carried : Argument → Variant
  | .byrefVariant v => v
  | .value (.byrefArray a) => a
  | .value v => v

/-- INTERNAL: that is what a put looks at. -/
theorem eq_carried_of_deref {newVal : Argument} {v : Variant} (h : newVal.deref = .ok v) :
    v = carried newVal := by
  cases newVal with
  | byrefVariant w => exact (Except.ok.inj h).symm
  | value w =>
    cases w with
    | raw vt payload =>
      change (if _ then _ else _) = _ at h
      split at h
      · cases h
      · exact (Except.ok.inj h).symm
    | _ => exact (Except.ok.inj h).symm

/-- The value that an argument denotes: of a `VT_DISPATCH` it is the object's default property, if
there is one. `defaults` are the results of asking for it, one after the other. -/
def CallerMemory.denotes (now : CallerMemory) : List Variant → Variant → Option Variant
  | [], v =>
    match now.read v with
    | .dispatch _ => none
    | v => some v
  | w :: defaults, v =>
    match now.read v with
    | .dispatch .null => none
    | .dispatch _ => now.denotes defaults (carried (.value w))
    | v => some v

/-- The argument denotes an object that can be put, one with a persistence interface. -/
def CallerMemory.DenotesObject (now : CallerMemory) (newVal : Argument) : Prop :=
  ∃ o : ComObject, (now.read (carried newVal) = .dispatch o ∨
    now.read (carried newVal) = .unknown o) ∧ o.persistable = true

/-! ## The claim -/

/-- A get returns the value the argument denoted, whatever loads objects, and what is stored is
written as that value. -/
def GivesBack {σ : Type} (now : CallerMemory) (newVal : Argument) (defaults : List Variant)
    (get : (List UInt8 → Option ComObject) → Run (HResult × Variant × σ)) (stored : Option Variant) :
    Prop :=
  ∃ value, now.denotes defaults (carried newVal) = some value ∧
    (∀ oleLoad, ∃ s, get oleLoad = .ok (.sOk, value, s)) ∧
    ∃ v, stored = some v ∧ ∀ mem flag c, writeValue mem flag v c = writeValue mem flag value c

/-- **The law of `put_Item`**, between the dictionaries before and after. A key names the
variable of the text in front of its first zero. -/
def PutItemLaw (now : CallerMemory) (d d' : VariantDictionary loc) (key : Bstr) (newVal : Argument)
    (defaults : List Variant) : Prop :=
  GivesBack now newVal defaults (fun oleLoad => d'.getItem oleLoad key)
      (d'.dictionary.find (lpcolestr key)) ∧
    ∀ key', loc.compare key' (lpcolestr key) ≠ .eq →
      d'.dictionary.find key' = d.dictionary.find key'

/-- **The law of `put_Value`**. -/
def PutValueLaw (now : CallerMemory) (a a' : CApplication loc) (key : Bstr) (newVal : Argument)
    (defaults : List Variant) : Prop :=
  GivesBack now newVal defaults (fun oleLoad => a'.getValue oleLoad key)
      ((a'.find (lpcolestr key)).map ElementModel.val) ∧
    ∀ key', loc.compare key' (lpcolestr key) ≠ .eq → a'.find key' = a.find key'

/-- A put of a reference returns, and with success exactly where the call is allowed and the argument
denotes an object. -/
def AcceptsObjects {σ : Type} (now : CallerMemory) (newVal : Argument) (allowed : Prop)
    (r : Run (HResult × σ)) : Prop :=
  ∃ hr s, r = .ok (hr, s) ∧ (hr = .sOk ↔ allowed ∧ now.DenotesObject newVal)

/-- The stored value can be got as it is: an object, which is no `VT_DISPATCH`, is not null, and its
key has not the flag of a stream. -/
def Obtainable (v : Variant) (flagged : Bool) : Prop :=
  ∀ o, v = .unknown o → o ≠ .null ∧ flagged = false

/-- **The condition on a put**: what the argument hands over is a value, no reference, and can be
got. Of a `VT_DISPATCH` that is said of its default property, and there is one. -/
def HandsOver (flagged : Bool) : List Variant → Variant → Prop
  | [], .dispatch _ => False
  | w :: defaults, .dispatch _ => HandsOver flagged defaults (carried (.value w))
  | _, v => ¬ IsReference v ∧ Obtainable v flagged

/-- **The condition on a put of a reference**: the argument is an object by value, or denotes none
and has a null payload if its tag has the bits of an object's. -/
def TakenRightly (now : CallerMemory) (newVal : Argument) : Prop :=
  (∃ o, newVal = .value (.dispatch o) ∨ newVal = .value (.unknown o)) ∨
    (¬ now.DenotesObject newVal ∧
      (TakenForObject newVal → ∃ v, newVal = .value v ∧ v.pdispVal = .ok .null))

/-! ## Following default properties -/

/-- A put gets through the default properties: every argument can be followed and copied, and none
is a null object. -/
def Followed : List Variant → Argument → Prop
  | [], newVal => ∃ v, newVal.deref = .ok v ∧ v ≠ .dispatch .null ∧ v.copy = .ok .sOk
  | w :: defaults, newVal => ∃ v, newVal.deref = .ok v ∧ v ≠ .dispatch .null ∧ v.copy = .ok .sOk ∧
      ((∃ o, v = .dispatch o) → Followed defaults (.value w))

/-- INTERNAL: where nothing is stored, the argument denotes nothing. -/
theorem denotes_eq_none (now : CallerMemory) {defaults : List Variant} {newVal : Argument}
    (h : Followed defaults newVal) (hnone : storedValue newVal defaults = none) :
    now.denotes defaults (carried newVal) = none := by
  induction defaults generalizing newVal with
  | nil =>
    obtain ⟨v, hderef, -⟩ := h
    rw [storedValue, hderef] at hnone
    rw [← eq_carried_of_deref hderef]
    cases v with
    | dispatch o => rfl
    | _ => cases hnone
  | cons w defaults ih =>
    obtain ⟨v, hderef, hnull, -, hnext⟩ := h
    rw [storedValue, hderef] at hnone
    rw [← eq_carried_of_deref hderef]
    cases v with
    | dispatch o =>
      cases o with
      | null => exact absurd rfl hnull
      | _ => exact ih (hnext ⟨_, rfl⟩) hnone
    | _ => cases hnone

/-- INTERNAL: where no reference is stored, the argument denotes what is stored. -/
theorem denotes_eq_some (now : CallerMemory) {defaults : List Variant} {newVal : Argument}
    {v : Variant} (h : Followed defaults newVal) (hstored : storedValue newVal defaults = some v)
    (hv : ¬ IsReference v) : now.denotes defaults (carried newVal) = some v := by
  induction defaults generalizing newVal with
  | nil =>
    obtain ⟨s, hderef, -⟩ := h
    rw [storedValue, hderef] at hstored
    rw [← eq_carried_of_deref hderef]
    cases s with
    | dispatch o => cases o <;> cases hstored
    | _ =>
      cases hstored
      rw [CallerMemory.denotes, now.read_eq_self hv]
  | cons w defaults ih =>
    obtain ⟨s, hderef, hnull, -, hnext⟩ := h
    rw [storedValue, hderef] at hstored
    rw [← eq_carried_of_deref hderef]
    cases s with
    | dispatch o =>
      cases o with
      | null => exact absurd rfl hnull
      | _ => exact ih (hnext ⟨_, rfl⟩) hstored
    | _ =>
      cases hstored
      rw [CallerMemory.denotes, now.read_eq_self hv]

/-- INTERNAL: the condition says of what is stored that it is no reference and can be got. -/
theorem handsOver_iff {defaults : List Variant} {newVal : Argument} (flagged : Bool)
    (h : Followed defaults newVal) :
    HandsOver flagged defaults (carried newVal) ↔
      ∃ v, storedValue newVal defaults = some v ∧ ¬ IsReference v ∧ Obtainable v flagged := by
  induction defaults generalizing newVal with
  | nil =>
    obtain ⟨v, hderef, -⟩ := h
    rw [storedValue, hderef, ← eq_carried_of_deref hderef]
    cases v with
    | dispatch o => cases o <;> simp [HandsOver, resolved]
    | _ => simp [HandsOver, resolved]
  | cons w defaults ih =>
    obtain ⟨v, hderef, hnull, -, hnext⟩ := h
    rw [storedValue, hderef, ← eq_carried_of_deref hderef]
    cases v with
    | dispatch o =>
      cases o with
      | null => exact absurd rfl hnull
      | _ => exact ih (hnext ⟨_, rfl⟩)
    | _ => simp [HandsOver, resolved]

/-- INTERNAL: what an argument denotes is no reference. -/
theorem not_isReference_denotes (now : CallerMemory) {defaults : List Variant} {v value : Variant}
    (h : now.denotes defaults v = some value) : ¬ IsReference value := by
  induction defaults generalizing v with
  | nil =>
    have hread := now.not_isReference_read v
    unfold CallerMemory.denotes at h
    split at h
    · cases h
    · obtain rfl := Option.some.inj h
      exact hread
  | cons w defaults ih =>
    have hread := now.not_isReference_read v
    unfold CallerMemory.denotes at h
    split at h
    · cases h
    · exact ih h
    · obtain rfl := Option.some.inj h
      exact hread

/-- INTERNAL: what is stored can be copied and is no `VT_DISPATCH`. -/
theorem copy_of_followed {defaults : List Variant} {newVal : Argument} {v : Variant}
    (h : Followed defaults newVal) (hstored : storedValue newVal defaults = some v) :
    v.copy = .ok .sOk ∧ ∀ o, v ≠ .dispatch o := by
  induction defaults generalizing newVal with
  | nil =>
    obtain ⟨s, hderef, -, hcopy⟩ := h
    rw [storedValue, hderef] at hstored
    cases s with
    | dispatch o => cases o <;> cases hstored
    | _ =>
      cases hstored
      exact ⟨hcopy, fun o ho => by cases ho⟩
  | cons w defaults ih =>
    obtain ⟨s, hderef, hnull, hcopy, hnext⟩ := h
    rw [storedValue, hderef] at hstored
    cases s with
    | dispatch o =>
      cases o with
      | null => exact absurd rfl hnull
      | _ => exact ih (hnext ⟨_, rfl⟩) hstored
    | _ =>
      cases hstored
      exact ⟨hcopy, fun o ho => by cases ho⟩

/-- INTERNAL: a copy that does not fail succeeds. -/
theorem copy_eq_sOk {v : Variant} {hr : HResult} (h : v.copy = .ok hr)
    (hok : ¬ hr.failed = true) : v.copy = .ok .sOk := by
  cases v with
  | raw vt payload =>
    rw [Variant.copy] at h ⊢
    split at h
    · cases h
      exact absurd rfl hok
    · split at h
      · cases h
      · rename_i hbad hpointer
        rw [if_neg hbad, if_neg hpointer]
        rfl
  | _ => rfl

/-- INTERNAL: a value that is no `VT_DISPATCH` and can be copied is followed. -/
theorem followed_value {defaults : List Variant} {newVal : Argument} {v : Variant} {hr : HResult}
    (hderef : newVal.deref = .ok v) (hv : ∀ o, v ≠ .dispatch o) (hcopy : v.copy = .ok hr)
    (hok : ¬ hr.failed = true) : Followed defaults newVal := by
  cases defaults with
  | nil => exact ⟨v, hderef, hv _, copy_eq_sOk hcopy hok⟩
  | cons w defaults =>
    exact ⟨v, hderef, hv _, copy_eq_sOk hcopy hok, fun ⟨o, ho⟩ => absurd ho (hv o)⟩

/-- INTERNAL: a successful `put_Item` has followed its argument. -/
theorem followed_of_putItem {d d' : VariantDictionary loc} {key : Bstr} {newVal : Argument}
    {defaults : List Variant} (h : d.putItem key newVal defaults = .ok (.sOk, d')) :
    d.readOnly = false ∧ Followed defaults newVal := by
  induction defaults generalizing d d' newVal with
  | nil =>
    rw [VariantDictionary.putItem] at h
    split at h
    · cases h
    · rename_i hro
      refine ⟨by simpa using hro, ?_⟩
      obtain ⟨v, hderef, h⟩ := Run.bind_eq_ok h
      cases v with
      | dispatch o =>
        cases o with
        | null => cases h
        | _ => exact ⟨_, hderef, by simp, rfl⟩
      | _ =>
        obtain ⟨hr, hcopy, h⟩ := Run.bind_eq_ok h
        split at h
        · cases h
        · rename_i hok
          exact followed_value hderef (by simp) hcopy hok
  | cons w defaults ih =>
    rw [VariantDictionary.putItem] at h
    split at h
    · cases h
    · rename_i hro
      refine ⟨by simpa using hro, ?_⟩
      obtain ⟨v, hderef, h⟩ := Run.bind_eq_ok h
      cases v with
      | dispatch o =>
        cases o with
        | null => cases h
        | _ =>
          obtain ⟨⟨hr, d₁⟩, hput, h⟩ := Run.bind_eq_ok h
          cases h
          exact ⟨_, hderef, by simp, rfl, fun _ => (ih hput).2⟩
      | _ =>
        obtain ⟨hr, hcopy, h⟩ := Run.bind_eq_ok h
        split at h
        · cases h
        · rename_i hok
          exact followed_value hderef (by simp) hcopy hok

/-- INTERNAL: a successful `put_Value` has followed its argument. -/
theorem followed_of_putValue {a a' : CApplication loc} {key : Bstr} {newVal : Argument}
    {defaults : List Variant} (h : a.putValue key newVal defaults = .ok (.sOk, a')) :
    key ≠ [] ∧ Followed defaults newVal := by
  induction defaults generalizing a a' newVal with
  | nil =>
    rw [CApplication.putValue] at h
    split at h
    · cases h
    · rename_i hkey
      refine ⟨hkey, ?_⟩
      obtain ⟨v, hderef, h⟩ := Run.bind_eq_ok h
      cases v with
      | dispatch o =>
        cases o with
        | null => cases h
        | _ => exact ⟨_, hderef, by simp, rfl⟩
      | _ =>
        obtain ⟨hr, hcopy, h⟩ := Run.bind_eq_ok h
        split at h
        · cases h
        · rename_i hok
          exact followed_value hderef (by simp) hcopy hok
  | cons w defaults ih =>
    rw [CApplication.putValue] at h
    split at h
    · cases h
    · rename_i hkey
      refine ⟨hkey, ?_⟩
      obtain ⟨v, hderef, h⟩ := Run.bind_eq_ok h
      cases v with
      | dispatch o =>
        cases o with
        | null => cases h
        | _ => exact ⟨_, hderef, by simp, rfl, fun _ => (ih h).2⟩
      | _ =>
        obtain ⟨hr, hcopy, h⟩ := Run.bind_eq_ok h
        split at h
        · cases h
        · rename_i hok
          exact followed_value hderef (by simp) hcopy hok

/-! ## Getting back -/

/-- INTERNAL: the law of a put and a get that returns whatever is obtainable. -/
theorem givesBack_iff {σ : Type} (now : CallerMemory) {newVal : Argument} {defaults : List Variant}
    {get : (List UInt8 → Option ComObject) → Run (HResult × Variant × σ)} {flagged : Bool}
    (h : Followed defaults newVal)
    (hget : ∀ v, storedValue newVal defaults = some v → Obtainable v flagged →
      ∀ oleLoad, ∃ s, get oleLoad = .ok (.sOk, v, s))
    (hlost : ∀ v, storedValue newVal defaults = some v → ¬ Obtainable v flagged →
      ∀ value s, get (fun _ => none) ≠ .ok (.sOk, value, s)) :
    GivesBack now newVal defaults get (storedValue newVal defaults) ↔
      HandsOver flagged defaults (carried newVal) := by
  rw [handsOver_iff flagged h]
  constructor
  · rintro ⟨value, hdenotes, hvalue, v, hv, -⟩
    obtain ⟨s, hs⟩ := hvalue fun _ => none
    have hobtain : Obtainable v flagged := by
      by_contra hobtain
      exact hlost v hv hobtain value s hs
    obtain ⟨s', hs'⟩ := hget v hv hobtain fun _ => none
    rw [hs] at hs'
    cases hs'
    exact ⟨value, hv, not_isReference_denotes now hdenotes, hobtain⟩
  · rintro ⟨v, hv, hreference, hobtain⟩
    exact ⟨v, denotes_eq_some now h hv hreference, hget v hv hobtain, v, hv,
      fun _ _ _ => rfl⟩

/-- INTERNAL: an obtainable value is got as it is. -/
theorem getItem_obtainable {d : VariantDictionary loc} {key : Bstr} {v : Variant}
    (hfind : d.dictionary.find (lpcolestr key) = some v) (hv : ∀ o, v ≠ .dispatch o)
    (hobtain : Obtainable v (d.isSerialized key)) (oleLoad : List UInt8 → Option ComObject) :
    d.getItem oleLoad key = .ok (.sOk, v, d) := by
  unfold VariantDictionary.getItem VariantDictionary.getVariable
  dsimp only [VariantDictionary.VariantKey.bstr]
  rw [hfind]
  cases v with
  | dispatch o => exact absurd rfl (hv o)
  | unknown o =>
    obtain ⟨hnull, hclear⟩ := hobtain o rfl
    dsimp only [VariantDictionary.getObject]
    rw [if_neg (by rw [hclear]; exact Bool.false_ne_true), if_neg hnull]
    rfl
  | _ => rfl

/-- INTERNAL: any other value is lost where nothing loads objects. -/
theorem getItem_lost {d : VariantDictionary loc} {key : Bstr} {v : Variant}
    (hfind : d.dictionary.find (lpcolestr key) = some v)
    (hobtain : ¬ Obtainable v (d.isSerialized key)) (value : Variant) (d' : VariantDictionary loc) :
    d.getItem (fun _ => none) key ≠ .ok (.sOk, value, d') := by
  unfold VariantDictionary.getItem VariantDictionary.getVariable
  dsimp only [VariantDictionary.VariantKey.bstr]
  rw [hfind]
  cases v with
  | unknown o =>
    dsimp only [VariantDictionary.getObject]
    split
    · cases o <;> nofun
    · rename_i hclear
      rw [if_pos]
      · nofun
      · by_contra hnull
        apply hobtain
        intro o' ho'
        cases ho'
        exact ⟨hnull, by simpa using hclear⟩
  | _ => exact absurd (fun o ho => by cases ho) hobtain

/-- INTERNAL: `put_Item` and `get_Item`. -/
theorem putItemLaw_iff (now : CallerMemory) {d d' : VariantDictionary loc} {key : Bstr}
    {newVal : Argument} {defaults : List Variant}
    (h : d.putItem key newVal defaults = .ok (.sOk, d')) :
    PutItemLaw now d d' key newVal defaults ↔
      HandsOver (d.isSerialized key) defaults (carried newVal) := by
  obtain ⟨hro, hfollowed⟩ := followed_of_putItem h
  obtain ⟨v, hderef, hstores⟩ := putItem_spec hro h
  have hself : loc.compare (lpcolestr key) (lpcolestr key) = .eq := Std.ReflCmp.compare_self
  have hstored : storedValue newVal defaults = resolved defaults v := by
    rw [storedValue, hderef]
  rw [← hstored] at hstores
  obtain ⟨hflags, -, hdictionary⟩ := hstores
  have hother : ∀ key', loc.compare key' (lpcolestr key) ≠ .eq →
      d'.dictionary.find key' = d.dictionary.find key' := by
    intro key' hne
    rw [hdictionary]
    split
    · rw [OrderedMap.find_insert, if_neg hne, Option.or_none]
    · rw [OrderedMap.find_upsert, if_neg hne]
  cases hv : storedValue newVal defaults with
  | none =>
    refine iff_of_false ?_ ?_
    · rintro ⟨⟨value, hdenotes, -⟩, -⟩
      rw [denotes_eq_none now hfollowed hv] at hdenotes
      cases hdenotes
    · rw [handsOver_iff _ hfollowed]
      rintro ⟨w, hw, -⟩
      rw [hv] at hw
      cases hw
  | some w =>
    have hfind : d'.dictionary.find (lpcolestr key) = storedValue newVal defaults := by
      rw [hdictionary, hv]
      dsimp only
      rw [OrderedMap.find_upsert, if_pos hself]
    have hflag : d'.isSerialized key = d.isSerialized key := by
      unfold VariantDictionary.isSerialized
      rw [hflags]
    rw [PutItemLaw, and_iff_left hother, hfind, ← hflag]
    apply givesBack_iff now hfollowed
    · intro w hw hobtain oleLoad
      have hdispatch := (copy_of_followed hfollowed hw).2
      exact ⟨d', getItem_obtainable (hfind.trans hw) hdispatch hobtain oleLoad⟩
    · intro w hw hobtain
      exact getItem_lost (hfind.trans hw) hobtain

/-- The element under a key has the flag of a stream. -/
def FlaggedElement (a : CApplication loc) (key : Bstr) : Bool :=
  (a.find (lpcolestr key)).any ElementModel.isSerialized

/-- INTERNAL: the element a put finds or adds. -/
theorem find_touch (a : CApplication loc) (key : Bstr) :
    ∃ element, (a.touch key).find key = some element ∧
      element.isSerialized = (a.find key).any ElementModel.isSerialized := by
  have hself : loc.compare key key = .eq := Std.ReflCmp.compare_self
  unfold CApplication.touch
  cases h : a.find key with
  | none =>
    have hfind := a.find_insert key key { ElementModel.blank with isNew := true }
    rw [h, hself, Option.none_or, if_pos rfl] at hfind
    exact ⟨_, hfind, rfl⟩
  | some element =>
    dsimp only
    split
    · exact ⟨element, h, rfl⟩
    · have hfind := a.find_update key (fun e => { e with isDirty := true }) key
      rw [h, hself, if_pos rfl, Option.map_some] at hfind
      exact ⟨_, hfind, rfl⟩

/-- INTERNAL: it leaves every other key as it was. -/
theorem find_touch_of_ne (a : CApplication loc) {key key' : Bstr}
    (hne : loc.compare key' key ≠ .eq) : (a.touch key).find key' = a.find key' := by
  unfold CApplication.touch
  cases a.find key with
  | none => exact (a.find_insert key key' _).trans (by rw [if_neg hne, Option.or_none])
  | some element =>
    dsimp only
    split
    · rfl
    · rw [CApplication.find_update, if_neg hne]

/-- INTERNAL: an obtainable value is got as it is. -/
theorem getValue_obtainable {a : CApplication loc} {key : Bstr} {element : ElementModel}
    (hkey : key ≠ []) (hfind : a.find (lpcolestr key) = some element)
    (hcopy : element.val.copy = .ok .sOk) (hv : ∀ o, element.val ≠ .dispatch o)
    (hobtain : Obtainable element.val element.isSerialized)
    (oleLoad : List UInt8 → Option ComObject) :
    a.getValue oleLoad key = .ok (.sOk, element.val, a) := by
  unfold CApplication.getValue
  rw [if_neg hkey, hfind]
  dsimp only
  split
  · rename_i o ho
    obtain ⟨hnull, hclear⟩ := hobtain o ho
    rw [CApplication.getObject, hclear, if_neg Bool.false_ne_true, if_neg hnull, ho]
    rfl
  · rename_i o ho
    exact absurd ho (hv o)
  · rw [hcopy]
    rfl

/-- INTERNAL: any other value is lost where nothing loads objects. -/
theorem getValue_lost {a : CApplication loc} {key : Bstr} {element : ElementModel}
    (hkey : key ≠ []) (hfind : a.find (lpcolestr key) = some element)
    (hobtain : ¬ Obtainable element.val element.isSerialized)
    (value : Variant) (a' : CApplication loc) :
    a.getValue (fun _ => none) key ≠ .ok (.sOk, value, a') := by
  unfold CApplication.getValue
  rw [if_neg hkey, hfind]
  dsimp only
  split
  · rename_i o ho
    rw [CApplication.getObject]
    split
    · cases o <;> nofun
    · rename_i hclear
      rw [if_pos]
      · nofun
      · by_contra hnull
        apply hobtain
        intro o' ho'
        rw [ho] at ho'
        cases ho'
        exact ⟨hnull, by simpa using hclear⟩
  · rename_i o ho
    exact absurd (fun o' ho' => by rw [ho] at ho'; cases ho') hobtain
  · rename_i hunknown _
    exact absurd (fun o' ho' => absurd ho' (hunknown o')) hobtain

/-- INTERNAL: `put_Value` and `get_Value`. -/
theorem putValueLaw_iff (now : CallerMemory) {a a' : CApplication loc} {key : Bstr}
    {newVal : Argument} {defaults : List Variant}
    (h : a.putValue key newVal defaults = .ok (.sOk, a')) :
    PutValueLaw now a a' key newVal defaults ↔
      HandsOver (FlaggedElement a key) defaults (carried newVal) := by
  obtain ⟨hkey, hfollowed⟩ := followed_of_putValue h
  have hself : loc.compare (lpcolestr key) (lpcolestr key) = .eq := Std.ReflCmp.compare_self
  obtain ⟨element, htouch, hflag⟩ := find_touch a (lpcolestr key)
  have ha := putValue_spec hkey h
  have hother : ∀ key', loc.compare key' (lpcolestr key) ≠ .eq → a'.find key' = a.find key' := by
    intro key' hne
    rw [ha, CApplication.find_update, if_neg hne, find_touch_of_ne a hne]
  cases hv : storedValue newVal defaults with
  | none =>
    refine iff_of_false ?_ ?_
    · rintro ⟨⟨value, hdenotes, -⟩, -⟩
      rw [denotes_eq_none now hfollowed hv] at hdenotes
      cases hdenotes
    · rw [handsOver_iff _ hfollowed]
      rintro ⟨w, hw, -⟩
      rw [hv] at hw
      cases hw
  | some w =>
    have hfind : a'.find (lpcolestr key) = some { element with val := w } := by
      rw [ha, CApplication.find_update, if_pos hself, htouch, hv]
      rfl
    have hval : (a'.find (lpcolestr key)).map ElementModel.val = storedValue newVal defaults := by
      rw [hfind, hv]
      rfl
    rw [PutValueLaw, and_iff_left hother, hval, FlaggedElement, ← hflag]
    apply givesBack_iff now hfollowed
    · intro v hw hobtain oleLoad
      obtain rfl := Option.some.inj (hv.symm.trans hw)
      obtain ⟨hcopy, hdispatch⟩ := copy_of_followed hfollowed hw
      exact ⟨a', getValue_obtainable hkey hfind hcopy hdispatch hobtain oleLoad⟩
    · intro v hw hobtain
      obtain rfl := Option.some.inj (hv.symm.trans hw)
      exact getValue_lost hkey hfind hobtain

/-! ## Putting references -/

/-- INTERNAL: a reference to a `VARIANT` is not taken for an object. -/
theorem not_takenForObject_byrefVariant (v : Variant) :
    ¬ TakenForObject (.byrefVariant v) := by
  have htag : ¬ ((vtByref ||| vtVariant) &&& vtDispatch = vtDispatch ∨
      (vtByref ||| vtVariant) &&& vtUnknown = vtUnknown) := by decide
  exact htag

/-- INTERNAL: the tags of objects have their own bits. -/
theorem and_dispatch : vtDispatch &&& vtDispatch = vtDispatch := by decide

theorem and_unknown : vtUnknown &&& vtUnknown = vtUnknown := by decide

/-- INTERNAL: a value that is no object but whose payload is no wild pointer has a null one. -/
theorem pdispVal_of_not_object {v : Variant} {o : ComObject} (h : v.pdispVal = .ok o)
    (hdispatch : ∀ o, v ≠ .dispatch o) (hunknown : ∀ o, v ≠ .unknown o) : o = .null := by
  cases v with
  | dispatch o => exact absurd rfl (hdispatch o)
  | unknown o => exact absurd rfl (hunknown o)
  | empty | null | nullArray vt => exact (Except.ok.inj h).symm
  | scalar t bits =>
    rw [Variant.pdispVal] at h
    split at h
    · exact (Except.ok.inj h).symm
    · cases h
  | raw vt payload =>
    rw [Variant.pdispVal] at h
    split at h
    · cases h
    · split at h
      · exact (Except.ok.inj h).symm
      · cases h
  | _ => cases h

/-- The answer of a put of a reference that tests the object behind the payload. -/
def answerOf {σ : Type} (accepted refused : σ) : Argument → Run (HResult × σ)
  | .value v => do
    if (← v.pdispVal).persistable then pure (.sOk, accepted) else pure (.eNoInterface, refused)
  | .byrefVariant _ => .error .fault

/-- INTERNAL: a call whose answer is known accepts objects when the answer is right. -/
theorem acceptsObjects_of_answer {σ : Type} (now : CallerMemory) {newVal : Argument}
    {allowed : Prop} {r : Run (HResult × σ)} {hr : HResult} {s : σ} (hrun : r = .ok (hr, s)) :
    AcceptsObjects now newVal allowed r ↔
      (hr = .sOk ↔ allowed ∧ now.DenotesObject newVal) := by
  constructor
  · rintro ⟨hr', s', hrun', hiff⟩
    rw [hrun] at hrun'
    cases hrun'
    exact hiff
  · intro hiff
    exact ⟨hr, s, hrun, hiff⟩

/-- INTERNAL: an object by value denotes itself. -/
theorem denotesObject_value (now : CallerMemory) {v : Variant} {o : ComObject}
    (hv : v = .dispatch o ∨ v = .unknown o) :
    now.DenotesObject (.value v) ↔ o.persistable = true := by
  constructor
  · rintro ⟨o', ho', hp⟩
    rcases hv with rfl | rfl
    · rcases ho' with ho' | ho'
      · cases ho'
        exact hp
      · cases ho'
    · rcases ho' with ho' | ho'
      · cases ho'
      · cases ho'
        exact hp
  · intro hp
    rcases hv with rfl | rfl
    · exact ⟨o, .inl rfl, hp⟩
    · exact ⟨o, .inr rfl, hp⟩

/-- INTERNAL: acceptance in terms of the argument. -/
theorem acceptsObjects_iff {σ : Type} (now : CallerMemory) {newVal : Argument} {allowed : Prop}
    {r : Run (HResult × σ)}
    (hrefused : ¬ (allowed ∧ TakenForObject newVal) → ∃ hr s, r = .ok (hr, s) ∧ hr ≠ .sOk)
    (htaken : allowed → TakenForObject newVal →
      ∃ accepted refused, r = answerOf accepted refused newVal) :
    AcceptsObjects now newVal allowed r ↔ (allowed → TakenRightly now newVal) := by
  by_cases hallowed : allowed
  swap
  · obtain ⟨hr, s, hrun, hne⟩ := hrefused fun h => hallowed h.1
    rw [acceptsObjects_of_answer now hrun]
    exact iff_of_true (iff_of_false hne fun h => hallowed h.1) fun h => absurd h hallowed
  rw [imp_iff_right hallowed]
  by_cases htag : TakenForObject newVal
  swap
  · -- any other argument is refused
    obtain ⟨hr, s, hrun, hne⟩ := hrefused fun h => htag h.2
    rw [acceptsObjects_of_answer now hrun]
    constructor
    · intro hiff
      exact .inr ⟨fun hobject => hne (hiff.mpr ⟨hallowed, hobject⟩), fun h => absurd h htag⟩
    · rintro (⟨o, rfl | rfl⟩ | ⟨hobject, -⟩)
      · exact absurd (.inl and_dispatch) htag
      · exact absurd (.inr and_unknown) htag
      · exact iff_of_false hne fun h => hobject h.2
  obtain ⟨accepted, refused, rfl⟩ := htaken hallowed htag
  cases newVal with
  | byrefVariant v => exact absurd htag (not_takenForObject_byrefVariant v)
  | value v =>
    cases hpayload : v.pdispVal with
    | error e =>
      -- the payload is a wild pointer
      refine iff_of_false ?_ ?_
      · rintro ⟨hr, s, h, -⟩
        rw [answerOf, hpayload] at h
        cases h
      · rintro (⟨o, ho | ho⟩ | ⟨-, hnull⟩)
        · cases ho
          cases hpayload
        · cases ho
          cases hpayload
        · obtain ⟨v', hv', hnull⟩ := hnull htag
          cases hv'
          rw [hpayload] at hnull
          cases hnull
    | ok o =>
      by_cases hv : v = .dispatch o ∨ v = .unknown o
      · refine iff_of_true ?_ (.inl ⟨o, hv.imp (congrArg _) (congrArg _)⟩)
        by_cases hp : o.persistable = true
        · have hrun : answerOf accepted refused (.value v) = .ok (.sOk, accepted) := by
            rw [answerOf, hpayload]
            exact if_pos hp
          rw [acceptsObjects_of_answer now hrun, denotesObject_value now hv]
          exact iff_of_true rfl ⟨hallowed, hp⟩
        · have hrun : answerOf accepted refused (.value v) = .ok (.eNoInterface, refused) := by
            rw [answerOf, hpayload]
            exact if_neg hp
          rw [acceptsObjects_of_answer now hrun, denotesObject_value now hv]
          exact iff_of_false nofun fun h => hp h.2
      · -- no object, with a null payload
        have hne : ∀ o', v ≠ .dispatch o' ∧ v ≠ .unknown o' := by
          intro o'
          constructor
          · rintro rfl
            exact hv (.inl (congrArg _ (Except.ok.inj hpayload)))
          · rintro rfl
            exact hv (.inr (congrArg _ (Except.ok.inj hpayload)))
        obtain rfl := pdispVal_of_not_object hpayload (fun o' => (hne o').1) fun o' => (hne o').2
        have hrun : answerOf accepted refused (.value v) = .ok (.eNoInterface, refused) := by
          rw [answerOf, hpayload]
          rfl
        rw [acceptsObjects_of_answer now hrun]
        constructor
        · intro hiff
          exact .inr ⟨fun hobject => absurd (hiff.mpr ⟨hallowed, hobject⟩) nofun,
            fun _ => ⟨v, rfl, hpayload⟩⟩
        · rintro (⟨o', ho' | ho'⟩ | ⟨hobject, -⟩)
          · exact absurd (Argument.value.inj ho') (hne o').1
          · exact absurd (Argument.value.inj ho') (hne o').2
          · exact iff_of_false nofun fun h => hobject h.2

/-- INTERNAL: `putref_Item`. -/
theorem putrefItem_accepts (now : CallerMemory) (d : VariantDictionary loc) (key : Bstr)
    (newVal : Argument) :
    AcceptsObjects now newVal (d.readOnly = false) (d.putrefItem key newVal) ↔
      (d.readOnly = false → TakenRightly now newVal) := by
  apply acceptsObjects_iff
  · intro hnot
    unfold VariantDictionary.putrefItem
    split
    · exact ⟨_, _, rfl, nofun⟩
    · rename_i hro
      exact ⟨_, _, if_neg fun htag => hnot ⟨by simpa using hro, htag⟩, nofun⟩
  · intro hro htag
    unfold VariantDictionary.putrefItem
    rw [if_neg (by simp [hro])]
    cases newVal with
    | byrefVariant v => exact absurd htag (not_takenForObject_byrefVariant v)
    | value v => exact ⟨_, _, if_pos htag⟩

/-- INTERNAL: `putref_Value`. -/
theorem putrefValue_accepts (now : CallerMemory) (a : CApplication loc) (key : Bstr)
    (newVal : Argument) :
    AcceptsObjects now newVal (key ≠ []) (a.putrefValue key newVal) ↔
      (key ≠ [] → TakenRightly now newVal) := by
  apply acceptsObjects_iff
  · intro hnot
    unfold CApplication.putrefValue
    split
    · exact ⟨_, _, rfl, nofun⟩
    · rename_i hkey
      exact ⟨_, _, if_neg fun htag => hnot ⟨hkey, htag⟩, nofun⟩
  · intro hkey htag
    unfold CApplication.putrefValue
    rw [if_neg hkey]
    cases newVal with
    | byrefVariant v => exact absurd htag (not_takenForObject_byrefVariant v)
    | value v => exact ⟨_, _, if_pos htag⟩

/-! ## The law -/

/-- **When the two dictionaries keep the law of put and get**: a put where a value that is no
reference is stored and can be got, a put of a reference where the argument is an object by value or
is seen to be none. -/
theorem putThenGet_iff (now : CallerMemory) (key : Bstr) (newVal : Argument)
    (defaults : List Variant) :
    (∀ d d' : VariantDictionary loc, d.putItem key newVal defaults = .ok (.sOk, d') →
      (PutItemLaw now d d' key newVal defaults ↔
        HandsOver (d.isSerialized key) defaults (carried newVal))) ∧
    (∀ a a' : CApplication loc, a.putValue key newVal defaults = .ok (.sOk, a') →
      (PutValueLaw now a a' key newVal defaults ↔
        HandsOver (FlaggedElement a key) defaults (carried newVal))) ∧
    (∀ d : VariantDictionary loc,
      (AcceptsObjects now newVal (d.readOnly = false) (d.putrefItem key newVal) ↔
        (d.readOnly = false → TakenRightly now newVal))) ∧
    ∀ a : CApplication loc,
      (AcceptsObjects now newVal (key ≠ []) (a.putrefValue key newVal) ↔
        (key ≠ [] → TakenRightly now newVal)) := by
  refine ⟨fun d d' => putItemLaw_iff now, fun a a' => putValueLaw_iff now, ?_, ?_⟩
  · exact fun d => putrefItem_accepts now d key newVal
  · exact fun a => putrefValue_accepts now a key newVal

/-- A number by value is put and got back in both, and an object is accepted by both. -/
theorem plainValue_putThenGet :
    (∃ d', (.new : VariantDictionary .ordinal).putItem [97] (.value (.scalar .i4 7)) [] =
        .ok (.sOk, d') ∧
      PutItemLaw .blank .new d' [97] (.value (.scalar .i4 7)) []) ∧
    (∃ a', (.new : CApplication .ordinal).putValue [97] (.value (.scalar .i4 7)) [] =
        .ok (.sOk, a') ∧
      PutValueLaw .blank .new a' [97] (.value (.scalar .i4 7)) []) ∧
    AcceptsObjects .blank (.value (.dispatch (.live true none)))
      ((.new : VariantDictionary .ordinal).readOnly = false)
      ((.new : VariantDictionary .ordinal).putrefItem [97]
        (.value (.dispatch (.live true none)))) ∧
    AcceptsObjects .blank (.value (.dispatch (.live true none))) (([97] : Bstr) ≠ [])
      ((.new : CApplication .ordinal).putrefValue [97] (.value (.dispatch (.live true none)))) := by
  have hnumber := @putThenGet_iff .ordinal .blank [97] (.value (.scalar .i4 7)) []
  have hobject := @putThenGet_iff .ordinal .blank [97]
    (.value (.dispatch (.live true none))) []
  have hright : TakenRightly .blank (.value (.dispatch (.live true none))) :=
    .inl ⟨_, .inl rfl⟩
  have hcondition : ∀ flagged, HandsOver flagged [] (carried (.value (.scalar .i4 7))) :=
    fun _ => ⟨id, nofun⟩
  have hitem : (.new : VariantDictionary .ordinal).putItem [97] (.value (.scalar .i4 7)) [] =
      .ok (.sOk, { (.new : VariantDictionary .ordinal) with
        dictionary := (OrderedMap.empty.insert [97] .empty).assign [97] (.scalar .i4 7)
        blnDirty := true }) := by
    rw [VariantDictionary.putItem]
    rfl
  have hvalue : (.new : CApplication .ordinal).putValue [97] (.value (.scalar .i4 7)) [] =
      .ok (.sOk, ((.new : CApplication .ordinal).touch (lpcolestr [97])).update (lpcolestr [97])
        fun e => { e with val := .scalar .i4 7 }) := by
    rw [CApplication.putValue, if_neg (by simp)]
    rfl
  refine ⟨⟨_, hitem, ?_⟩, ⟨_, hvalue, ?_⟩, ?_, ?_⟩
  · exact (hnumber.1 _ _ hitem).mpr (hcondition _)
  · exact (hnumber.2.1 _ _ hvalue).mpr (hcondition _)
  · exact (hobject.2.2.1 _).mpr fun _ => hright
  · exact (hobject.2.2.2 _).mpr fun _ => hright

/-- **The counterexample**: a reference to a number is stored, and given back, as the pointer. -/
theorem byrefNumber_not_putThenGet :
    ¬ ∀ (now : CallerMemory) (key : Bstr) (newVal : Argument) (d' : VariantDictionary .ordinal),
      (.new : VariantDictionary .ordinal).putItem key newVal [] = .ok (.sOk, d') →
        PutItemLaw now .new d' key newVal [] := by
  intro h
  have hput : (.new : VariantDictionary .ordinal).putItem [97]
      (.value (.raw (vtByref ||| ScalarType.i4.vt) 0)) [] =
      .ok (.sOk, { (.new : VariantDictionary .ordinal) with
        dictionary := (OrderedMap.empty.insert [97] .empty).assign [97]
          (.raw (vtByref ||| ScalarType.i4.vt) 0)
        blnDirty := true }) := by
    rw [VariantDictionary.putItem]
    rfl
  obtain ⟨⟨value, hdenotes, hget, -⟩, -⟩ := h .blank _ _ _ hput
  obtain ⟨s, hs⟩ := hget fun _ => none
  cases hdenotes
  cases hs

end IspSession.Analysis
