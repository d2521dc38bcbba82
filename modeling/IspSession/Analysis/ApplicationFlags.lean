import IspSession.Analysis.ApplicationCalls

/-!
# The flag of an object that still is a stream

`IsSerialized` of an element is right when it says that the value is a stream.
`KeepsFlags` is the condition under which a call keeps all flags right:

* `put_Value` must not store over a flag that its value does not fit;
* `putref_Value` of an object that cannot be persisted takes the flag off the stream it
  leaves in place;
* `SerializeKey` turns a live object into a stream without setting the flag;
* `DeserializeKey` never takes the flag off an element that is there.

`perform_keeps_flags` is the step, `run_keeps_flags` the run; `storedOverStream_not_right`
is a run that stores a number over a stream.
-/

set_option autoImplicit false

namespace IspSession.Analysis

open IspSession.Library IspSession.Model

variable {loc : Collation}

/-- The flag says whether the value is a stream. -/
def FlagRight (element : ElementModel) : Prop :=
  element.isSerialized = true ↔ packed element.val = true

instance (element : ElementModel) : Decidable (FlagRight element) := by
  unfold FlagRight
  infer_instance

/-- All flags of an application are right. -/
def FlagsRight (a : CApplication loc) : Prop :=
  ∀ key element, a.find key = some element → FlagRight element

/-- A fresh element's flag is right. -/
theorem flagRight_blank (isNew : Bool) : FlagRight { ElementModel.blank with isNew } := by
  simp [FlagRight, ElementModel.blank, packed]

/-! ## Flags after an insertion and a change -/

theorem FlagsRight.withBuffer {a : CApplication loc} (h : FlagsRight a) (b : ℕ) :
    FlagsRight (a.withBuffer b) := h

/-- Inserting an element whose flag is right. -/
theorem FlagsRight.insert {a : CApplication loc} (h : FlagsRight a) (key : Bstr)
    {element : ElementModel} (hel : FlagRight element) : FlagsRight (a.insert key element) := by
  intro key' element' hfind
  rw [CApplication.find_insert] at hfind
  cases hold : a.find key' with
  | some old =>
    rw [hold, Option.some_or] at hfind
    exact Option.some.inj hfind ▸ h key' old hold
  | none =>
    rw [hold, Option.none_or] at hfind
    split at hfind
    · exact Option.some.inj hfind ▸ hel
    · cases hfind

/-- Changing an element so that its flag is right. -/
theorem FlagsRight.update {a : CApplication loc} (h : FlagsRight a) (key : Bstr)
    {f : ElementModel → ElementModel}
    (hf : ∀ element, a.find key = some element → FlagRight (f element)) :
    FlagsRight (a.update key f) := by
  intro key' element' hfind
  rw [CApplication.find_update] at hfind
  split at hfind
  · obtain ⟨element, hel, rfl⟩ := Option.map_eq_some_iff.mp hfind
    exact hf element hel
  · exact h key' element' hfind

/-- The flag of the element under a key. -/
def flagged (a : CApplication loc) (key : Bstr) : Bool :=
  ((a.find key).map ElementModel.isSerialized).getD false

/-- The element under a key holds a stream. -/
def holdsStream (a : CApplication loc) (key : Bstr) : Bool :=
  ((a.find key).map fun element => packed element.val).getD false

/-- The element under a key is not flagged and `SerializeKey` can make it a stream. -/
def turnsToStream (a : CApplication loc) (key : Bstr) : Bool :=
  ((a.find key).map fun element =>
    !element.isSerialized && packed (CApplication.convertObjectToStream element.val)).getD false

/-- Touching an element leaves the flags right, and the element's own flag as it was. -/
theorem FlagsRight.touch {a : CApplication loc} (h : FlagsRight a) (key : Bstr) :
    FlagsRight (a.touch key) ∧ ∀ element, (a.touch key).find key = some element →
      element.isSerialized = flagged a key := by
  have hself : loc.compare key key = .eq := Std.ReflCmp.compare_self
  unfold CApplication.touch flagged
  cases hfind : a.find key with
  | none =>
    refine ⟨h.insert key (flagRight_blank true), fun element hel => ?_⟩
    rw [CApplication.find_insert, hfind, Option.none_or, if_pos hself] at hel
    exact Option.some.inj hel ▸ rfl
  | some old =>
    dsimp only
    split
    · refine ⟨h, fun element hel => ?_⟩
      rw [hfind] at hel
      exact Option.some.inj hel ▸ rfl
    · refine ⟨h.update key fun element hel => h key element hel, fun element hel => ?_⟩
      rw [CApplication.find_update, if_pos hself, hfind, Option.map_some] at hel
      exact Option.some.inj hel ▸ rfl

/-! ## The condition -/

/-- What a call needs so that the flags stay right. -/
def KeepsFlags (mem : Memory) (a : CApplication loc) : CApplication.Call → Prop
  | .putValue key newVal defaults => key ≠ [] → ∀ v ∈ storedValue newVal defaults,
      (flagged a (lpcolestr key) = true ↔ packed v = true)
  | .putrefValue key newVal => key ≠ [] → TakenForObject newVal →
      (storedReference newVal).isNone = true → holdsStream a (lpcolestr key) = false
  | .serializeKey key _ =>
    (utf16ToUtf8 key).length + 1 < 2 ^ 31 → turnsToStream a (lpcolestr key) = false
  | .deserializeKey binaryString =>
    ¬ Forged (recordTag binaryString) (recordValue binaryString) ∧
      ∀ r ∈ (readString false mem ⟨⟨binaryString, 0⟩, a.m_currentBufLen⟩).toOption,
        r.1.failed = false → flagged a (r.2.1.getD []) = true →
        HoldsObject (recordTag binaryString) (recordValue binaryString)
  | _ => True

instance (mem : Memory) (a : CApplication loc) (call : CApplication.Call) :
    Decidable (KeepsFlags mem a call) := by
  cases call <;> unfold KeepsFlags <;> infer_instance

/-! ## One call -/

/-- INTERNAL: a stored reference is a live object. -/
theorem packed_storedReference {newVal : Argument} {v : Variant}
    (h : storedReference newVal = some v) : packed v = false := by
  unfold storedReference at h
  split at h
  · rename_i w
    split at h
    · rename_i o ho
      split at h
      · rename_i hp
        cases h
        cases v with
        | dispatch o' => cases o' <;> first | rfl | (cases ho; cases hp)
        | unknown o' => cases o' <;> first | rfl | (cases ho; cases hp)
        | _ => rfl
      · cases h
    · cases h
  · cases h

/-- INTERNAL: `put_Value`. -/
theorem flagsRight_putValue {mem : Memory} {a a' : CApplication loc} {key : Bstr}
    {newVal : Argument} {defaults : List Variant} {hr : HResult} (h : FlagsRight a)
    (hkeeps : KeepsFlags mem a (.putValue key newVal defaults))
    (hput : a.putValue key newVal defaults = .ok (hr, a')) : FlagsRight a' := by
  by_cases hkey : key = []
  · rw [CApplication.putValue.eq_def, if_pos hkey] at hput
    cases hput
    exact h
  · obtain ⟨htouch, hflag⟩ := h.touch (lpcolestr key)
    rw [putValue_spec hkey hput]
    refine htouch.update _ fun element hel => ?_
    cases hstored : storedValue newVal defaults with
    | none => exact htouch _ element hel
    | some v =>
      change element.isSerialized = true ↔ packed v = true
      rw [hflag element hel]
      exact hkeeps hkey v hstored

/-- INTERNAL: `putref_Value`. -/
theorem flagsRight_putrefValue {mem : Memory} {a a' : CApplication loc} {key : Bstr}
    {newVal : Argument} {hr : HResult} (h : FlagsRight a)
    (hkeeps : KeepsFlags mem a (.putrefValue key newVal))
    (hput : a.putrefValue key newVal = .ok (hr, a')) : FlagsRight a' := by
  rw [putrefValue_spec hput]
  split
  · rename_i hc
    -- the element loses its flag; its value is the live object, or is no stream
    unfold CApplication.touchRef
    cases hfind : a.find (lpcolestr key) with
    | none =>
      have hins := h.insert (lpcolestr key) (flagRight_blank true)
      refine hins.update _ fun element hel => ?_
      have hflag : element.isSerialized = false ∧ packed element.val = false := by
        rw [CApplication.find_insert, hfind, Option.none_or,
          if_pos Std.ReflCmp.compare_self] at hel
        exact Option.some.inj hel ▸ ⟨rfl, rfl⟩
      cases hstored : storedReference newVal with
      | none => simp [FlagRight, withStored, hflag]
      | some v => simp [FlagRight, withStored, hflag, packed_storedReference hstored]
    | some old =>
      dsimp only
      rw [CApplication.update_update]
      refine h.update _ fun element hel => ?_
      cases hstored : storedReference newVal with
      | none =>
        have hstream := hkeeps hc.1 hc.2 (by rw [hstored]; rfl)
        rw [holdsStream, hel] at hstream
        simpa [FlagRight, withStored] using hstream
      | some v => simp [FlagRight, withStored, packed_storedReference hstored]
  · exact h

/-- INTERNAL: `get_Value`. -/
theorem flagsRight_getValue {oleLoad : Bytes → Option ComObject}
    (hload : ∀ bytes o, oleLoad bytes = some o → ∀ b, o ≠ .packed b) {a a' : CApplication loc}
    {key : Bstr} {hr : HResult} {val : Variant} (h : FlagsRight a)
    (hget : a.getValue oleLoad key = .ok (hr, val, a')) : FlagsRight a' := by
  rcases getValue_spec hget with rfl | ⟨bytes, wrap, element, hwrap, -, -, -, rfl⟩
  · exact h
  · refine h.update _ fun _ _ => ?_
    have hlive : ∀ b, (oleLoad bytes).getD .null ≠ .packed b := by
      cases ho : oleLoad bytes with
      | none => exact fun b hb => by cases hb
      | some o => exact hload bytes o ho
    have hpacked : packed (wrap ((oleLoad bytes).getD .null)) = false := by
      rcases hwrap with rfl | rfl <;> cases ho : (oleLoad bytes).getD .null <;>
        first | rfl | exact absurd ho (hlive _)
    simp [FlagRight, hpacked]

/-- INTERNAL: `Remove`. -/
theorem flagsRight_remove {a : CApplication loc} (h : FlagsRight a) (key : Bstr) :
    FlagsRight (a.remove key).2 := by
  unfold CApplication.remove
  split
  · exact h
  · split
    · exact h
    · intro key' element hfind
      refine h key' element ?_
      have herase := OrderedMap.find_erase a.dictionary (lpcolestr key) key'
      have hfind' : (a.dictionary.erase (lpcolestr key)).find key' = some element := hfind
      rw [hfind'] at herase
      split at herase
      · cases herase
      · exact herase.symm

/-- INTERNAL: `SerializeKey`. -/
theorem flagsRight_serializeKey {mem : Memory} {a a' : CApplication loc} {key : Bstr}
    {stream stream' : CStream} {hr : HResult} (h : FlagsRight a)
    (hkeeps : KeepsFlags mem a (.serializeKey key stream))
    (hser : a.serializeKey mem key stream = .ok (hr, stream', a')) : FlagsRight a' := by
  obtain ⟨b, rfl | ⟨hlen, rfl⟩⟩ := serializeKey_leaves hser
  · exact h.withBuffer b
  · refine FlagsRight.withBuffer (h.update _ fun element hel => ?_) b
    have hright := h _ element hel
    have hturns := hkeeps hlen
    rw [turnsToStream, hel] at hturns
    cases hflag : element.isSerialized with
    | true =>
      have hval : CApplication.toWrite element = element.val := by
        rw [CApplication.toWrite, hflag, if_pos rfl]
      simpa [FlagRight, hval, hflag] using hright
    | false =>
      have hval : CApplication.toWrite element =
          CApplication.convertObjectToStream element.val := by
        rw [CApplication.toWrite, hflag, if_neg Bool.false_ne_true]
      have hpacked : packed (CApplication.convertObjectToStream element.val) = false := by
        simpa [hflag] using hturns
      simp [FlagRight, hval, hpacked]

/-- INTERNAL: `DeserializeKey`. -/
theorem flagsRight_deserializeKey {mem : Memory} {a a' : CApplication loc}
    {binaryString : Bytes} {hr : HResult} (h : FlagsRight a)
    (hkeeps : KeepsFlags mem a (.deserializeKey binaryString))
    (hdes : a.deserializeKey mem binaryString = .ok (hr, a')) : FlagsRight a' := by
  obtain ⟨hrKey, key, c, hkey, b, ⟨-, rfl⟩ | ⟨val, hok, hobject, hholds, rfl⟩⟩ :=
    deserializeKey_leaves hdes
  · exact h.withBuffer b
  · obtain ⟨hforged, hover⟩ := hkeeps
    refine FlagsRight.withBuffer
      ((h.insert (key.getD []) (flagRight_blank false)).update _ fun element hel => ?_) b
    have hpacked : ObjectTag val.vt ↔ packed val = true :=
      ⟨fun ho => (hobject ho).resolve_right hforged, objectTag_of_packed⟩
    by_cases hval : packed val = true
    · simp [FlagRight, hval, hpacked.mpr hval]
    · -- a value that is no stream needs an element without the flag
      have hflag : element.isSerialized = false := by
        by_contra hflag
        refine hval (hholds (hover (hrKey, key, c) (by rw [hkey]; rfl) hok ?_))
        change flagged a (key.getD []) = true
        rw [CApplication.find_insert] at hel
        cases hold : a.find (key.getD []) with
        | some old =>
          rw [hold, Option.some_or] at hel
          rw [flagged, hold, Option.some.inj hel]
          simpa using hflag
        | none =>
          rw [hold, Option.none_or, if_pos Std.ReflCmp.compare_self] at hel
          exact absurd (Option.some.inj hel ▸ rfl) hflag
      have hobj : ¬ ObjectTag val.vt := fun ho => hval (hpacked.mp ho)
      simp [FlagRight, hval, hobj, hflag]

/-- **One call keeps the flags right** where the condition holds. -/
theorem perform_keeps_flags {mem : Memory} {oleLoad : Bytes → Option ComObject}
    (hload : ∀ bytes o, oleLoad bytes = some o → ∀ b, o ≠ .packed b) {a a' : CApplication loc}
    {call : CApplication.Call} (h : FlagsRight a) (hkeeps : KeepsFlags mem a call)
    (hperform : a.perform mem oleLoad call = .ok a') : FlagsRight a' := by
  cases call with
  | getValue key =>
    obtain ⟨⟨hr, val, a₁⟩, hget, heq⟩ := Run.bind_eq_ok hperform
    cases heq
    exact flagsRight_getValue hload h hget
  | putValue key newVal defaults =>
    obtain ⟨⟨hr, a₁⟩, hput, heq⟩ := Run.bind_eq_ok hperform
    cases heq
    exact flagsRight_putValue h hkeeps hput
  | putrefValue key newVal =>
    obtain ⟨⟨hr, a₁⟩, hput, heq⟩ := Run.bind_eq_ok hperform
    cases heq
    exact flagsRight_putrefValue h hkeeps hput
  | remove key =>
    cases hperform
    exact flagsRight_remove h key
  | removeAll =>
    cases hperform
    intro key element hfind
    cases hfind
  | expireKeyAt key ms =>
    cases hperform
    exact h.update _ fun element hel => h _ element hel
  | serializeKey key binaryString =>
    obtain ⟨⟨hr, stream, a₁⟩, hser, heq⟩ := Run.bind_eq_ok hperform
    cases heq
    exact flagsRight_serializeKey h hkeeps hser
  | deserializeKey binaryString =>
    obtain ⟨⟨hr, a₁⟩, hdes, heq⟩ := Run.bind_eq_ok hperform
    cases heq
    exact flagsRight_deserializeKey h hkeeps hdes

/-! ## Runs -/

/-- **Where every call of a run meets the condition, all flags are right at its end.** -/
theorem run_keeps_flags (mem : Memory) (oleLoad : Bytes → Option ComObject)
    (hload : ∀ bytes o, oleLoad bytes = some o → ∀ b, o ≠ .packed b)
    (calls : List CApplication.Call) (a : CApplication loc)
    (hm : Runs.Meets (CApplication.perform mem oleLoad) (KeepsFlags mem) calls
      (.new : CApplication loc))
    (h : Runs.run (CApplication.perform mem oleLoad) calls .new = .ok a) : FlagsRight a :=
  Runs.run_invariant FlagsRight
    (fun _ _ _ hright hkeeps hperform => perform_keeps_flags hload hright hkeeps hperform)
    (fun _ _ hfind => by cases hfind) hm h

/-- The record of an object under the key `a`. -/
def objectRecord : Bytes := leBytes 4 1 ++ [97] ++ leBytes 2 13 ++ (leBytes 4 1 ++ [7])

/-- A page that loads the object, stores it under another key and saves a number. -/
def objectPage : List CApplication.Call :=
  [.deserializeKey objectRecord, .getValue [97],
    .putrefValue [98] (.value (.dispatch (.live true (some [7])))),
    .putValue [99] (.value (.scalar .i4 5)) [], .serializeKey [99] .new]

/-- The calls of that page meet the condition, and its flags are right at its end. -/
theorem objectPage_keeps_flags : ∃ a : CApplication .ordinal,
    Runs.run (CApplication.perform .zero fun _ => some (.live true (some [7]))) objectPage .new =
      .ok a ∧ (a.find [97]).isSome = true ∧ FlagsRight a := by
  have hrun : ((Runs.run (CApplication.perform .zero fun _ => some (.live true (some [7])))
      objectPage (.new : CApplication .ordinal)).toOption.map
        fun a => (a.find [97]).isSome) = some true := by decide +kernel
  obtain ⟨a, ha, hfind⟩ := Option.map_eq_some_iff.mp hrun
  have ha := Run.eq_ok_of_toOption ha
  exact ⟨a, ha, hfind, run_keeps_flags _ _ (fun _ _ ho b hb => by cases ho; cases hb) _ a
    (by decide +kernel) ha⟩

/-- **A number stored over an object that was never used keeps its flag.** -/
theorem storedOverStream_not_right : ∃ a : CApplication .ordinal,
    Runs.run (CApplication.perform .zero fun _ => some (.live true (some [7])))
      [.deserializeKey objectRecord, .putValue [97] (.value (.scalar .i4 5)) []] .new = .ok a ∧
      ¬ FlagsRight a := by
  have hrun : ((Runs.run (CApplication.perform .zero fun _ => some (.live true (some [7])))
      [.deserializeKey objectRecord, .putValue [97] (.value (.scalar .i4 5)) []]
      (.new : CApplication .ordinal)).toOption.bind
        fun a => (a.find [97]).map fun e => (a, e.isSerialized, packed e.val)).map
          Prod.snd = some (true, false) := by decide +kernel
  obtain ⟨⟨a, flag, stream⟩, hfound, hvals⟩ := Option.map_eq_some_iff.mp hrun
  obtain ⟨a', ha', hmap⟩ := Option.bind_eq_some_iff.mp hfound
  obtain ⟨element, hel, heq⟩ := Option.map_eq_some_iff.mp hmap
  cases heq
  refine ⟨a, Run.eq_ok_of_toOption ha', fun hright => ?_⟩
  have hflag := hright _ element hel
  dsimp only at hvals
  rw [FlagRight, (Prod.mk.inj hvals).1, (Prod.mk.inj hvals).2] at hflag
  exact absurd (hflag.mp rfl) Bool.false_ne_true

end IspSession.Analysis
