import IspSession.Model.Application
import IspSession.Analysis.Lossless
import IspSession.Analysis.ObjectReading

/-!
# The calls on an application, one specification for each

What a call leaves, as an insertion or a change of the element under its key. The value
`put_Value` stores is the one that stands for its argument; what `DeserializeKey` makes of
a record is told from the record's tag and the bytes behind it.
-/

set_option autoImplicit false

namespace IspSession.Analysis

open IspSession.Library IspSession.Model

variable {loc : Collation}

/-! ## Storing -/

/-- The value a `put_Value` stores, if any. -/
def storedValue (newVal : Argument) (defaults : List Variant) : Option Variant :=
  match newVal.deref with
  | .ok v => resolved defaults v
  | .error _ => none

/-- `putref_Value` takes the argument for an object. -/
def TakenForObject (newVal : Argument) : Prop :=
  newVal.vt &&& vtDispatch = vtDispatch ∨ newVal.vt &&& vtUnknown = vtUnknown

instance (newVal : Argument) : Decidable (TakenForObject newVal) := by
  unfold TakenForObject
  infer_instance

/-- The value a `putref_Value` stores, if any. -/
def storedReference : Argument → Option Variant
  | .value v =>
    match v.pdispVal with
    | .ok o => if o.persistable then some v else none
    | .error _ => none
  | .byrefVariant _ => none

/-- Storing a value in an element, if there is one to store. -/
def withStored (stored : Option Variant) (element : ElementModel) : ElementModel :=
  { element with val := stored.getD element.val }

/-- The key is there once it has been touched. -/
theorem touch_touch (a : CApplication loc) (key : Bstr) :
    (a.touch key).touch key = a.touch key := by
  have hself : loc.compare key key = .eq := Std.ReflCmp.compare_self
  unfold CApplication.touch
  cases h : a.find key with
  | none =>
    have hfind := a.find_insert key key { ElementModel.blank with isNew := true }
    rw [h, hself, Option.none_or, if_pos rfl] at hfind
    simp only [hfind, if_true]
  | some element =>
    by_cases hnew : element.isNew = true
    · simp only [hnew, if_true, h]
    · have hfind := a.find_update key (fun e => { e with isDirty := true }) key
      rw [h, hself, if_pos rfl, Option.map_some] at hfind
      simp only [hnew, hfind, if_false, CApplication.update_update, Bool.false_eq_true]

/-- INTERNAL: without a value nothing is stored. -/
theorem update_withStored_none (a : CApplication loc) (key : Bstr) :
    a.update key (withStored none) = a := by
  unfold CApplication.update
  cases h : a.find key with
  | none => rfl
  | some element =>
    have hsame : a.dictionary.assign key (withStored none element) = a.dictionary := by
      apply OrderedMap.ext
      conv_rhs => rw [← List.map_id a.dictionary.entries]
      apply List.map_congr_left
      intro e he
      split
      · rename_i hk
        have hfind : a.dictionary.find key = some e.2 :=
          (a.dictionary.find_congr hk).trans (OrderedMap.find_of_mem he)
        have hel : element = e.2 := Option.some.inj (h.symm.trans hfind)
        exact Prod.ext rfl hel
      · rfl
    simp only [hsame]

/-- **What `put_Value` leaves.** -/
theorem putValue_spec {a a' : CApplication loc} {key : Bstr} {newVal : Argument}
    {defaults : List Variant} {hr : HResult} (hkey : key ≠ [])
    (h : a.putValue key newVal defaults = .ok (hr, a')) :
    a' = (a.touch (lpcolestr key)).update (lpcolestr key)
      (withStored (storedValue newVal defaults)) := by
  induction defaults generalizing a newVal with
  | nil =>
    rw [CApplication.putValue, if_neg hkey] at h
    obtain ⟨v, hv, h⟩ := Run.bind_eq_ok h
    rw [storedValue, hv]
    cases v with
    | dispatch o =>
      cases o <;> cases h <;> exact (update_withStored_none _ _).symm
    | _ =>
      obtain ⟨r, hr, h⟩ := Run.bind_eq_ok h
      split at h <;> cases h
      rfl
  | cons w defaults ih =>
    rw [CApplication.putValue, if_neg hkey] at h
    obtain ⟨v, hv, h⟩ := Run.bind_eq_ok h
    rw [storedValue, hv]
    cases v with
    | dispatch o =>
      cases o with
      | null =>
        cases h
        exact (update_withStored_none _ _).symm
      | _ =>
        have hrest := ih h
        rw [touch_touch] at hrest
        exact hrest
    | _ =>
      obtain ⟨r, hr, h⟩ := Run.bind_eq_ok h
      split at h <;> cases h
      rfl

/-- **What `putref_Value` leaves.** -/
theorem putrefValue_spec {a a' : CApplication loc} {key : Bstr} {newVal : Argument}
    {hr : HResult} (h : a.putrefValue key newVal = .ok (hr, a')) :
    a' = if key ≠ [] ∧ TakenForObject newVal then
      (a.touchRef (lpcolestr key)).update (lpcolestr key) (withStored (storedReference newVal))
      else a := by
  unfold CApplication.putrefValue at h
  split at h
  · rename_i hkey
    cases h
    rw [if_neg fun hc => hc.1 hkey]
  · rename_i hkey
    split at h
    · rename_i htag
      rw [if_pos ⟨hkey, htag⟩]
      cases newVal with
      | byrefVariant v => cases h
      | value v =>
        obtain ⟨o, ho, h⟩ := Run.bind_eq_ok h
        rw [storedReference, ho]
        dsimp only
        split at h
        · rename_i hp
          cases h
          rw [if_pos hp]
          rfl
        · rename_i hp
          cases h
          rw [if_neg hp, update_withStored_none]
    · rename_i htag
      cases h
      rw [if_neg fun hc => htag hc.2]

/-- **What `get_Value` leaves**: a flagged element is loaded, nothing else changes. -/
theorem getValue_spec {oleLoad : Bytes → Option ComObject} {a a' : CApplication loc}
    {key : Bstr} {hr : HResult} {val : Variant}
    (h : a.getValue oleLoad key = .ok (hr, val, a')) :
    a' = a ∨ ∃ bytes wrap element, (wrap = Variant.unknown ∨ wrap = Variant.dispatch) ∧
      a.find (lpcolestr key) = some element ∧ element.isSerialized = true ∧
      element.val = wrap (.packed bytes) ∧
      a' = a.update (lpcolestr key) fun _ =>
        { element with val := wrap ((oleLoad bytes).getD .null), isSerialized := false } := by
  have hobject : ∀ element wrap o, (wrap = Variant.unknown ∨ wrap = Variant.dispatch) →
      a.find (lpcolestr key) = some element → element.val = wrap o →
      a.getObject oleLoad (lpcolestr key) element wrap o = .ok (hr, val, a') →
      a' = a ∨ ∃ bytes wrap element, (wrap = Variant.unknown ∨ wrap = Variant.dispatch) ∧
        a.find (lpcolestr key) = some element ∧ element.isSerialized = true ∧
        element.val = wrap (.packed bytes) ∧
        a' = a.update (lpcolestr key) fun _ =>
          { element with val := wrap ((oleLoad bytes).getD .null), isSerialized := false } := by
    intro element wrap o hwrap hfind hval h
    unfold CApplication.getObject at h
    split at h
    · rename_i hflag
      obtain ⟨r, hr, h⟩ := Run.bind_eq_ok h
      cases o with
      | packed bytes =>
        refine .inr ⟨bytes, wrap, element, hwrap, hfind, hflag, hval, ?_⟩
        unfold CApplication.convertVStreamToObject at hr
        dsimp only at hr
        cases ho : oleLoad bytes with
        | none =>
          rw [ho] at hr
          cases hr
          cases h
          rfl
        | some o =>
          rw [ho] at hr
          cases hr
          cases h
          rfl
      | _ => cases hr
    · split at h
      · cases h
      · cases h
        exact .inl rfl
  unfold CApplication.getValue at h
  split at h
  · cases h
    exact .inl rfl
  · split at h
    · cases h
      exact .inl rfl
    · rename_i element hfind
      split at h
      · rename_i o hval
        exact hobject element .unknown o (.inl rfl) hfind hval h
      · rename_i o hval
        exact hobject element .dispatch o (.inr rfl) hfind hval h
      · obtain ⟨r, -, h⟩ := Run.bind_eq_ok h
        cases h
        exact .inl rfl

/-! ## Records -/

/-- **What `SerializeKey` leaves**: the element holds the value that was written, unless
its key could not be. -/
theorem serializeKey_leaves {mem : Memory} {a a' : CApplication loc} {key : Bstr}
    {stream stream' : CStream} {hr : HResult}
    (h : a.serializeKey mem key stream = .ok (hr, stream', a')) :
    ∃ b, a' = a.withBuffer b ∨ (utf16ToUtf8 key).length + 1 < 2 ^ 31 ∧
      a' = (a.update (lpcolestr key) fun e => { e with val := CApplication.toWrite e }).withBuffer b := by
  unfold CApplication.serializeKey at h
  cases hfind : a.find (lpcolestr key) with
  | none =>
    rw [hfind] at h
    cases h
    exact ⟨a.m_currentBufLen, .inl rfl⟩
  | some element =>
    rw [hfind] at h
    obtain ⟨⟨hr₁, c⟩, hwrite, h⟩ := Run.bind_eq_ok h
    dsimp only at h
    split at h
    · cases h
      exact ⟨c.m_currentBufLen, .inl rfl⟩
    · rename_i hok
      obtain ⟨⟨hr₂, c₂⟩, -, h⟩ := Run.bind_eq_ok h
      cases h
      refine ⟨c₂.m_currentBufLen, .inr ⟨?_, ?_⟩⟩
      · unfold writeString at hwrite
        split at hwrite
        · rename_i hnil
          rw [hnil]
          decide
        · dsimp only at hwrite
          split at hwrite
          · cases hwrite
            exact absurd rfl hok
          · omega
      · have hval : (a.update (lpcolestr key) fun e => { e with val := CApplication.toWrite e }) =
            a.update (lpcolestr key) fun e => { e with val := CApplication.toWrite element } := by
          apply CApplication.update_congr
          intro e he
          rw [hfind] at he
          rw [Option.some.inj he]
        rw [hval]

/-- What is behind the key of a record. -/
def recordRest (binaryString : Bytes) : Bytes :=
  binaryString.drop (4 + ofLeBytes (binaryString.take 4))

/-- The tag of a record. -/
def recordTag (binaryString : Bytes) : VarType :=
  UInt16.ofNat (ofLeBytes (overlay [0, 0] ((recordRest binaryString).take 2)))

/-- The bytes of a record's value. -/
def recordValue (binaryString : Bytes) : Bytes := (recordRest binaryString).drop 2

/-- INTERNAL: what `ReadString` leaves to come of a record. -/
theorem rest_readString {mem : Memory} {binaryString : Bytes} {b : ℕ} {hr : HResult}
    {key : Option Bstr} {c : Channel}
    (h : readString false mem ⟨⟨binaryString, 0⟩, b⟩ = .ok (hr, key, c))
    (hr' : hr.failed = false) : c.stream.rest = recordRest binaryString := by
  have hrest₀ : (⟨⟨binaryString, 0⟩, b⟩ : Channel).stream.rest = binaryString := rfl
  unfold readString at h
  have hsize := Channel.read_bytes ⟨⟨binaryString, 0⟩, b⟩ 4
  have hrest := Channel.rest_read ⟨⟨binaryString, 0⟩, b⟩ 4
  have hresult := Channel.read_result ⟨⟨binaryString, 0⟩, b⟩ 4
  rcases hread : (⟨⟨binaryString, 0⟩, b⟩ : Channel).read 4 with ⟨hr₁, size, c₁⟩
  rw [hread] at h hsize hrest hresult
  rw [hrest₀] at hsize hrest hresult
  dsimp only at h hsize hrest hresult
  unfold recordRest
  rw [← hsize]
  split at h
  · rename_i hne
    cases h
    split at hresult
    · rw [hrest, List.drop_eq_nil_of_le (by omega), List.drop_eq_nil_of_le (by omega)]
    · exact absurd hresult hne
  · split at h
    · rename_i hzero
      cases h
      rw [hzero, hrest, Nat.add_zero]
    · obtain ⟨c₂, hc₂, h⟩ := Run.bind_eq_ok h
      have hstream : c₂.stream = c₁.stream := by
        unfold Channel.ensureBuffer at hc₂
        split at hc₂
        · cases hc₂
          rfl
        · dsimp only at hc₂
          split at hc₂ <;> cases hc₂
          rfl
      split at h
      · cases h
        cases hr'
      have hrest₂ := Channel.rest_read c₂ (ofLeBytes size)
      rw [hstream, hrest, List.drop_drop] at hrest₂
      rcases hread₂ : c₂.read (ofLeBytes size) with ⟨hr₂, bytes, c₃⟩
      rw [hread₂] at h hrest₂
      dsimp only at h
      split at h
      · cases h
      · obtain ⟨text, -, h⟩ := Run.bind_eq_ok h
        split at h
        · cases h
          cases hr'
        · cases h
          exact hrest₂

/-- **What `DeserializeKey` leaves**: nothing is changed where the key cannot be read;
otherwise the element of the key, an old one or a new one, has the value of the record. -/
theorem deserializeKey_leaves {mem : Memory} {a a' : CApplication loc} {binaryString : Bytes}
    {hr : HResult} (h : a.deserializeKey mem binaryString = .ok (hr, a')) :
    ∃ hrKey key c,
      readString false mem ⟨⟨binaryString, 0⟩, a.m_currentBufLen⟩ = .ok (hrKey, key, c) ∧
      ∃ b, (hrKey.failed = true ∧ a' = a.withBuffer b) ∨ ∃ val, hrKey.failed = false ∧
        (ObjectTag val.vt →
          packed val = true ∨ Forged (recordTag binaryString) (recordValue binaryString)) ∧
        (HoldsObject (recordTag binaryString) (recordValue binaryString) → packed val = true) ∧
        a' = ((a.insert (key.getD []) .blank).update (key.getD []) fun e =>
          { e with val, isSerialized := e.isSerialized || decide (ObjectTag val.vt) }).withBuffer
            b := by
  unfold CApplication.deserializeKey at h
  obtain ⟨⟨hrKey, key, c⟩, hkey, h⟩ := Run.bind_eq_ok h
  refine ⟨hrKey, key, c, hkey, ?_⟩
  dsimp only at h
  split at h
  · rename_i hfailed
    cases h
    exact ⟨_, .inl ⟨hfailed, rfl⟩⟩
  · rename_i hok
    have hrest := rest_readString hkey (by simpa using hok)
    have htag := Channel.read_bytes c 2
    have hvalue := Channel.rest_read c 2
    rcases hread : c.read 2 with ⟨hr₁, tag, c₁⟩
    rw [hread] at h htag hvalue
    rw [hrest] at htag hvalue
    dsimp only at h htag hvalue
    obtain ⟨⟨hrVal, val, c₂⟩, hval, h⟩ := Run.bind_eq_ok h
    cases h
    have hobject := readValue_object hval
    rw [hvalue, htag] at hobject
    exact ⟨_, .inr ⟨val, by simpa using hok, hobject.tag, hobject.stream.mpr, rfl⟩⟩

end IspSession.Analysis
