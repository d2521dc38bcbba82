import IspSession.Analysis.DictionaryFormat

/-!
# `LocalLoad` on what `LocalContents` has written

A stored object comes back as the stream it was saved to, flagged as serialized; one
that could not be saved comes back as an empty value, with the result `S_FALSE` that
ends the loop over the variables. `loadedValue` and `loadedInto` describe that.

`loadProperties_spec` follows the loop over the variables, all but the last of which are
read with `S_OK`; `localLoad_spec` puts the property `Els` in front. Together they say
what `LocalLoad` makes of `dictionaryBytes` (`localLoad_dictionaryBytes`).
-/

set_option autoImplicit false

namespace IspSession.Analysis

open IspSession.Library IspSession.Model

variable {loc : Collation}

/-! ## What is loaded -/

/-- The result and the value of reading a stored object. -/
def loadedObject (wrap : ComObject → Variant) (saved : Option (List UInt8)) :
    HResult × Variant :=
  match saved with
  | some bytes => (.sOk, wrap (.packed bytes))
  | none => (.sFalse, .empty)

/-- The result and the value of reading a stored value. -/
def loadedValue (flag : Bool) : Variant → HResult × Variant
  | .dispatch o => loadedObject .dispatch (savedStream flag o)
  | .unknown o => loadedObject .unknown (savedStream flag o)
  | v => (.sOk, v)

/-- The variable is flagged when it is read. -/
def loadedFlag (flag : Bool) (v : Variant) : Prop :=
  v.vt = vtDispatch ∨ (v.vt = vtUnknown ∧ (loadedValue flag v).1 = .sOk)

instance (flag : Bool) (v : Variant) : Decidable (loadedFlag flag v) :=
  inferInstanceAs (Decidable (_ ∨ _))

/-- A dictionary after a variable with the given flag has been read into it. -/
def loadedInto (flagOf : Bstr → Bool) (r : VariantDictionary loc) (e : Bstr × Variant) :
    VariantDictionary loc :=
  { r with
    dictionary := r.dictionary.insert e.1 (loadedValue (flagOf e.1) e.2).2
    isserialized :=
      if loadedFlag (flagOf e.1) e.2 then r.isserialized.insert (lpcolestr e.1) true
      else r.isserialized }

/-- INTERNAL: the buffer's length plays no part in what is loaded. -/
theorem foldl_loadedInto_withBuffer (flagOf : Bstr → Bool) (entries : List (Bstr × Variant))
    (r : VariantDictionary loc) (b : ℕ) :
    entries.foldl (loadedInto flagOf) (r.withBuffer b) =
      (entries.foldl (loadedInto flagOf) r).withBuffer b := by
  induction entries generalizing r with
  | nil => rfl
  | cons e entries ih => exact ih (loadedInto flagOf r e)

/-- INTERNAL: a tag of a variable's value, without the array bit for an object. -/
theorem vtObject_no_array :
    ¬ (vtDispatch &&& vtArray = vtArray) ∧ ¬ (vtUnknown &&& vtArray = vtArray) := by decide

/-- An object is read back as its stream. -/
theorem readObject_spec {loc : Collation} {strict : Bool} {mem : Memory} {flag : Bool}
    {o : ComObject}
    {vtype : VarType} {wrap : ComObject → Variant}
    (hvt : (vtype = vtDispatch ∧ wrap = .dispatch) ∨ (vtype = vtUnknown ∧ wrap = .unknown))
    (h : ∀ bytes, savedStream flag o = some bytes → 0 < bytes.length ∧ bytes.length < 2 ^ 31)
    {fuel : ℕ} (hfuel : 0 < fuel) {c : Channel} {tl : List UInt8}
    (hrest : c.stream.rest = objectBytes flag o ++ tl) :
    readValue loc strict mem fuel vtype c =
      .ok ((loadedObject wrap (savedStream flag o)).1,
        (loadedObject wrap (savedStream flag o)).2,
        ⟨c.stream.advance (objectBytes flag o).length, c.m_currentBufLen⟩) := by
  obtain ⟨fuel, rfl⟩ : ∃ f, fuel = f + 1 := ⟨fuel - 1, by omega⟩
  have hread : ∀ (size : ℕ) (tl : List UInt8), c.stream.rest = leBytes 4 size ++ tl →
      c.read 4 = (.sOk, leBytes 4 size, ⟨c.stream.advance 4, c.m_currentBufLen⟩) :=
    fun size tl h => Channel.read_of_rest h (length_leBytes 4 _)
  have hcases : readValue loc strict mem (fuel + 1) vtype c = readScalar strict mem vtype c := by
    apply readValue_of_scalar
    rcases hvt with ⟨rfl, -⟩ | ⟨rfl, -⟩
    · exact vtObject_no_array.1
    · exact vtObject_no_array.2
  have hswitch : ¬ (switchType vtype = vtEmpty ∨ switchType vtype = vtNull) ∧
      ¬ switchType vtype = vtDecimal ∧ ¬ switchType vtype = vtBstr ∧
      (switchType vtype = vtDispatch ∨ switchType vtype = vtUnknown) := by
    rcases hvt with ⟨rfl, -⟩ | ⟨rfl, -⟩ <;> decide
  obtain ⟨h1, h2, h3, h4⟩ := hswitch
  rw [hcases, readScalar, if_neg h1, if_neg h2, if_neg h3, if_pos h4]
  unfold objectBytes at hrest ⊢
  cases hs : savedStream flag o with
  | none =>
    rw [hs] at hrest
    rw [hread 0 tl hrest]
    simp only [ofLeBytes_leBytes]
    simp [loadedObject]
  | some bytes =>
    rw [hs] at hrest
    obtain ⟨hpos, hlt⟩ := h bytes hs
    simp only [List.append_assoc] at hrest
    have hdata : (c.stream.advance 4).rest = bytes ++ tl := by
      have := CStream.rest_advance_of_append hrest
      rwa [length_leBytes] at this
    have hbytes := Channel.read_of_rest (c := ⟨c.stream.advance 4, c.m_currentBufLen⟩) hdata rfl
    have hsize : (BitVec.ofNat 32 bytes.length).toNat = bytes.length := by
      rw [BitVec.toNat_ofNat, Nat.mod_eq_of_lt (by omega)]
    have hslt : (0#32).slt (BitVec.ofNat 32 bytes.length) = true := by
      rw [zero_slt_iff (by omega), hsize]
      simpa using hpos
    have hover : overlay (uninit mem.heap bytes.length) bytes = bytes :=
      overlay_of_length_le (by rw [length_uninit])
    rw [hread _ _ hrest]
    simp only [bitVec32_ofLeBytes_leBytes, hslt, if_true, hsize, hbytes, hover, loadedObject]
    rcases hvt with ⟨rfl, rfl⟩ | ⟨rfl, rfl⟩ <;>
      simp [CStream.advance_advance, vtDispatch, vtUnknown]

/-- **`ReadValue` of a stored value.** -/
theorem readStored_spec (loc : Collation) (strict : Bool) (mem mem' : Memory) {flag : Bool}
    {v : Variant}
    (h : Storable flag v) {fuel : ℕ} (hfuel : (storedBytes mem flag v).length < fuel)
    {c : Channel} {tl : List UInt8} (hrest : c.stream.rest = storedBytes mem flag v ++ tl) :
    (Readable v → ∃ b, readValue loc strict mem' fuel v.vt c =
      .ok ((loadedValue flag v).1, (loadedValue flag v).2,
        ⟨c.stream.advance (storedBytes mem flag v).length, b⟩)) ∧
    (¬ Readable v → readValue loc strict mem' fuel v.vt c = .error .fault) := by
  cases v with
  | dispatch o =>
    exact ⟨fun _ => ⟨_, readObject_spec (.inl ⟨rfl, rfl⟩) h.2 (by omega) hrest⟩,
      fun hnot => absurd trivial hnot⟩
  | unknown o =>
    exact ⟨fun _ => ⟨_, readObject_spec (.inr ⟨rfl, rfl⟩) h.2 (by omega) hrest⟩,
      fun hnot => absurd trivial hnot⟩
  | _ => exact readValue_spec loc strict mem mem' _ h.1 h.2 fuel c tl hfuel hrest

/-! ## Properties -/

/-- The dictionary after a property with this tag has been read, as far as its flag goes. -/
def flaggedBy (vt : VarType) (hr : HResult) (key : Bstr) (d : VariantDictionary loc) :
    VariantDictionary loc :=
  { d with
    isserialized :=
      if vt = vtDispatch ∨ (vt = vtUnknown ∧ hr = .sOk) then
        d.isserialized.insert (lpcolestr key) true
      else d.isserialized }

/-- INTERNAL: `ReadProperty` gets to the value. -/
theorem readProperty_eq {mem : Memory} {key : Bstr} (hw : WellFormedUtf16 key)
    (hkey : StringFits key) {next : ℕ} {vt : VarType} {bs tl : List UInt8}
    {l : VariantDictionary.Loading loc}
    (hrest : l.stream.rest = propertyBytes next key vt bs ++ tl) :
    ∃ c : Channel, c.stream = l.stream.advance ((stringBytes key).length + 6) ∧
      c.stream.rest = bs ++ tl ∧ bs.length < l.stream.buf.length + 2 ∧
      VariantDictionary.readProperty mem l =
        readValue loc true mem (l.stream.buf.length + 2) vt c >>= fun r =>
          pure (r.1, key, r.2.1,
            ⟨flaggedBy vt r.1 key (l.d.withBuffer r.2.2.m_currentBufLen), r.2.2.stream⟩) := by
  unfold propertyBytes at hrest
  simp only [List.append_assoc] at hrest
  obtain ⟨b, hb⟩ := (readString_spec mem hw hkey (c := l.channel) hrest).delivers true
  have hrest1 := CStream.rest_advance_of_append hrest
  have hnext := Channel.read_of_rest
    (c := ⟨l.stream.advance (stringBytes key).length, b⟩) hrest1 (length_leBytes 4 _)
  have hrest2 := CStream.rest_advance_of_append hrest1
  rw [length_leBytes] at hrest2
  have htag := Channel.read_of_rest
    (c := ⟨(l.stream.advance (stringBytes key).length).advance 4, b⟩) hrest2 (length_leBytes 2 _)
  have hrest3 := CStream.rest_advance_of_append hrest2
  rw [length_leBytes] at hrest3
  have hover : overlay (uninit mem.vartype 2) (leBytes 2 vt.toNat) = leBytes 2 vt.toNat :=
    overlay_of_length_le (by simp)
  have hfuel : bs.length < l.stream.buf.length + 2 := by
    have h1 : l.stream.rest.length ≤ l.stream.buf.length := by
      rw [CStream.rest, List.length_drop]
      omega
    rw [hrest] at h1
    simp only [List.length_append] at h1
    omega
  have hstart : ∀ (l : VariantDictionary.Loading loc), l.channel.stream = l.stream := fun _ => rfl
  refine ⟨⟨((l.stream.advance (stringBytes key).length).advance 4).advance 2, b⟩, ?_, hrest3,
    hfuel, ?_⟩
  · simp only [CStream.advance_advance]
  · rw [VariantDictionary.readProperty, hb]
    simp only [Run.ok_bind, if_true, hstart, hnext, htag, hover, uint16_ofLeBytes_leBytes,
      Option.getD_some]
    rfl

/-- **`ReadProperty`** reads a property back when `ReadValue` reads its value back. -/
theorem readProperty_spec {mem : Memory} {key : Bstr} (hw : WellFormedUtf16 key)
    (hkey : StringFits key) {next : ℕ} {vt : VarType} {bs tl : List UInt8}
    {l : VariantDictionary.Loading loc}
    (hrest : l.stream.rest = propertyBytes next key vt bs ++ tl) {ok : Prop} {hr : HResult}
    {val : Variant}
    (hv : ∀ (fuel : ℕ) (c : Channel), bs.length < fuel → c.stream.rest = bs ++ tl →
      (ok → ∃ b, readValue loc true mem fuel vt c =
        .ok (hr, val, ⟨c.stream.advance bs.length, b⟩)) ∧
      (¬ ok → readValue loc true mem fuel vt c = .error .fault)) :
    (ok → ∃ b, VariantDictionary.readProperty mem l = .ok (hr, key, val,
      ⟨flaggedBy vt hr key (l.d.withBuffer b),
        l.stream.advance (propertyBytes next key vt bs).length⟩)) ∧
    (¬ ok → VariantDictionary.readProperty mem l = .error .fault) := by
  obtain ⟨c, hc, hrest', hfuel, hread⟩ := readProperty_eq hw hkey hrest
  obtain ⟨hok, hfault⟩ := hv _ c hfuel hrest'
  rw [hread]
  constructor
  · intro h
    obtain ⟨b, hb⟩ := hok h
    have hlength : (propertyBytes next key vt bs).length =
        (stringBytes key).length + 6 + bs.length := by
      simp only [propertyBytes, List.length_append, length_leBytes]
      omega
    refine ⟨b, ?_⟩
    rw [hb, hc, CStream.advance_advance, hlength]
    rfl
  · intro h
    rw [hfault h]
    rfl

/-! ## A list of properties -/

/-- The bytes of a property's value are read with this result, to their end with `S_OK`. -/
def ReadsTo (loc : Collation) (mem : Memory) (p : StoredProperty) (hr : HResult) (v : Variant) :
    Prop :=
  ∀ (fuel : ℕ) (c : Channel) (tl : List UInt8), p.bytes.length < fuel →
    c.stream.rest = p.bytes ++ tl → ∃ c' : Channel,
      readValue loc true mem fuel p.vt c = .ok (hr, v, c') ∧
        (hr = .sOk → c'.stream = c.stream.advance p.bytes.length)

/-- A stored property with what is read of its value. -/
structure LoadedProperty where
  stored : StoredProperty
  hr : HResult
  value : Variant

/-- The dictionary after the property has been read. -/
def LoadedProperty.into (p : LoadedProperty) (d : VariantDictionary loc) : VariantDictionary loc :=
  let d := flaggedBy p.stored.vt p.hr p.stored.name d
  { d with dictionary := d.dictionary.insert p.stored.name p.value }

/-- The properties that are read: the loop ends behind the first that is not read with `S_OK`. -/
def readThrough : List LoadedProperty → List LoadedProperty
  | [] => []
  | p :: ps => p :: if p.hr = .sOk then readThrough ps else []

/-- The result of the loop. -/
def resultOf : List LoadedProperty → HResult
  | [] => .sOk
  | p :: ps => if p.hr = .sOk then resultOf ps else p.hr

/-- INTERNAL: a loop that ends with `S_OK` has read all. -/
theorem resultOf_eq_sOk {ps : List LoadedProperty} :
    resultOf ps = .sOk ↔ ∀ p ∈ ps, p.hr = .sOk := by
  induction ps with
  | nil => exact iff_of_true rfl fun p hp => absurd hp List.not_mem_nil
  | cons p ps ih =>
    rw [resultOf, List.forall_mem_cons, ← ih]
    by_cases hp : p.hr = .sOk
    · rw [if_pos hp]
      exact (and_iff_right hp).symm
    · rw [if_neg hp]
      exact iff_of_false hp fun hboth => hp hboth.1

theorem readThrough_of_sOk {ps : List LoadedProperty} (h : ∀ p ∈ ps, p.hr = .sOk) :
    readThrough ps = ps := by
  induction ps with
  | nil => rfl
  | cons p ps ih =>
    obtain ⟨hp, hps⟩ := List.forall_mem_cons.mp h
    rw [readThrough, if_pos hp, ih hps]

/-- INTERNAL: the values that are loaded, whatever the flags. -/
theorem dictionary_foldl_into (ps : List LoadedProperty) (d : VariantDictionary loc) :
    (ps.foldl (fun d p => p.into d) d).dictionary =
      d.dictionary.insertAll (ps.map fun p => (p.stored.name, p.value)) := by
  induction ps generalizing d with
  | nil => rfl
  | cons p ps ih => exact ih (p.into d)

/-- INTERNAL: the buffer's length plays no part. -/
theorem foldl_into_withBuffer (ps : List LoadedProperty) (d : VariantDictionary loc) (b : ℕ) :
    ps.foldl (fun d p => p.into d) (d.withBuffer b) =
      (ps.foldl (fun d p => p.into d) d).withBuffer b := by
  induction ps generalizing d with
  | nil => rfl
  | cons p ps ih => exact ih (p.into d)

/-- **The loop over stored properties.** -/
theorem loadProperties_stored {mem : Memory} (ps : List LoadedProperty)
    (h : ∀ p ∈ ps, WellFormedUtf16 p.stored.name ∧ StringFits p.stored.name ∧
      ReadsTo loc mem p.stored p.hr p.value ∧ p.value.copy = .ok .sOk)
    {pos : ℕ} {l : VariantDictionary.Loading loc} {tl : List UInt8}
    (hrest : l.stream.rest = storedPropertiesBytes pos (ps.map LoadedProperty.stored) ++ tl) :
    ∃ b stream, VariantDictionary.loadProperties mem ps.length .sOk l =
      .ok (resultOf ps,
        ⟨((readThrough ps).foldl (fun d p => p.into d) l.d).withBuffer b, stream⟩) := by
  induction ps generalizing pos l with
  | nil => exact ⟨l.d.m_currentBufLen, l.stream, rfl⟩
  | cons p ps ih =>
    obtain ⟨hw, hkey, hreads, hcopy⟩ := h p List.mem_cons_self
    rw [List.map_cons, storedPropertiesBytes, List.append_assoc] at hrest
    obtain ⟨c, hc, hrest', hfuel, hread⟩ := @readProperty_eq _ mem _ hw hkey _ _ _ _ _ hrest
    obtain ⟨c', hvalue, hend⟩ := hreads _ c _ hfuel hrest'
    rw [List.length_cons, VariantDictionary.loadProperties, if_pos rfl, hread, hvalue]
    simp only [Run.ok_bind, Run.pure_eq, hcopy, HResult.failed, Bool.false_eq_true, if_false]
    by_cases hr : p.hr = .sOk
    · have hstream : c'.stream.rest =
          storedPropertiesBytes (propertyEnd pos p.stored.name p.stored.bytes)
            (ps.map LoadedProperty.stored) ++ tl := by
        rw [hend hr, CStream.rest_advance, hrest', List.drop_left]
      obtain ⟨b, stream, hb⟩ := @ih (fun q hq => h q (List.mem_cons_of_mem _ hq)) _
        ⟨{ flaggedBy p.stored.vt p.hr p.stored.name (l.d.withBuffer c'.m_currentBufLen) with
          dictionary := (flaggedBy p.stored.vt p.hr p.stored.name
            (l.d.withBuffer c'.m_currentBufLen)).dictionary.insert p.stored.name p.value },
          c'.stream⟩ hstream
      refine ⟨b, stream, ?_⟩
      rw [hr] at hb ⊢
      rw [hb, resultOf, readThrough, if_pos hr, if_pos hr, List.foldl_cons]
      refine congrArg _ (congrArg _ (congrArg (VariantDictionary.Loading.mk · stream) ?_))
      have hinto : p.into (l.d.withBuffer c'.m_currentBufLen) =
          (p.into l.d).withBuffer c'.m_currentBufLen := rfl
      have hsame : { flaggedBy p.stored.vt .sOk p.stored.name (l.d.withBuffer c'.m_currentBufLen) with
          dictionary := (flaggedBy p.stored.vt .sOk p.stored.name
            (l.d.withBuffer c'.m_currentBufLen)).dictionary.insert p.stored.name p.value } =
          p.into (l.d.withBuffer c'.m_currentBufLen) := by
        rw [LoadedProperty.into, hr]
      rw [hsame, hinto, foldl_into_withBuffer, VariantDictionary.withBuffer_withBuffer]
    · refine ⟨c'.m_currentBufLen, c'.stream, ?_⟩
      rw [resultOf, readThrough, if_neg hr, if_neg hr]
      cases hlength : ps.length with
      | zero => rfl
      | succ n =>
        rw [VariantDictionary.loadProperties, if_neg hr]
        rfl

/-- INTERNAL: a loaded value can be copied. -/
theorem copy_loadedValue {flag : Bool} {v : Variant} (h : Storable flag v) :
    (loadedValue flag v).2.copy = .ok .sOk := by
  cases v with
  | dispatch o => cases hs : savedStream flag o <;> simp [loadedValue, loadedObject, hs, Variant.copy]
  | unknown o => cases hs : savedStream flag o <;> simp [loadedValue, loadedObject, hs, Variant.copy]
  | raw vt payload => exact absurd h.1.self id
  | _ => rfl

/-- One round of the loop over the variables. -/
theorem loadProperties_step {mem : Memory} (mem' : Memory) {src : VariantDictionary loc} {key : Bstr}
    {v : Variant} (hw : WellFormedUtf16 key) (hkey : StringFits key)
    (hv : Storable (src.isSerialized key) v) {next : ℕ} (n : ℕ) {l : VariantDictionary.Loading loc}
    {tl : List UInt8}
    (hrest : l.stream.rest =
      propertyBytes next key v.vt (storedBytes mem (src.isSerialized key) v) ++ tl) :
    (Readable v → ∃ b, VariantDictionary.loadProperties mem' (n + 1) .sOk l =
      VariantDictionary.loadProperties mem' n (loadedValue (src.isSerialized key) v).1
        ⟨(loadedInto src.isSerialized l.d (key, v)).withBuffer b,
          l.stream.advance
            (propertyBytes next key v.vt (storedBytes mem (src.isSerialized key) v)).length⟩) ∧
    (¬ Readable v → VariantDictionary.loadProperties mem' (n + 1) .sOk l = .error .fault) := by
  obtain ⟨hok, hfault⟩ := readProperty_spec hw hkey hrest
    (fun fuel c hfuel hc => readStored_spec loc true mem mem' hv hfuel hc)
  rw [VariantDictionary.loadProperties, if_pos rfl]
  constructor
  · intro hr
    obtain ⟨b, hb⟩ := hok hr
    refine ⟨b, ?_⟩
    rw [hb]
    simp only [Run.ok_bind, copy_loadedValue hv, HResult.failed, Bool.false_eq_true, if_false]
    rfl
  · intro hr
    rw [hfault hr]
    rfl

/-- The result of the loop: that of the last variable. -/
def loadedResult (flagOf : Bstr → Bool) : List (Bstr × Variant) → HResult
  | [] => .sOk
  | [e] => (loadedValue (flagOf e.1) e.2).1
  | _ :: e :: entries => loadedResult flagOf (e :: entries)

/-- INTERNAL: reading a stored value never fails. -/
theorem failed_loadedValue (flag : Bool) (v : Variant) : (loadedValue flag v).1.failed = false := by
  cases v with
  | dispatch o => cases hs : savedStream flag o <;> simp [loadedValue, loadedObject, hs, HResult.failed]
  | unknown o => cases hs : savedStream flag o <;> simp [loadedValue, loadedObject, hs, HResult.failed]
  | _ => rfl

/-- The loop over stored variables never fails. -/
theorem failed_loadedResult (flagOf : Bstr → Bool) (entries : List (Bstr × Variant)) :
    (loadedResult flagOf entries).failed = false := by
  induction entries using loadedResult.induct with
  | case1 => rfl
  | case2 e => exact failed_loadedValue _ _
  | case3 _ e entries ih => exact ih

/-- INTERNAL: the loop ends with `S_OK` when every variable is read with it. -/
theorem loadedResult_eq_sOk {flagOf : Bstr → Bool} {entries : List (Bstr × Variant)}
    (h : ∀ e ∈ entries, (loadedValue (flagOf e.1) e.2).1 = .sOk) :
    loadedResult flagOf entries = .sOk := by
  induction entries using loadedResult.induct with
  | case1 => rfl
  | case2 e => exact h e (by simp)
  | case3 _ e entries ih => exact ih fun e' he => h e' (by simp [List.mem_cons.mp he])

/-- **The loop over the variables**, when all but the last are read with `S_OK`. -/
theorem loadProperties_spec {mem : Memory} (mem' : Memory) {src : VariantDictionary loc}
    (entries : List (Bstr × Variant))
    (h : ∀ e ∈ entries, WellFormedUtf16 e.1 ∧ StringFits e.1 ∧
      Storable (src.isSerialized e.1) e.2)
    (hlast : ∀ e ∈ entries.dropLast, (loadedValue (src.isSerialized e.1) e.2).1 = .sOk)
    {pos : ℕ} {l : VariantDictionary.Loading loc} {tl : List UInt8}
    (hrest : l.stream.rest = propertiesBytes mem src pos entries ++ tl) :
    ((∀ e ∈ entries, Readable e.2) → ∃ b,
      VariantDictionary.loadProperties mem' entries.length .sOk l =
        .ok (loadedResult src.isSerialized entries,
          ⟨(entries.foldl (loadedInto src.isSerialized) l.d).withBuffer b,
            l.stream.advance (propertiesBytes mem src pos entries).length⟩)) ∧
    ((¬ ∀ e ∈ entries, Readable e.2) →
      VariantDictionary.loadProperties mem' entries.length .sOk l = .error .fault) := by
  induction entries generalizing pos l with
  | nil => exact ⟨fun _ => ⟨l.d.m_currentBufLen, rfl⟩, fun hnot => absurd (by simp) hnot⟩
  | cons e entries ih =>
    obtain ⟨key, v⟩ := e
    obtain ⟨hw, hkey, hv⟩ : WellFormedUtf16 key ∧ StringFits key ∧
      Storable (src.isSerialized key) v := h (key, v) (by simp)
    simp only [propertiesBytes, List.append_assoc] at hrest
    obtain ⟨hok, hfault⟩ := loadProperties_step mem' hw hkey hv entries.length hrest
    rw [List.length_cons]
    by_cases hr : Readable v
    · obtain ⟨b, hb⟩ := hok hr
      rw [hb]
      have hrest' := CStream.rest_advance_of_append hrest
      cases entries with
      | nil =>
        -- the last variable decides the result
        refine ⟨fun _ => ⟨b, ?_⟩, fun hnot => absurd (by simpa using hr) hnot⟩
        simp only [List.length_nil, VariantDictionary.loadProperties, Run.pure_eq, loadedResult,
          List.foldl_cons, List.foldl_nil, propertiesBytes, List.append_nil]
      | cons e' entries =>
        have hsOk : (loadedValue (src.isSerialized key) v).1 = .sOk := hlast (key, v) (by simp)
        rw [hsOk]
        obtain ⟨hok', hfault'⟩ := ih (fun e he => h e (by simp [List.mem_cons.mp he]))
          (fun e he => hlast e (by simp [he]))
          (l := ⟨(loadedInto src.isSerialized l.d (key, v)).withBuffer b, l.stream.advance
            (propertyBytes (propertyEnd pos key (storedBytes mem (src.isSerialized key) v)) key
              v.vt (storedBytes mem (src.isSerialized key) v)).length⟩) hrest'
        constructor
        · intro hall
          obtain ⟨b', hb'⟩ := hok' fun e he => hall e (by simp [List.mem_cons.mp he])
          refine ⟨b', ?_⟩
          rw [hb', foldl_loadedInto_withBuffer, VariantDictionary.withBuffer_withBuffer]
          simp only [List.foldl_cons, propertiesBytes, CStream.advance_advance,
            List.length_append, loadedResult]
        · intro hnot
          refine hfault' fun hall => hnot fun e he => ?_
          rcases List.mem_cons.mp he with rfl | he
          · exact hr
          · exact hall e he
    · exact ⟨fun hall => absurd (hall (key, v) (by simp)) hr, fun _ => hfault hr⟩

/-! ## Loading -/

/-- INTERNAL: `Els` is a well-formed name. -/
theorem wellFormedUtf16_elsName : WellFormedUtf16 VariantDictionary.elsName :=
  ⟨"Els".toList, rfl⟩

/-- INTERNAL: there is always the property `Els`. -/
theorem length_contentsBytes_pos (ps : List StoredProperty) : 0 < (contentsBytes ps).length := by
  have h := length_leBytes 2 (ScalarType.vt .i4).toNat
  simp only [contentsBytes, propertyBytes, List.length_append, h]
  omega

theorem length_dictionaryBytes_pos (mem : Memory) (d : VariantDictionary loc) :
    0 < (dictionaryBytes mem d).length := by
  rw [dictionaryBytes_eq]
  exact length_contentsBytes_pos _

/-- The variables of a dictionary's stream, in the order in which they are read. -/
def storedEntries (d : VariantDictionary loc) : List (Bstr × Variant) :=
  d.dictionary.entries.reverse

/-- INTERNAL: `LocalLoad` first reads the number of the variables. -/
theorem readProperty_els (mem : Memory) (ps : List StoredProperty) (r : VariantDictionary loc) :
    ∃ b pos next, (⟨contentsBytes ps, pos⟩ : CStream).rest = storedPropertiesBytes next ps ∧
      pos + (storedPropertiesBytes next ps).length = (contentsBytes ps).length ∧
      VariantDictionary.readProperty mem ⟨r, ⟨contentsBytes ps, 0⟩⟩ =
        .ok (.sOk, VariantDictionary.elsName, .scalar .i4 (BitVec.ofNat _ ps.length),
          ⟨r.withBuffer b, ⟨contentsBytes ps, pos⟩⟩) := by
  generalize hels : leBytes 4 (BitVec.ofNat 32 ps.length).toNat = els
  have hbytes : contentsBytes ps = propertyBytes (propertyEnd 0 VariantDictionary.elsName els)
      VariantDictionary.elsName (ScalarType.vt .i4) els ++
        storedPropertiesBytes (propertyEnd 0 VariantDictionary.elsName els) ps := by
    rw [← hels]
    rfl
  have hread : ∀ (fuel : ℕ) (c : Channel), els.length < fuel →
      c.stream.rest = els ++
        storedPropertiesBytes (propertyEnd 0 VariantDictionary.elsName els) ps →
      (True → ∃ b, readValue loc true mem fuel (ScalarType.vt .i4) c =
        .ok (.sOk, .scalar .i4 (BitVec.ofNat _ ps.length), ⟨c.stream.advance els.length, b⟩)) ∧
      (¬ True → readValue loc true mem fuel (ScalarType.vt .i4) c = .error .fault) := by
    intro fuel c hfuel hc
    rw [← hels] at hfuel hc ⊢
    have h := readValue_spec loc true Memory.zero mem (.scalar .i4 (BitVec.ofNat _ ps.length))
      trivial trivial fuel c _ hfuel hc
    exact ⟨fun _ => h.1 trivial, fun hnot => absurd trivial hnot⟩
  have hrest : (⟨contentsBytes ps, 0⟩ : CStream).rest = propertyBytes
      (propertyEnd 0 VariantDictionary.elsName els) VariantDictionary.elsName
      (ScalarType.vt .i4) els ++
        storedPropertiesBytes (propertyEnd 0 VariantDictionary.elsName els) ps := hbytes
  obtain ⟨b, hb⟩ := (readProperty_spec (l := ⟨r, ⟨contentsBytes ps, 0⟩⟩)
    wellFormedUtf16_elsName stringFits_elsName hrest hread).1 trivial
  refine ⟨b, _, _, CStream.rest_advance_of_append hrest, ?_, hb⟩
  have hlen := congrArg List.length hrest
  rw [CStream.rest, List.drop_zero, List.length_append] at hlen
  rw [hlen, Nat.zero_add]

/-- INTERNAL: the number as the loop takes it. -/
theorem intVal_count (mem : Memory) {n : ℕ} (h : n < 2 ^ 31) :
    (Variant.scalar .i4 (BitVec.ofNat _ n)).intVal mem.pointer = BitVec.ofNat 32 n ∧
      (BitVec.ofNat 32 n).toNat = n ∧ (BitVec.ofNat 32 n).slt 0 = false ∧
      BitVec.slt 32767 (BitVec.ofNat 32 n) = decide (32767 < n) := by
  have hbig : (BitVec.ofNat 32 n).toNat = n := by
    rw [BitVec.toNat_ofNat, Nat.mod_eq_of_lt (by omega)]
  have hint : (BitVec.ofNat 32 n).toInt = n := by
    rw [BitVec.toInt_eq_toNat_cond, hbig, if_pos (by omega)]
  have hmax : (32767 : BitVec 32).toInt = 32767 := rfl
  have hzero : (0 : BitVec 32).toInt = 0 := rfl
  refine ⟨?_, hbig, ?_, ?_⟩
  · simp only [Variant.intVal]
    exact BitVec.setWidth_eq _
  · rw [BitVec.slt, hint, hzero]
    exact decide_eq_false (by omega)
  · rw [BitVec.slt, hint, hmax]
    exact decide_eq_decide.mpr (by omega)

/-- **`LocalLoad` gets to the variables**: on a stream of properties it is the loop over them,
into an empty dictionary. -/
theorem localLoad_contents (mem : Memory) (ps : List StoredProperty) (r : VariantDictionary loc)
    (hsize : ps.length ≤ 32767) {lSize : ℕ} (hlSize : lSize ≠ 0) :
    ∃ b pos next, ∃ stream : CStream, stream.rest = storedPropertiesBytes next ps ∧
      pos + (storedPropertiesBytes next ps).length = (contentsBytes ps).length ∧
      stream = ⟨contentsBytes ps, pos⟩ ∧
      r.localLoad mem (some ⟨contentsBytes ps, 0⟩) lSize =
        VariantDictionary.loadProperties mem ps.length .sOk ⟨r.removeAll.withBuffer b, stream⟩ >>=
          fun res => pure (res.1, res.2.d, some res.2.stream) := by
  obtain ⟨b, pos, next, hrest, hlength, hread⟩ := readProperty_els mem ps r
  obtain ⟨hint, hbig, hneg, hmany⟩ := intVal_count mem (n := ps.length) (by omega)
  refine ⟨b, pos, next, _, hrest, hlength, rfl, ?_⟩
  have hrange : ¬ ((BitVec.ofNat 32 ps.length).slt 0 = true ∨
      BitVec.slt 32767 (BitVec.ofNat 32 ps.length) = true) := by
    rw [hneg, hmany, decide_eq_true_eq]
    exact fun h => h.elim Bool.noConfusion (by omega)
  rw [VariantDictionary.localLoad, if_neg hlSize]
  simp only [hread, Run.ok_bind, loc.sameText_refl, not_true_eq_false, if_false, hint,
    hbig, if_neg hrange]
  rfl

/-- More variables than the count allows are not loaded. -/
theorem localLoad_many (mem : Memory) {ps : List StoredProperty} (r : VariantDictionary loc)
    (hsize : 32767 < ps.length) (hfits : ps.length < 2 ^ 31) {lSize : ℕ} (hlSize : lSize ≠ 0) :
    ∃ d stream, r.localLoad mem (some ⟨contentsBytes ps, 0⟩) lSize = .ok (.eFail, d, stream) := by
  obtain ⟨b, pos, next, -, -, hread⟩ := readProperty_els mem ps r
  obtain ⟨hint, -, -, hmany⟩ := intVal_count mem hfits
  have hrange : (BitVec.ofNat 32 ps.length).slt 0 = true ∨
      BitVec.slt 32767 (BitVec.ofNat 32 ps.length) = true :=
    .inr (hmany.trans (decide_eq_true hsize))
  refine ⟨r.withBuffer b, some ⟨contentsBytes ps, pos⟩, ?_⟩
  rw [VariantDictionary.localLoad, if_neg hlSize]
  simp only [hread, Run.ok_bind, loc.sameText_refl, not_true_eq_false, if_false, hint,
    if_pos hrange]
  rfl

/-- **`LocalLoad` of stored properties.** -/
theorem localLoad_stored {mem : Memory} (ps : List LoadedProperty) (r : VariantDictionary loc)
    (hsize : ps.length ≤ 32767)
    (h : ∀ p ∈ ps, WellFormedUtf16 p.stored.name ∧ StringFits p.stored.name ∧
      ReadsTo loc mem p.stored p.hr p.value ∧ p.value.copy = .ok .sOk)
    {lSize : ℕ} (hlSize : lSize ≠ 0) :
    ∃ b stream, r.localLoad mem (some ⟨contentsBytes (ps.map LoadedProperty.stored), 0⟩) lSize =
      .ok (resultOf ps,
        ((readThrough ps).foldl (fun d p => p.into d) r.removeAll).withBuffer b, some stream) := by
  obtain ⟨b, pos, next, stream, hrest, -, -, hload⟩ :=
    localLoad_contents mem (ps.map LoadedProperty.stored) r (by rwa [List.length_map]) hlSize
  have hrest' : stream.rest = storedPropertiesBytes next (ps.map LoadedProperty.stored) ++ [] := by
    rw [hrest, List.append_nil]
  obtain ⟨b', stream', hb'⟩ := @loadProperties_stored _ _ ps h _
    ⟨r.removeAll.withBuffer b, stream⟩ _ hrest'
  refine ⟨b', stream', ?_⟩
  rw [hload, List.length_map, hb', foldl_into_withBuffer, VariantDictionary.withBuffer_withBuffer]
  rfl

/-- INTERNAL: the same for the stream of a dictionary. -/
theorem localLoad_spec (mem mem' : Memory) (d r : VariantDictionary loc)
    (hsize : d.dictionary.size ≤ 32767) {lSize : ℕ} (hlSize : lSize ≠ 0) :
    ∃ b pos next, ∃ stream : CStream,
      stream.rest = propertiesBytes mem d next (storedEntries d) ∧
      pos + (propertiesBytes mem d next (storedEntries d)).length =
        (dictionaryBytes mem d).length ∧ stream = ⟨dictionaryBytes mem d, pos⟩ ∧
      r.localLoad mem' (some ⟨dictionaryBytes mem d, 0⟩) lSize =
        VariantDictionary.loadProperties mem' d.dictionary.size .sOk
          ⟨r.removeAll.withBuffer b, stream⟩ >>= fun res =>
            pure (res.1, res.2.d, some res.2.stream) := by
  have hlength : (d.dictionary.entries.reverse.map
      (storedVariable fun key => storedBytes mem (d.isSerialized key))).length =
        d.dictionary.size := by
    rw [List.length_map, List.length_reverse, OrderedMap.size]
  have h := localLoad_contents mem' (d.dictionary.entries.reverse.map
    (storedVariable fun key => storedBytes mem (d.isSerialized key))) r (by omega) hlSize
  rw [hlength, ← dictionaryBytes_eq] at h
  simpa only [propertiesBytes_eq, storedEntries] using h

/-- The dictionary `LocalLoad` makes of another one's stream. -/
def reloaded (d r : VariantDictionary loc) : VariantDictionary loc :=
  (storedEntries d).foldl (loadedInto d.isSerialized) r.removeAll

/-- INTERNAL: loading is inserting the loaded values. -/
theorem dictionary_foldl_loadedInto (flagOf : Bstr → Bool) (entries : List (Bstr × Variant))
    (r : VariantDictionary loc) :
    (entries.foldl (loadedInto flagOf) r).dictionary =
      r.dictionary.insertAll
        (entries.map fun e => (e.1, (loadedValue (flagOf e.1) e.2).2)) := by
  induction entries generalizing r with
  | nil => rfl
  | cons e entries ih => exact ih (loadedInto flagOf r e)

/-- **The reloaded dictionary has the same keys, each with its loaded value.** -/
theorem dictionary_reloaded (d r : VariantDictionary loc) :
    (reloaded d r).dictionary =
      d.dictionary.mapValues fun key v => (loadedValue (d.isSerialized key) v).2 := by
  rw [reloaded, dictionary_foldl_loadedInto, storedEntries, List.map_reverse]
  exact OrderedMap.insertAll_reverse
    (d.dictionary.mapValues fun key v => (loadedValue (d.isSerialized key) v).2)

/-- **`LocalLoad` of a dictionary's stream**, when all variables but that of the least key
are read with `S_OK`. -/
theorem localLoad_dictionaryBytes (mem mem' : Memory) {d : VariantDictionary loc}
    (r : VariantDictionary loc) (hsize : d.dictionary.size ≤ 32767)
    (hkeys : ∀ e ∈ d.dictionary.entries, WellFormedUtf16 e.1) (hc : AllStorable d)
    (hleast : ∀ e ∈ d.dictionary.entries.tail,
      (loadedValue (d.isSerialized e.1) e.2).1 = .sOk) {lSize : ℕ} (hlSize : lSize ≠ 0) :
    ((∀ e ∈ d.dictionary.entries, Readable e.2) → ∃ b,
      r.localLoad mem' (some ⟨dictionaryBytes mem d, 0⟩) lSize =
        .ok (loadedResult d.isSerialized (storedEntries d), (reloaded d r).withBuffer b,
          some ⟨dictionaryBytes mem d, (dictionaryBytes mem d).length⟩)) ∧
    ((¬ ∀ e ∈ d.dictionary.entries, Readable e.2) →
      r.localLoad mem' (some ⟨dictionaryBytes mem d, 0⟩) lSize = .error .fault) := by
  obtain ⟨b, pos, next, stream, hrest, hend, hstream, hload⟩ :=
    localLoad_spec mem mem' d r hsize hlSize
  rw [hload]
  have hlength : d.dictionary.size = (storedEntries d).length := by
    rw [storedEntries, List.length_reverse, OrderedMap.size]
  rw [hlength]
  have hrest' : stream.rest = propertiesBytes mem d next (storedEntries d) ++ [] := by
    rw [hrest, List.append_nil]
  obtain ⟨hok, hfault⟩ := loadProperties_spec mem' (storedEntries d)
    (fun e he => ⟨hkeys e (by simpa [storedEntries] using he),
      hc e (by simpa [storedEntries] using he)⟩)
    (fun e he => hleast e (by simpa [storedEntries] using he))
    (l := ⟨r.removeAll.withBuffer b, stream⟩) hrest'
  simp only [storedEntries, List.mem_reverse] at hok hfault
  constructor
  · intro hall
    obtain ⟨b', hb'⟩ := hok hall
    refine ⟨b', ?_⟩
    rw [storedEntries, hb']
    simp only [Run.ok_bind, Run.pure_eq, foldl_loadedInto_withBuffer,
      VariantDictionary.withBuffer_withBuffer, reloaded, storedEntries, hstream]
    rw [← hend]
    rfl
  · intro hnot
    rw [storedEntries, hfault hnot]
    rfl

end IspSession.Analysis
