import IspSession.Analysis.ValueReading
import IspSession.Model.VariantDictionary

/-!
# The format of a dictionary, and `LocalContents`

A property is its name, the offset of the next property, the tag and the value. A
dictionary is the number of its variables as a property `Els`, then its properties from
the last to the first. An object is stored as the stream it saves itself to, or as zero
bytes.

`localContents_spec`: `LocalContents` produces `dictionaryBytes`, or faults when a value
defeats the carry loop.
-/

set_option autoImplicit false

namespace IspSession.Analysis

open IspSession.Library IspSession.Model

variable {loc : Collation}

/-! ## The format -/

/-- The stream an object is stored as, when it can be. -/
def savedStream (flag : Bool) (o : ComObject) : Option (List UInt8) :=
  match flag, o with
  | true, .packed bytes => some bytes
  | false, .live true saved => saved
  | _, _ => none

/-- The bytes of an object. -/
def objectBytes (flag : Bool) (o : ComObject) : List UInt8 :=
  match savedStream flag o with
  | some bytes => leBytes 4 bytes.length ++ bytes
  | none => leBytes 4 0

/-- The bytes of a variable's value, under the variable's flag. -/
def storedBytes (mem : Memory) (flag : Bool) : Variant → List UInt8
  | .dispatch o | .unknown o => objectBytes flag o
  | v => valueBytes mem v

/-- A property whose value has the bytes `bs`. -/
def propertyBytes (next : ℕ) (key : Bstr) (vt : VarType) (bs : List UInt8) : List UInt8 :=
  stringBytes key ++ (leBytes 4 next ++ (leBytes 2 vt.toNat ++ bs))

/-- The position behind a property. -/
def propertyEnd (pos : ℕ) (key : Bstr) (bs : List UInt8) : ℕ :=
  pos + ((stringBytes key).length + (6 + bs.length))

/-- A property, with the bytes of its value. -/
structure StoredProperty where
  name : Bstr
  vt : VarType
  bytes : List UInt8

/-- Stored properties from the position `pos` on. -/
def storedPropertiesBytes : ℕ → List StoredProperty → List UInt8
  | _, [] => []
  | pos, p :: ps =>
    propertyBytes (propertyEnd pos p.name p.bytes) p.name p.vt p.bytes ++
      storedPropertiesBytes (propertyEnd pos p.name p.bytes) ps

/-- A variable, stored with the bytes that `enc` gives for its value. -/
def storedVariable (enc : Bstr → Variant → List UInt8) (e : Bstr × Variant) : StoredProperty where
  name := e.1
  vt := e.2.vt
  bytes := enc e.1 e.2

/-- Properties from the position `pos` on. -/
def propertiesBytes (mem : Memory) (d : VariantDictionary loc) :
    ℕ → List (Bstr × Variant) → List UInt8
  | _, [] => []
  | pos, (key, v) :: entries =>
    let bs := storedBytes mem (d.isSerialized key) v
    propertyBytes (propertyEnd pos key bs) key v.vt bs ++
      propertiesBytes mem d (propertyEnd pos key bs) entries

/-- The value of the property `Els`. -/
def elsBytes (d : VariantDictionary loc) : List UInt8 :=
  leBytes 4 (BitVec.ofNat 32 d.dictionary.size).toNat

/-- INTERNAL: the value of `Els` is written as its bytes. -/
theorem writeValue_elsValue (mem : Memory) (flag : Bool) (d : VariantDictionary loc)
    (c : Channel) : writeValue mem flag d.elsValue c = .ok (.sOk, c.write (elsBytes d)) := rfl

/-- A dictionary. -/
def dictionaryBytes (mem : Memory) (d : VariantDictionary loc) : List UInt8 :=
  let next := propertyEnd 0 VariantDictionary.elsName (elsBytes d)
  propertyBytes next VariantDictionary.elsName d.elsValue.vt (elsBytes d) ++
    propertiesBytes mem d next d.dictionary.entries.reverse

/-- The stream of a number of properties, the property `Els` with their number in front. -/
def contentsBytes (ps : List StoredProperty) : List UInt8 :=
  let els := leBytes 4 (BitVec.ofNat 32 ps.length).toNat
  let next := propertyEnd 0 VariantDictionary.elsName els
  propertyBytes next VariantDictionary.elsName (ScalarType.vt .i4) els ++
    storedPropertiesBytes next ps

/-- INTERNAL: the properties of a dictionary as stored ones. -/
theorem propertiesBytes_eq (mem : Memory) (d : VariantDictionary loc) (pos : ℕ)
    (entries : List (Bstr × Variant)) :
    propertiesBytes mem d pos entries = storedPropertiesBytes pos
      (entries.map (storedVariable fun key => storedBytes mem (d.isSerialized key))) := by
  induction entries generalizing pos with
  | nil => rfl
  | cons e entries ih =>
    simp only [propertiesBytes, ih, List.map_cons, storedPropertiesBytes, storedVariable]

/-- INTERNAL: and the whole dictionary. -/
theorem dictionaryBytes_eq (mem : Memory) (d : VariantDictionary loc) :
    dictionaryBytes mem d = contentsBytes (d.dictionary.entries.reverse.map
      (storedVariable fun key => storedBytes mem (d.isSerialized key))) := by
  have hlength : (d.dictionary.entries.reverse.map
      (storedVariable fun key => storedBytes mem (d.isSerialized key))).length = d.dictionary.size := by
    rw [List.length_map, List.length_reverse, OrderedMap.size]
  simp only [dictionaryBytes, contentsBytes, propertiesBytes_eq, hlength]
  rfl

/-- A value that can be stored under a flag: a supported one, or an object whose stream
has a size an `INT` can hold. -/
def Storable (flag : Bool) : Variant → Prop
  | .dispatch o | .unknown o =>
    ¬ (flag = true ∧ o = .null) ∧
      ∀ bytes, savedStream flag o = some bytes → 0 < bytes.length ∧ bytes.length < 2 ^ 31
  | v => Supported v ∧ Fits v

/-- INTERNAL: the position behind a property is the position in front and its length. -/
theorem propertyEnd_eq (pos next : ℕ) (key : Bstr) (vt : VarType) (bs : List UInt8) :
    propertyEnd pos key bs = pos + (propertyBytes next key vt bs).length := by
  simp only [propertyEnd, propertyBytes, List.length_append, length_leBytes]
  omega

/-! ## Writing -/

/-- An object is written as its stream. -/
theorem writeObject_spec {flag : Bool} {o : ComObject} (h : ¬ (flag = true ∧ o = .null))
    (c : Channel) (hc : c.stream.Sound) :
    ∃ hr, writeObject flag o c =
      .ok (hr, ⟨c.stream.write (objectBytes flag o), c.m_currentBufLen⟩) := by
  have hstream : ∀ bytes, writeStream bytes c =
      ⟨c.stream.write (leBytes 4 bytes.length ++ bytes), c.m_currentBufLen⟩ := by
    intro bytes
    simp only [writeStream, Channel.write_eq, hc.write_write]
  cases flag with
  | true =>
    cases o with
    | null => exact absurd ⟨rfl, rfl⟩ h
    | live p saved => exact ⟨.eNoInterface, rfl⟩
    | packed bytes => exact ⟨.sOk, by rw [writeObject, hstream]; rfl⟩
  | false =>
    cases o with
    | null => exact ⟨.eInvalidArg, rfl⟩
    | packed bytes => exact ⟨.eInvalidArg, rfl⟩
    | live p saved =>
      cases p with
      | false => exact ⟨.eInvalidArg, rfl⟩
      | true =>
        cases saved with
        | none => exact ⟨.eFail, rfl⟩
        | some bytes => exact ⟨.sOk, by rw [writeObject, hstream]; rfl⟩

/-- **`WriteValue` of a variable's value.** -/
theorem writeStored_spec (mem : Memory) {flag : Bool} {v : Variant} (h : Storable flag v)
    (c : Channel) (hc : c.stream.Sound) :
    WritesOrFaults (Writable v) (storedBytes mem flag v) c (writeValue mem flag v c) := by
  cases v with
  | dispatch o =>
    obtain ⟨hr, heq⟩ := writeObject_spec h.1 c hc
    exact .of_ok trivial _ _ heq
  | unknown o =>
    obtain ⟨hr, heq⟩ := writeObject_spec h.1 c hc
    exact .of_ok trivial _ _ heq
  | _ => exact writeValue_spec mem flag _ h.1 h.2 c hc

/-- **`WriteProperty`** appends the property with its offset filled in, or faults with
the value. -/
theorem writeProperty_spec (mem : Memory) (d : VariantDictionary loc) {key : Bstr}
    (hkey : StringFits key) {v : Variant} {ok : Prop} {bs : List UInt8}
    (hv : ∀ c : Channel, c.stream.Sound →
      WritesOrFaults ok bs c (writeValue mem (d.isSerialized key) v c))
    (c : Channel) (hc : c.stream.Sound) :
    (ok → ∃ b, d.writeProperty mem key v c = .ok (.sOk,
      ⟨c.stream.write (propertyBytes (propertyEnd c.stream.pos key bs) key v.vt bs), b⟩)) ∧
    (¬ ok → d.writeProperty mem key v c = .error .fault) := by
  obtain ⟨b, hb⟩ := writeString_spec hkey c hc
  have hname := hc.write (stringBytes key)
  have hvalue := hv ⟨((c.stream.write (stringBytes key)).write (leBytes 4 0)).write
    (leBytes 2 v.vt.toNat), b⟩ ((hname.write _).write _)
  have hpos : (c.stream.write (stringBytes key)).pos = c.stream.pos + (stringBytes key).length :=
    CStream.pos_write _ _
  constructor
  · intro hok
    obtain ⟨hr, b', hb'⟩ := hvalue.1 hok
    refine ⟨b', ?_⟩
    simp only [hname.write_write] at hb'
    simp only [VariantDictionary.writeProperty, hb, Run.ok_bind, HResult.failed,
      Bool.false_eq_true, if_false, Channel.write_eq, hname.write_write, hb', Run.pure_eq,
      CStream.pos_write, List.append_assoc]
    have hlength : (leBytes 4 0 ++ (leBytes 2 v.vt.toNat ++ bs)).length = 6 + bs.length := by
      simp only [List.length_append, length_leBytes]
      omega
    have hend : (c.stream.write (stringBytes key)).pos +
        (leBytes 4 0 ++ (leBytes 2 v.vt.toNat ++ bs)).length =
        propertyEnd c.stream.pos key bs := by
      rw [hpos, hlength, propertyEnd, Nat.add_assoc]
    have hwidth : (leBytes 4 (propertyEnd c.stream.pos key bs)).length = (leBytes 4 0).length := by
      simp
    have hpatch := hname.write_patch hwidth (leBytes 2 v.vt.toNat ++ bs)
    rw [hend, hpos] at hpatch
    rw [← hpos, hend, hpos, hpatch, hc.write_write, propertyBytes]
  · intro hnot
    simp only [VariantDictionary.writeProperty, hb, Run.ok_bind, HResult.failed,
      Bool.false_eq_true, if_false]
    have hfault := hvalue.2 hnot
    simp only [Channel.write_eq] at hfault ⊢
    rw [hfault]
    rfl

/-- **The loop over the variables**, with an encoding of their values. -/
theorem writeProperties_spec (mem : Memory) (d : VariantDictionary loc)
    (enc : Bstr → Variant → List UInt8) (entries : List (Bstr × Variant))
    (h : ∀ e ∈ entries, StringFits e.1 ∧ WritesAs mem (d.isSerialized e.1) (enc e.1) e.2)
    (c : Channel) (hc : c.stream.Sound) :
    ((∀ e ∈ entries, Writable e.2) → ∃ b, d.writeProperties mem entries c =
      .ok ⟨c.stream.write
        (storedPropertiesBytes c.stream.pos (entries.map (storedVariable enc))), b⟩) ∧
    ((¬ ∀ e ∈ entries, Writable e.2) → d.writeProperties mem entries c = .error .fault) := by
  induction entries generalizing c with
  | nil => exact ⟨fun _ => ⟨c.m_currentBufLen, rfl⟩, fun hnot => absurd (by simp) hnot⟩
  | cons e entries ih =>
    obtain ⟨key, v⟩ := e
    obtain ⟨hkey, hwrites⟩ := h (key, v) (by simp)
    obtain ⟨hok, hfault⟩ := writeProperty_spec mem d hkey hwrites c hc
    by_cases hw : Writable v
    · obtain ⟨b, hb⟩ := hok hw
      have hbytes := propertyEnd_eq c.stream.pos
        (propertyEnd c.stream.pos key (enc key v)) key v.vt (enc key v)
      obtain ⟨hok', hfault'⟩ := ih (fun e he => h e (by simp [he]))
        ⟨c.stream.write (propertyBytes (propertyEnd c.stream.pos key (enc key v)) key v.vt
          (enc key v)), b⟩ (hc.write _)
      constructor
      · intro hall
        obtain ⟨b', hb'⟩ := hok' fun e he => hall e (by simp [he])
        refine ⟨b', ?_⟩
        simp only [VariantDictionary.writeProperties, hb, Run.ok_bind, hb', hc.write_write,
          List.map_cons, storedPropertiesBytes, storedVariable, CStream.pos_write, ← hbytes]
      · intro hnot
        rw [VariantDictionary.writeProperties, hb]
        refine hfault' fun hall => hnot fun e he => ?_
        rcases List.mem_cons.mp he with rfl | he
        · exact hw
        · exact hall e he
    · constructor
      · intro hall
        exact absurd (hall (key, v) (by simp)) hw
      · intro _
        rw [VariantDictionary.writeProperties, hfault hw]
        rfl

/-- Every name and value of the dictionary can be stored. -/
def AllStorable (d : VariantDictionary loc) : Prop :=
  ∀ e ∈ d.dictionary.entries, StringFits e.1 ∧ Storable (d.isSerialized e.1) e.2

/-- INTERNAL: the name `Els` fits. -/
theorem stringFits_elsName : StringFits VariantDictionary.elsName := by
  unfold StringFits
  decide

/-- INTERNAL: `LocalContents` with an encoding of the values. -/
theorem localContents_as (mem : Memory) (d : VariantDictionary loc)
    (enc : Bstr → Variant → List UInt8)
    (h : ∀ e ∈ d.dictionary.entries,
      StringFits e.1 ∧ WritesAs mem (d.isSerialized e.1) (enc e.1) e.2)
    {bytes : List UInt8}
    (hbytes : contentsBytes (d.dictionary.entries.reverse.map (storedVariable enc)) = bytes) :
    ((∀ e ∈ d.dictionary.entries, Writable e.2) → ∃ b, d.localContents mem =
      .ok (.sOk, bytes.length % 2 ^ 32, ⟨bytes, 0⟩, d.withBuffer b)) ∧
    ((¬ ∀ e ∈ d.dictionary.entries, Writable e.2) → d.localContents mem = .error .fault) := by
  have hnew : (CStream.new.setSize 128).pos = 0 := rfl
  have hsound : (CStream.new.setSize 128).Sound := Nat.zero_le _
  have hels : ∀ c : Channel, c.stream.Sound → WritesOrFaults True (elsBytes d) c
      (writeValue mem (d.isSerialized VariantDictionary.elsName) d.elsValue c) :=
    fun c _ => .of_ok trivial _ _ (writeValue_elsValue mem _ d c)
  obtain ⟨b, hb⟩ := (writeProperty_spec mem d stringFits_elsName hels
    ⟨CStream.new.setSize 128, d.m_currentBufLen⟩ hsound).1 trivial
  obtain ⟨hok, hfault⟩ := writeProperties_spec mem d enc d.dictionary.entries.reverse
    (fun e he => h e (by simpa using he))
    ⟨(CStream.new.setSize 128).write (propertyBytes
      (propertyEnd 0 VariantDictionary.elsName (elsBytes d)) VariantDictionary.elsName
      d.elsValue.vt (elsBytes d)), b⟩ (hsound.write _)
  simp only [List.mem_reverse] at hok hfault
  have hlength : (d.dictionary.entries.reverse.map (storedVariable enc)).length = d.dictionary.size := by
    rw [List.length_map, List.length_reverse, OrderedMap.size]
  have hwhole : propertyBytes (propertyEnd 0 VariantDictionary.elsName (elsBytes d))
      VariantDictionary.elsName d.elsValue.vt (elsBytes d) ++
        storedPropertiesBytes (propertyEnd 0 VariantDictionary.elsName (elsBytes d))
          (d.dictionary.entries.reverse.map (storedVariable enc)) = bytes := by
    rw [← hbytes, contentsBytes, hlength]
    rfl
  constructor
  · intro hall
    obtain ⟨b', hb'⟩ := hok hall
    refine ⟨b', ?_⟩
    have hnext : ((CStream.new.setSize 128).write (propertyBytes
        (propertyEnd 0 VariantDictionary.elsName (elsBytes d)) VariantDictionary.elsName
        d.elsValue.vt (elsBytes d))).pos =
        propertyEnd 0 VariantDictionary.elsName (elsBytes d) := by
      rw [CStream.pos_write, hnew, ← propertyEnd_eq]
    rw [hnext, hsound.write_write, hwhole] at hb'
    have hcut := CStream.setSize_write hnew bytes
    have hsize : ((CStream.new.setSize 128).write bytes).pos = bytes.length := by
      rw [CStream.pos_write, hnew, Nat.zero_add]
    rw [hsize] at hcut
    rw [VariantDictionary.localContents, hb]
    simp only [Run.ok_bind]
    rw [hnew, hb']
    simp only [Run.ok_bind]
    rw [hsize, hcut]
    rfl
  · intro hnot
    rw [VariantDictionary.localContents, hb]
    simp only [Run.ok_bind]
    rw [hnew, hfault hnot]
    rfl

/-- **`LocalContents`** produces the dictionary's bytes, or faults in a carry loop. -/
theorem localContents_spec (mem : Memory) (d : VariantDictionary loc) (h : AllStorable d) :
    ((∀ e ∈ d.dictionary.entries, Writable e.2) → ∃ b, d.localContents mem =
      .ok (.sOk, (dictionaryBytes mem d).length % 2 ^ 32, ⟨dictionaryBytes mem d, 0⟩,
        d.withBuffer b)) ∧
    ((¬ ∀ e ∈ d.dictionary.entries, Writable e.2) → d.localContents mem = .error .fault) :=
  localContents_as mem d _
    (fun e he => ⟨(h e he).1, fun c hc => writeStored_spec mem (h e he).2 c hc⟩)
    (dictionaryBytes_eq mem d).symm

end IspSession.Analysis
