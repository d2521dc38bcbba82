import IspSession.Analysis.DictionaryReading
import IspSession.Analysis.ManagedPayload
import IspSession.Analysis.WriterProgress

/-!
# Payloads that are cut short

Every payload, of either encoder, begins with the same 13 bytes: the name `Els`, where its value
ends and the tag of an `int`. A payload that is cut there is taken for a whole one by both
decoders (`not_detects`). The component finds no number and takes it for zero; it does not look at
what reading the first property says. The managed decoder finds the tag in its buffer, takes it
for the number three, and reads three items from the same buffer.
-/

set_option autoImplicit false

namespace IspSession.Analysis

open IspSession.Library IspSession.Model

/-! ## The claim -/

section Claim

variable {loc : Collation}

/-- `LocalLoad` of the component does not return `S_OK` for a payload that is cut short. -/
def Detects (mem : Memory) (target : VariantDictionary loc) (lSize : ℕ) (payload : Bytes) : Prop :=
  ∀ n < payload.length, ∀ d stream,
    target.localLoad mem (some ⟨payload.take n, 0⟩) lSize ≠ .ok (.sOk, d, stream)

/-- The managed `LocalLoad` throws for a payload that is cut short. -/
def NetDetects (strings : NetStrings) (rt : NetRuntime) (loaders : NetLoaders) (payload : Bytes) :
    Prop :=
  ∀ n < payload.length, Throws (PersistUtil.localLoad rt loaders (payload.take n) :
    NetRun (StateItemCollection strings NetValue))

/-- What an encoder produces. -/
inductive Encoded : Bytes → Prop
  | native {loc : Collation} {mem : Memory} {d d' : VariantDictionary loc} {hr : HResult} {lSize : ℕ}
      {stream : CStream} (h : d.localContents mem = .ok (hr, lSize, stream, d')) :
      Encoded stream.buf
  | managed {strings : NetStrings} {rt : NetRuntime} {items : StateItemCollection strings NetValue}
      {bytes : Bytes} {zLen : ℕ} (h : PersistUtil.localContents rt items = .ok (bytes, zLen)) :
      Encoded bytes

end Claim

/-! ## The managed writer -/

/-- The writer leaves the stream where it was or further on. -/
def GoesOn (write : MemoryStream → NetRun MemoryStream) : Prop :=
  ∀ str str', write str = .ok str' → Ahead str str'

/-- INTERNAL: one writer after the other. -/
theorem GoesOn.bind {write write' : MemoryStream → NetRun MemoryStream} (h : GoesOn write)
    (h' : GoesOn write') : GoesOn fun str => write str >>= write' := by
  intro str str'' hboth
  obtain ⟨str', hwrite, hrest⟩ := NetRun.bind_eq_ok hboth
  exact (h str str' hwrite).trans (h' str' str'' hrest)

/-- INTERNAL: a writer that has looked at something first. -/
theorem GoesOn.after {α : Type} {r : NetRun α} {write : α → MemoryStream → NetRun MemoryStream}
    (h : ∀ a, GoesOn (write a)) : GoesOn fun str => r >>= fun a => write a str := by
  intro str str' hboth
  obtain ⟨a, -, hwrite⟩ := NetRun.bind_eq_ok hboth
  exact h a str str' hwrite

/-- INTERNAL: bytes. -/
theorem goesOn_write (pv : Bytes) : GoesOn fun str => .ok (str.write pv) := by
  intro str str' h
  cases h
  exact ahead_write str pv

/-- INTERNAL: nothing. -/
theorem goesOn_nothing : GoesOn .ok := by
  intro str str' h
  cases h
  exact Ahead.refl str

/-- INTERNAL: no result. -/
theorem goesOn_error (e : NetException) : GoesOn fun _ => .error e := by
  intro str str' h
  cases h

/-- INTERNAL: a string. -/
theorem goesOn_writeString (s : Bstr) : GoesOn (StreamManager.writeString s) := by
  unfold StreamManager.writeString
  split
  · exact goesOn_write _
  · exact GoesOn.after fun _ => goesOn_write _

/-- INTERNAL: the type name of an array. -/
theorem goesOn_writeTypeName (rt : NetRuntime) (element : NetType) :
    GoesOn (StreamManager.writeTypeName rt element) := by
  unfold StreamManager.writeTypeName
  split
  · exact goesOn_writeString _
  · split
    · exact (goesOn_writeString _).bind (goesOn_writeString _)
    · exact goesOn_writeString _

/-- INTERNAL: the header of an array. -/
theorem goesOn_writeArrayHeader (rt : NetRuntime) (element : NetType)
    (dims : List SafeArrayBound) : GoesOn (StreamManager.writeArrayHeader rt element dims) := by
  have hdims : ∀ (dims : List SafeArrayBound) (str : MemoryStream),
      Ahead str (dims.foldl (fun str b => str.write b.bytes) str) := by
    intro dims
    induction dims with
    | nil => exact Ahead.refl
    | cons b dims ih => exact fun str => (ahead_write str _).trans (ih _)
  intro str str' h
  obtain ⟨str₁, hname, h⟩ := NetRun.bind_eq_ok h
  cases h
  exact (ahead_write str _).trans ((goesOn_writeTypeName rt element _ _ hname).trans (hdims dims _))

/-- INTERNAL: a block of cells. -/
theorem goesOn_writeBlock (data : Bytes) (lMemSize : BitVec 32) :
    GoesOn (StreamManager.writeBlock data lMemSize) := by
  unfold StreamManager.writeBlock
  split
  · exact goesOn_error _
  · refine GoesOn.after fun _ => ?_
    split
    · exact goesOn_error _
    · exact goesOn_write _

/-- INTERNAL: cells, each by a writer that goes on. -/
theorem goesOn_walkCells {bounds : ArrayBounds}
    {write : Fin bounds.count → MemoryStream → NetRun MemoryStream} (h : ∀ i, GoesOn (write i))
    (lElements : BitVec 32) :
    GoesOn (walkCells netCarryLoop (writeCell bounds write)
      bounds.dims lElements) := by
  intro str str' hwalk
  unfold walkCells at hwalk
  refine Odometer.walk_keeps netCarryLoop NetException.indexOutOfRange NetException.fuel _
    (fun s : MemoryStream => Ahead str s) ?_ (Ahead.refl str) hwalk
  intro rgIndices s s' hs hcell
  unfold writeCell at hcell
  split at hcell
  · exact hs.trans (h _ _ _ hcell)
  · cases hcell

/-- INTERNAL: a number of cells, if there are any. -/
theorem goesOn_cells {bounds : ArrayBounds}
    {write : Fin bounds.count → MemoryStream → NetRun MemoryStream} (h : ∀ i, GoesOn (write i)) :
    GoesOn fun str =>
      if (0#32).slt (longProduct bounds.dims) then
        walkCells netCarryLoop (writeCell bounds write) bounds.dims (longProduct bounds.dims) str
      else pure str := by
  split
  · exact goesOn_walkCells h _
  · exact goesOn_nothing

/-- INTERNAL: an object that the formatter writes. -/
theorem goesOn_writeFormatted (formatted : Option Bytes) :
    GoesOn fun str => .ok (writeFormatted formatted str) := by
  intro str str' h
  cases h
  unfold writeFormatted
  split
  · exact (ahead_write str _).trans ((ahead_write _ _).trans (ahead_write _ _))
  · exact Ahead.refl str

/-- INTERNAL: an object. -/
theorem goesOn_writeNetObject (o : NetObject) : GoesOn (writeNetObject o) := by
  unfold writeNetObject
  split
  · refine GoesOn.after fun _ str str' h => ?_
    cases h
    exact (ahead_write str _).trans (ahead_write _ _)
  · exact goesOn_error _
  · exact goesOn_write _
  · exact goesOn_writeFormatted _

/-- **The managed `WriteValue` goes on**, whatever the value is. -/
theorem goesOn_writeValue (rt : NetRuntime) (v : NetValue) :
    GoesOn (StreamManager.writeValue rt v) := by
  induction v with
  | null => exact goesOn_nothing
  | dbNull => exact goesOn_nothing
  | boolean b => exact goesOn_write _
  | primitive p bits => exact goesOn_write _
  | decimal d => exact goesOn_write _
  | string s => exact goesOn_writeString _
  | dateTime d => exact GoesOn.after fun _ => goesOn_write _
  | currency c => exact goesOn_writeFormatted _
  | object o => exact goesOn_writeNetObject o
  | primitiveArray p bounds cells =>
    refine (goesOn_writeArrayHeader rt _ _).bind ?_
    dsimp only
    split
    · split
      · exact goesOn_error _
      · split
        · exact goesOn_error _
        · exact goesOn_write _
    · exact goesOn_writeBlock _ _
  | booleanArray bounds cells =>
    exact (goesOn_writeArrayHeader rt _ _).bind (goesOn_writeBlock _ _)
  | decimalArray bounds cells =>
    exact (goesOn_writeArrayHeader rt _ _).bind (goesOn_cells fun _ => goesOn_write _)
  | stringArray bounds cells =>
    exact (goesOn_writeArrayHeader rt _ _).bind (goesOn_cells fun _ => goesOn_writeString _)
  | array element bounds cells ih =>
    refine (goesOn_writeArrayHeader rt _ _).bind ?_
    dsimp only
    split
    · exact goesOn_error _
    · split
      · refine goesOn_walkCells (fun i str str' h => ?_) _
        exact (ahead_write str _).trans (ih i _ _ h)
      · exact goesOn_nothing

/-- INTERNAL: a property goes on. -/
theorem goesOn_writeProperty (rt : NetRuntime) (name : Bstr) (v : NetValue) :
    GoesOn (PersistUtil.writeProperty rt name v) := by
  intro str str' h
  obtain ⟨str₁, hname, h⟩ := NetRun.bind_eq_ok h
  obtain ⟨str₂, hvalue, h⟩ := NetRun.bind_eq_ok h
  cases h
  have hahead := (ahead_write str₁ _).trans
    ((ahead_write _ _).trans (goesOn_writeValue rt v _ _ hvalue))
  -- the last seek goes to where the value ends
  exact (goesOn_writeString name _ _ hname).trans (hahead.patch _)

/-- INTERNAL: properties one after the other. -/
theorem goesOn_writeItems (rt : NetRuntime) (cells : List (Bstr × NetRun NetValue)) :
    GoesOn (writeItems rt cells) := by
  induction cells with
  | nil => exact goesOn_nothing
  | cons cell cells ih =>
    intro str str' h
    obtain ⟨value, -, h⟩ := NetRun.bind_eq_ok h
    obtain ⟨str₁, hproperty, h⟩ := NetRun.bind_eq_ok h
    exact (goesOn_writeProperty rt _ _ _ _ hproperty).trans (ih _ _ h)

/-- **The payload of the managed encoder begins with the number of items.** -/
theorem netLocalContents_begins {strings : NetStrings} {rt : NetRuntime}
    {items : StateItemCollection strings NetValue} {bytes : Bytes} {zLen : ℕ}
    (h : PersistUtil.localContents rt items = .ok (bytes, zLen)) :
    elsFront ++ netValueBytes rt (netElsValue (cellsOf items).length) <+: bytes := by
  rw [localContents_eq] at h
  obtain ⟨str, helements, h⟩ := NetRun.bind_eq_ok h
  have hnew : CStream.new.Sound := Nat.le_refl _
  have hels := (writeProperty_netSpec (by decide : (stringBytes netElsName).length < _)
    (writeNetValue_spec (v := netElsValue (cellsOf items).length) trivial (netFits_elsValue rt _))
    hnew).1 trivial
  rw [hels] at helements
  cases helements
  obtain ⟨str', hitems, h⟩ := NetRun.bind_eq_ok h
  cases h
  have hfront := begins_write (s := CStream.new) rfl (propertyBytes (propertyEnd 0 netElsName
    (netValueBytes rt (netElsValue (cellsOf items).length))) netElsName
    (netElsValue (cellsOf items).length).vt
    (netValueBytes rt (netElsValue (cellsOf items).length)))
  have hbegins := (goesOn_writeItems rt _ _ _ hitems).begins _ hfront
  exact (propertyBytes_els (netValueBytes rt (netElsValue (cellsOf items).length))
    (length_leBytes 4 _)) ▸ hbegins.bytes

/-! ## The payload that ends behind the tag -/

section Cut

variable {loc : Collation}

/-- INTERNAL: at the end of the stream an `int` is zero. -/
theorem readValue_atEnd (loc : Collation) (mem : Memory) {fuel : ℕ} (hfuel : 0 < fuel)
    {c : Channel} (hrest : c.stream.rest = []) :
    readValue loc true mem fuel (ScalarType.vt .i4) c = .ok (.sFalse, .scalar .i4 0, c) := by
  obtain ⟨fuel, rfl⟩ := Nat.exists_eq_succ_of_ne_zero (Nat.ne_of_gt hfuel)
  have hread : c.read 4 = (.sFalse, [], c) := by
    have hleft : c.stream.buf.length - c.stream.pos = 0 := by
      rw [← List.length_drop]
      exact congrArg List.length hrest
    simp only [Channel.read, CStream.read, hleft]
    rfl
  obtain ⟨hswitch, hne⟩ := switchType_vt .i4
  have hvalue : Variant.ofMemory (ScalarType.vt .i4) (256 ^ 6 * ofLeBytes []) = .scalar .i4 0 := by
    simp only [Variant.ofMemory, hne, if_false, ScalarType.ofVt_vt, ofLeBytes, Nat.mul_zero,
      Nat.zero_div]
    rfl
  have hplain : ¬ (ScalarType.vt .i4 &&& vtArray) = vtArray := by decide
  rw [readValue, if_neg hplain]
  simp only [readScalar, hswitch, hne, or_self, if_false, ScalarType.ofVt_vt, ScalarType.size, hread,
    hvalue, kept, if_true, Run.pure_eq]

/-- **The component takes such a payload for an empty dictionary.** -/
theorem localLoad_elsFront (mem : Memory) (target : VariantDictionary loc) {lSize : ℕ}
    (hsize : lSize ≠ 0) :
    ∃ d stream, target.localLoad mem (some ⟨elsFront, 0⟩) lSize = .ok (.sOk, d, stream) ∧
      d.dictionary = .empty := by
  have hrest : (⟨target, ⟨elsFront, 0⟩⟩ : VariantDictionary.Loading loc).stream.rest =
      propertyBytes 17 VariantDictionary.elsName (ScalarType.vt .i4) [] ++ [] :=
    (by decide : elsFront = propertyBytes 17 VariantDictionary.elsName (ScalarType.vt .i4) [] ++ [])
  have hvalue : ∀ (fuel : ℕ) (c : Channel), ([] : Bytes).length < fuel →
      c.stream.rest = [] ++ [] →
      (True → ∃ b, readValue loc true mem fuel (ScalarType.vt .i4) c =
        .ok (.sFalse, .scalar .i4 0, ⟨c.stream.advance ([] : Bytes).length, b⟩)) ∧
      (¬ True → readValue loc true mem fuel (ScalarType.vt .i4) c = .error .fault) :=
    fun fuel c hfuel hrest =>
      ⟨fun _ => ⟨c.m_currentBufLen, readValue_atEnd loc mem (Nat.zero_lt_of_lt hfuel) hrest⟩,
        fun hno => absurd trivial hno⟩
  obtain ⟨b, hread⟩ := (readProperty_spec
    (wellFormedUtf16_ascii (by decide : AsciiUtf16 VariantDictionary.elsName)) stringFits_elsName
    hrest hvalue).1 trivial
  unfold VariantDictionary.localLoad
  rw [if_neg hsize]
  dsimp only
  rw [hread]
  simp only [Run.ok_bind, loc.sameText_refl]
  exact ⟨_, _, rfl, rfl⟩

/-- **The managed decoder takes it for three items of one name.** The tag, which is what the
buffer begins with, is each time the length of the name, the tag and the value. -/
theorem netLocalLoad_elsFront (strings : NetStrings) (rt : NetRuntime) (loaders : NetLoaders) :
    (PersistUtil.localLoad rt loaders elsFront :
      NetRun (StateItemCollection strings NetValue)) =
      .ok ((List.replicate 3 (([3, 0, 0] : Bstr), NetValue.primitive .int32 3)).foldl putEntry
        .new) := by
  have hread : readPayload .corruptState rt loaders elsFront =
      .ok (List.replicate 3 (([3, 0, 0] : Bstr), .primitive .int32 3)) := rfl
  rw [localLoad_eq, hread]
  rfl

/-- INTERNAL: every payload begins with these bytes, and goes on behind them. -/
theorem Encoded.front {payload : Bytes} (h : Encoded payload) :
    elsFront.length < payload.length ∧ payload.take elsFront.length = elsFront := by
  have hvalue : ∃ value : Bytes, value.length = 4 ∧ elsFront ++ value <+: payload := by
    cases h with
    | native h => exact ⟨_, length_leBytes 4 _, localContents_begins h⟩
    | managed h => exact ⟨_, length_leBytes 4 _, netLocalContents_begins h⟩
  obtain ⟨value, hlength, rest, rfl⟩ := hvalue
  refine ⟨?_, by rw [List.append_assoc, List.take_left]⟩
  rw [List.length_append, List.length_append]
  omega

/-- INTERNAL: neither decoder detects that such a payload is cut. -/
theorem front_not_detected {payload : Bytes} (hlength : elsFront.length < payload.length)
    (hfront : payload.take elsFront.length = elsFront) (mem : Memory)
    (target : VariantDictionary loc) {lSize : ℕ} (hsize : lSize ≠ 0) (strings : NetStrings)
    (rt : NetRuntime) (loaders : NetLoaders) :
    ¬ Detects mem target lSize payload ∧ ¬ NetDetects strings rt loaders payload := by
  constructor
  · intro h
    obtain ⟨d, stream, hload, -⟩ := localLoad_elsFront mem target hsize
    refine h elsFront.length hlength d stream ?_
    rw [hfront]
    exact hload
  · intro h
    have hthrows := h elsFront.length hlength
    rw [hfront, netLocalLoad_elsFront] at hthrows
    exact hthrows.ne_ok _ rfl

end Cut

/-! ## The result -/

/-- **No payload is safe from being cut**: whatever the dictionary, both decoders take a part of
its payload for a whole one. -/
theorem not_detects {loc : Collation} {payload : Bytes} (h : Encoded payload) (mem : Memory)
    (target : VariantDictionary loc) {lSize : ℕ} (hsize : lSize ≠ 0) (strings : NetStrings)
    (rt : NetRuntime) (loaders : NetLoaders) :
    ¬ Detects mem target lSize payload ∧ ¬ NetDetects strings rt loaders payload :=
  front_not_detected h.front.1 h.front.2 mem target hsize strings rt loaders

/-- A dictionary with one number. -/
def savedNumber : VariantDictionary .ordinal :=
  { VariantDictionary.new with
    dictionary := OrderedMap.empty.insert (Bstr.ofString "a") (.scalar .i4 7) }

/-- Its payload. -/
def savedNumberPayload : Bytes :=
  [3, 0, 0, 0, 69, 108, 115, 17, 0, 0, 0, 3, 0, 1, 0, 0, 0,
    1, 0, 0, 0, 97, 32, 0, 0, 0, 3, 0, 7, 0, 0, 0]

set_option maxRecDepth 4000 in
/-- INTERNAL: it is. -/
theorem localContents_savedNumber : savedNumber.localContents .zero =
    .ok (.sOk, 32, ⟨savedNumberPayload, 0⟩, savedNumber) := by
  rfl

/-- INTERNAL: a payload of the component. -/
theorem encoded_savedNumberPayload : Encoded savedNumberPayload :=
  Encoded.native localContents_savedNumber

/-- The payload of one number, cut. -/
theorem savedNumberPayload_not_detects :
    ¬ Detects .zero (.new : VariantDictionary .ordinal) 32 savedNumberPayload ∧
      ¬ NetDetects (.ordinal fun _ => 0) .plain
        ⟨fun _ => .error .comError, fun _ => .error .comError⟩ savedNumberPayload :=
  not_detects encoded_savedNumberPayload .zero .new (by decide) _ _ _

/-- That number is lost: 13 of its 32 bytes are an empty dictionary. -/
theorem savedNumber_lost :
    savedNumber.localContents .zero = .ok (.sOk, 32, ⟨savedNumberPayload, 0⟩, savedNumber) ∧
    ¬ Detects .zero (.new : VariantDictionary .ordinal) 32 savedNumberPayload ∧
      ¬ NetDetects (.ordinal fun _ => 0) .plain
        ⟨fun _ => .error .comError, fun _ => .error .comError⟩ savedNumberPayload :=
  ⟨localContents_savedNumber, front_not_detected (by decide) (by decide) .zero .new (by decide) _ _ _⟩

end IspSession.Analysis
