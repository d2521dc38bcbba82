import IspSession.Analysis.SideChanges

/-!
# Scalars that change sides

The way of the values a classic page stores most: numbers, texts, booleans and currencies. The
managed code reads a byte as an `int`, takes every boolean but `VARIANT_TRUE` for false and writes a
currency under a tag that the component cannot read; `sideChange_iff` says that apart from this and
from the names nothing happens to a session of such values.
-/

set_option autoImplicit false

namespace IspSession.Analysis

open IspSession.Library IspSession.Model

/-! ## The values -/

/-- The primitive type as which the managed code holds a scalar, bit by bit. -/
def primitiveOf : ScalarType → Option PrimitiveType
  | .i2 => some .int16
  | .ui2 => some .char
  | .i4 => some .int32
  | .ui4 => some .uint32
  | .i8 => some .int64
  | .ui8 => some .uint64
  | .r4 => some .single
  | .r8 => some .double
  | _ => none

/-- A value of one of the types without objects, arrays and dates that both sides know. -/
def ClassicScalar : Variant → Prop
  | .empty | .null | .decimal _ => True
  | .bstr s => (stringBytes s).length < 0x7FFFF000
  | .scalar .ui1 _ | .scalar .bool _ | .scalar .cy _ => True
  | .scalar t _ => (primitiveOf t).isSome
  | _ => False

/-- The other side leaves the value as it is. -/
def UnchangedScalar : Variant → Prop
  | .scalar .ui1 _ | .scalar .cy _ => False
  | .scalar .bool bits => bits = 0 ∨ bits = 0xFFFF
  | .bstr s => WellFormedUtf16 s
  | _ => True

/-- The bytes of a currency: those of the formatter behind their length and the mark. -/
def currencyBytes (rt : NetRuntime) (c : BitVec 64) : Bytes :=
  match rt.formatCurrency c with
  | some bytes => leBytes 4 bytes.length ++ [99, 55] ++ bytes
  | none => []

/-- What becomes of a value. -/
def scalarPassage (rt : NetRuntime) : Variant → Passage
  | .null => ⟨[], .dbNull, [], .sOk, .null⟩
  | .decimal d => ⟨decimalBytes d, .decimal d, decimalBytes d, .sOk, .decimal d⟩
  | .bstr s => ⟨stringBytes s, .string (normalText s), stringBytes s, .sOk, .bstr (normalText s)⟩
  | .scalar .ui1 bits =>
    -- `Str.ReadByte` returns an `int`
    ⟨leBytes 1 bits.toNat, .primitive .int32 (BitVec.ofNat 32 bits.toNat), leBytes 4 bits.toNat,
      .sOk, .scalar .i4 (BitVec.ofNat 32 bits.toNat)⟩
  | .scalar .bool bits =>
    let value := decide (bits = 0xFFFF)
    ⟨leBytes 2 bits.toNat, .boolean value, leBytes 2 (if value then 0xFFFF else 0), .sOk,
      .scalar .bool (if value then 0xFFFF else 0)⟩
  | .scalar .cy bits =>
    -- tagged as a variant, for which the component has no branch
    ⟨leBytes 8 bits.toNat, .currency bits, currencyBytes rt bits, .eInvalidArg, .empty⟩
  | .scalar t bits =>
    ⟨leBytes t.size bits.toNat,
      .primitive ((primitiveOf t).getD .int32) (BitVec.ofNat _ bits.toNat),
      leBytes t.size bits.toNat, .sOk, .scalar t bits⟩
  | _ => ⟨[], .null, [], .sOk, .empty⟩

section Passages

variable {rt : NetRuntime} {loaders : NetLoaders} {mem mem' : Memory} {loc : Collation}

/-- INTERNAL: the managed type of a scalar. -/
theorem primitiveOf_spec {t : ScalarType} {p : PrimitiveType} (h : primitiveOf t = some p) :
    p.vt = t.vt ∧ p.size = t.size ∧ p ≠ .byte := by
  cases t <;> cases h <;> decide

/-- INTERNAL: a writer that writes the bytes whatever is in the stream. -/
theorem WritesAs.of_write {mem : Memory} {flag : Bool} {v : Variant} {bs : Bytes} (hw : Writable v)
    (h : ∀ c, writeValue mem flag v c = .ok (.sOk, c.write bs)) :
    WritesAs mem flag (fun _ => bs) v := fun c _ =>
  .of_ok hw .sOk c.m_currentBufLen (h c)

/-- INTERNAL: a reader of a tag that is no array's. -/
theorem ReadsAs.of_scalar (vt : VarType) {bs : Bytes} {v : NetValue}
    (hvt : ¬ vt &&& vtArray = vtArray)
    (h : ∀ m tl, m.str.rest = bs ++ tl →
      Gives v bs.length m (StreamManager.readScalar rt loaders vt m)) :
    ReadsAs rt loaders vt bs v := by
  intro fuel m tl hfuel hrest
  obtain ⟨fuel, rfl⟩ : ∃ f, fuel = f + 1 := ⟨fuel - 1, by omega⟩
  rw [StreamManager.readValue, if_neg hvt]
  exact h m tl hrest

/-- INTERNAL: what the component writes of a supported value it reads. -/
theorem ReadsTo.of_supported (mem : Memory) {v : Variant} {name : Bstr} {vt : VarType} {bs : Bytes}
    (hs : Supported v) (hf : Fits v) (hr : Readable v) (hvt : vt = v.vt)
    (hbs : bs = valueBytes mem v) : ReadsTo loc mem' ⟨name, vt, bs⟩ .sOk v := by
  intro fuel c tl hfuel hrest
  subst hvt hbs
  obtain ⟨b, hb⟩ := (readValue_spec loc true mem mem' v hs hf fuel c tl hfuel hrest).1 hr
  exact ⟨_, hb, fun _ => rfl⟩

/-- INTERNAL: no tag of a primitive type is an array's. -/
theorem PrimitiveType.vt_not_array (p : PrimitiveType) : ¬ p.vt &&& vtArray = vtArray := by
  cases p <;> decide

/-- INTERNAL: a number of a primitive type. -/
theorem netWrites_primitive (p : PrimitiveType) (bits : BitVec (8 * p.size)) :
    NetWrites rt (.primitive p bits) (leBytes p.size bits.toNat) := fun _ _ => rfl

/-- INTERNAL: the bits of a number that is read as one of the same size. -/
theorem toNat_ofNat_bits {t : ScalarType} {n : ℕ} (hn : n = t.size) (bits : BitVec (8 * t.size)) :
    (BitVec.ofNat (8 * n) bits.toNat).toNat = bits.toNat := by
  subst hn
  rw [BitVec.toNat_ofNat, Nat.mod_eq_of_lt bits.isLt]

/-- A number that the managed code holds bit by bit. -/
theorem passage_number {t : ScalarType} {p : PrimitiveType} (h : primitiveOf t = some p)
    (flag : Bool) (bits : BitVec (8 * t.size)) :
    Passage.Holds loc rt loaders mem mem' flag (.scalar t bits)
      ⟨leBytes t.size bits.toNat, .primitive p (BitVec.ofNat _ bits.toNat),
        leBytes t.size bits.toNat, .sOk, .scalar t bits⟩ := by
  obtain ⟨hvt, hsize, hbyte⟩ := primitiveOf_spec h
  have hbits := toNat_ofNat_bits hsize bits
  have hbytes : leBytes p.size (BitVec.ofNat (8 * p.size) bits.toNat).toNat =
      leBytes t.size bits.toNat := by rw [hbits, hsize]
  have hvt' : (Variant.scalar t bits).vt = p.vt := hvt.symm
  refine ⟨⟨trivial, .of_write trivial fun c => rfl, ?_⟩, ?_, fun name => ?_, rfl⟩
  · rw [hvt']
    refine .of_scalar _ (PrimitiveType.vt_not_array p) fun m tl hrest => ?_
    rw [← hbytes] at hrest
    have hread := readScalar_primitive rt loaders hbyte (BitVec.ofNat (8 * p.size) bits.toNat) hrest
    simpa only [length_leBytes, hsize] using hread
  · rw [← hbytes]
    exact netWrites_primitive p _
  · exact .of_supported mem trivial trivial trivial hvt rfl

/-- A byte becomes an `int`. -/
theorem passage_byte (flag : Bool) (bits : BitVec (8 * ScalarType.ui1.size)) :
    Passage.Holds loc rt loaders mem mem' flag (.scalar .ui1 bits)
      ⟨leBytes 1 bits.toNat, .primitive .int32 (BitVec.ofNat 32 bits.toNat), leBytes 4 bits.toNat,
        .sOk, .scalar .i4 (BitVec.ofNat 32 bits.toNat)⟩ := by
  have hbits : (BitVec.ofNat (8 * PrimitiveType.int32.size) bits.toNat).toNat = bits.toNat := by
    have hlt : bits.toNat < 2 ^ 8 := bits.isLt
    rw [BitVec.toNat_ofNat]
    exact Nat.mod_eq_of_lt (Nat.lt_trans hlt (by decide))
  refine ⟨⟨trivial, .of_write trivial fun c => rfl, ?_⟩, ?_, fun name => ?_, rfl⟩
  · exact .of_scalar PrimitiveType.byte.vt (by decide) fun m tl hrest =>
      readScalar_byte rt loaders bits hrest
  · have hwrites : NetWrites rt _ _ := netWrites_primitive .int32 (BitVec.ofNat _ bits.toNat)
    rw [hbits] at hwrites
    exact hwrites
  · refine .of_supported mem trivial trivial trivial rfl ?_
    exact congrArg (leBytes 4) hbits.symm

/-- A boolean becomes one of the two that the managed code knows. -/
theorem passage_boolean (flag : Bool) (bits : BitVec (8 * ScalarType.bool.size)) :
    Passage.Holds loc rt loaders mem mem' flag (.scalar .bool bits)
      ⟨leBytes 2 bits.toNat, .boolean (decide (bits = 0xFFFF)),
        leBytes 2 (if decide (bits = 0xFFFF) then 0xFFFF else 0), .sOk,
        .scalar .bool (if decide (bits = 0xFFFF) then 0xFFFF else 0)⟩ := by
  have hlt : bits.toNat < 2 ^ 16 := bits.isLt
  have htrue : decide (bits = 0xFFFF) = decide (bits.toNat = 0xFFFF) :=
    decide_eq_decide.mpr (BitVec.toNat_inj (y := (0xFFFF : BitVec 16))).symm
  refine ⟨⟨trivial, .of_write trivial fun c => rfl, ?_⟩, fun str _ => rfl, fun name => ?_, rfl⟩
  · refine .of_scalar NetType.boolean.vt (by decide) fun m tl hrest => ?_
    have hread := readScalar_boolean rt loaders hlt hrest
    rw [← htrue] at hread
    exact hread
  · refine .of_supported mem trivial trivial trivial rfl ?_
    cases decide (bits = 0xFFFF) <;> rfl

/-- INTERNAL: what the managed code writes of a currency. -/
theorem netWrites_currency (c : BitVec 64) : NetWrites rt (.currency c) (currencyBytes rt c) := by
  intro str hs
  rw [StreamManager.writeValue, currencyBytes]
  cases rt.formatCurrency c with
  | none => rfl
  | some bytes => exact congrArg Except.ok (by rw [writeFormatted, hs.write_write, hs.write_write])

/-- A currency comes back under a tag without a reader. -/
theorem passage_currency (flag : Bool) (bits : BitVec (8 * ScalarType.cy.size)) :
    Passage.Holds loc rt loaders mem mem' flag (.scalar .cy bits)
      ⟨leBytes 8 bits.toNat, .currency bits, currencyBytes rt bits, .eInvalidArg, .empty⟩ := by
  refine ⟨⟨trivial, .of_write trivial fun c => rfl, ?_⟩, netWrites_currency bits, fun name => ?_,
    rfl⟩
  · refine .of_scalar ScalarType.cy.vt (by decide) fun m tl hrest => ?_
    obtain ⟨-, hmoved⟩ := readNumber_of_rest hrest
    have hvalue : BitVec.ofNat 64 (m.readNumber 8).1 = bits := ofNat_readNumber (n := 8) bits hrest
    refine ⟨(m.readNumber 8).2, ?_, hmoved⟩
    rw [← hvalue]
    rfl
  · intro fuel c tl hfuel hrest
    obtain ⟨fuel, rfl⟩ : ∃ f, fuel = f + 1 := ⟨fuel - 1, by omega⟩
    have hread : readScalar true mem' vtVariant c = .ok (.eInvalidArg, .empty, c) := by
      rw [readScalar, if_neg (by decide), if_neg (by decide), if_neg (by decide), if_neg (by decide)]
      rfl
    have hvt : ¬ vtVariant &&& vtArray = vtArray := by decide
    exact ⟨c, (readValue_of_scalar loc true mem' fuel hvt c).trans hread, fun hok => by cases hok⟩

/-- A text loses what is no UTF-16. -/
theorem passage_bstr (flag : Bool) {s : Bstr} (h : (stringBytes s).length < 0x7FFFF000) :
    Passage.Holds loc rt loaders mem mem' flag (.bstr s)
      ⟨stringBytes s, .string (normalText s), stringBytes s, .sOk, .bstr (normalText s)⟩ := by
  have hfits := stringFits_of_length h
  have hbytes := stringBytes_normalText s
  have hwell := wellFormedUtf16_normalText s
  refine ⟨⟨trivial, fun c hc => ?_, ?_⟩, fun str _ => ?_, fun name => ?_, rfl⟩
  · obtain ⟨b, hb⟩ := writeString_spec hfits c hc
    exact .of_ok trivial .sOk b hb
  · refine .of_scalar vtBstr (by decide) fun m tl hrest => ?_
    rw [← hbytes] at hrest
    have hread := readScalar_string rt loaders hwell (by rwa [hbytes]) hrest
    rwa [hbytes] at hread
  · have hwrite := writeNetString_spec (s := normalText s) (by rwa [hbytes]) str
    rwa [hbytes] at hwrite
  · exact .of_supported mem hwell (stringFits_normalText hfits) trivial rfl hbytes.symm

/-- A decimal is kept. -/
theorem passage_decimal (flag : Bool) (d : BitVec (8 * 14)) :
    Passage.Holds loc rt loaders mem mem' flag (.decimal d)
      ⟨decimalBytes d, .decimal d, decimalBytes d, .sOk, .decimal d⟩ := by
  refine ⟨⟨trivial, .of_write trivial fun c => rfl, ?_⟩, fun str _ => rfl, fun name => ?_, rfl⟩
  · refine .of_scalar vtDecimal (by decide) fun m tl hrest => ?_
    have hread := readScalar_netDecimal rt loaders d hrest
    have hlength : (decimalBytes d).length = 16 := by
      rw [decimalBytes, List.length_append, length_leBytes, length_leBytes]
    rwa [← hlength] at hread
  · exact .of_supported mem trivial trivial trivial rfl rfl

/-- A value without bytes is kept. -/
theorem passage_bare (flag : Bool) {v : Variant} {net : NetValue}
    (h : v = .empty ∧ net = .null ∨ v = .null ∧ net = .dbNull) :
    Passage.Holds loc rt loaders mem mem' flag v ⟨[], net, [], .sOk, v⟩ := by
  rcases h with ⟨rfl, rfl⟩ | ⟨rfl, rfl⟩
  all_goals
    refine ⟨⟨trivial, .of_write trivial fun c => rfl, ?_⟩, fun str _ => rfl, fun name => ?_, rfl⟩
    · refine .of_scalar _ (by decide) fun m tl _ => ⟨m, rfl, Moved.refl m⟩
    · exact .of_supported mem trivial trivial trivial rfl rfl

/-- **Each of these values goes its way.** -/
theorem scalarPassage_holds (flag : Bool) {v : Variant} (h : ClassicScalar v) :
    (scalarPassage rt v).Holds loc rt loaders mem mem' flag v := by
  cases v with
  | empty => exact passage_bare flag (.inl ⟨rfl, rfl⟩)
  | null => exact passage_bare flag (.inr ⟨rfl, rfl⟩)
  | decimal d => exact passage_decimal flag d
  | bstr s => exact passage_bstr flag h
  | scalar t bits =>
    cases t with
    | ui1 => exact passage_byte flag bits
    | bool => exact passage_boolean flag bits
    | cy => exact passage_currency flag bits
    | i2 | i4 | r4 | r8 | ui2 | ui4 | i8 | ui8 => exact passage_number rfl flag bits
    | _ => cases h
  | _ => cases h

/-- What is kept of a value. -/
theorem scalarPassage_kept (rt : NetRuntime) {v : Variant} (h : ClassicScalar v) :
    (scalarPassage rt v).hr = .sOk ∧ (scalarPassage rt v).back = v ↔ UnchangedScalar v := by
  cases v with
  | bstr s =>
    constructor
    · rintro ⟨-, hback⟩
      exact normalText_eq_self_iff.mp (Variant.bstr.inj hback)
    · intro hwell
      exact ⟨rfl, congrArg Variant.bstr (normalText_eq_self_iff.mpr hwell)⟩
  | scalar t bits =>
    cases t with
    | ui1 => exact ⟨fun hkept => (by cases hkept.2), fun hno => hno.elim⟩
    | bool =>
      constructor
      · rintro ⟨-, hback⟩
        by_cases htrue : bits = 0xFFFF
        · exact .inr htrue
        · left
          have hbits := (Variant.scalar.inj hback).2
          rw [decide_eq_false htrue] at hbits
          exact (eq_of_heq hbits).symm
      · rintro (rfl | rfl)
        · exact ⟨rfl, rfl⟩
        · exact ⟨rfl, rfl⟩
    | cy => exact ⟨fun hkept => (by cases hkept.1), fun hno => hno.elim⟩
    | _ => exact ⟨fun _ => trivial, fun _ => ⟨rfl, rfl⟩⟩
  | empty | null | decimal => exact ⟨fun _ => trivial, fun _ => ⟨rfl, rfl⟩⟩
  | _ => cases h

end Passages

/-! ## Whole sessions -/

/-- The values of a session are such values, and its names can be written. -/
def ClassicSession {loc : Collation} (d : VariantDictionary loc) : Prop :=
  d.dictionary.size < 2 ^ 31 ∧ ∀ e ∈ d.dictionary.entries,
    (stringBytes e.1).length < 0x7FFFF000 ∧ ClassicScalar e.2

variable {loc : Collation} {strings : NetStrings}

/-- INTERNAL: each variable goes its way. -/
theorem ClassicSession.goes (rt : NetRuntime) (loaders : NetLoaders) (mem mem' : Memory)
    {d : VariantDictionary loc} (h : ClassicSession d) :
    Goes loc rt loaders mem mem' (fun _ v => scalarPassage rt v) d := fun e he =>
  ⟨(h.2 e he).1, scalarPassage_holds _ (h.2 e he).2⟩

/-- **A session of scalars that the managed code has loaded and saved comes back as it was exactly
when** the managed code takes that many variables and tells their names apart, and no value is a
byte, a currency, a boolean besides the two or a text that is no UTF-16. -/
theorem sideChange_iff (rt : NetRuntime) (loaders : NetLoaders) (mem mem' : Memory)
    {target d : VariantDictionary loc} (h : ClassicSession d) :
    CrossesWith strings rt loaders mem mem' target d ↔
      d.dictionary.size ≤ 32767 ∧ Apart strings d ∧
        ∀ e ∈ d.dictionary.entries, UnchangedScalar e.2 := by
  have hgoes := h.goes rt loaders mem mem'
  constructor
  · intro hcrosses
    obtain ⟨hsize, hapart, hkept⟩ := apart_of_crossesWith hgoes h.1 hcrosses
    refine ⟨hsize, hapart, fun e he => ?_⟩
    obtain ⟨e', he', hvalue, hback⟩ := hkept e he
    rw [← hvalue]
    exact (scalarPassage_kept rt (h.2 e' he').2).mp hback
  · rintro ⟨hsize, hapart, hunchanged⟩
    exact crossesWith_of_apart target hgoes hsize hapart fun e he =>
      (scalarPassage_kept rt (h.2 e he).2).mpr (hunchanged e he)

/-- A basket: a count, a customer and whether the customer is known. -/
def basketSession : VariantDictionary .ordinal where
  dictionary := ((OrderedMap.empty.insert (Bstr.ofString "count") (.scalar .i4 3)).insert
    (Bstr.ofString "customer") (.bstr (Bstr.ofString "Ada"))).insert
    (Bstr.ofString "isKnown") (.scalar .bool 0xFFFF)
  isserialized := .empty
  blnDirty := true
  readOnly := false
  m_currentBufLen := 0

/-- INTERNAL: the three variables. -/
theorem entries_basketSession : basketSession.dictionary.entries =
    [(Bstr.ofString "count", .scalar .i4 3),
      (Bstr.ofString "customer", .bstr (Bstr.ofString "Ada")),
      (Bstr.ofString "isKnown", .scalar .bool 0xFFFF)] := by rfl

/-- It comes back from the managed side. -/
theorem basketSession_crosses : CrossesWith (.ordinal fun s => BitVec.ofNat 32 s.length) .plain
    oleOnly .zero .zero basketSession basketSession := by
  have hclassic : ClassicSession basketSession := by
    refine ⟨by decide, ?_⟩
    rw [entries_basketSession]
    simp only [List.forall_mem_cons, List.not_mem_nil, false_implies, implies_true, and_true]
    have htext : ClassicScalar (.bstr (Bstr.ofString "Ada")) := by
      rw [ClassicScalar]
      decide
    exact ⟨⟨by decide, rfl⟩, ⟨by decide, htext⟩, ⟨by decide, trivial⟩⟩
  refine (sideChange_iff .plain oleOnly .zero .zero hclassic).mpr ⟨by decide, ⟨?_, ?_, ?_⟩, ?_⟩
  · rw [entries_basketSession]
    simp only [List.forall_mem_cons, List.not_mem_nil, false_implies, implies_true, and_true]
    exact ⟨⟨by decide, wellFormedUtf16_ascii (by decide)⟩,
      ⟨by decide, wellFormedUtf16_ascii (by decide)⟩,
      ⟨by decide, wellFormedUtf16_ascii (by decide)⟩⟩
  · rw [entries_basketSession]
    decide
  · rw [entries_basketSession]
    simp only [List.forall_mem_cons, List.not_mem_nil, false_implies, implies_true, and_true]
    exact ⟨⟨trivial, fun h => absurd h (by decide), fun h => absurd h (by decide)⟩,
      ⟨fun h => absurd h (by decide), trivial, fun h => absurd h (by decide)⟩,
      fun h => absurd h (by decide), fun h => absurd h (by decide)⟩
  · rw [entries_basketSession]
    simp only [List.forall_mem_cons, List.not_mem_nil, false_implies, implies_true, and_true]
    exact ⟨trivial, wellFormedUtf16_ascii (by decide), .inr rfl⟩

end IspSession.Analysis
