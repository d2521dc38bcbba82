import IspSession.Library.Bytes

/-!
# Decoding the deflate format

`inflate` decodes a deflate stream: blocks that are stored, coded with the fixed codes, or coded
with codes of their own, up to the block that is marked as the final one. What lies behind that
block is not looked at. `stored` is the simplest encoder, with a stored block for each byte, and
`inflate_stored` its round trip.
-/

set_option autoImplicit false

namespace IspSession.Library

/-! ## Bits -/

/-- The bits of a byte, the lowest first. -/
def bitsOfByte (b : UInt8) : List Bool := (List.range 8).map b.toNat.testBit

/-- The bits of a byte string. -/
def bitsOf (bytes : List UInt8) : List Bool := bytes.flatMap bitsOfByte

/-- The number that the next `n` bits denote, the lowest first. -/
def takeNumber : ℕ → List Bool → Option (ℕ × List Bool)
  | 0, bits => some (0, bits)
  | _ + 1, [] => none
  | n + 1, b :: bits => do
    let (v, bits) ← takeNumber n bits
    some (b.toNat + 2 * v, bits)

/-! ## Codes -/

/-- The symbols whose codes have a length, in the order of their codes. A code is given by the
lengths of the codes of its symbols, zero for a symbol that is not used. -/
def symbolsOf (lengths : List ℕ) (length : ℕ) : List ℕ :=
  (List.range lengths.length).filter fun symbol => lengths.getD symbol 0 = length

/-- The next symbol: `code` are the bits read so far, `first` the first code of this length. -/
def takeSymbol (lengths : List ℕ) :
    ℕ → ℕ → ℕ → ℕ → List Bool → Option (ℕ × List Bool)
  | 0, _, _, _, _ | _ + 1, _, _, _, [] => none
  | depth + 1, length, code, first, b :: bits =>
    let code := 2 * code + b.toNat
    let symbols := symbolsOf lengths length
    match symbols[code - first]? with
    | some symbol => some (symbol, bits)
    | none => takeSymbol lengths depth (length + 1) code (2 * (first + symbols.length)) bits

/-- The next symbol of a code whose lengths are at most 15. -/
def nextSymbol (lengths : List ℕ) (bits : List Bool) : Option (ℕ × List Bool) :=
  takeSymbol lengths 15 1 0 0 bits

/-- Every sequence of bits starts with one code exactly. -/
def isComplete (lengths : List ℕ) : Bool :=
  ((lengths.filter (· ≠ 0)).map fun length => 2 ^ (15 - length)).sum == 2 ^ 15

/-- The codes of a block: for literals and lengths, and for distances. -/
structure BlockCodes where
  literals : List ℕ
  distances : List ℕ

/-- The fixed codes. -/
def fixedCodes : BlockCodes where
  literals := List.replicate 144 8 ++ List.replicate 112 9 ++ List.replicate 24 7 ++
    List.replicate 8 8
  distances := List.replicate 32 5

/-- The shortest length of a symbol from 257 on, and its extra bits. -/
def lengthTable : List (ℕ × ℕ) :=
  [(3, 0), (4, 0), (5, 0), (6, 0), (7, 0), (8, 0), (9, 0), (10, 0), (11, 1), (13, 1), (15, 1),
    (17, 1), (19, 2), (23, 2), (27, 2), (31, 2), (35, 3), (43, 3), (51, 3), (59, 3), (67, 4),
    (83, 4), (99, 4), (115, 4), (131, 5), (163, 5), (195, 5), (227, 5), (258, 0)]

/-- The shortest distance of a symbol, and its extra bits. -/
def distanceTable : List (ℕ × ℕ) :=
  [(1, 0), (2, 0), (3, 0), (4, 0), (5, 1), (7, 1), (9, 2), (13, 2), (17, 3), (25, 3), (33, 4),
    (49, 4), (65, 5), (97, 5), (129, 6), (193, 6), (257, 7), (385, 7), (513, 8), (769, 8),
    (1025, 9), (1537, 9), (2049, 10), (3073, 10), (4097, 11), (6145, 11), (8193, 12),
    (12289, 12), (16385, 13), (24577, 13)]

/-- A number with extra bits, by its symbol. -/
def takeExtra (table : List (ℕ × ℕ)) (symbol : ℕ) (bits : List Bool) : Option (ℕ × List Bool) := do
  let (base, extra) ← table[symbol]?
  let (more, bits) ← takeNumber extra bits
  some (base + more, bits)

/-! ## Blocks -/

/-- A number of bytes from further back, which may overlap the end. -/
def copyBack (distance : ℕ) : ℕ → List UInt8 → List UInt8
  | 0, out => out
  | n + 1, out => copyBack distance n (out ++ [out.getD (out.length - distance) 0])

/-- The symbols of a block up to its end. -/
def inflateSymbols (codes : BlockCodes) :
    ℕ → List UInt8 → List Bool → Option (List UInt8 × List Bool)
  | 0, _, _ => none
  | fuel + 1, out, bits => do
    let (symbol, bits) ← nextSymbol codes.literals bits
    if symbol < 256 then inflateSymbols codes fuel (out ++ [UInt8.ofNat symbol]) bits
    else if symbol = 256 then some (out, bits)
    else do
      let (length, bits) ← takeExtra lengthTable (symbol - 257) bits
      let (distanceSymbol, bits) ← nextSymbol codes.distances bits
      let (distance, bits) ← takeExtra distanceTable distanceSymbol bits
      if out.length < distance then none
      else inflateSymbols codes fuel (copyBack distance length out) bits

/-- The order in which the lengths of the code for code lengths are sent. -/
def codeLengthOrder : List ℕ := [16, 17, 18, 0, 8, 7, 9, 6, 10, 5, 11, 4, 12, 3, 13, 2, 14, 1, 15]

/-- Numbers of three bits. -/
def takeTriples : ℕ → List Bool → Option (List ℕ × List Bool)
  | 0, bits => some ([], bits)
  | n + 1, bits => do
    let (v, bits) ← takeNumber 3 bits
    let (vs, bits) ← takeTriples n bits
    some (v :: vs, bits)

/-- Code lengths, until there are `count`: one, or one that is repeated. -/
def takeLengths (code : List ℕ) (count : ℕ) :
    ℕ → List ℕ → List Bool → Option (List ℕ × List Bool)
  | 0, _, _ => none
  | fuel + 1, lengths, bits =>
    if count < lengths.length then none
    else if lengths.length = count then some (lengths, bits)
    else do
      let (symbol, bits) ← nextSymbol code bits
      if symbol < 16 then takeLengths code count fuel (lengths ++ [symbol]) bits
      else if symbol = 16 then do
        let last ← lengths.getLast?
        let (n, bits) ← takeNumber 2 bits
        takeLengths code count fuel (lengths ++ List.replicate (3 + n) last) bits
      else if symbol = 17 then do
        let (n, bits) ← takeNumber 3 bits
        takeLengths code count fuel (lengths ++ List.replicate (3 + n) 0) bits
      else do
        let (n, bits) ← takeNumber 7 bits
        takeLengths code count fuel (lengths ++ List.replicate (11 + n) 0) bits

/-- A code for distances may also have one code of one bit, or none. -/
def isDistanceCode (lengths : List ℕ) : Bool :=
  isComplete lengths || decide (lengths.sum ≤ 1)

/-- The codes in front of a block that has its own. -/
def takeCodes (bits : List Bool) : Option (BlockCodes × List Bool) := do
  let (hlit, bits) ← takeNumber 5 bits
  let (hdist, bits) ← takeNumber 5 bits
  let (hclen, bits) ← takeNumber 4 bits
  let (triples, bits) ← takeTriples (hclen + 4) bits
  let code := (List.range 19).map fun symbol =>
    ((codeLengthOrder.zip triples).lookup symbol).getD 0
  let count := hlit + 257 + (hdist + 1)
  let (lengths, bits) ← takeLengths code count (count + 1) [] bits
  let codes : BlockCodes :=
    { literals := lengths.take (hlit + 257), distances := lengths.drop (hlit + 257) }
  if isComplete code && isComplete codes.literals && isDistanceCode codes.distances &&
      decide (codes.literals.getD 256 0 ≠ 0) && decide (hlit ≤ 29) && decide (hdist ≤ 29) then
    some (codes, bits)
  else none

/-- Bytes as they are. -/
def takeBytes : ℕ → List Bool → Option (List UInt8 × List Bool)
  | 0, bits => some ([], bits)
  | n + 1, bits => do
    let (v, bits) ← takeNumber 8 bits
    let (vs, bits) ← takeBytes n bits
    some (UInt8.ofNat v :: vs, bits)

/-- A stored block: it starts with the next byte, with its length and the complement of that. -/
def takeStored (bits : List Bool) : Option (List UInt8 × List Bool) := do
  let bits := bits.drop (bits.length % 8)
  let (len, bits) ← takeNumber 16 bits
  let (nlen, bits) ← takeNumber 16 bits
  if len + nlen = 65535 then takeBytes len bits else none

/-- The blocks up to the final one. -/
def inflateBlocks : ℕ → List UInt8 → List Bool → Option (List UInt8)
  | 0, _, _ => none
  | fuel + 1, out, bits => do
    let (final, bits) ← takeNumber 1 bits
    let (type, bits) ← takeNumber 2 bits
    let (out, bits) ←
      match type with
      | 0 => (takeStored bits).map fun p => (out ++ p.1, p.2)
      | 1 => inflateSymbols fixedCodes (bits.length + 1) out bits
      | 2 => do
        let (codes, bits) ← takeCodes bits
        inflateSymbols codes (bits.length + 1) out bits
      | _ => none
    if final = 1 then some out else inflateBlocks fuel out bits

/-- The bytes of a deflate stream, none when it is not one or ends in front of its final block. -/
def inflate (bytes : List UInt8) : Option (List UInt8) :=
  inflateBlocks (8 * bytes.length + 1) [] (bitsOf bytes)

/-! ## The empty stream -/

/-- INTERNAL: with the fixed codes, seven zeros are the end of the block. -/
theorem nextSymbol_endOfBlock (bits : List Bool) :
    nextSymbol fixedCodes.literals
      (false :: false :: false :: false :: false :: false :: false :: bits) = some (256, bits) := by
  have hshort : ∀ n ∈ [1, 2, 3, 4, 5, 6], symbolsOf fixedCodes.literals n = [] := by
    decide +kernel
  have hseven : symbolsOf fixedCodes.literals 7 = (List.range 24).map (· + 256) := by
    decide +kernel
  simp [nextSymbol, takeSymbol, hshort, hseven]

/-- INTERNAL: a block with the fixed codes may end at once. -/
theorem inflateSymbols_endOfBlock (fuel : ℕ) (out : List UInt8) (bits : List Bool) :
    inflateSymbols fixedCodes (fuel + 1) out
      (false :: false :: false :: false :: false :: false :: false :: bits) = some (out, bits) := by
  rw [inflateSymbols, nextSymbol_endOfBlock]
  rfl

/-- **A stream that starts with the bytes 3 and 0 ends there, and is empty.** -/
theorem inflate_three_zero (rest : List UInt8) : inflate (3 :: 0 :: rest) = some [] := by
  have hthree : bitsOfByte 3 = true :: true :: List.replicate 6 false := by decide
  have hzero : bitsOfByte 0 = List.replicate 8 false := by decide
  rw [inflate, bitsOf, List.flatMap_cons, List.flatMap_cons, hthree, hzero, inflateBlocks]
  simp [takeNumber, List.replicate_succ, inflateSymbols_endOfBlock]

/-! ## Stored blocks -/

/-- A byte in a stored block of its own, which is not the final one. -/
def storedBlock (b : UInt8) : List UInt8 := [0, 1, 0, 254, 255, b]

/-- The stream of stored blocks, and an empty one that is the final one. -/
def stored (bytes : List UInt8) : List UInt8 :=
  bytes.flatMap storedBlock ++ [1, 0, 0, 255, 255]

/-- INTERNAL: the bits behind a number stay. -/
theorem takeNumber_append {n v : ℕ} {bits rest : List Bool}
    (h : takeNumber n bits = some (v, rest)) (more : List Bool) :
    takeNumber n (bits ++ more) = some (v, rest ++ more) := by
  induction n generalizing bits v with
  | zero =>
    obtain ⟨rfl, rfl⟩ := Prod.mk.inj (Option.some.inj h)
    rfl
  | succ n ih =>
    cases bits with
    | nil => cases h
    | cons b bits =>
      simp only [takeNumber, Option.bind_eq_bind, Option.bind_eq_some_iff] at h
      obtain ⟨⟨w, rest'⟩, htake, h⟩ := h
      obtain ⟨rfl, rfl⟩ := Prod.mk.inj (Option.some.inj h)
      simp only [List.cons_append, takeNumber, ih htake]
      rfl

/-- INTERNAL: a byte is the number of its bits. -/
theorem takeNumber_bitsOfByte (b : UInt8) (more : List Bool) :
    takeNumber 8 (bitsOfByte b ++ more) = some (b.toNat, more) := by
  have hall : ∀ n < 256, takeNumber 8 (bitsOfByte (UInt8.ofNat n)) = some (n, []) := by
    decide +kernel
  have h := hall b.toNat b.toNat_lt
  rw [UInt8.ofNat_toNat] at h
  exact takeNumber_append h more

@[simp] theorem length_bitsOf (bytes : List UInt8) : (bitsOf bytes).length = 8 * bytes.length := by
  induction bytes with
  | nil => rfl
  | cons b bytes ih =>
    rw [bitsOf, List.flatMap_cons, List.length_append]
    rw [bitsOf] at ih
    rw [ih, List.length_cons]
    simp only [bitsOfByte, List.length_map, List.length_range]
    omega

theorem bitsOf_append (bytes rest : List UInt8) :
    bitsOf (bytes ++ rest) = bitsOf bytes ++ bitsOf rest := by
  rw [bitsOf, List.flatMap_append]
  rfl

/-- INTERNAL: what follows a stored block of one byte. -/
theorem inflateBlocks_storedBlock (fuel : ℕ) (out : List UInt8) (b : UInt8) (rest : List UInt8) :
    inflateBlocks (fuel + 1) out (bitsOf (storedBlock b ++ rest)) =
      inflateBlocks fuel (out ++ [b]) (bitsOf rest) := by
  have hbits : bitsOf (storedBlock b ++ rest) = false :: false :: false ::
      (List.replicate 5 false ++ (bitsOf [1, 0] ++ (bitsOf [254, 255] ++
        (bitsOfByte b ++ bitsOf rest)))) := by
    rw [show storedBlock b ++ rest = 0 :: ([1, 0] ++ ([254, 255] ++ (b :: rest))) from rfl]
    rw [bitsOf, List.flatMap_cons, show bitsOfByte 0 = List.replicate 8 false from by decide]
    rw [← bitsOf, bitsOf_append, bitsOf_append]
    rfl
  have hlen : takeNumber 16 (bitsOf [1, 0]) = some (1, []) := by decide
  have hnlen : takeNumber 16 (bitsOf [254, 255]) = some (65534, []) := by decide
  have hstored : takeStored (List.replicate 5 false ++ (bitsOf [1, 0] ++ (bitsOf [254, 255] ++
      (bitsOfByte b ++ bitsOf rest)))) = some ([b], bitsOf rest) := by
    have hdrop : ∀ bits : List Bool, bits.length % 8 = 0 →
        (List.replicate 5 false ++ bits).drop ((List.replicate 5 false ++ bits).length % 8) =
          bits := by
      intro bits hbits
      rw [show (List.replicate 5 false ++ bits).length % 8 = 5 from by
        rw [List.length_append, List.length_replicate]
        omega]
      rfl
    rw [takeStored]
    dsimp only
    rw [hdrop _ (by simp [bitsOfByte]; omega), takeNumber_append hlen]
    simp only [List.nil_append, Option.bind_eq_bind, Option.bind_some]
    rw [takeNumber_append hnlen]
    simp only [List.nil_append, Option.bind_some]
    rw [if_pos (by decide), takeBytes, takeNumber_bitsOfByte]
    simp [takeBytes]
  rw [hbits, inflateBlocks]
  simp only [takeNumber, Option.bind_eq_bind, Option.bind_some, Bool.toNat_false, mul_zero,
    add_zero, hstored, Option.map_some]
  rfl

/-- INTERNAL: the final block ends the stream. -/
theorem inflateBlocks_finalBlock (fuel : ℕ) (out : List UInt8) :
    inflateBlocks (fuel + 1) out (bitsOf [1, 0, 0, 255, 255]) = some out := by
  have hstored : takeStored (List.replicate 5 false ++ bitsOf [0, 0, 255, 255]) = some ([], []) := by
    decide
  have hbits : bitsOf [1, 0, 0, 255, 255] = true :: false :: false ::
      (List.replicate 5 false ++ bitsOf [0, 0, 255, 255]) := by decide
  rw [hbits, inflateBlocks]
  simp only [takeNumber, Option.bind_eq_bind, Option.bind_some, Bool.toNat_false, mul_zero,
    add_zero, hstored, Option.map_some, List.append_nil]
  rfl

/-- **Stored blocks are read back.** -/
theorem inflate_stored (bytes : List UInt8) : inflate (stored bytes) = some bytes := by
  have hblocks : ∀ (bytes : List UInt8) (fuel : ℕ) (out : List UInt8), bytes.length < fuel →
      inflateBlocks fuel out (bitsOf (stored bytes)) = some (out ++ bytes) := by
    intro bytes
    induction bytes with
    | nil =>
      rintro (_ | fuel) out hfuel
      · cases hfuel
      · rw [List.append_nil]
        exact inflateBlocks_finalBlock fuel out
    | cons b bytes ih =>
      rintro (_ | fuel) out hfuel
      · cases hfuel
      · rw [stored, List.flatMap_cons, List.append_assoc, inflateBlocks_storedBlock, ← stored,
          ih fuel _ (by simpa using hfuel), List.append_assoc]
        rfl
  have hlength : bytes.length ≤ (stored bytes).length := by
    rw [stored, List.length_append, List.length_flatMap]
    simp only [storedBlock, List.length_cons, List.length_nil, List.map_const', List.sum_replicate_nat]
    omega
  exact hblocks bytes _ [] (by omega)

end IspSession.Library
