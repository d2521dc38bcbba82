import IspSession.Model.Automation

/-!
# Text in a `CComBSTR2` (CComBSTR2.h)

The characters of a `BSTR` are a list; its length has 32 bits for the bytes, so there are fewer
than `2 ^ 31` of them. Searching, cutting and replacing work on this one buffer in place. A text
that is passed as `PCWSTR` ends at its first NUL.
-/

set_option autoImplicit false

namespace IspSession.Model

namespace CComBSTR2

variable (loc : Collation)

/-- What `wcslen` counts of a text. -/
def zeroTerminated (src : Bstr) : Bstr := src.takeWhile (· ≠ 0)

/-- `CompareStringW` says `CSTR_EQUAL`, with `NORM_IGNORECASE` or without flags. -/
def compareString (caseInsensitive : Bool) (a b : Bstr) : Bool :=
  if caseInsensitive then loc.compare a b == .eq else loc.equalText a b

/-- `IndexOf` (CComBSTR2.h:752-781) with the default `count`, none for -1. -/
def indexOf (m_str src : Bstr) (startIndex : ℕ) (caseInsensitive : Bool) : Option ℕ :=
  let src := zeroTerminated src
  let maxLen := m_str.length
  let compLen := src.length
  if compLen ≤ maxLen ∧ 0 < compLen then
    (List.range' startIndex (maxLen + 1 - compLen - startIndex)).find? fun x =>
      (caseInsensitive || m_str[x]? == src.head?) &&
        compareString loc caseInsensitive ((m_str.drop x).take compLen) src
  else none

/-- `SetLength` (CComBSTR2.h:365-393): more room holds what the memory held before, and a length
whose bytes have no 32 bits cannot be had. -/
def setLength (memory : ℕ → UInt16) (length : ℕ) (m_str : Bstr) : HResult × Bstr :=
  if length < 2 ^ 31 then
    (.sOk, m_str.take length ++ (List.range (length - m_str.length)).map memory)
  else (.eOutOfMemory, m_str)

/-- `MergeString` (CComBSTR2.h:331-345), which does not extend the text. -/
def mergeString (startIndex : ℕ) (value m_str : Bstr) : Bstr :=
  if m_str.length < startIndex then m_str
  else
    let mergeLen := min value.length (m_str.length - startIndex)
    m_str.take startIndex ++ (value.take mergeLen ++ m_str.drop (startIndex + mergeLen))

/-- `wmemmove_s` inside of the buffer. The sizes are `size_t`, so that negative ones are huge; it
ends the process when the target is too small. -/
def wmemmoveS (dest destSize src count : ℤ) (m_str : Bstr) : Run Bstr :=
  if count = 0 then .ok m_str
  else if 0 < count ∧ (destSize < 0 ∨ count ≤ destSize) ∧ 0 ≤ dest ∧ dest + count ≤ m_str.length ∧
      0 ≤ src ∧ src + count ≤ m_str.length then
    .ok (m_str.take dest.toNat ++
      ((m_str.drop src.toNat).take count.toNat ++ m_str.drop (dest + count).toNat))
  else .error .fault

/-- An `unsigned int`. -/
def uint (x : ℤ) : ℕ := (BitVec.ofInt 32 x).toNat

/-- `Append` (CComBSTR2.h:868-878): the memory that `SetLength` adds is written over at once. -/
def append (lpsz m_str : Bstr) : HResult × Bstr :=
  if m_str.length + lpsz.length < 2 ^ 31 then (.sOk, m_str ++ lpsz) else (.eOutOfMemory, m_str)

/-- `SysAllocStringLen` of characters from a place of the text: a length whose bytes have no 32 bits
cannot be had. -/
def sysAllocStringLen (startIndex length : ℕ) (m_str : Bstr) : Option Bstr :=
  if length < 2 ^ 31 then some ((m_str.drop startIndex).take length) else none

/-- `Substring` (CComBSTR2.h:657-669), none for a null pointer. -/
def substring (startIndex length : ℕ) (m_str : Bstr) : Option Bstr :=
  let length :=
    if m_str.length < uint (startIndex + length) then uint (m_str.length - startIndex) else length
  if startIndex ≤ m_str.length then sysAllocStringLen startIndex length m_str else none

/-- `Remove` (CComBSTR2.h:306-326), which never makes the text longer. -/
def remove (startIndex count : ℕ) (m_str : Bstr) : Run (HResult × Bstr) :=
  let maxIdx := m_str.length
  let count := if maxIdx < uint (count + startIndex) then uint (maxIdx - startIndex) else count
  let behind := uint (maxIdx - startIndex - count)
  if startIndex < maxIdx then do
    let m_str ←
      if behind ≠ 0 then
        wmemmoveS startIndex (maxIdx - startIndex) (uint (startIndex + count)) behind m_str
      else .ok m_str
    .ok (.sOk, m_str.take (uint (maxIdx - count)))
  else .ok (.eInvalidArg, m_str)

/-- `wmemcpy_s` into the buffer; it ends the process when the target is too small. -/
def wmemcpyS (dest destSize : ℕ) (src m_str : Bstr) : Run Bstr :=
  if src.length ≤ destSize ∧ dest + src.length ≤ m_str.length then
    .ok (m_str.take dest ++ (src ++ m_str.drop (dest + src.length)))
  else .error .fault

/-- `Insert` (CComBSTR2.h:258-279) of a text or a null pointer. Nothing is copied into a text that
was empty. -/
def insert (memory : ℕ → UInt16) (atPosition : ℕ) (lpsz : Option Bstr) (m_str : Bstr) :
    Run (HResult × Bstr) :=
  let curLen := m_str.length
  match lpsz with
  | none => .ok (.eInvalidArg, m_str)
  | some lpsz =>
    if curLen < atPosition then .ok (.eInvalidArg, m_str)
    else
      let nLen := lpsz.length
      let (hr, m_str) := setLength memory (uint (curLen + nLen)) m_str
      if hr.failed = false ∧ curLen ≠ 0 ∧ nLen ≠ 0 then do
        let m_str ← wmemmoveS (uint (atPosition + nLen)) (uint (uint (curLen + nLen) - atPosition))
          atPosition (curLen - atPosition) m_str
        let m_str ← wmemcpyS atPosition (uint (uint (curLen + nLen) - atPosition)) lpsz m_str
        .ok (hr, m_str)
      else .ok (hr, m_str)

/-! ## `Replace` -/

/-- The loop of `TokenCount`. -/
def tokenCountLoop (m_str find : Bstr) (caseInsensitive : Bool) : ℕ → ℕ → ℕ → Run ℕ
  | 0, _, _ => .error .fuel
  | fuel + 1, x, tokenCount =>
    match indexOf loc m_str find x caseInsensitive with
    | none => .ok tokenCount
    | some x =>
      tokenCountLoop m_str find caseInsensitive fuel (x + (zeroTerminated find).length)
        (tokenCount + 1)

/-- `TokenCount` (CComBSTR2.h:400-415). -/
def tokenCount (fuel : ℕ) (m_str find : Bstr) (caseInsensitive : Bool) : Run ℕ :=
  if (zeroTerminated find).length < m_str.length then
    tokenCountLoop loc m_str find caseInsensitive fuel 0 0
  else .ok 0

/-- The text behind a token that ends at `offset` moves to where the replacement will end. -/
def moveBehind (lengthDiff newLen oldLen offset : ℤ) (m_str : Bstr) : Run Bstr :=
  if lengthDiff ≠ 0 then
    wmemmoveS (offset + lengthDiff) ((if lengthDiff < 0 then oldLen else newLen) - offset) offset
      (oldLen - offset) m_str
  else .ok m_str

/-- The loop of `Replace`. -/
def replaceLoop (find replace : Bstr) (caseInsensitive : Bool) (lengthDiff newLen : ℤ) :
    ℕ → ℤ → ℕ → Bstr → Run Bstr
  | 0, _, _, _ => .error .fuel
  | fuel + 1, oldLen, x, m_str =>
    match indexOf loc m_str find x caseInsensitive with
    | none => .ok m_str
    | some x => do
      let m_str ← moveBehind lengthDiff newLen oldLen (x + find.length) m_str
      let oldLen := oldLen + lengthDiff
      if 0 < replace.length then
        replaceLoop find replace caseInsensitive lengthDiff newLen fuel oldLen
          (x + replace.length) (mergeString x replace m_str)
      else replaceLoop find replace caseInsensitive lengthDiff newLen fuel oldLen x m_str

/-- What follows `TokenCount` when there are tokens. The new length is an `int`. -/
def replaceTokens (memory : ℕ → UInt16) (fuel : ℕ) (m_str find replace : Bstr)
    (caseInsensitive : Bool) (countTokens : ℕ) : Run (HResult × Bstr) :=
  let lengthDiff : ℤ := replace.length - find.length
  let newLen := BitVec.ofInt 32 (m_str.length + countTokens * lengthDiff)
  let grown := if 0 < lengthDiff then setLength memory newLen.toNat m_str else (.sOk, m_str)
  if grown.1.failed then .ok grown
  else do
    let m_str ← replaceLoop loc find replace caseInsensitive lengthDiff newLen.toInt fuel
      m_str.length 0 grown.2
    .ok (if lengthDiff < 0 then setLength memory newLen.toNat m_str else (.sOk, m_str))

/-- `Replace` (CComBSTR2.h:428-473). -/
def replace (memory : ℕ → UInt16) (fuel : ℕ) (m_str find replace : Option Bstr)
    (caseInsensitive : Bool) : Run (HResult × Option Bstr) :=
  match m_str, find, replace with
  | some m_str, some find, some replace => do
    let countTokens ← tokenCount loc fuel m_str find caseInsensitive
    if countTokens = 0 then .ok (.sOk, some m_str)
    else do
      let (hr, m_str) ←
        replaceTokens loc memory fuel m_str find replace caseInsensitive countTokens
      .ok (hr, some m_str)
  | _, _, _ => .ok (.eInvalidArg, m_str)

end CComBSTR2

end IspSession.Model
