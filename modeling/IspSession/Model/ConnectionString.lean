import Mathlib.Data.List.DropRight
import IspSession.Library.Decimal
import IspSession.Model.DotNet

/-!
# The `DataSource` string, native and managed

A host, perhaps a port, and options with commas between them. Classic ASP reads it in
`OpenDBConnection` (CSessionDL.h, tools.cpp), ASP.NET in `GetDBFromConnString` and what calls it
(SessionAppSettings.cs, CSessionDL.cs). What is modelled of a connection is what it is asked for.
-/

set_option autoImplicit false

namespace IspSession.Model

open IspSession.Library

/-! ## Native -/

/-- The exceptions of the standard library that end the reading. -/
inductive StdException
  | outOfRange
  | invalidArgument
  deriving DecidableEq, Repr

/-- A computation that may throw. -/
abbrev StdRun := Except StdException

/-- `std::isspace` in the `"C"` locale. It is defined for bytes; other characters are none. -/
def isSpace (c : UInt16) : Bool := (9 ≤ c && c ≤ 13) || c == 32

/-- `trim` (tools.cpp:27-44). -/
def trim (s : Bstr) : Bstr := (s.dropWhile isSpace).rdropWhile isSpace

/-- `std::wstring::find` of a character, none for `npos`. -/
def wfind (delim : UInt16) (pos : ℕ) (s : Bstr) : Option ℕ :=
  ((s.drop pos).idxOf? delim).map (pos + ·)

/-- `std::wstring::substr` -/
def substr (pos count : ℕ) (s : Bstr) : StdRun Bstr :=
  if pos ≤ s.length then .ok ((s.drop pos).take count) else .error .outOfRange

/-- The loop of `split`: `left` rounds are left, and the one that comes is number `x`. -/
def splitLoop (s : Bstr) (delim : UInt16) (maxCount : ℕ) : ℕ → ℕ → ℕ → StdRun (List Bstr)
  | 0, _, _ => .ok []
  | left + 1, x, pos =>
    match wfind delim pos s with
    | some newPos => do
      let lastEl ←
        substr pos (if x < maxCount ∨ maxCount = 0 then newPos - pos else s.length) s
      let elems ← splitLoop s delim maxCount left (x + 1) (newPos + 1)
      .ok (trim lastEl :: elems)
    | none => do
      let lastEl ← substr pos s.length s
      -- `npos + 1` is 0
      let elems ← splitLoop s delim maxCount left (x + 1) 0
      .ok (trim lastEl :: elems)

/-- `split` (tools.cpp:85-110). -/
def split (s : Bstr) (delim : UInt16) (maxCount : ℕ) : StdRun (List Bstr) :=
  if s = [] then .ok []
  else
    let n := s.count delim
    let n := if 0 < maxCount ∧ n < maxCount then maxCount else n
    if n = 0 then .ok [s] else splitLoop s delim maxCount (n + 1) 0 0

/-- The number of the last round of `split`. Its counter is an `int`, and is still increased then. -/
def splitLast (s : Bstr) (delim : UInt16) (maxCount : ℕ) : ℕ :=
  if 0 < maxCount ∧ s.count delim < maxCount then maxCount else s.count delim

/-- `std::vector::at` -/
def vectorAt {α : Type} (elems : List α) (i : ℕ) : StdRun α :=
  match elems[i]? with
  | some e => .ok e
  | none => .error .outOfRange

/-- `std::iswspace`, and `Char.IsWhiteSpace`. -/
def isWhiteSpace (c : UInt16) : Bool :=
  isSpace c || c == 0x85 || c == 0xA0 || c == 0x1680 || (0x2000 ≤ c && c ≤ 0x200A) ||
    c == 0x2028 || c == 0x2029 || c == 0x202F || c == 0x205F || c == 0x3000

/-- The sign of a number and what follows it. -/
def readSign : Bstr → Bool × Bstr
  | 0x2D :: s => (true, s)
  | 0x2B :: s => (false, s)
  | s => (false, s)

/-- The number with this sign and these digits. -/
def signedNumber (negative : Bool) (digits : Bstr) : ℤ :=
  if negative then -(ofDigits digits : ℤ) else ofDigits digits

/-- `std::stoi`, which reads as far as there are digits. -/
def stoi (str : Bstr) : StdRun ℤ :=
  let (negative, s) := readSign (str.dropWhile isWhiteSpace)
  let digits := s.takeWhile isDigit
  if digits = [] then .error .invalidArgument
  else
    let value := signedNumber negative digits
    if -2 ^ 31 ≤ value ∧ value < 2 ^ 31 then .ok value else .error .outOfRange

/-- `ws2s` (tools.cpp:344-351). -/
def ws2s (wstr : Bstr) : Bytes := utf16ToUtf8 wstr

/-- What `assign` keeps of wide characters. -/
def narrowed (s : Bstr) : Bytes := s.map UInt16.toUInt8

/-- What a connection pool is asked for (`simple_pool::create`, `set_database`). -/
structure PoolRequest where
  host : Bytes
  port : BitVec 32
  password : Bytes
  database : ℕ
  deriving DecidableEq, Repr

namespace CSessionDL

/-- `str.find(L"password") == 0` -/
def namesPassword (str : Bstr) : Bool := (Bstr.ofString "password").isPrefixOf str

/-- `str.find(L"database") == 0 || str.find(L"defaultDatabase") == 0` -/
def namesDatabase (str : Bstr) : Bool :=
  (Bstr.ofString "database").isPrefixOf str || (Bstr.ofString "defaultDatabase").isPrefixOf str

/-- The password among the elements. `trim` returns a copy, which is not used. -/
def readPassword (arr : List Bstr) : StdRun Bytes :=
  match arr.find? namesPassword with
  | none => .ok []
  | some passwordPos => do
    let arr2 ← split passwordPos 0x3D 1
    let value ← vectorAt arr2 1
    .ok (narrowed value)

/-- The number of the database among the elements. -/
def readDatabase (arr : List Bstr) : StdRun ℤ :=
  match arr.find? namesDatabase with
  | none => .ok 0
  | some databasePos => do
    let arr2 ← split databasePos 0x3D 0
    let value ← vectorAt arr2 1
    stoi value

/-- The host and the port in the first element. The port is a `UINT`. -/
def readHost (first : Bstr) : StdRun (Bstr × BitVec 32) := do
  let portandhost ← split first 0x3A 0
  let host ← vectorAt portandhost 0
  match portandhost[1]? with
  | none => .ok (host, 6379)
  | some port => do
    let portParsed ← stoi port
    .ok (host, BitVec.ofInt 32 portParsed)

/-- `OpenDBConnection` (CSessionDL.h:348-418) up to the connecting, none where it returns false
without having tried. -/
def openDBConnection (constructor : Bstr) : StdRun (Option PoolRequest) := do
  let arr ← split constructor 0x2C 0
  let pw ← readPassword arr
  let databaseNo ← readDatabase arr
  match arr.head? with
  | none => .ok none
  | some first => do
    let hostAndPort ← readHost first
    .ok (some {
      host := ws2s hostAndPort.1
      port := hostAndPort.2
      password := pw
      database := if 0 < databaseNo then databaseNo.toNat else 0 })

end CSessionDL

/-! ## Managed -/

/-- `String.Trim` -/
def netTrim (s : Bstr) : Bstr := (s.dropWhile isWhiteSpace).rdropWhile isWhiteSpace

/-- `String.StartsWith` with `OrdinalIgnoreCase`, where `value` is ASCII. -/
def startsWithIgnoreCase (s value : Bstr) : Bool :=
  (value.map upperAscii).isPrefixOf (s.map upperAscii)

/-- `int.Parse` -/
def parseInt (s : Bstr) : NetRun ℤ :=
  let (negative, s) := readSign (s.dropWhile isSpace)
  let digits := s.takeWhile isDigit
  let behind := ((s.dropWhile isDigit).dropWhile isSpace).dropWhile (· == 0)
  if digits = [] ∨ behind ≠ [] then .error .format
  else
    let value := signedNumber negative digits
    if -2 ^ 31 ≤ value ∧ value < 2 ^ 31 then .ok value else .error .overflow

/-- `Split('=', 2)[1]` -/
def behindEquals (s : Bstr) : NetRun Bstr :=
  match s.dropWhile (· != 0x3D) with
  | [] => .error .indexOutOfRange
  | _ :: behind => .ok behind

namespace SessionAppSettings

/-- `GetDBFromConnString` (SessionAppSettings.cs:13-25), none for null. -/
def getDBFromConnString (connectionstring item : Bstr) : NetRun (Option Bstr) :=
  match (connectionstring.splitOn 0x2C).find? fun p => startsWithIgnoreCase p item with
  | none => .ok none
  | some p => do
    let value ← behindEquals p
    .ok (some (netTrim value))

/-- The members that `DataBase` uses. -/
structure Connection where
  DatabaseConnection : Bstr
  dbNo : Option ℤ
  deriving DecidableEq, Repr

/-- The loop of `DataBase` over the parts, `isDatabase` being `StartsWith` in the invariant
culture. -/
def keepParts (isDatabase : Bstr → Bool) :
    List Bstr → ℕ → List (Option Bstr) → NetRun (List (Option Bstr))
  | [], _, newParts => .ok newParts
  | part :: parts, x, newParts =>
    if isDatabase part then keepParts isDatabase parts x newParts
    else if x < newParts.length then
      keepParts isDatabase parts (x + 1) (newParts.set x (some part))
    else .error .indexOutOfRange

/-- `string.Join(",", newParts)` -/
def joinParts (newParts : List (Option Bstr)) : Bstr :=
  [0x2C].intercalate (newParts.map fun part => part.getD [])

/-- `DataBase` (SessionAppSettings.cs:120-148). -/
def dataBase (isDatabase : Bstr → Bool) (settings : Connection) : NetRun (ℤ × Connection) :=
  match settings.dbNo with
  | some n => .ok (n, settings)
  | none => do
    let dbstr ← getDBFromConnString settings.DatabaseConnection (Bstr.ofString "database")
    let dbNo ← parseInt (dbstr.getD [0x30])
    if dbstr.getD [] ≠ [] then do
      let parts := settings.DatabaseConnection.splitOn 0x2C
      let newParts ← keepParts isDatabase parts 0 (List.replicate (parts.length - 1) none)
      .ok (dbNo, { DatabaseConnection := joinParts newParts, dbNo := some dbNo })
    else .ok (dbNo, { settings with dbNo := some dbNo })

end SessionAppSettings

/-- `ConfigurationOptions`, as far as it depends on the string. -/
structure ConfigurationOptions where
  EndPoint : Bstr
  Password : Option Bstr
  DefaultDatabase : ℤ
  deriving DecidableEq, Repr

/-- `db` in `configOptions`. -/
def defaultDatabase (dbNo : Option Bstr) : NetRun ℤ :=
  if dbNo.getD [] ≠ [] then parseInt (dbNo.getD []) else .ok (-1)

/-- `configOptions` (CSessionManaged/CSessionDL.cs:87-110). -/
def configOptions (appSettings : Bstr) : NetRun ConfigurationOptions := do
  let pw ← SessionAppSettings.getDBFromConnString appSettings (Bstr.ofString "password")
  let dbNo ← SessionAppSettings.getDBFromConnString appSettings (Bstr.ofString "database")
  let db ← defaultDatabase dbNo
  .ok {
    EndPoint := (appSettings.splitOn 0x2C).headD []
    Password := pw
    DefaultDatabase := db }

end IspSession.Model
