import IspSession.Library.OrderedMap
import IspSession.Model.Automation

/-!
# The configuration file (ConfigurationManager.cpp)

`AppSettings` looks at the modification time of the file before each lookup, and reads the file
into its map when the time is not the one it has noted. A document is the list of the nodes that
`IXmlReader::Read` delivers. Paths are put together by `std::filesystem`, here a parameter.
-/

set_option autoImplicit false

namespace IspSession.Model

open IspSession.Library

/-- A node of a document. An element `<name/>` has no end tag. -/
inductive XmlNode where
  | element (localName : Bstr) (attributes : List (Bstr × Bstr)) (isEmptyElement : Bool)
  | endElement (localName : Bstr)
  | other

/-- A version of a file. -/
structure ConfigFile where
  st_mtime : ℤ
  nodes : List XmlNode

/-- The files there are, by their paths. -/
abbrev FileSystem := Bstr → Option ConfigFile

/-- A character in lower case, in the `C` locale. -/
def lowerAscii (c : UInt16) : UInt16 := if 65 ≤ c ∧ c ≤ 90 then c + 32 else c

/-- `_wcsicmp` finds no difference. -/
def wcsicmp (a b : Bstr) : Bool := a.map lowerAscii == b.map lowerAscii

/-- `MoveToAttributeByName` and `GetValue`, none for `S_FALSE`. -/
def attributeByName (attributes : List (Bstr × Bstr)) (name : Bstr) : Option Bstr :=
  (attributes.find? fun entry => entry.1 == name).map Prod.snd

/-- `std::map<wstring, wstring>`. -/
abbrev SettingsMap := OrderedMap (List.compareLex (compare : UInt16 → UInt16 → Ordering)) Bstr

/-- `ConfigurationManager`. -/
structure ConfigurationManager where
  map : SettingsMap
  ftLastCheck : ℤ
  szFilePath : Bstr

/-- How the loop over the nodes ends. -/
inductive ConfigReading where
  | done (map : SettingsMap)
  | configSource (pwzValue : Bstr)

namespace ConfigurationManager

/-- The constructor (ConfigurationManager.cpp:15-21): the time of the construction is noted. -/
def new (time : ℤ) (configFile : Bstr) : ConfigurationManager :=
  ⟨OrderedMap.empty, time, configFile⟩

/-- The loop over the nodes (ConfigurationManager.cpp:125-192). A missing attribute of an `add` is
`S_FALSE`, which ends the loop as the end tag of `appSettings` does. -/
def readNodes : List XmlNode → Bool → SettingsMap → ConfigReading
  | [], _, map => .done map
  | .endElement localName :: nodes, startCollecting, map =>
    if startCollecting && wcsicmp localName (Bstr.ofString "appSettings") then .done map
    else readNodes nodes startCollecting map
  | .element localName attributes _ :: nodes, startCollecting, map =>
    if !startCollecting && wcsicmp localName (Bstr.ofString "appSettings") then
      match attributeByName attributes (Bstr.ofString "configSource") with
      | some pwzValue => .configSource pwzValue
      | none => readNodes nodes true map
    else if startCollecting && wcsicmp localName (Bstr.ofString "add") then
      match attributeByName attributes (Bstr.ofString "key") with
      | none => .done map
      | some key =>
        match attributeByName attributes (Bstr.ofString "value") with
        | none => .done map
        | some pwzValue => readNodes nodes startCollecting (map.insert key pwzValue)
    else readNodes nodes startCollecting map
  | .other :: nodes, startCollecting, map => readNodes nodes startCollecting map

/-- `CheckTimeOut` (ConfigurationManager.cpp:90-207). A file that `stat` does not find, or one of the
time 0, is `ERROR_FILE_NOT_FOUND`. -/
def checkTimeOut (resolve : Bstr → Bstr → Bstr) (files : FileSystem) :
    ℕ → ConfigurationManager → Run (HResult × ConfigurationManager)
  | 0, _ => .error .fuel
  | fuel + 1, config =>
    match files config.szFilePath with
    | none => .ok (.eFail, config)
    | some file =>
      if file.st_mtime = 0 then .ok (.eFail, config)
      else if file.st_mtime ≠ config.ftLastCheck then
        match readNodes file.nodes false config.map with
        | .done map => .ok (.sFalse, { config with map := map, ftLastCheck := file.st_mtime })
        | .configSource pwzValue =>
          checkTimeOut resolve files fuel
            { config with szFilePath := resolve config.szFilePath pwzValue }
      else .ok (.sOk, config)

/-- `AppSettings` (ConfigurationManager.cpp:59-81). -/
def appSettings (resolve : Bstr → Bstr → Bstr) (files : FileSystem) (fuel : ℕ) (key : Bstr)
    (defaultValue : Option Bstr) (config : ConfigurationManager) :
    Run (Bstr × ConfigurationManager) := do
  let (hr, config) ← checkTimeOut resolve files fuel config
  if hr.failed then .ok ([], config)
  else
    match config.map.find key with
    | some value => .ok (value, config)
    | none => .ok (defaultValue.getD [], config)

end ConfigurationManager

end IspSession.Model
