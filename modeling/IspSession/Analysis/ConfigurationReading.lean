import Mathlib.Data.List.Find
import IspSession.Model.ConfigurationManager

/-!
# What the configuration file says and what is read of it

The settings of a document are the `add` elements in its section `appSettings` that have a key and
a value. The loop begins behind the start tag of the section and stops at an end tag of that name
or at the first `add` without one of the attributes. A file may refer to another one.
-/

set_option autoImplicit false

namespace IspSession.Model.XmlNode

/-- The start tag of the section. -/
def isStart : XmlNode → Bool
  | .element localName _ _ => wcsicmp localName (Bstr.ofString "appSettings")
  | _ => false

/-- The end tag of the section. -/
def isEnd : XmlNode → Bool
  | .endElement localName => wcsicmp localName (Bstr.ofString "appSettings")
  | _ => false

/-- An `add`. -/
def isAdd : XmlNode → Bool
  | .element localName _ _ => wcsicmp localName (Bstr.ofString "add")
  | _ => false

/-- An attribute of an element. -/
def attributeValue (name : String) : XmlNode → Option Bstr
  | .element _ attributes _ => attributeByName attributes (Bstr.ofString name)
  | _ => none

/-- The key and the value of an `add` that has both. -/
def setting (node : XmlNode) : Option (Bstr × Bstr) :=
  if node.isAdd then
    (node.attributeValue "key").bind fun key =>
      (node.attributeValue "value").map fun value => (key, value)
  else none

/-- An `add` that has not. -/
def isIncomplete (node : XmlNode) : Bool := node.isAdd && node.setting.isNone

/-- An element without an end tag. -/
def isEmpty : XmlNode → Bool
  | .element _ _ isEmptyElement => isEmptyElement
  | _ => false

end IspSession.Model.XmlNode

namespace IspSession.Analysis

open IspSession.Library IspSession.Model

variable {resolve : Bstr → Bstr → Bstr} {files : FileSystem} {last : ℤ} {path : Bstr}

/-! ## The document -/

/-- The file that the section refers to. -/
def configSource (nodes : List XmlNode) : Option Bstr :=
  (nodes.find? XmlNode.isStart).bind (XmlNode.attributeValue "configSource")

/-- The nodes behind the start tag. -/
def behindStart (nodes : List XmlNode) : List XmlNode :=
  (nodes.dropWhile fun node => !node.isStart).tail

/-- The section. -/
def settingsSection (nodes : List XmlNode) : List XmlNode :=
  if ((nodes.find? XmlNode.isStart).map XmlNode.isEmpty).getD true then []
  else (behindStart nodes).takeWhile fun node => !node.isEnd

/-- The value under a key, the first of several. -/
def lookup (settings : List (Bstr × Bstr)) (key : Bstr) : Option Bstr :=
  (settings.find? fun entry => key == entry.1).map Prod.snd

/-- **The value that a document gives to a key.** -/
def settingOf (nodes : List XmlNode) (key : Bstr) : Option Bstr :=
  lookup ((settingsSection nodes).filterMap XmlNode.setting) key

/-- What stands behind the start tag and before an end tag or an incomplete `add`. -/
def taken (nodes : List XmlNode) : List (Bstr × Bstr) :=
  ((behindStart nodes).takeWhile fun node => !(node.isEnd || node.isIncomplete)).filterMap
    XmlNode.setting

/-! ## The loop -/

/-- INTERNAL: the loop behind the start tag. -/
theorem readNodes_started (nodes : List XmlNode) (map : SettingsMap) :
    ConfigurationManager.readNodes nodes true map =
      .done (map.insertAll ((nodes.takeWhile fun node =>
        !(node.isEnd || node.isIncomplete)).filterMap XmlNode.setting)) := by
  induction nodes generalizing map with
  | nil => rfl
  | cons node nodes ih =>
    cases node with
    | endElement localName =>
      rw [ConfigurationManager.readNodes, Bool.true_and]
      cases hend : wcsicmp localName (Bstr.ofString "appSettings") with
      | true => rw [if_pos rfl, List.takeWhile_cons_of_neg (by simp [XmlNode.isEnd, hend])]; rfl
      | false =>
        rw [if_neg Bool.false_ne_true, ih, List.takeWhile_cons_of_pos
          (by simp [XmlNode.isEnd, XmlNode.isIncomplete, XmlNode.isAdd, hend])]
        rfl
    | other =>
      rw [ConfigurationManager.readNodes, ih, List.takeWhile_cons_of_pos rfl]
      rfl
    | element localName attributes isEmptyElement =>
      rw [ConfigurationManager.readNodes, Bool.not_true, Bool.false_and, Bool.true_and,
        if_neg Bool.false_ne_true]
      cases hadd : wcsicmp localName (Bstr.ofString "add") with
      | false =>
        rw [if_neg Bool.false_ne_true, ih, List.takeWhile_cons_of_pos
          (by simp [XmlNode.isEnd, XmlNode.isIncomplete, XmlNode.isAdd, hadd]),
          List.filterMap_cons_none (by simp [XmlNode.setting, XmlNode.isAdd, hadd])]
      | true =>
        rw [if_pos rfl]
        cases hkey : attributeByName attributes (Bstr.ofString "key") with
        | none =>
          rw [List.takeWhile_cons_of_neg (by simp [XmlNode.isEnd, XmlNode.isIncomplete,
            XmlNode.isAdd, XmlNode.setting, XmlNode.attributeValue, hadd, hkey])]
          rfl
        | some key =>
          dsimp only
          cases hvalue : attributeByName attributes (Bstr.ofString "value") with
          | none =>
            rw [List.takeWhile_cons_of_neg (by simp [XmlNode.isEnd, XmlNode.isIncomplete,
              XmlNode.isAdd, XmlNode.setting, XmlNode.attributeValue, hadd, hkey, hvalue])]
            rfl
          | some value =>
            dsimp only
            rw [ih, List.takeWhile_cons_of_pos (by simp [XmlNode.isEnd, XmlNode.isIncomplete,
              XmlNode.isAdd, XmlNode.setting, XmlNode.attributeValue, hadd, hkey, hvalue]),
              List.filterMap_cons_some (b := (key, value)) (by simp [XmlNode.isAdd,
                XmlNode.setting, XmlNode.attributeValue, hadd, hkey, hvalue])]
            rfl

/-- **What the loop makes of a document.** -/
theorem readNodes_eq (nodes : List XmlNode) (map : SettingsMap) :
    ConfigurationManager.readNodes nodes false map =
      match configSource nodes with
      | some pwzValue => .configSource pwzValue
      | none => .done (map.insertAll (taken nodes)) := by
  induction nodes with
  | nil => rfl
  | cons node nodes ih =>
    by_cases hstart : node.isStart = true
    · cases node with
      | endElement localName => cases hstart
      | other => cases hstart
      | element localName attributes isEmptyElement =>
        have hname : wcsicmp localName (Bstr.ofString "appSettings") = true := hstart
        have hsource : configSource (.element localName attributes isEmptyElement :: nodes) =
            attributeByName attributes (Bstr.ofString "configSource") := by
          rw [configSource, List.find?_cons_of_pos hstart]
          rfl
        have hbehind : behindStart (.element localName attributes isEmptyElement :: nodes) =
            nodes := by
          rw [behindStart, List.dropWhile_cons_of_neg (by simp [hstart])]
          rfl
        rw [ConfigurationManager.readNodes, Bool.not_false, Bool.true_and, if_pos hname, hsource,
          taken, hbehind]
        cases attributeByName attributes (Bstr.ofString "configSource") with
        | some pwzValue => rfl
        | none => exact readNodes_started nodes map
    · have hskip : ConfigurationManager.readNodes (node :: nodes) false map =
          ConfigurationManager.readNodes nodes false map := by
        cases node with
        | endElement localName => rfl
        | other => rfl
        | element localName attributes isEmptyElement =>
          have hname : ¬ wcsicmp localName (Bstr.ofString "appSettings") = true := hstart
          rw [ConfigurationManager.readNodes, Bool.not_false, Bool.true_and, Bool.false_and,
            if_neg hname, if_neg Bool.false_ne_true]
      have hsource : configSource (node :: nodes) = configSource nodes := by
        rw [configSource, List.find?_cons_of_neg hstart, configSource]
      have htaken : taken (node :: nodes) = taken nodes := by
        rw [taken, behindStart, List.dropWhile_cons_of_pos (by simp [hstart]), taken, behindStart]
      rw [hskip, ih, hsource, htaken]

/-- INTERNAL: a map finds texts that are the same. -/
theorem find_insertAll_lookup (map : SettingsMap) (settings : List (Bstr × Bstr)) (key : Bstr) :
    (map.insertAll settings).find key = (map.find key).or (lookup settings key) := by
  rw [OrderedMap.find_insertAll, lookup]
  refine congrArg _ (congrArg _ (List.find?_congr fun entry _ => ?_))
  rw [Bool.eq_iff_iff, beq_iff_eq, beq_iff_eq]
  exact Std.LawfulEqCmp.compare_eq_iff_eq

/-! ## From file to file -/

/-- The file that counts is found from a path by its references. -/
inductive Leads (resolve : Bstr → Bstr → Bstr) (files : FileSystem) : Bstr → ConfigFile → Prop where
  | here {path : Bstr} {file : ConfigFile} : files path = some file →
      configSource file.nodes = none → Leads resolve files path file
  | next {path pwzValue : Bstr} {file target : ConfigFile} : files path = some file →
      configSource file.nodes = some pwzValue →
      Leads resolve files (resolve path pwzValue) target → Leads resolve files path target

/-- Where `CheckTimeOut` comes to an end, and the file there: one that is not found, one that has the
time of the last check, or one that refers to no other. -/
inductive EndsAt (resolve : Bstr → Bstr → Bstr) (files : FileSystem) (last : ℤ) :
    Bstr → Bstr → Option ConfigFile → Prop where
  | missing {path : Bstr} : files path = none → EndsAt resolve files last path path none
  | zero {path : Bstr} {file : ConfigFile} : files path = some file → file.st_mtime = 0 →
      EndsAt resolve files last path path none
  | unread {path : Bstr} {file : ConfigFile} : files path = some file → file.st_mtime ≠ 0 →
      file.st_mtime = last → EndsAt resolve files last path path (some file)
  | read {path : Bstr} {file : ConfigFile} : files path = some file → file.st_mtime ≠ 0 →
      file.st_mtime ≠ last → configSource file.nodes = none →
      EndsAt resolve files last path path (some file)
  | next {path pwzValue target : Bstr} {file : ConfigFile} {found : Option ConfigFile} :
      files path = some file → file.st_mtime ≠ 0 → file.st_mtime ≠ last →
      configSource file.nodes = some pwzValue →
      EndsAt resolve files last (resolve path pwzValue) target found →
      EndsAt resolve files last path target found

/-- The state in which `CheckTimeOut` leaves the object. -/
def checkedAt (config : ConfigurationManager) (target : Bstr) (found : Option ConfigFile) :
    HResult × ConfigurationManager :=
  match found with
  | none => (.eFail, { config with szFilePath := target })
  | some file =>
    if file.st_mtime = config.ftLastCheck then (.sOk, { config with szFilePath := target })
    else (.sFalse, ⟨config.map.insertAll (taken file.nodes), file.st_mtime, target⟩)

/-- **`CheckTimeOut` follows the references to their end.** -/
theorem checkTimeOut_of_ends {target : Bstr} {found : Option ConfigFile}
    (h : EndsAt resolve files last path target found) (config : ConfigurationManager)
    (hpath : config.szFilePath = path) (hlast : config.ftLastCheck = last) :
    ∃ fuel, ConfigurationManager.checkTimeOut resolve files fuel config =
      .ok (checkedAt config target found) := by
  induction h generalizing config with
  | missing hfile =>
    subst hpath
    refine ⟨1, ?_⟩
    rw [ConfigurationManager.checkTimeOut, hfile]
    rfl
  | zero hfile hzero =>
    subst hpath
    refine ⟨1, ?_⟩
    rw [ConfigurationManager.checkTimeOut, hfile]
    dsimp only
    rw [if_pos hzero]
    rfl
  | unread hfile hzero hsame =>
    subst hpath hlast
    refine ⟨1, ?_⟩
    rw [ConfigurationManager.checkTimeOut, hfile, checkedAt]
    dsimp only
    rw [if_neg hzero, if_neg (not_not.mpr hsame), if_pos hsame]
  | read hfile hzero hother hsource =>
    subst hpath hlast
    refine ⟨1, ?_⟩
    rw [ConfigurationManager.checkTimeOut, hfile, checkedAt]
    dsimp only
    rw [if_neg hzero, if_pos hother, readNodes_eq, hsource, if_neg hother]
  | next hfile hzero hother hsource _ ih =>
    subst hpath hlast
    obtain ⟨fuel, hfuel⟩ := ih { config with szFilePath := resolve config.szFilePath _ } rfl rfl
    refine ⟨fuel + 1, ?_⟩
    rw [ConfigurationManager.checkTimeOut, hfile]
    dsimp only
    rw [if_neg hzero, if_pos hother, readNodes_eq, hsource]
    dsimp only
    rw [hfuel]
    rfl

/-- **When it returns, there is an end.** -/
theorem ends_of_checkTimeOut {fuel : ℕ} {config : ConfigurationManager}
    {result : HResult × ConfigurationManager}
    (h : ConfigurationManager.checkTimeOut resolve files fuel config = .ok result) :
    ∃ target found, EndsAt resolve files config.ftLastCheck config.szFilePath target found ∧
      result = checkedAt config target found := by
  induction fuel generalizing config with
  | zero => cases h
  | succ fuel ih =>
    rw [ConfigurationManager.checkTimeOut] at h
    cases hfile : files config.szFilePath with
    | none =>
      rw [hfile] at h
      exact ⟨config.szFilePath, none, .missing hfile, (Except.ok.inj h).symm⟩
    | some file =>
      rw [hfile] at h
      dsimp only at h
      by_cases hzero : file.st_mtime = 0
      · rw [if_pos hzero] at h
        exact ⟨config.szFilePath, none, .zero hfile hzero, (Except.ok.inj h).symm⟩
      by_cases hsame : file.st_mtime = config.ftLastCheck
      · rw [if_neg hzero, if_neg (not_not.mpr hsame)] at h
        refine ⟨config.szFilePath, some file, .unread hfile hzero hsame, ?_⟩
        rw [checkedAt, if_pos hsame]
        exact (Except.ok.inj h).symm
      rw [if_neg hzero, if_pos hsame, readNodes_eq] at h
      cases hsource : configSource file.nodes with
      | none =>
        rw [hsource] at h
        refine ⟨config.szFilePath, some file, .read hfile hzero hsame hsource, ?_⟩
        rw [checkedAt, if_neg hsame]
        exact (Except.ok.inj h).symm
      | some pwzValue =>
        rw [hsource] at h
        obtain ⟨target, found, hends, hresult⟩ := ih h
        exact ⟨target, found, .next hfile hzero hsame hsource hends, hresult⟩

/-- INTERNAL: there is one end. -/
theorem EndsAt.unique {target target' : Bstr} {found found' : Option ConfigFile}
    (h : EndsAt resolve files last path target found)
    (h' : EndsAt resolve files last path target' found') : target = target' ∧ found = found' := by
  induction h with
  | missing hfile =>
    cases h' with
    | missing => exact ⟨rfl, rfl⟩
    | zero hfile' | unread hfile' | read hfile' | next hfile' => simp [hfile] at hfile'
  | zero hfile hzero =>
    cases h' with
    | missing | zero => exact ⟨rfl, rfl⟩
    | unread hfile' hzero' | read hfile' hzero' | next hfile' hzero' =>
      obtain rfl := Option.some.inj (hfile.symm.trans hfile')
      exact absurd hzero hzero'
  | unread hfile hzero hsame =>
    cases h' with
    | missing hfile' => simp [hfile] at hfile'
    | zero hfile' hzero' =>
      obtain rfl := Option.some.inj (hfile.symm.trans hfile')
      exact absurd hzero' hzero
    | unread hfile' => exact ⟨rfl, hfile.symm.trans hfile'⟩
    | read hfile' _ hother | next hfile' _ hother =>
      obtain rfl := Option.some.inj (hfile.symm.trans hfile')
      exact absurd hsame hother
  | read hfile hzero hother hsource =>
    cases h' with
    | missing hfile' => simp [hfile] at hfile'
    | zero hfile' hzero' =>
      obtain rfl := Option.some.inj (hfile.symm.trans hfile')
      exact absurd hzero' hzero
    | unread hfile' _ hsame =>
      obtain rfl := Option.some.inj (hfile.symm.trans hfile')
      exact absurd hsame hother
    | read hfile' => exact ⟨rfl, hfile.symm.trans hfile'⟩
    | next hfile' _ _ hsource' =>
      obtain rfl := Option.some.inj (hfile.symm.trans hfile')
      rw [hsource] at hsource'
      cases hsource'
  | next hfile hzero hother hsource _ ih =>
    cases h' with
    | missing hfile' => simp [hfile] at hfile'
    | zero hfile' hzero' =>
      obtain rfl := Option.some.inj (hfile.symm.trans hfile')
      exact absurd hzero' hzero
    | unread hfile' _ hsame =>
      obtain rfl := Option.some.inj (hfile.symm.trans hfile')
      exact absurd hsame hother
    | read hfile' _ _ hsource' =>
      obtain rfl := Option.some.inj (hfile.symm.trans hfile')
      rw [hsource] at hsource'
      cases hsource'
    | next hfile' _ _ hsource' hends' =>
      obtain rfl := Option.some.inj (hfile.symm.trans hfile')
      obtain rfl := Option.some.inj (hsource.symm.trans hsource')
      exact ih hends'

end IspSession.Analysis
