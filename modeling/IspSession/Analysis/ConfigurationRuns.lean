import Mathlib.Data.Fintype.EquivFin
import IspSession.Analysis.ConfigurationReading

/-!
# `AppSettings` and the version of the file

Each call looks at the files as they are then. What was inserted into the map stays there, so a
value that has changed or gone is still returned; a file is not read when it has the time that was
noted, which at first is the time of the construction; and an incomplete `add` ends the reading.
-/

set_option autoImplicit false

namespace IspSession.Analysis

open IspSession.Library IspSession.Model

variable {resolve : Bstr → Bstr → Bstr} {files : FileSystem} {configFile : Bstr}
  {config : ConfigurationManager}

/-! ## The claim -/

/-- A call in a state returns, for every key and default, what the current version says. -/
def Returns (resolve : Bstr → Bstr → Bstr) (configFile : Bstr) (files : FileSystem)
    (config config' : ConfigurationManager) : Prop :=
  ∀ key defaultValue, ∃ fuel value,
    config.appSettings resolve files fuel key defaultValue = .ok (value, config') ∧
      ∀ file, Leads resolve files configFile file →
        value = (settingOf file.nodes key).getD (defaultValue.getD [])

/-- So do all calls of a run. -/
def ReflectsFile (resolve : Bstr → Bstr → Bstr) (configFile : Bstr) :
    List FileSystem → ConfigurationManager → Prop
  | [], _ => True
  | files :: run, config => ∃ config', Returns resolve configFile files config config' ∧
      ReflectsFile resolve configFile run config'

/-- The condition on the files at a call, and on the map, the noted time and the path before it:
following the references ends; it ends at a file that is there; when that file is not read, the map
has the settings of the current version; when it is read, no value in the map has changed or gone,
and every other setting is taken. -/
structure Current (resolve : Bstr → Bstr → Bstr) (configFile : Bstr) (files : FileSystem)
    (config : ConfigurationManager) : Prop where
  ends : ∃ target found, EndsAt resolve files config.ftLastCheck config.szFilePath target found
  there : ∀ file target found, Leads resolve files configFile file →
    EndsAt resolve files config.ftLastCheck config.szFilePath target found → found ≠ none
  unread : ∀ file target found, Leads resolve files configFile file →
    EndsAt resolve files config.ftLastCheck config.szFilePath target (some found) →
    found.st_mtime = config.ftLastCheck → ∀ key, config.map.find key = settingOf file.nodes key
  kept : ∀ file target found, Leads resolve files configFile file →
    EndsAt resolve files config.ftLastCheck config.szFilePath target (some found) →
    found.st_mtime ≠ config.ftLastCheck →
    ∀ key value, config.map.find key = some value → settingOf file.nodes key = some value
  added : ∀ file target found, Leads resolve files configFile file →
    EndsAt resolve files config.ftLastCheck config.szFilePath target (some found) →
    found.st_mtime ≠ config.ftLastCheck →
    ∀ key, config.map.find key = none → lookup (taken found.nodes) key = settingOf file.nodes key

/-- The condition holds at every call of a run. -/
def AlwaysCurrent (resolve : Bstr → Bstr → Bstr) (configFile : Bstr) :
    List FileSystem → ConfigurationManager → Prop
  | [], _ => True
  | files :: run, config => Current resolve configFile files config ∧
      ∀ fuel hr config', config.checkTimeOut resolve files fuel = .ok (hr, config') →
        AlwaysCurrent resolve configFile run config'

/-! ## One call -/

/-- INTERNAL: `AppSettings` at the end of the references. -/
theorem appSettings_of_checkTimeOut {fuel : ℕ} {target : Bstr} {found : Option ConfigFile}
    (h : ConfigurationManager.checkTimeOut resolve files fuel config =
      .ok (checkedAt config target found)) (key : Bstr) (defaultValue : Option Bstr) :
    config.appSettings resolve files fuel key defaultValue =
      .ok (if found = none then [] else
        ((checkedAt config target found).2.map.find key).getD (defaultValue.getD []),
        (checkedAt config target found).2) := by
  rw [ConfigurationManager.appSettings, h]
  dsimp only [bind, Except.bind]
  cases found with
  | none => rfl
  | some file =>
    have hsuccess : (checkedAt config target (some file)).1.failed = false := by
      rw [checkedAt]
      split <;> rfl
    rw [hsuccess, if_neg Bool.false_ne_true, if_neg (Option.some_ne_none file)]
    cases (checkedAt config target (some file)).2.map.find key <;> rfl

/-- INTERNAL: values that agree under every default are the same. -/
theorem eq_of_getD {a b : Option Bstr} (h : ∀ value : Bstr, a.getD value = b.getD value) :
    a = b := by
  cases a with
  | none =>
    cases b with
    | none => rfl
    | some value => exact absurd (h (0 :: value)) (List.cons_ne_self 0 value)
  | some value =>
    cases b with
    | none => exact absurd (h (0 :: value)).symm (List.cons_ne_self 0 value)
    | some other => exact congrArg some (h [])

/-- INTERNAL: there is a key that a document does not have. -/
theorem exists_settingOf_none (nodes : List XmlNode) : ∃ key, settingOf nodes key = none := by
  obtain ⟨key, hkey⟩ := Infinite.exists_notMem_finset
    (((settingsSection nodes).filterMap XmlNode.setting).map Prod.fst).toFinset
  refine ⟨key, ?_⟩
  rw [List.mem_toFinset] at hkey
  rw [settingOf, lookup, Option.map_eq_none_iff, List.find?_eq_none]
  exact fun entry hentry hsame => hkey (beq_iff_eq.mp hsame ▸ List.mem_map_of_mem hentry)

/-- INTERNAL: what is found after a reading. -/
theorem find_checkedAt (target : Bstr) {file : ConfigFile} (key : Bstr) :
    (checkedAt config target (some file)).2.map.find key =
      if file.st_mtime = config.ftLastCheck then config.map.find key
      else (config.map.find key).or (lookup (taken file.nodes) key) := by
  rw [checkedAt]
  split
  · rfl
  · exact find_insertAll_lookup _ _ _

/-- **A call returns what the current version says exactly if the state and the files are right.** -/
theorem returns_iff (config' : ConfigurationManager) :
    Returns resolve configFile files config config' ↔
      Current resolve configFile files config ∧
        ∃ fuel hr, config.checkTimeOut resolve files fuel = .ok (hr, config') := by
  constructor
  · intro h
    -- the call returns, so there is one end of the references
    have hcall : ∃ target found,
        EndsAt resolve files config.ftLastCheck config.szFilePath target found ∧
          config' = (checkedAt config target found).2 := by
      obtain ⟨fuel, value, hrun, -⟩ := h [] none
      obtain ⟨⟨hr, checked⟩, hcheck, hrest⟩ := Run.bind_eq_ok hrun
      obtain ⟨target, found, hends, hresult⟩ := ends_of_checkTimeOut hcheck
      refine ⟨target, found, hends, ?_⟩
      rw [← hresult]
      dsimp only at hrest ⊢
      split at hrest
      · exact (Prod.mk.inj (Except.ok.inj hrest)).2.symm
      · split at hrest <;> exact (Prod.mk.inj (Except.ok.inj hrest)).2.symm
    obtain ⟨target, found, hends, hconfig⟩ := hcall
    have hvalue : ∀ file, Leads resolve files configFile file → ∀ key (defaultValue : Bstr),
        (if found = none then [] else
          ((checkedAt config target found).2.map.find key).getD defaultValue) =
          (settingOf file.nodes key).getD defaultValue := by
      intro file hfile key defaultValue
      obtain ⟨fuel, value, hrun, hsays⟩ := h key (some defaultValue)
      obtain ⟨⟨hr, checked⟩, hcheck, -⟩ := Run.bind_eq_ok hrun
      obtain ⟨target', found', hends', hresult⟩ := ends_of_checkTimeOut hcheck
      obtain ⟨rfl, rfl⟩ := hends.unique hends'
      rw [hresult] at hcheck
      rw [appSettings_of_checkTimeOut hcheck] at hrun
      rw [← (Prod.mk.inj (Except.ok.inj hrun)).1] at hsays
      exact hsays file hfile
    have hthere : ∀ file, Leads resolve files configFile file → found ≠ none := by
      rintro file hfile rfl
      obtain ⟨key, hkey⟩ := exists_settingOf_none file.nodes
      have hempty := hvalue file hfile key [0]
      rw [if_pos rfl, hkey] at hempty
      cases hempty
    have hsame : ∀ file current, Leads resolve files configFile file → found = some current →
        ∀ key, (if current.st_mtime = config.ftLastCheck then config.map.find key
          else (config.map.find key).or (lookup (taken current.nodes) key)) =
            settingOf file.nodes key := by
      rintro file current hfile rfl key
      rw [← find_checkedAt target]
      refine eq_of_getD fun defaultValue => ?_
      have hread := hvalue file hfile key defaultValue
      rwa [if_neg (Option.some_ne_none current)] at hread
    obtain ⟨fuel, hfuel⟩ := checkTimeOut_of_ends hends config rfl rfl
    refine ⟨⟨⟨target, found, hends⟩, ?_, ?_, ?_, ?_⟩, fuel, (checkedAt config target found).1,
      by rw [hconfig]; exact hfuel⟩
    · intro file target' found' hfile hends'
      obtain ⟨-, rfl⟩ := hends.unique hends'
      exact hthere file hfile
    · intro file target' found' hfile hends' htime key
      obtain ⟨-, rfl⟩ := hends.unique hends'
      have hkey := hsame file found' hfile rfl key
      rwa [if_pos htime] at hkey
    · intro file target' found' hfile hends' htime key value hmap
      obtain ⟨-, rfl⟩ := hends.unique hends'
      have hkey := hsame file found' hfile rfl key
      rw [if_neg htime, hmap, Option.some_or] at hkey
      exact hkey.symm
    · intro file target' found' hfile hends' htime key hmap
      obtain ⟨-, rfl⟩ := hends.unique hends'
      have hkey := hsame file found' hfile rfl key
      rwa [if_neg htime, hmap, Option.none_or] at hkey
  · rintro ⟨hcurrent, fuel, hr, hcheck⟩ key defaultValue
    obtain ⟨target, found, hends, hresult⟩ := ends_of_checkTimeOut hcheck
    have hconfig : config' = (checkedAt config target found).2 := congrArg Prod.snd hresult
    rw [hresult] at hcheck
    refine ⟨fuel, _, hconfig ▸ appSettings_of_checkTimeOut hcheck key defaultValue, ?_⟩
    intro file hfile
    have hthere := hcurrent.there file target found hfile hends
    rw [if_neg hthere]
    obtain ⟨current, rfl⟩ := Option.ne_none_iff_exists'.mp hthere
    rw [hconfig, find_checkedAt]
    by_cases htime : current.st_mtime = config.ftLastCheck
    · rw [if_pos htime, hcurrent.unread file target current hfile hends htime]
    · rw [if_neg htime]
      cases hmap : config.map.find key with
      | none =>
        rw [Option.none_or, hcurrent.added file target current hfile hends htime key hmap]
      | some value =>
        rw [Option.some_or, hcurrent.kept file target current hfile hends htime key value hmap]

/-! ## A run -/

/-- INTERNAL: `CheckTimeOut` leaves one state. -/
theorem checkTimeOut_unique {fuel fuel' : ℕ} {result result' : HResult × ConfigurationManager}
    (h : config.checkTimeOut resolve files fuel = .ok result)
    (h' : config.checkTimeOut resolve files fuel' = .ok result') : result = result' := by
  obtain ⟨target, found, hends, rfl⟩ := ends_of_checkTimeOut h
  obtain ⟨target', found', hends', rfl⟩ := ends_of_checkTimeOut h'
  obtain ⟨rfl, rfl⟩ := hends.unique hends'
  rfl

/-- **All calls of a run return what the current version says exactly if the state and the files are
right at each of them.** -/
theorem reflectsFile_iff_of (run : List FileSystem) (config : ConfigurationManager) :
    ReflectsFile resolve configFile run config ↔ AlwaysCurrent resolve configFile run config := by
  induction run generalizing config with
  | nil => exact Iff.rfl
  | cons files run ih =>
    constructor
    · rintro ⟨config', hreturns, hrest⟩
      obtain ⟨hcurrent, fuel, hr, hcheck⟩ := (returns_iff config').mp hreturns
      refine ⟨hcurrent, fun fuel' hr' other hother => ?_⟩
      obtain ⟨-, rfl⟩ := Prod.mk.inj (checkTimeOut_unique hcheck hother)
      exact (ih config').mp hrest
    · rintro ⟨hcurrent, hrest⟩
      obtain ⟨target, found, hends⟩ := hcurrent.ends
      obtain ⟨fuel, hcheck⟩ := checkTimeOut_of_ends hends config rfl rfl
      exact ⟨_, (returns_iff _).mpr ⟨hcurrent, fuel, _, hcheck⟩,
        (ih _).mpr (hrest fuel _ _ hcheck)⟩

/-- **`AppSettings` reflects the file from the construction on exactly if at every call nothing that
was read has changed and everything that is new is read.** -/
theorem reflectsFile_iff (resolve : Bstr → Bstr → Bstr) (configFile : Bstr) (time : ℤ)
    (run : List FileSystem) :
    ReflectsFile resolve configFile run (.new time configFile) ↔
      AlwaysCurrent resolve configFile run (.new time configFile) :=
  reflectsFile_iff_of run _

/-! ## A file that refers to no other -/

/-- There is only this file. -/
def onlyFile (configFile : Bstr) (version : ConfigFile) : FileSystem :=
  fun path => if path = configFile then some version else none

/-- The versions of a file, from the time that is noted and the settings that were read: a version
of that time has these settings, any other keeps them and what it adds is taken. -/
def Grows : ℤ → (Bstr → Option Bstr) → List ConfigFile → Prop
  | _, _, [] => True
  | last, settings, version :: versions =>
    (version.st_mtime = last → ∀ key, settings key = settingOf version.nodes key) ∧
    (version.st_mtime ≠ last →
      (∀ key value, settings key = some value → settingOf version.nodes key = some value) ∧
      ∀ key, settings key = none →
        lookup (taken version.nodes) key = settingOf version.nodes key) ∧
    Grows version.st_mtime (settingOf version.nodes) versions

/-- INTERNAL: the end is at the file. -/
theorem ends_onlyFile (resolve : Bstr → Bstr → Bstr) (configFile : Bstr) {version : ConfigFile}
    (last : ℤ) (htime : version.st_mtime ≠ 0) (hsource : configSource version.nodes = none) :
    EndsAt resolve (onlyFile configFile version) last configFile configFile (some version) := by
  have hfile : onlyFile configFile version configFile = some version := if_pos rfl
  by_cases hlast : version.st_mtime = last
  · exact .unread hfile htime hlast
  · exact .read hfile htime hlast hsource

/-- INTERNAL: and it is the file that counts. -/
theorem leads_onlyFile_iff (resolve : Bstr → Bstr → Bstr) (configFile : Bstr)
    {version file : ConfigFile} (hsource : configSource version.nodes = none) :
    Leads resolve (onlyFile configFile version) configFile file ↔ file = version := by
  have hfile : onlyFile configFile version configFile = some version := if_pos rfl
  constructor
  · intro h
    cases h with
    | here hother => exact Option.some.inj (hother.symm.trans hfile)
    | next hother hnext =>
      obtain rfl := Option.some.inj (hother.symm.trans hfile)
      rw [hsource] at hnext
      cases hnext
  · rintro rfl
    exact .here hfile hsource

/-- INTERNAL: the condition at one call. -/
theorem current_onlyFile_iff (resolve : Bstr → Bstr → Bstr) {version : ConfigFile}
    (hpath : config.szFilePath = configFile)
    (htime : version.st_mtime ≠ 0) (hsource : configSource version.nodes = none) :
    Current resolve configFile (onlyFile configFile version) config ↔
      (version.st_mtime = config.ftLastCheck →
        ∀ key, config.map.find key = settingOf version.nodes key) ∧
      (version.st_mtime ≠ config.ftLastCheck →
        (∀ key value, config.map.find key = some value →
          settingOf version.nodes key = some value) ∧
        ∀ key, config.map.find key = none →
          lookup (taken version.nodes) key = settingOf version.nodes key) := by
  have hends := ends_onlyFile resolve configFile config.ftLastCheck htime hsource
  have hleads := (leads_onlyFile_iff resolve configFile hsource).mpr rfl
  subst hpath
  constructor
  · intro h
    exact ⟨h.unread _ _ _ hleads hends, fun hother =>
      ⟨h.kept _ _ _ hleads hends hother, h.added _ _ _ hleads hends hother⟩⟩
  · rintro ⟨hunread, hread⟩
    refine ⟨⟨_, _, hends⟩, ?_, ?_, ?_, ?_⟩ <;> intro file target found hfile hfound
    · rw [← (hends.unique hfound).2]
      exact Option.some_ne_none _
    all_goals
      obtain rfl := (leads_onlyFile_iff _ _ hsource).mp hfile
      obtain rfl := Option.some.inj (hends.unique hfound).2
    · exact hunread
    · exact fun hother => (hread hother).1
    · exact fun hother => (hread hother).2

/-- **The settings of one file are reflected exactly if its versions grow.** -/
theorem alwaysCurrent_onlyFile_iff (resolve : Bstr → Bstr → Bstr) {versions : List ConfigFile}
    (h : ∀ version ∈ versions, version.st_mtime ≠ 0 ∧ configSource version.nodes = none)
    (config : ConfigurationManager) (hpath : config.szFilePath = configFile)
    (settings : Bstr → Option Bstr) (hsettings : ∀ key, config.map.find key = settings key) :
    AlwaysCurrent resolve configFile (versions.map (onlyFile configFile)) config ↔
      Grows config.ftLastCheck settings versions := by
  induction versions generalizing config settings with
  | nil => exact Iff.rfl
  | cons version versions ih =>
    obtain ⟨htime, hsource⟩ := h version List.mem_cons_self
    have hends := ends_onlyFile resolve configFile config.ftLastCheck htime hsource
    have hcurrent := current_onlyFile_iff resolve hpath htime hsource
    simp only [hsettings] at hcurrent
    -- after a call that is right the map has the settings of the version
    have hafter : Current resolve configFile (onlyFile configFile version) config →
        ∀ key, (checkedAt config configFile (some version)).2.map.find key =
          settingOf version.nodes key := by
      intro hright key
      obtain ⟨hunread, hread⟩ := hcurrent.mp hright
      rw [find_checkedAt, hsettings]
      by_cases hlast : version.st_mtime = config.ftLastCheck
      · rw [if_pos hlast, hunread hlast]
      · rw [if_neg hlast]
        cases hkey : settings key with
        | none => rw [Option.none_or, (hread hlast).2 key hkey]
        | some value => rw [Option.some_or, (hread hlast).1 key value hkey]
    have hlast : (checkedAt config configFile (some version)).2.ftLastCheck = version.st_mtime := by
      rw [checkedAt]
      split
      · rename_i hsame
        exact hsame.symm
      · rfl
    have htarget : (checkedAt config configFile (some version)).2.szFilePath = configFile := by
      rw [checkedAt]
      split <;> rfl
    have hrest := fun hright => ih (fun other hother => h other (List.mem_cons_of_mem _ hother)) _
      htarget (settingOf version.nodes) (hafter hright)
    rw [hlast] at hrest
    rw [List.map_cons, AlwaysCurrent, Grows, ← and_assoc, ← hcurrent]
    constructor
    · rintro ⟨hright, hnext⟩
      obtain ⟨fuel, hcheck⟩ := checkTimeOut_of_ends hends config hpath rfl
      exact ⟨hright, (hrest hright).mp (hnext fuel _ _ hcheck)⟩
    · rintro ⟨hright, hnext⟩
      refine ⟨hright, fun fuel hr config' hcheck => ?_⟩
      obtain ⟨target, found, hends', hresult⟩ := ends_of_checkTimeOut hcheck
      rw [hpath] at hends'
      obtain ⟨rfl, rfl⟩ := hends.unique hends'
      obtain rfl := congrArg Prod.snd hresult
      exact (hrest hright).mpr hnext

/-- A file with one setting `a`. -/
def oneSetting (time : ℤ) (value : String) : ConfigFile :=
  ⟨time, [.element (Bstr.ofString "appSettings") [] false,
    .element (Bstr.ofString "add") [(Bstr.ofString "key", Bstr.ofString "a"),
      (Bstr.ofString "value", Bstr.ofString value)] true,
    .endElement (Bstr.ofString "appSettings")]⟩

/-- **A value that has changed is not seen.** -/
theorem changedValue_not_reflectsFile :
    ¬ ReflectsFile (fun _ path => path) (Bstr.ofString "c")
      ([oneSetting 5 "1", oneSetting 6 "2"].map (onlyFile (Bstr.ofString "c")))
      (.new 9 (Bstr.ofString "c")) := by
  intro h
  have hgrows := (alwaysCurrent_onlyFile_iff (fun _ path => path) (by decide)
    (.new 9 (Bstr.ofString "c")) rfl (fun _ => none) fun _ => rfl).mp
    ((reflectsFile_iff_of _ _).mp h)
  obtain ⟨-, -, -, hchanged, -⟩ := hgrows
  have hkept := (hchanged (by decide)).1 (Bstr.ofString "a") (Bstr.ofString "1") (by decide)
  revert hkept
  decide

end IspSession.Analysis
