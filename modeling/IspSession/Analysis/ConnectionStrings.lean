import IspSession.Analysis.ConnectionParts

/-!
# The settings of a `DataSource` string in classic ASP

A string of a host, a port and options asks for the settings that stand in it. `OpenDBConnection`
looks for the options in every part, the host among them, takes the password character by
character into bytes, and reads numbers into an `int`.
-/

set_option autoImplicit false

namespace IspSession.Analysis

open IspSession.Library
open IspSession.Model

/-! ## Strings and what they ask for -/

/-- An option behind the host. -/
inductive ConnectionOption
  | password (pw : Bstr)
  | database (n : ℕ)
  | other (name value : Bstr)
  deriving DecidableEq, Repr

namespace ConnectionOption

def text : ConnectionOption → Bstr
  | password pw => Bstr.ofString "password" ++ 0x3D :: pw
  | database n => Bstr.ofString "database" ++ 0x3D :: decimalText n
  | other name value => name ++ 0x3D :: value

def password? : ConnectionOption → Option Bstr
  | password pw => some pw
  | _ => none

def database? : ConnectionOption → Option ℕ
  | database n => some n
  | _ => none

/-- The texts that an option may have. The name of an option begins with no white space, and that
of another one not as those of the two settings do. -/
def Allowed : ConnectionOption → Prop
  | password pw => 0x2C ∉ pw ∧ NoOuterSpace pw
  | database _ => True
  | other name value => 0x2C ∉ name ∧ 0x2C ∉ value ∧ 0x3D ∉ name ∧
      (∀ c ∈ name.head?, isSpace c = false) ∧ CSessionDL.namesPassword name = false ∧
      CSessionDL.namesDatabase name = false

end ConnectionOption

/-- A `DataSource` string: a host with a port, and options. -/
structure DataSource where
  host : Bstr
  port : ℕ
  options : List ConnectionOption
  isHost : IsHost host
  allowed : ∀ o ∈ options, o.Allowed

namespace DataSource

def hostPart (d : DataSource) : Bstr := hostText d.host (some d.port)

def text (d : DataSource) : Bstr := dataSourceText d.hostPart (d.options.map ConnectionOption.text)

/-- The password that is asked for, empty if there is none. -/
def password (d : DataSource) : Bstr := (d.options.findSome? ConnectionOption.password?).getD []

/-- The database that is asked for, 0 if there is none. -/
def database (d : DataSource) : ℕ := (d.options.findSome? ConnectionOption.database?).getD 0

end DataSource

/-- `OpenDBConnection` uses the settings of the string. -/
def UsesSettings (d : DataSource) : Prop :=
  ∃ r, CSessionDL.openDBConnection d.text = .ok (some r) ∧ r.host = ws2s d.host ∧
    r.port.toNat = d.port ∧ r.password = ws2s d.password ∧ r.database = d.database

/-- The settings of the string are those that the host and the numbers leave it. -/
structure SettingsReadable (d : DataSource) : Prop where
  port : d.port < 2 ^ 31
  /-- A host that begins with `password` is where the password is read from. -/
  password : if CSessionDL.namesPassword d.host then
      narrowed (settingText d.hostPart) = ws2s d.password
    else AsciiUtf16 d.password
  /-- A host that begins like the database option is where its number is read from. -/
  database : if CSessionDL.namesDatabase d.host then
      0x3D ∈ d.hostPart ∧ ∃ n, stoi (numberText d.hostPart) = .ok n ∧ n.toNat = d.database
    else d.database < 2 ^ 31

/-! ## What the options are taken for -/

variable {key a b : Bstr} {c : UInt16}

/-- INTERNAL: a key ends before a character it does not have. -/
theorem isPrefixOf_append_cons (hc : c ∉ key) :
    key.isPrefixOf (a ++ c :: b) = key.isPrefixOf a := by
  rw [Bool.eq_iff_iff, List.isPrefixOf_iff_prefix, List.isPrefixOf_iff_prefix]
  refine ⟨fun h => ?_, fun h => h.trans (List.prefix_append a (c :: b))⟩
  rcases List.prefix_or_prefix_of_prefix h (List.prefix_append a (c :: b)) with ha | ⟨t, rfl⟩
  · exact ha
  cases t with
  | nil => rw [List.append_nil]
  | cons d t =>
    obtain ⟨u, hu⟩ := (List.prefix_append_right_inj a).mp h
    have hd : d = c := (List.cons.inj hu).1
    exact absurd (List.mem_append_right a (hd ▸ List.mem_cons_self)) hc

/-- INTERNAL: the names of the settings have no delimiters. -/
theorem namesPassword_append_cons (hc : c = 0x3A ∨ c = 0x3D) :
    CSessionDL.namesPassword (a ++ c :: b) = CSessionDL.namesPassword a := by
  rcases hc with rfl | rfl <;> exact isPrefixOf_append_cons (by decide)

theorem namesDatabase_append_cons (hc : c = 0x3A ∨ c = 0x3D) :
    CSessionDL.namesDatabase (a ++ c :: b) = CSessionDL.namesDatabase a := by
  have h : c ∉ Bstr.ofString "database" ∧ c ∉ Bstr.ofString "defaultDatabase" := by
    rcases hc with rfl | rfl <;> exact ⟨by decide, by decide⟩
  rw [CSessionDL.namesDatabase, isPrefixOf_append_cons h.1, isPrefixOf_append_cons h.2,
    CSessionDL.namesDatabase]

/-- INTERNAL: a text that begins with no white space begins as it did before. -/
theorem trim_prefix (h : ∀ c ∈ a.head?, isSpace c = false) :
    trim (a ++ 0x3D :: b) <+: a ++ 0x3D :: b := by
  have hhead : ∀ c ∈ (a ++ 0x3D :: b).head?, isSpace c = false := by
    intro c hc
    cases a with
    | nil =>
      obtain rfl := Option.some.inj hc
      decide
    | cons d a => exact h c hc
  rw [trim, dropWhile_isSpace hhead]
  exact List.rdropWhile_prefix isSpace _

/-- INTERNAL: what a prefix does not begin with. -/
theorem isPrefixOf_shorter (h : a <+: b) (hb : key.isPrefixOf b = false) :
    key.isPrefixOf a = false := by
  rw [Bool.eq_false_iff] at hb ⊢
  exact fun ha => hb (List.isPrefixOf_iff_prefix.mpr
    ((List.isPrefixOf_iff_prefix.mp ha).trans h))

variable {o : ConnectionOption}

/-- INTERNAL: there is no comma in an option. -/
theorem ConnectionOption.Allowed.noComma (h : o.Allowed) : 0x2C ∉ o.text := by
  have hparts : ∀ {a b : Bstr}, 0x2C ∉ a → 0x2C ∉ b → 0x2C ∉ a ++ 0x3D :: b := by
    intro a b ha hb hmem
    rcases List.mem_append.mp hmem with hmem | hmem
    · exact ha hmem
    rcases List.mem_cons.mp hmem with hmem | hmem
    · cases hmem
    · exact hb hmem
  cases o with
  | password pw => exact hparts (by decide) h.1
  | database n =>
    exact hparts (by decide) fun hmem =>
      (isSpace_of_isDigit (isDigit_of_mem_decimalText hmem)).2.2.1 rfl
  | other name value => exact hparts h.1 h.2.1

/-- INTERNAL: an option with the name of a setting has no white space at its ends. -/
theorem noOuterSpace_append (ha : a ≠ []) (h : ∀ c ∈ a.head?, isSpace c = false)
    (hb : NoOuterSpace b) : NoOuterSpace (a ++ 0x3D :: b) := by
  constructor
  · intro c hc
    rw [List.head?_append_of_ne_nil a ha] at hc
    exact h c hc
  · intro c hc
    rw [List.getLast?_append_of_ne_nil _ (List.cons_ne_nil _ _)] at hc
    cases b with
    | nil =>
      obtain rfl := Option.some.inj hc
      decide
    | cons d b => exact hb.2 c hc

/-- INTERNAL: a text whose first character has been looked at. -/
theorem isSpace_head? {a : Bstr} {c : UInt16} (hhead : a.head? = some c)
    (hc : isSpace c = false) : ∀ d ∈ a.head?, isSpace d = false := by
  intro d hd
  rw [hhead] at hd
  exact Option.some.inj hd ▸ hc

/-- INTERNAL: digits are without white space. -/
theorem noOuterSpace_decimalText (n : ℕ) : NoOuterSpace (decimalText n) :=
  noOuterSpace_of_forall fun _ hc => (isSpace_of_isDigit (isDigit_of_mem_decimalText hc)).1

/-- INTERNAL: the settings are not trimmed. -/
theorem ConnectionOption.trim_password {pw : Bstr} (h : NoOuterSpace pw) :
    trim (password pw).text = (password pw).text :=
  trim_of_noOuterSpace (noOuterSpace_append (by decide) (isSpace_head? rfl rfl) h)

theorem ConnectionOption.trim_database (n : ℕ) : trim (database n).text = (database n).text :=
  trim_of_noOuterSpace (noOuterSpace_append (by decide) (isSpace_head? rfl rfl)
    (noOuterSpace_decimalText n))

/-- **The options are taken for what they are.** -/
theorem ConnectionOption.Allowed.names (h : o.Allowed) :
    CSessionDL.namesPassword (trim o.text) = o.password?.isSome ∧
      CSessionDL.namesDatabase (trim o.text) = o.database?.isSome := by
  cases o with
  | password pw =>
    rw [ConnectionOption.trim_password h.2, ConnectionOption.text,
      namesPassword_append_cons (Or.inr rfl), namesDatabase_append_cons (Or.inr rfl)]
    exact ⟨rfl, rfl⟩
  | database n =>
    rw [ConnectionOption.trim_database, ConnectionOption.text,
      namesPassword_append_cons (Or.inr rfl), namesDatabase_append_cons (Or.inr rfl)]
    exact ⟨rfl, rfl⟩
  | other name value =>
    obtain ⟨-, -, -, hspace, hpassword, hdatabase⟩ := h
    have hbegins := trim_prefix (b := value) hspace
    rw [← namesPassword_append_cons (b := value) (Or.inr rfl)] at hpassword
    rw [← namesDatabase_append_cons (b := value) (Or.inr rfl), CSessionDL.namesDatabase,
      Bool.or_eq_false_iff] at hdatabase
    refine ⟨isPrefixOf_shorter hbegins hpassword, ?_⟩
    exact Bool.or_eq_false_iff.mpr
      ⟨isPrefixOf_shorter hbegins hdatabase.1, isPrefixOf_shorter hbegins hdatabase.2⟩

/-- INTERNAL: the first part that is taken for a setting is the first option that is it. -/
theorem find?_options {β : Type} (names : Bstr → Bool) (setting : ConnectionOption → Option β)
    (written : β → Bstr) {options : List ConnectionOption}
    (hnames : ∀ o ∈ options, names (trim o.text) = (setting o).isSome)
    (hwritten : ∀ o ∈ options, ∀ v, setting o = some v → trim o.text = written v) :
    ((options.map ConnectionOption.text).map trim).find? names =
      (options.findSome? setting).map written := by
  induction options with
  | nil => rfl
  | cons o options ih =>
    have hrest := ih (fun o' ho => hnames o' (List.mem_cons_of_mem o ho))
      fun o' ho => hwritten o' (List.mem_cons_of_mem o ho)
    have hfirst := hnames o List.mem_cons_self
    rw [List.map_cons, List.map_cons, List.find?_cons, List.findSome?_cons, hfirst, hrest]
    cases hsetting : setting o with
    | none => rfl
    | some v => exact congrArg some (hwritten o List.mem_cons_self v hsetting)

namespace DataSource

variable (d : DataSource)

/-- INTERNAL: the elements of the string. -/
def elements : List Bstr := d.hostPart :: (d.options.map ConnectionOption.text).map trim

/-- INTERNAL: what is cut out of the host is without white space. -/
theorem trim_of_subset {s : Bstr} (h : s ⊆ d.hostPart) : trim s = s :=
  trim_of_noOuterSpace (noOuterSpace_of_forall fun _ hc => (d.isHost.text (some d.port) (h hc)).1)

theorem settingText_subset (s : Bstr) : settingText s ⊆ s := by
  rw [settingText]
  split
  · exact fun c hc => (List.dropWhile_suffix _).subset (List.mem_of_mem_tail hc)
  · exact List.Subset.refl s

/-- **The password that is taken.** -/
theorem readPassword_elements : CSessionDL.readPassword d.elements =
    .ok (narrowed (if CSessionDL.namesPassword d.host then settingText d.hostPart
      else d.password)) := by
  have hhost : CSessionDL.namesPassword d.hostPart = CSessionDL.namesPassword d.host :=
    namesPassword_append_cons (Or.inl rfl)
  have hoptions := find?_options CSessionDL.namesPassword ConnectionOption.password?
    (fun pw => (ConnectionOption.password pw).text)
    (fun o ho => (d.allowed o ho).names.1) fun o ho v hv => by
      cases o with
      | password pw =>
        obtain rfl := Option.some.inj hv
        exact ConnectionOption.trim_password (d.allowed _ ho).2
      | database n => cases hv
      | other name value => cases hv
  rw [CSessionDL.readPassword_eq, elements, List.find?_cons, hhost]
  cases hnames : CSessionDL.namesPassword d.host with
  | true =>
    dsimp only
    rw [d.trim_of_subset (settingText_subset d.hostPart), if_pos rfl]
  | false =>
    dsimp only
    rw [hoptions, if_neg Bool.false_ne_true, DataSource.password]
    cases hfound : d.options.findSome? ConnectionOption.password? with
    | none => rfl
    | some pw =>
      obtain ⟨o, ho, hpw⟩ := List.exists_of_findSome?_eq_some hfound
      have hspace : trim pw = pw := by
        cases o with
        | password pw' =>
          obtain rfl := Option.some.inj hpw
          exact trim_of_noOuterSpace (d.allowed _ ho).2
        | database n => cases hpw
        | other name value => cases hpw
      show Except.ok (narrowed (trim (settingText (ConnectionOption.password pw).text))) = _
      rw [ConnectionOption.text, settingText_append (by decide), hspace]
      rfl

/-- **The number of the database that is taken.** -/
theorem readDatabase_elements : CSessionDL.readDatabase d.elements =
    if CSessionDL.namesDatabase d.host then
      if 0x3D ∈ d.hostPart then stoi (numberText d.hostPart) else .error .outOfRange
    else if d.database < 2 ^ 31 then .ok (d.database : ℤ) else .error .outOfRange := by
  have hhost : CSessionDL.namesDatabase d.hostPart = CSessionDL.namesDatabase d.host :=
    namesDatabase_append_cons (Or.inl rfl)
  have hoptions := find?_options CSessionDL.namesDatabase ConnectionOption.database?
    (fun n => (ConnectionOption.database n).text)
    (fun o ho => (d.allowed o ho).names.2) fun o ho v hv => by
      cases o with
      | password pw => cases hv
      | database n =>
        obtain rfl := Option.some.inj hv
        exact ConnectionOption.trim_database n
      | other name value => cases hv
  rw [CSessionDL.readDatabase_eq, elements, List.find?_cons, hhost]
  cases hnames : CSessionDL.namesDatabase d.host with
  | true =>
    have hnumber : numberText d.hostPart ⊆ d.hostPart := fun c hc =>
      settingText_subset d.hostPart ((List.takeWhile_prefix _).subset hc)
    dsimp only
    rw [d.trim_of_subset hnumber, if_pos rfl]
  | false =>
    dsimp only
    rw [hoptions, if_neg Bool.false_ne_true, DataSource.database]
    cases hfound : d.options.findSome? ConnectionOption.database? with
    | none => rfl
    | some n =>
      have hdigits : (decimalText n).takeWhile (· != 0x3D) = decimalText n :=
        List.takeWhile_eq_self_iff.mpr fun c hc => bne_iff_ne.mpr
          (isSpace_of_isDigit (isDigit_of_mem_decimalText hc)).2.2.2.2.1
      show (if 0x3D ∈ (ConnectionOption.database n).text then
        stoi (trim (numberText (ConnectionOption.database n).text)) else _) = _
      rw [ConnectionOption.text, if_pos (List.mem_append_right _ List.mem_cons_self), numberText,
        settingText_append (by decide), hdigits, trim_of_noOuterSpace (noOuterSpace_decimalText n),
        stoi_decimalText]
      rfl

end DataSource

/-! ## The settings that are used -/

/-- INTERNAL: the request that is made of the password and the numbers. -/
theorem request_iff (host pw password : Bytes) (database : StdRun ℤ) (port m : ℕ) :
    (∃ r, (do
        let databaseNo ← database
        let p ← portRead (some port)
        .ok (some (PoolRequest.mk host p pw (if 0 < databaseNo then databaseNo.toNat else 0)))) =
          (.ok (some r) : StdRun (Option PoolRequest)) ∧ r.host = host ∧ r.port.toNat = port ∧
        r.password = password ∧ r.database = m) ↔
      port < 2 ^ 31 ∧ pw = password ∧ ∃ n, database = .ok n ∧ n.toNat = m := by
  cases database with
  | error e =>
    constructor
    · rintro ⟨r, hrun, -⟩
      cases hrun
    · rintro ⟨-, -, n, hn, -⟩
      cases hn
  | ok n =>
    have hnumber : (if 0 < n then n.toNat else 0) = n.toNat := by
      split <;> omega
    by_cases hport : port < 2 ^ 31
    · rw [portRead, if_pos hport]
      constructor
      · rintro ⟨r, hrun, -, -, hpw, hm⟩
        obtain rfl := Option.some.inj (Except.ok.inj hrun)
        exact ⟨hport, hpw, n, rfl, hnumber ▸ hm⟩
      · rintro ⟨-, hpw, n', hn, hm⟩
        obtain rfl := Except.ok.inj hn
        refine ⟨_, rfl, rfl, ?_, hpw, hnumber.trans hm⟩
        exact Nat.mod_eq_of_lt (by omega)
    · rw [portRead, if_neg hport]
      constructor
      · rintro ⟨r, hrun, -⟩
        cases hrun
      · exact fun h => absurd h.1 hport

/-- **`OpenDBConnection` uses the settings of a string exactly if the host does not hide them and
the numbers fit.** -/
theorem usesSettings_iff (d : DataSource) : UsesSettings d ↔ SettingsReadable d := by
  have hopen : CSessionDL.openDBConnection d.text =
      (do
        let pw ← CSessionDL.readPassword d.elements
        let databaseNo ← CSessionDL.readDatabase d.elements
        let p ← portRead (some d.port)
        .ok (some {
          host := ws2s d.host
          port := p
          password := pw
          database := if 0 < databaseNo then databaseNo.toNat else 0 })) :=
    d.isHost.openDBConnection (some d.port) fun o ho => by
      obtain ⟨option, hoption, rfl⟩ := List.mem_map.mp ho
      exact (d.allowed option hoption).noComma
  have hpassword : narrowed (if CSessionDL.namesPassword d.host then settingText d.hostPart
      else d.password) = ws2s d.password ↔
      if CSessionDL.namesPassword d.host then
        narrowed (settingText d.hostPart) = ws2s d.password
      else AsciiUtf16 d.password := by
    split
    · exact Iff.rfl
    · exact map_toUInt8_eq_utf16ToUtf8_iff
  rw [UsesSettings, hopen, d.readPassword_elements, d.readDatabase_elements]
  refine (request_iff _ _ _ _ d.port d.database).trans ?_
  rw [hpassword]
  constructor
  · rintro ⟨hport, hpw, n, hn, hm⟩
    refine ⟨hport, hpw, ?_⟩
    split_ifs at hn ⊢ with hnames hequals hsmall
    · exact ⟨hequals, n, hn, hm⟩
    · exact hsmall
  · rintro ⟨hport, hpw, hdatabase⟩
    refine ⟨hport, hpw, ?_⟩
    split_ifs at hdatabase ⊢ with hnames hequals
    · exact hdatabase.2
    · exact absurd hdatabase.1 hequals
    · exact ⟨d.database, rfl, rfl⟩

/-- A server with a password and a database of its own. -/
def cacheServer : DataSource where
  host := Bstr.ofString "cache"
  port := 6380
  options := [.other (Bstr.ofString "ssl") (Bstr.ofString "true"),
    .password (Bstr.ofString "a=b"), .database 2]
  isHost := isHost_of_all (by decide) (by decide)
  allowed o ho := by
    rcases List.mem_cons.mp ho with rfl | ho
    · exact ⟨by decide, by decide, by decide, isSpace_head? rfl rfl, by decide, by decide⟩
    rcases List.mem_cons.mp ho with rfl | ho
    · exact ⟨by decide, noOuterSpace_of_forall fun c hc => Bool.not_eq_true' _ ▸
        List.all_eq_true.mp (by decide : (Bstr.ofString "a=b").all (!isSpace ·) = true) c hc⟩
    · obtain rfl := List.mem_singleton.mp ho
      trivial

/-- **All settings of that server are used.** -/
theorem cacheServer_usesSettings : UsesSettings cacheServer :=
  (usesSettings_iff cacheServer).mpr
    ⟨by decide, by decide, by rw [if_neg (by decide)]; decide⟩

/-- A server whose name begins as the option for the database does. -/
def databaseServer : DataSource where
  host := Bstr.ofString "database1"
  port := 6379
  options := []
  isHost := isHost_of_all (by decide) (by decide)
  allowed o ho := absurd ho List.not_mem_nil

/-- **The host is read as the number of the database.** -/
theorem databaseServer_not_usesSettings : ¬ UsesSettings databaseServer := by
  rintro ⟨r, hrun, -⟩
  have hthrows : CSessionDL.openDBConnection databaseServer.text = .error .outOfRange := by
    decide
  rw [hthrows] at hrun
  cases hrun

end IspSession.Analysis
