import IspSession.Analysis.ConnectionParts

/-!
# One `DataSource` string, read by classic ASP and by ASP.NET

Classic ASP trims the parts and looks for the names of the settings as they are written;
`GetDBFromConnString` does not trim them and takes any case. Each side reads the first part it
finds. `DataBase` also takes the option out of the string: it copies the parts that do not begin
with `database` into an array that is one shorter. When the two readings agree is said by how the
string is spelled: which parts begin with the names, and the digits behind `=`.
-/

set_option autoImplicit false

namespace IspSession.Analysis

open IspSession.Library
open IspSession.Model

/-! ## The spelling of numbers -/

/-- A sign, or none. -/
inductive SignText : Bool → Bstr → Prop
  | none : SignText false []
  | plus : SignText false [0x2B]
  | minus : SignText true [0x2D]

/-- The text is white space, perhaps a sign, the digits of an `int`, and the rest. -/
def SpellsNumber (white : UInt16 → Bool) (s : Bstr) (n : ℤ) (rest : Bstr) : Prop :=
  ∃ front negative sign digits, s = front ++ (sign ++ (digits ++ rest)) ∧
    (∀ c ∈ front, white c = true) ∧ SignText negative sign ∧ digits ≠ [] ∧
    (∀ c ∈ digits, isDigit c = true) ∧ (∀ c ∈ rest.head?, isDigit c = false) ∧
    n = signedNumber negative digits ∧ -2 ^ 31 ≤ n ∧ n < 2 ^ 31

/-- White space, and NULs behind it. -/
def IsPadding (s : Bstr) : Prop :=
  ∃ spaces nuls, s = spaces ++ nuls ∧ (∀ c ∈ spaces, isSpace c = true) ∧ ∀ c ∈ nuls, c = 0

/-- INTERNAL: a text in front of one that begins otherwise. -/
theorem dropWhile_front {p : UInt16 → Bool} {a b : Bstr} (ha : ∀ c ∈ a, p c = true)
    (hb : ∀ c ∈ b.head?, p c = false) : (a ++ b).dropWhile p = b ∧ (a ++ b).takeWhile p = a := by
  rw [List.dropWhile_append_of_pos ha, List.takeWhile_append_of_pos ha]
  cases b with
  | nil => exact ⟨rfl, List.append_nil a⟩
  | cons c b =>
    have hc : ¬ p c = true := by
      rw [hb c rfl]
      exact Bool.false_ne_true
    exact ⟨List.dropWhile_cons_of_neg hc,
      by rw [List.takeWhile_cons_of_neg hc, List.append_nil]⟩

/-- INTERNAL: the sign is what `readSign` takes from the front of the digits. -/
theorem readSign_append {negative : Bool} {sign s : Bstr} (hsign : SignText negative sign)
    (hs : ∀ c ∈ s.head?, c ≠ 0x2D ∧ c ≠ 0x2B) : readSign (sign ++ s) = (negative, s) := by
  cases hsign with
  | plus => rfl
  | minus => rfl
  | none =>
    cases s with
    | nil => rfl
    | cons c s =>
      obtain ⟨hminus, hplus⟩ := hs c rfl
      rw [List.nil_append, readSign]
      · exact fun t ht => hminus (List.cons.inj ht).1
      · exact fun t ht => hplus (List.cons.inj ht).1

/-- INTERNAL: a sign stands in front of what it leaves. -/
theorem exists_sign (s : Bstr) :
    ∃ sign, SignText (readSign s).1 sign ∧ s = sign ++ (readSign s).2 := by
  unfold readSign
  split
  · exact ⟨_, .minus, rfl⟩
  · exact ⟨_, .plus, rfl⟩
  · exact ⟨_, .none, rfl⟩

/-- INTERNAL: neither a digit nor a sign is white space. -/
theorem not_white {white : UInt16 → Bool} (hwhite : white = isSpace ∨ white = isWhiteSpace)
    {c : UInt16} (hc : isDigit c = true ∨ c = 0x2D ∨ c = 0x2B) : white c = false := by
  rcases hwhite with rfl | rfl <;> rcases hc with hdigit | rfl | rfl
  · exact (isSpace_of_isDigit hdigit).1
  · decide
  · decide
  · exact (isSpace_of_isDigit hdigit).2.1
  · decide
  · decide

/-- **The spelling is what the readers take apart.** -/
theorem spellsNumber_iff {white : UInt16 → Bool} (hwhite : white = isSpace ∨ white = isWhiteSpace)
    {s rest : Bstr} {n : ℤ} :
    SpellsNumber white s n rest ↔
      (readSign (s.dropWhile white)).2.takeWhile isDigit ≠ [] ∧
      (readSign (s.dropWhile white)).2.dropWhile isDigit = rest ∧
      signedNumber (readSign (s.dropWhile white)).1
        ((readSign (s.dropWhile white)).2.takeWhile isDigit) = n ∧ -2 ^ 31 ≤ n ∧ n < 2 ^ 31 := by
  constructor
  · rintro ⟨front, negative, sign, digits, rfl, hfront, hsign, hne, hdigits, hrest, rfl, hrange⟩
    obtain ⟨c, digits', rfl⟩ := List.exists_cons_of_ne_nil hne
    have hc := hdigits c List.mem_cons_self
    obtain ⟨-, -, -, -, -, hminus, hplus⟩ := isSpace_of_isDigit hc
    have hhead : ∀ x ∈ (sign ++ (c :: digits' ++ rest)).head?, white x = false := by
      intro x hx
      refine not_white hwhite ?_
      cases hsign with
      | none => exact .inl (Option.some.inj hx ▸ hc)
      | plus => exact .inr (.inr (Option.some.inj hx).symm)
      | minus => exact .inr (.inl (Option.some.inj hx).symm)
    have hdigit : ∀ x ∈ (c :: digits' ++ rest).head?, x ≠ 0x2D ∧ x ≠ 0x2B := by
      intro x hx
      rw [← Option.some.inj hx]
      exact ⟨hminus, hplus⟩
    rw [(dropWhile_front hfront hhead).1, readSign_append hsign hdigit]
    obtain ⟨hdrop, htake⟩ := dropWhile_front hdigits hrest
    rw [hdrop, htake]
    exact ⟨hne, rfl, rfl, hrange⟩
  · rintro ⟨hne, rfl, rfl, hrange⟩
    obtain ⟨sign, hsign, hs⟩ := exists_sign (s.dropWhile white)
    refine ⟨s.takeWhile white, _, sign, _, ?_, fun c hc => List.mem_takeWhile_imp hc, hsign, hne,
      fun c hc => List.mem_takeWhile_imp hc, fun c hc => ?_, rfl, hrange⟩
    · rw [List.takeWhile_append_dropWhile, ← hs, List.takeWhile_append_dropWhile]
    · have hstops := List.head?_dropWhile_not isDigit (readSign (s.dropWhile white)).2
      rw [show _ = some c from hc] at hstops
      exact hstops

/-- INTERNAL: white space and NULs are what may follow the digits. -/
theorem isPadding_iff {s : Bstr} :
    IsPadding s ↔ (s.dropWhile isSpace).dropWhile (· == 0) = [] := by
  constructor
  · rintro ⟨spaces, nuls, rfl, hspaces, hnuls⟩
    rw [(dropWhile_front hspaces fun c hc => by
      rw [hnuls c (List.mem_of_mem_head? hc)]
      rfl).1]
    exact List.dropWhile_eq_nil_iff.mpr fun c hc => beq_iff_eq.mpr (hnuls c hc)
  · intro h
    exact ⟨s.takeWhile isSpace, s.dropWhile isSpace, (List.takeWhile_append_dropWhile).symm,
      fun c hc => List.mem_takeWhile_imp hc,
      fun c hc => beq_iff_eq.mp (List.dropWhile_eq_nil_iff.mp h c hc)⟩

/-- **`stoi` reads a text that begins with a number.** -/
theorem stoi_iff {s : Bstr} {n : ℤ} :
    stoi s = .ok n ↔ ∃ rest, SpellsNumber isWhiteSpace s n rest := by
  simp only [spellsNumber_iff (.inr rfl)]
  unfold stoi
  dsimp only
  by_cases hne : (readSign (s.dropWhile isWhiteSpace)).2.takeWhile isDigit = []
  · rw [if_pos hne]
    exact ⟨fun h => (nomatch h), fun ⟨_, h, _⟩ => absurd hne h⟩
  · rw [if_neg hne]
    constructor
    · intro h
      split at h
      · rename_i hrange
        obtain rfl := Except.ok.inj h
        exact ⟨_, hne, rfl, rfl, hrange⟩
      · cases h
    · rintro ⟨rest, -, -, rfl, hrange⟩
      exact if_pos hrange

/-- **`int.Parse` reads a text that is a number.** -/
theorem parseInt_iff {s : Bstr} {n : ℤ} :
    parseInt s = .ok n ↔ ∃ rest, SpellsNumber isSpace s n rest ∧ IsPadding rest := by
  simp only [spellsNumber_iff (.inl rfl), isPadding_iff]
  unfold parseInt
  dsimp only
  by_cases hbad : (readSign (s.dropWhile isSpace)).2.takeWhile isDigit = [] ∨
      (((readSign (s.dropWhile isSpace)).2.dropWhile isDigit).dropWhile isSpace).dropWhile
        (· == 0) ≠ []
  · rw [if_pos hbad]
    refine ⟨fun h => (nomatch h), ?_⟩
    rintro ⟨rest, ⟨hne, rfl, -⟩, hpadding⟩
    exact hbad.elim (fun h => absurd h hne) fun h => absurd hpadding h
  · rw [if_neg hbad]
    obtain ⟨hne, hpadding⟩ := not_or.mp hbad
    constructor
    · intro h
      split at h
      · rename_i hrange
        obtain rfl := Except.ok.inj h
        exact ⟨_, ⟨hne, rfl, rfl, hrange⟩, not_not.mp hpadding⟩
      · cases h
    · rintro ⟨rest, ⟨-, -, rfl, hrange⟩, -⟩
      exact if_pos hrange

/-! ## The strings -/

/-- A `DataSource` string: a host, perhaps a port, and options with a name and a value. -/
structure SharedSource where
  host : Bstr
  port : Option ℕ
  options : List Bstr
  isHost : IsHost host
  isPort : ∀ n ∈ port, n < 2 ^ 16
  allowed : ∀ o ∈ options, 0x2C ∉ o ∧ 0x3D ∈ o

/-- The name of an option, in any case and with any white space around it, is `key`. -/
def isNamed (key option : Bstr) : Bool :=
  (netTrim (option.takeWhile (· != 0x3D))).map upperAscii == key.map upperAscii

namespace SharedSource

variable (d : SharedSource)

def hostPart : Bstr := hostText d.host d.port

def text : Bstr := dataSourceText d.hostPart d.options

/-- The string without the options for the database. -/
def textLeft : Bstr :=
  dataSourceText d.hostPart (d.options.filter fun o => !isNamed (Bstr.ofString "database") o)

/-- The first trimmed part with such a name. -/
def nativePart (names : Bstr → Bool) : Option Bstr :=
  (d.hostPart :: d.options.map trim).find? names

/-- The first part with such a name in any case. -/
def managedPart (item : Bstr) : Option Bstr :=
  (d.hostPart :: d.options).find? fun p => startsWithIgnoreCase p item

/-- The password in the first trimmed part that names it, character by character. -/
def nativePassword : Bytes :=
  match d.nativePart CSessionDL.namesPassword with
  | none => []
  | some e => narrowed (trim (settingText e))

/-- The password in the first part that names it in any case. -/
def managedPassword : Bstr :=
  match d.managedPart (Bstr.ofString "password") with
  | none => []
  | some p => netTrim (settingText p)

/-- The first trimmed part that names the database begins with this number behind its `=`. -/
def NativeNumber (n : ℤ) : Prop :=
  match d.nativePart CSessionDL.namesDatabase with
  | none => n = 0
  | some e => 0x3D ∈ e ∧ ∃ rest, SpellsNumber isWhiteSpace (trim (numberText e)) n rest

/-- The first part that names the database in any case is this number behind its `=`. -/
def ManagedNumber (n : ℤ) : Prop :=
  match d.managedPart (Bstr.ofString "database") with
  | none => n = 0
  | some p => 0x3D ∈ p ∧ ∃ rest, SpellsNumber isSpace (netTrim (settingText p)) n rest ∧
      IsPadding rest

/-- The part that names the password in any case has a value. -/
def PasswordGiven : Prop := ∀ p ∈ d.managedPart (Bstr.ofString "password"), 0x3D ∈ p

variable (isDatabase : Bstr → Bool)

/-- A part is left out when the database is named. -/
def RoomLeft : Prop :=
  d.managedPart (Bstr.ofString "database") = none ∨ ∃ p ∈ d.hostPart :: d.options,
    isDatabase p = true

/-- The parts left out are the one option for the database. -/
def DropsDatabase : Prop :=
  match d.managedPart (Bstr.ofString "database") with
  | none => ∀ o ∈ d.options, isNamed (Bstr.ofString "database") o = false
  | some _ => isDatabase d.hostPart = false ∧ d.options.countP isDatabase = 1 ∧
      ∀ o ∈ d.options, isDatabase o = isNamed (Bstr.ofString "database") o

/-- `OpenDBConnection` and the managed code read one string alike, and `DataBase` leaves the other
options. -/
structure ReadAlike (endPoint : Bstr → Option (Bstr × ℕ)) : Prop where
  accepted : (∃ r, CSessionDL.openDBConnection d.text = .ok (some r)) ↔
    ∃ o n after, configOptions d.text = .ok o ∧
      SessionAppSettings.dataBase isDatabase ⟨d.text, none⟩ = .ok (n, after)
  alike : ∀ r o n after, CSessionDL.openDBConnection d.text = .ok (some r) →
    configOptions d.text = .ok o →
    SessionAppSettings.dataBase isDatabase ⟨d.text, none⟩ = .ok (n, after) →
    (∃ host port, endPoint o.EndPoint = some (host, port) ∧ r.host = utf16ToUtf8 host ∧
      r.port.toNat = port) ∧
    r.password = utf16ToUtf8 (o.Password.getD []) ∧ (r.database : ℤ) = n
  again : ∀ n after, SessionAppSettings.dataBase isDatabase ⟨d.text, none⟩ = .ok (n, after) →
    SessionAppSettings.dataBase isDatabase after = .ok (n, after) ∧
      after.DatabaseConnection = d.textLeft

/-- The parts that either side looks at spell one password and one number, and the number is that
of the one option for the database. -/
structure SpelledAlike (n m : ℤ) : Prop where
  native : d.NativeNumber n
  managed : d.ManagedNumber m
  given : d.PasswordGiven
  password : d.nativePassword = utf16ToUtf8 d.managedPassword
  number : (n.toNat : ℤ) = m
  drops : d.DropsDatabase isDatabase

/-- Neither side finds a number where it looks for it, or the managed side no password; a number
that is there is that of the one option for the database. -/
structure SpelledBadly : Prop where
  native : ∀ n, ¬ d.NativeNumber n
  managed : d.PasswordGiven → d.RoomLeft isDatabase → ∀ m, ¬ d.ManagedNumber m
  drops : ∀ m, d.ManagedNumber m → d.RoomLeft isDatabase → d.DropsDatabase isDatabase

variable {d isDatabase}

/-- INTERNAL: the option that is left out is there. -/
theorem DropsDatabase.roomLeft (h : d.DropsDatabase isDatabase) : d.RoomLeft isDatabase := by
  unfold DropsDatabase at h
  unfold RoomLeft
  cases hfound : d.managedPart (Bstr.ofString "database") with
  | none => exact Or.inl rfl
  | some p =>
    rw [hfound] at h
    obtain ⟨o, ho, hdatabase⟩ :=
      List.countP_pos_iff.mp (h.2.1 ▸ Nat.one_pos : 0 < d.options.countP isDatabase)
    exact Or.inr ⟨o, List.mem_cons_of_mem _ ho, hdatabase⟩

/-- INTERNAL: a part spells one number. -/
theorem NativeNumber.unique {n n' : ℤ} (h : d.NativeNumber n) (h' : d.NativeNumber n') : n = n' := by
  unfold NativeNumber at h h'
  cases hfound : d.nativePart CSessionDL.namesDatabase with
  | none =>
    rw [hfound] at h h'
    exact h.trans h'.symm
  | some e =>
    rw [hfound] at h h'
    exact Except.ok.inj ((stoi_iff.mpr h.2).symm.trans (stoi_iff.mpr h'.2))

/-- INTERNAL: so it does for the managed side. -/
theorem ManagedNumber.unique {n n' : ℤ} (h : d.ManagedNumber n) (h' : d.ManagedNumber n') :
    n = n' := by
  unfold ManagedNumber at h h'
  cases hfound : d.managedPart (Bstr.ofString "database") with
  | none =>
    rw [hfound] at h h'
    exact h.trans h'.symm
  | some p =>
    rw [hfound] at h h'
    exact Except.ok.inj ((parseInt_iff.mpr h.2).symm.trans (parseInt_iff.mpr h'.2))

variable (d isDatabase)

/-! ## Classic ASP -/

/-- INTERNAL: the port that is used. -/
theorem portRead_eq : ∃ p, portRead d.port = .ok p ∧ p.toNat = d.port.getD 6379 := by
  cases hport : d.port with
  | none => exact ⟨6379, rfl, rfl⟩
  | some n =>
    have hn := d.isPort n hport
    refine ⟨BitVec.ofNat 32 n, by rw [portRead, if_pos (by omega)], ?_⟩
    exact Nat.mod_eq_of_lt (by omega)

/-- **What classic ASP asks for.** -/
theorem openDBConnection_iff (r : PoolRequest) :
    CSessionDL.openDBConnection d.text = .ok (some r) ↔
      ∃ n, d.NativeNumber n ∧ r.host = ws2s d.host ∧ r.port.toNat = d.port.getD 6379 ∧
        r.password = d.nativePassword ∧ r.database = n.toNat := by
  obtain ⟨p, hport, hp⟩ := d.portRead_eq
  have hopen := d.isHost.openDBConnection d.port fun o ho => (d.allowed o ho).1
  have hpassword : CSessionDL.readPassword (hostText d.host d.port :: d.options.map trim) =
      .ok d.nativePassword := CSessionDL.readPassword_eq _
  have hdatabase : ∀ n, CSessionDL.readDatabase (hostText d.host d.port :: d.options.map trim) =
      .ok n ↔ d.NativeNumber n := by
    intro n
    rw [CSessionDL.readDatabase_eq]
    unfold NativeNumber nativePart hostPart
    cases (hostText d.host d.port :: d.options.map trim).find? CSessionDL.namesDatabase with
    | none => exact ⟨fun h => (Except.ok.inj h).symm, fun h => congrArg _ h.symm⟩
    | some e =>
      dsimp only
      by_cases hmem : 0x3D ∈ e
      · rw [if_pos hmem, and_iff_right hmem, stoi_iff]
      · rw [if_neg hmem]
        exact ⟨fun h => (nomatch h), fun h => absurd h.1 hmem⟩
  have hpositive : ∀ n : ℤ, (if 0 < n then n.toNat else 0) = n.toNat := by
    intro n
    split <;> omega
  rw [text, hostPart, hopen, hpassword, hport]
  cases hread : CSessionDL.readDatabase (hostText d.host d.port :: d.options.map trim) with
  | error e =>
    refine ⟨fun h => (nomatch h), ?_⟩
    rintro ⟨n, hn, -⟩
    rw [(hdatabase n).mpr hn] at hread
    cases hread
  | ok m =>
    have hm := (hdatabase m).mp hread
    constructor
    · intro h
      obtain rfl := Option.some.inj (Except.ok.inj h)
      exact ⟨m, hm, rfl, hp, rfl, hpositive m⟩
    · rintro ⟨n, hn, hhost, hport, hpassword, hnumber⟩
      have hsame := hread.symm.trans ((hdatabase n).mpr hn)
      obtain rfl := Except.ok.inj hsame
      obtain ⟨host, port, password, database⟩ := r
      refine congrArg (fun r => Except.ok (some r)) ?_
      rw [PoolRequest.mk.injEq]
      exact ⟨hhost.symm, BitVec.eq_of_toNat_eq (hp.trans hport.symm), hpassword.symm,
        (hpositive m).trans hnumber.symm⟩

/-! ## ASP.NET -/

/-- INTERNAL: the text behind the first `=`. -/
theorem behindEquals_eq (s : Bstr) :
    behindEquals s = if 0x3D ∈ s then .ok (settingText s) else .error .indexOutOfRange := by
  by_cases hmem : 0x3D ∈ s
  · obtain ⟨a, b, rfl, ha⟩ := List.eq_append_cons_of_mem hmem
    rw [if_pos hmem, settingText_append ha, behindEquals,
      List.dropWhile_append_of_pos (p := (· != 0x3D)) fun c hc =>
        bne_iff_ne.mpr (ne_of_mem_of_not_mem hc ha)]
    rfl
  · have hnone : s.dropWhile (· != 0x3D) = [] := List.dropWhile_eq_nil_iff.mpr fun c hc =>
      bne_iff_ne.mpr (ne_of_mem_of_not_mem hc hmem)
    rw [if_neg hmem, behindEquals, hnone]

/-- INTERNAL: what is found in the string. -/
theorem getDBFromConnString_eq (item : Bstr) :
    SessionAppSettings.getDBFromConnString d.text item =
      match d.managedPart item with
      | none => .ok none
      | some p => if 0x3D ∈ p then .ok (some (netTrim (settingText p)))
        else .error .indexOutOfRange := by
  have hparts : d.text.splitOn 0x2C = d.hostPart :: d.options :=
    d.isHost.splitOn d.port fun o ho => (d.allowed o ho).1
  rw [SessionAppSettings.getDBFromConnString, hparts, managedPart]
  cases (d.hostPart :: d.options).find? fun p => startsWithIgnoreCase p item with
  | none => rfl
  | some p =>
    dsimp only
    rw [behindEquals_eq]
    by_cases hmem : 0x3D ∈ p
    · rw [if_pos hmem, if_pos hmem]
      rfl
    · rw [if_neg hmem, if_neg hmem]
      rfl

/-- INTERNAL: the array is filled with the parts that are kept, while there is room. -/
theorem keepParts_eq (parts : List Bstr) (kept : List Bstr) (room : ℕ) :
    SessionAppSettings.keepParts isDatabase parts kept.length
        (kept.map some ++ List.replicate room none) =
      if (parts.filter fun p => !isDatabase p).length ≤ room then
        .ok ((kept ++ parts.filter fun p => !isDatabase p).map some ++
          List.replicate (room - (parts.filter fun p => !isDatabase p).length) none)
      else .error .indexOutOfRange := by
  induction parts generalizing kept room with
  | nil =>
    rw [SessionAppSettings.keepParts, List.filter_nil, List.length_nil, if_pos (Nat.zero_le room),
      List.append_nil, Nat.sub_zero]
  | cons part parts ih =>
    cases hdatabase : isDatabase part with
    | true =>
      have hfilter : (part :: parts).filter (fun p => !isDatabase p) =
          parts.filter fun p => !isDatabase p :=
        List.filter_cons_of_neg (by rw [hdatabase]; exact Bool.false_ne_true)
      rw [SessionAppSettings.keepParts, if_pos hdatabase, ih, hfilter]
    | false =>
      have hfilter : (part :: parts).filter (fun p => !isDatabase p) =
          part :: parts.filter fun p => !isDatabase p :=
        List.filter_cons_of_pos (by rw [hdatabase]; rfl)
      have hlength : (kept.map some ++ List.replicate room (none : Option Bstr)).length =
          kept.length + room := by
        rw [List.length_append, List.length_map, List.length_replicate]
      rw [SessionAppSettings.keepParts, if_neg (by rw [hdatabase]; exact Bool.false_ne_true),
        hlength, hfilter, List.length_cons]
      cases room with
      | zero => rw [if_neg (by omega), if_neg (by omega)]
      | succ room =>
        have hset : (kept.map some ++ List.replicate (room + 1) none).set kept.length (some part) =
            (kept ++ [part]).map some ++ List.replicate room none := by
          rw [List.set_append_right _ _ (by rw [List.length_map]), List.length_map, Nat.sub_self,
            List.replicate_succ, List.set_cons_zero, List.map_append, List.append_assoc]
          rfl
        have hrest := ih (kept ++ [part]) room
        rw [List.length_append, List.length_singleton, List.append_assoc, List.singleton_append]
          at hrest
        rw [if_pos (by omega), hset, hrest, Nat.add_sub_add_right]
        by_cases hroom : (parts.filter fun p => !isDatabase p).length ≤ room
        · rw [if_pos hroom, if_pos (by omega)]
        · rw [if_neg hroom, if_neg (by omega)]

/-- The parts that `DataBase` keeps, and an empty one for each left out but one. -/
def keptParts : List Bstr :=
  ((d.hostPart :: d.options).filter fun p => !isDatabase p) ++
    List.replicate ((d.hostPart :: d.options).countP isDatabase - 1) []

/-- The string that `DataBase` leaves. -/
def connectionLeft : Bstr :=
  if d.managedPart (Bstr.ofString "database") = none then d.text
  else [0x2C].intercalate (d.keptParts isDatabase)

/-- INTERNAL: the string is written anew when there is room for its parts. -/
theorem rewritten :
    SessionAppSettings.keepParts isDatabase (d.hostPart :: d.options) 0
        (List.replicate ((d.hostPart :: d.options).length - 1) none) >>=
      (fun newParts => .ok (SessionAppSettings.joinParts newParts)) =
    if ∃ p ∈ d.hostPart :: d.options, isDatabase p = true then
      .ok ([0x2C].intercalate (d.keptParts isDatabase))
    else .error .indexOutOfRange := by
  have hloop := keepParts_eq isDatabase (d.hostPart :: d.options) [] d.options.length
  have hcount := List.length_eq_countP_add_countP isDatabase (l := d.hostPart :: d.options)
  rw [← List.countP_eq_length_filter] at hloop
  have hnot : (d.hostPart :: d.options).countP (fun p => !isDatabase p) =
      (d.hostPart :: d.options).countP fun p => decide ¬isDatabase p = true := by
    refine List.countP_congr fun p _ => ?_
    cases isDatabase p <;> decide
  rw [← hnot, List.length_cons] at hcount
  rw [List.map_nil, List.nil_append, List.nil_append, List.length_nil] at hloop
  rw [List.length_cons, Nat.add_sub_cancel, hloop]
  by_cases hsome : ∃ p ∈ d.hostPart :: d.options, isDatabase p = true
  · have hpos : 0 < (d.hostPart :: d.options).countP isDatabase := List.countP_pos_iff.mpr hsome
    rw [if_pos hsome, if_pos (by omega)]
    refine congrArg Except.ok ?_
    rw [SessionAppSettings.joinParts, keptParts, List.map_append, List.map_map,
      List.map_replicate]
    have hnumber : d.options.length - (d.hostPart :: d.options).countP (fun p => !isDatabase p) =
        (d.hostPart :: d.options).countP isDatabase - 1 := by omega
    rw [hnumber]
    refine congrArg (fun kept => [0x2C].intercalate (kept ++ _)) (List.map_id _)
  · have hzero : (d.hostPart :: d.options).countP isDatabase = 0 :=
      List.countP_eq_zero.mpr fun p hp hdatabase => hsome ⟨p, hp, hdatabase⟩
    rw [if_neg hsome, if_neg (by omega)]
    rfl

/-- **What `DataBase` gives, and leaves.** -/
theorem dataBase_iff (n : ℤ) (after : SessionAppSettings.Connection) :
    SessionAppSettings.dataBase isDatabase ⟨d.text, none⟩ = .ok (n, after) ↔
      d.ManagedNumber n ∧ d.RoomLeft isDatabase ∧
        after = ⟨d.connectionLeft isDatabase, some n⟩ := by
  have hparts : d.text.splitOn 0x2C = d.hostPart :: d.options :=
    d.isHost.splitOn d.port fun o ho => (d.allowed o ho).1
  have hrewritten := d.rewritten isDatabase
  rw [SessionAppSettings.dataBase]
  dsimp only
  rw [getDBFromConnString_eq, hparts]
  unfold ManagedNumber RoomLeft connectionLeft
  cases d.managedPart (Bstr.ofString "database") with
  | none =>
    rw [if_pos rfl]
    constructor
    · intro h
      obtain ⟨rfl, rfl⟩ := Prod.mk.inj (Except.ok.inj h)
      exact ⟨rfl, Or.inl rfl, rfl⟩
    · rintro ⟨rfl, -, rfl⟩
      rfl
  | some p =>
    dsimp only
    rw [if_neg (Option.some_ne_none p)]
    by_cases hmem : 0x3D ∈ p
    · rw [if_pos hmem, NetRun.ok_bind]
      show (parseInt (netTrim (settingText p)) >>= _) = _ ↔ _
      cases hnumber : parseInt (netTrim (settingText p)) with
      | error e =>
        refine ⟨fun h => (nomatch h), ?_⟩
        rintro ⟨⟨-, hn⟩, -⟩
        rw [parseInt_iff.mpr hn] at hnumber
        cases hnumber
      | ok m =>
        have hne : (some (netTrim (settingText p))).getD [] ≠ [] := by
          intro hnil
          rw [Option.getD_some] at hnil
          rw [hnil] at hnumber
          cases hnumber
        rw [NetRun.ok_bind, if_pos hne]
        cases hkeep : SessionAppSettings.keepParts isDatabase (d.hostPart :: d.options) 0
            (List.replicate ((d.hostPart :: d.options).length - 1) none) with
        | error e =>
          rw [hkeep] at hrewritten
          refine ⟨fun h => (nomatch h), ?_⟩
          rintro ⟨-, hroom, -⟩
          rw [if_pos (hroom.resolve_left (Option.some_ne_none p))] at hrewritten
          cases hrewritten
        | ok newParts =>
          rw [hkeep, NetRun.ok_bind] at hrewritten
          split at hrewritten
          · rename_i hroom
            rw [NetRun.ok_bind, Except.ok.inj hrewritten]
            constructor
            · intro h
              obtain ⟨rfl, rfl⟩ := Prod.mk.inj (Except.ok.inj h)
              exact ⟨⟨hmem, parseInt_iff.mp hnumber⟩, Or.inr hroom, rfl⟩
            · rintro ⟨⟨-, hn⟩, -, rfl⟩
              obtain rfl := Except.ok.inj (hnumber.symm.trans (parseInt_iff.mpr hn))
              rfl
          · cases hrewritten
    · rw [if_neg hmem]
      refine ⟨fun h => (nomatch h), ?_⟩
      rintro ⟨⟨hin, -⟩, -⟩
      exact absurd hin hmem

/-- **What the connection is configured with.** -/
theorem configOptions_ok {o : ConfigurationOptions} (h : configOptions d.text = .ok o) :
    d.PasswordGiven ∧ o.EndPoint = d.hostPart ∧ o.Password.getD [] = d.managedPassword := by
  have hparts : d.text.splitOn 0x2C = d.hostPart :: d.options :=
    d.isHost.splitOn d.port fun o ho => (d.allowed o ho).1
  rw [configOptions] at h
  obtain ⟨pw, hpw, h⟩ := NetRun.bind_eq_ok h
  obtain ⟨dbNo, -, h⟩ := NetRun.bind_eq_ok h
  obtain ⟨db, -, h⟩ := NetRun.bind_eq_ok h
  obtain rfl := Except.ok.inj h
  rw [getDBFromConnString_eq] at hpw
  rw [hparts]
  unfold PasswordGiven managedPassword
  cases hfound : d.managedPart (Bstr.ofString "password") with
  | none =>
    rw [hfound] at hpw
    obtain rfl := Except.ok.inj hpw
    exact ⟨fun p hp => (nomatch hp), rfl, rfl⟩
  | some p =>
    rw [hfound] at hpw
    dsimp only at hpw ⊢
    split at hpw
    · rename_i hmem
      obtain rfl := Except.ok.inj hpw
      exact ⟨fun q hq => Option.some.inj hq ▸ hmem, rfl, rfl⟩
    · cases hpw

/-- **It is configured when the password and the number can be read.** -/
theorem configOptions_of_number (hpassword : d.PasswordGiven) {n : ℤ} (hn : d.ManagedNumber n) :
    ∃ o, configOptions d.text = .ok o := by
  have hpw : ∃ pw, SessionAppSettings.getDBFromConnString d.text (Bstr.ofString "password") =
      .ok pw := by
    rw [getDBFromConnString_eq]
    cases hfound : d.managedPart (Bstr.ofString "password") with
    | none => exact ⟨none, rfl⟩
    | some p => exact ⟨_, if_pos (hpassword p hfound)⟩
  have hdb : ∃ dbNo db, SessionAppSettings.getDBFromConnString d.text (Bstr.ofString "database") =
      .ok dbNo ∧ defaultDatabase dbNo = .ok db := by
    rw [getDBFromConnString_eq]
    unfold ManagedNumber at hn
    cases hfound : d.managedPart (Bstr.ofString "database") with
    | none => exact ⟨none, -1, rfl, rfl⟩
    | some p =>
      rw [hfound] at hn
      dsimp only at hn
      have hparse := parseInt_iff.mpr hn.2
      have hne : netTrim (settingText p) ≠ [] := by
        intro hnil
        rw [hnil] at hparse
        exact nomatch hparse
      exact ⟨_, n, if_pos hn.1, (if_pos hne).trans hparse⟩
  obtain ⟨pw, hpw⟩ := hpw
  obtain ⟨dbNo, db, hdbNo, hdb⟩ := hdb
  rw [configOptions, hpw, NetRun.ok_bind, hdbNo, NetRun.ok_bind, hdb]
  exact ⟨_, rfl⟩

/-! ## The parts that are left -/

/-- INTERNAL: texts joined by commas are the same only for the same parts. -/
theorem intercalate_inj {parts parts' : List Bstr} (h : ∀ p ∈ parts, 0x2C ∉ p)
    (h' : ∀ p ∈ parts', 0x2C ∉ p) (hne : parts ≠ []) (hne' : parts' ≠ []) :
    [(0x2C : UInt16)].intercalate parts = [0x2C].intercalate parts' ↔ parts = parts' := by
  refine ⟨fun hsame => ?_, congrArg _⟩
  rw [← List.splitOn_intercalate 0x2C h hne, hsame, List.splitOn_intercalate 0x2C h' hne']

/-- INTERNAL: two tests keep the same members only if they agree on all. -/
theorem filter_eq_filter_iff {α : Type} {p q : α → Bool} {l : List α} :
    l.filter p = l.filter q ↔ ∀ x ∈ l, p x = q x := by
  refine ⟨fun hsame x hx => Bool.eq_iff_iff.mpr ⟨fun hp => ?_, fun hq => ?_⟩, List.filter_congr⟩
  · exact (List.mem_filter.mp (hsame ▸ List.mem_filter.mpr ⟨hx, hp⟩)).2
  · exact (List.mem_filter.mp (hsame.symm ▸ List.mem_filter.mpr ⟨hx, hq⟩)).2

/-- INTERNAL: no part is empty or has a comma. -/
theorem plain_part {p : Bstr} (hp : p ∈ d.hostPart :: d.options) : p ≠ [] ∧ 0x2C ∉ p := by
  rcases List.mem_cons.mp hp with rfl | hp
  · exact ⟨d.isHost.text_ne_nil d.port, fun hmem => (d.isHost.text d.port hmem).2 rfl⟩
  · exact ⟨List.ne_nil_of_mem (d.allowed p hp).2, (d.allowed p hp).1⟩

/-- INTERNAL: the parts that should be left. -/
theorem plain_left {p : Bstr} (hp : p ∈ d.hostPart ::
    d.options.filter fun o => !isNamed (Bstr.ofString "database") o) : p ≠ [] ∧ 0x2C ∉ p := by
  rcases List.mem_cons.mp hp with rfl | hp
  · exact d.plain_part List.mem_cons_self
  · exact d.plain_part (List.mem_cons_of_mem _ (List.mem_filter.mp hp).1)

/-- INTERNAL: the kept parts are the ones that should be left. -/
theorem keptParts_eq_iff (hroom : ∃ p ∈ d.hostPart :: d.options, isDatabase p = true) :
    d.keptParts isDatabase =
        d.hostPart :: d.options.filter (fun o => !isNamed (Bstr.ofString "database") o) ↔
      isDatabase d.hostPart = false ∧ d.options.countP isDatabase = 1 ∧
        ∀ o ∈ d.options, isDatabase o = isNamed (Bstr.ofString "database") o := by
  have hpos : 0 < (d.hostPart :: d.options).countP isDatabase := List.countP_pos_iff.mpr hroom
  constructor
  · intro hsame
    have hone : (d.hostPart :: d.options).countP isDatabase = 1 := by
      by_contra hmore
      have hempty : ([] : Bstr) ∈ d.keptParts isDatabase :=
        List.mem_append_right _ (List.mem_replicate.mpr ⟨by omega, rfl⟩)
      exact (d.plain_left (hsame ▸ hempty)).1 rfl
    have hkept : (d.hostPart :: d.options).filter (fun p => !isDatabase p) =
        d.hostPart :: d.options.filter (fun o => !isNamed (Bstr.ofString "database") o) := by
      rw [← hsame, keptParts, hone, List.replicate_zero, List.append_nil]
    have hhost : isDatabase d.hostPart = false := by
      have hmem : d.hostPart ∈ (d.hostPart :: d.options).filter fun p => !isDatabase p :=
        hkept ▸ List.mem_cons_self
      exact Bool.not_eq_true' _ ▸ (List.mem_filter.mp hmem).2
    rw [List.filter_cons_of_pos (by rw [hhost]; rfl), List.cons_inj_right, filter_eq_filter_iff]
      at hkept
    rw [List.countP_cons_of_neg (by rw [hhost]; exact Bool.false_ne_true)] at hone
    exact ⟨hhost, hone, fun o ho => Bool.not_inj (hkept o ho)⟩
  · rintro ⟨hhost, hone, hagree⟩
    have hfilter : d.options.filter (fun p => !isDatabase p) =
        d.options.filter fun o => !isNamed (Bstr.ofString "database") o :=
      List.filter_congr fun o ho => congrArg Bool.not (hagree o ho)
    rw [keptParts, List.countP_cons_of_neg (by rw [hhost]; exact Bool.false_ne_true), hone,
      List.replicate_zero, List.append_nil, List.filter_cons_of_pos (by rw [hhost]; rfl), hfilter]

/-- **The other options are left exactly if the parts that are left out are the one option.** -/
theorem connectionLeft_eq_iff (hroom : d.RoomLeft isDatabase) :
    d.connectionLeft isDatabase = d.textLeft ↔ d.DropsDatabase isDatabase := by
  unfold connectionLeft DropsDatabase textLeft
  cases hfound : d.managedPart (Bstr.ofString "database") with
  | none =>
    rw [if_pos rfl, text, dataSourceText, dataSourceText,
      intercalate_inj (fun p hp => (d.plain_part hp).2) (fun p hp => (d.plain_left hp).2)
        (List.cons_ne_nil _ _) (List.cons_ne_nil _ _), List.cons_inj_right, eq_comm,
      List.filter_eq_self]
    exact forall₂_congr fun o _ => Bool.not_eq_true' _ ▸ Iff.rfl
  | some p =>
    have hdropped := hroom.resolve_left (hfound ▸ Option.some_ne_none p)
    rw [if_neg (Option.some_ne_none p)]
    dsimp only
    rw [← keptParts_eq_iff d isDatabase hdropped]
    refine ⟨fun hsame => ?_, fun hsame => hsame ▸ rfl⟩
    by_cases hnil : d.keptParts isDatabase = []
    · have htext := congrArg (List.splitOn 0x2C) hsame
      rw [dataSourceText, List.splitOn_intercalate 0x2C (fun p hp => (d.plain_left hp).2)
        (List.cons_ne_nil _ _), hnil] at htext
      exact absurd (List.cons.inj htext).1.symm (d.plain_part List.mem_cons_self).1
    · refine (intercalate_inj (fun q hq => ?_) (fun q hq => (d.plain_left hq).2) hnil
        (List.cons_ne_nil _ _)).mp hsame
      rcases List.mem_append.mp hq with hq | hq
      · exact (d.plain_part (List.mem_filter.mp hq).1).2
      · rw [(List.mem_replicate.mp hq).2]
        exact List.not_mem_nil

end SharedSource

/-! ## The two readings -/

/-- INTERNAL: both sides accept the string. -/
theorem SharedSource.ReadAlike.spelled {d : SharedSource} {isDatabase : Bstr → Bool}
    {endPoint : Bstr → Option (Bstr × ℕ)} (h : d.ReadAlike isDatabase endPoint) {n m : ℤ}
    (hn : d.NativeNumber n) (hm : d.ManagedNumber m) (hgiven : d.PasswordGiven)
    (hroom : d.RoomLeft isDatabase) : d.SpelledAlike isDatabase n m := by
  obtain ⟨p, -, hp⟩ := d.portRead_eq
  obtain ⟨o, ho⟩ := d.configOptions_of_number hgiven hm
  have hdata := (d.dataBase_iff isDatabase m _).mpr ⟨hm, hroom, rfl⟩
  obtain ⟨-, hpw, hnumber⟩ := h.alike ⟨ws2s d.host, p, d.nativePassword, n.toNat⟩ o m _
    ((d.openDBConnection_iff _).mpr ⟨n, hn, rfl, hp, rfl, rfl⟩) ho hdata
  rw [(d.configOptions_ok ho).2.2] at hpw
  exact ⟨hn, hm, hgiven, hpw, hnumber,
    (d.connectionLeft_eq_iff isDatabase hroom).mp (h.again m _ hdata).2⟩

/-- A client that takes what is before a colon for the host and what is behind it for the port. -/
def plainEndPoint (s : Bstr) : Option (Bstr × ℕ) :=
  match s.splitOn 0x3A with
  | [host] => some (host, 6379)
  | [host, port] => some (host, ofDigits port)
  | _ => none

/-- A culture that compares letters of ASCII. -/
def plainIsDatabase (p : Bstr) : Bool := startsWithIgnoreCase p (Bstr.ofString "database")

/-- A server on this machine, with a password and a database. -/
def localSource : SharedSource where
  host := Bstr.ofString "localhost"
  port := some 6380
  options := [Bstr.ofString "password=secret", Bstr.ofString "database=3"]
  isHost := isHost_of_all (by decide) (by decide)
  isPort n hn := by
    obtain rfl := Option.some.inj hn
    decide
  allowed := by decide

/-- A server whose option for the database is in capitals. -/
def capitalSource : SharedSource where
  host := Bstr.ofString "localhost"
  port := none
  options := [Bstr.ofString "Database=1"]
  isHost := isHost_of_all (by decide) (by decide)
  isPort _ hn := nomatch hn
  allowed := by decide

end IspSession.Analysis
