import Mathlib.Data.List.Nodup
import IspSession.Model.KeyEnumeration
import IspSession.Library.Runs

/-!
# Keys by number and one by one

`get_Key` against the numbering of the keys from one on, and the enumerator of `_NewEnum` against an
`IEnumVARIANT` over the same keys. The index one past the last is a success without a key; `Next`
hands out one key whatever it is asked for, and `Skip` does not reach the end of the keys.
`keyAccess_iff` says when both are right.
-/

set_option autoImplicit false

namespace IspSession.Analysis

open IspSession.Library IspSession.Model

variable {loc : Collation}

/-! ## The claim -/

/-- The native dictionaries. -/
inductive KeyedStore (loc : Collation)
  | session (d : VariantDictionary loc)
  | application (a : CApplication loc)

namespace KeyedStore

/-- The keys in the order of the map. -/
def keys : KeyedStore loc → List Bstr
  | session d => d.dictionary.keys
  | application a => a.dictionary.keys

/-- The number an index stands for: a session takes it as unsigned. -/
def index : KeyedStore loc → BitVec 32 → ℤ
  | session _, i => i.toNat
  | application _, i => i.toInt

/-- `get_Key`. -/
def getKey : KeyedStore loc → BitVec 32 → HResult × Option Bstr
  | session d, i => d.getKey i
  | application a, i => a.getKey i

/-- `_NewEnum`. -/
def newEnum : KeyedStore loc → Run (HResult × Option CCEnum)
  | session d => d.newEnum
  | application a => a.newEnum

/-- The first number behind all indices. -/
def indexEnd : KeyedStore loc → ℕ
  | session _ => 2 ^ 32
  | application _ => 2 ^ 31

end KeyedStore

/-- `get_Key` succeeds for the numbers of the keys, and returns the key of that number. -/
def KeyLaw (keys : List Bstr) (i : ℤ) (answer : HResult × Option Bstr) : Prop :=
  (answer.1.failed = false ↔ 1 ≤ i ∧ i ≤ keys.length) ∧
    (answer.1.failed = false → ∃ key, keys[(i - 1).toNat]? = some key ∧ answer = (.sOk, some key))

/-- Every key is returned for exactly one index. -/
def EachOnce (m : KeyedStore loc) : Prop :=
  ∀ key ∈ m.keys, ∃! i, m.getKey i = (.sOk, some key)

/-- What an `IEnumVARIANT` over `keys` answers while it has `left` to go: a result, the keys handed
out and those still to go. -/
def referenceEnum (keys left : List Bstr) :
    EnumCall → (HResult × List Bstr × List Bstr) × List Bstr
  | .next celt =>
    ((if celt.toNat ≤ left.length then .sOk else .sFalse, left.take celt.toNat,
      left.drop celt.toNat), left.drop celt.toNat)
  | .skip celt =>
    ((if celt.toNat ≤ left.length then .sOk else .sFalse, [], left.drop celt.toNat),
      left.drop celt.toNat)
  | .reset => ((.sOk, [], keys), keys)

/-- The keys a `CCEnum` still has to go. -/
def keysLeft (e : CCEnum) : List Bstr := e.psaCopy.drop e.curel.toNat

/-- The same for a `CCEnum`. -/
def observedEnum (e : CCEnum) (call : EnumCall) :
    Run ((HResult × List Bstr × List Bstr) × CCEnum) := do
  let (hr, fetched, e) ← e.perform call
  pure ((hr, fetched, keysLeft e), e)

/-- **The enumerator behaves as the reference** over a sequence of calls. -/
def EnumeratesAs (keys : List Bstr) (e : CCEnum) (calls : List EnumCall) : Prop :=
  Runs.observe observedEnum calls e = .ok (Runs.answers (referenceEnum keys) calls keys)

/-- A call the enumerator gets right: `Next` for one key, or for more when there is none; `Skip`
that stays before the last key, or at the end of the keys while the sum of the numbers is in
range. -/
def CallWell (keys left : List Bstr) : EnumCall → Prop
  | .next celt => celt.toNat = 1 ∨ (2 ≤ celt.toNat ∧ left = [])
  | .skip celt =>
    celt.toNat < left.length ∨
      (left = [] ∧ 0 < celt.toNat ∧ keys.length + celt.toNat < 2 ^ 32)
  | .reset => True

/-- All calls of a sequence are such. -/
def CallsWell (keys : List Bstr) (calls : List EnumCall) : Prop :=
  Runs.ReferenceMeets (referenceEnum keys) (CallWell keys) calls keys

/-! ## Keys by number -/

/-- INTERNAL: an index that the counting loop accepts and finds, or misses. -/
theorem keyLaw_iff {keys : List Bstr} {i : ℤ} {answer : HResult × Option Bstr}
    (h : answer = if i < 1 ∨ (keys.length : ℤ) + 1 < i then (.eInvalidArg, none)
      else (.sOk, keys[i.toNat - 1]?)) : KeyLaw keys i answer ↔ i ≠ keys.length + 1 := by
  by_cases hrange : i < 1 ∨ (keys.length : ℤ) + 1 < i
  · rw [if_pos hrange] at h
    subst h
    refine iff_of_true ⟨iff_of_false (by decide) ?_, fun hr => by cases hr⟩ ?_
    · omega
    · omega
  · rw [if_neg hrange] at h
    subst h
    constructor
    · rintro ⟨hsucceeds, -⟩
      have hin := hsucceeds.mp rfl
      omega
    · intro hne
      have hpos : (i - 1).toNat = i.toNat - 1 := by omega
      have hlt : i.toNat - 1 < keys.length := by omega
      refine ⟨iff_of_true rfl (by omega), fun _ => ⟨keys[i.toNat - 1], ?_, ?_⟩⟩
      · rw [hpos, List.getElem?_eq_getElem hlt]
      · rw [List.getElem?_eq_getElem hlt]

/-- INTERNAL: what `get_Key` answers. -/
theorem getKey_eq_ite (m : KeyedStore loc) (i : BitVec 32) :
    m.getKey i = if m.index i < 1 ∨ (m.keys.length : ℤ) + 1 < m.index i then (.eInvalidArg, none)
      else (.sOk, m.keys[(m.index i).toNat - 1]?) := by
  cases m with
  | session d =>
    have hsize : d.dictionary.size = d.dictionary.keys.length := by
      rw [OrderedMap.size, OrderedMap.keys, List.length_map]
    simp only [KeyedStore.getKey, KeyedStore.keys, KeyedStore.index, VariantDictionary.getKey, hsize,
      Int.toNat_natCast]
    refine if_congr ?_ rfl rfl
    omega
  | application a =>
    have hsize : a.dictionary.size = a.dictionary.keys.length := by
      rw [OrderedMap.size, OrderedMap.keys, List.length_map]
    rw [KeyedStore.getKey, CApplication.getKey, hsize]
    rfl

/-- INTERNAL: the numbers of the indices. -/
theorem exists_index (m : KeyedStore loc) {n : ℕ} (h : n < m.indexEnd) :
    ∃ i, m.index i = n := by
  cases m with
  | session d =>
    have hlt : n < 2 ^ 32 := h
    refine ⟨BitVec.ofNat 32 n, ?_⟩
    rw [KeyedStore.index, BitVec.toNat_ofNat, Nat.mod_eq_of_lt hlt]
  | application a =>
    have hlt : n < 2 ^ 31 := h
    refine ⟨BitVec.ofNat 32 n, ?_⟩
    rw [KeyedStore.index, BitVec.toInt_eq_toNat_cond, BitVec.toNat_ofNat,
      Nat.mod_eq_of_lt (by omega), if_pos (by omega)]

/-- INTERNAL: different indices are different numbers. -/
theorem index_inj (m : KeyedStore loc) {i j : BitVec 32} (h : m.index i = m.index j) : i = j := by
  cases m with
  | session d => exact BitVec.eq_of_toNat_eq (Int.ofNat.inj h)
  | application a => exact BitVec.eq_of_toInt_eq h

/-- INTERNAL: no index is beyond the end. -/
theorem index_lt (m : KeyedStore loc) (i : BitVec 32) : m.index i < m.indexEnd := by
  cases m with
  | session d =>
    have hlt := i.isLt
    simp only [KeyedStore.index, KeyedStore.indexEnd]
    omega
  | application a =>
    have hlt := BitVec.two_mul_toInt_lt (x := i)
    simp only [KeyedStore.index, KeyedStore.indexEnd]
    omega

/-- INTERNAL: the keys of a map differ. -/
theorem nodup_keys (m : KeyedStore loc) : m.keys.Nodup := by
  have hmap : ∀ {ν : Type} (o : OrderedMap loc.compare ν), o.keys.Nodup := by
    intro ν o
    rw [OrderedMap.keys, List.Nodup, List.pairwise_map]
    refine o.sorted.imp fun {a b} hlt heq => ?_
    have hself : loc.compare b.1 b.1 = .eq := Std.ReflCmp.compare_self
    rw [heq, hself] at hlt
    cases hlt
  cases m with
  | session d => exact hmap d.dictionary
  | application a => exact hmap a.dictionary

/-- INTERNAL: the index of a key. -/
theorem getKey_eq_some_iff (m : KeyedStore loc) {i : BitVec 32} {key : Bstr} :
    m.getKey i = (.sOk, some key) ↔ 1 ≤ m.index i ∧ m.keys[(m.index i).toNat - 1]? = some key := by
  rw [getKey_eq_ite]
  split
  · rename_i hrange
    refine iff_of_false (by simp) ?_
    rintro ⟨hpos, hkey⟩
    have hlt := (List.getElem?_eq_some_iff.mp hkey).1
    omega
  · rename_i hrange
    rw [Prod.mk.injEq]
    exact ⟨fun h => ⟨by omega, h.2⟩, fun h => ⟨rfl, h.2⟩⟩

/-- **Every key has exactly one index** while the indices suffice. -/
theorem eachOnce_iff (m : KeyedStore loc) : EachOnce m ↔ m.keys.length < m.indexEnd := by
  constructor
  · intro h
    by_contra hmany
    have hend : 0 < m.indexEnd := by
      cases m <;> exact Nat.two_pow_pos _
    have hlast : m.indexEnd - 1 < m.keys.length := by omega
    obtain ⟨i, hi, -⟩ := h _ (List.getElem_mem hlast)
    obtain ⟨hpos, hkey⟩ := (getKey_eq_some_iff m).mp hi
    obtain ⟨hlt, heq⟩ := List.getElem?_eq_some_iff.mp hkey
    have hsame := (List.Nodup.getElem_inj_iff (nodup_keys m)).mp heq
    have hbound := index_lt m i
    omega
  · intro hfew key hmem
    obtain ⟨n, hn, hkey⟩ := List.getElem_of_mem hmem
    obtain ⟨i, hi⟩ := exists_index m (n := n + 1) (by omega)
    refine ⟨i, (getKey_eq_some_iff m).mpr ⟨by omega, ?_⟩, fun j hj => ?_⟩
    · have hnat : (m.index i).toNat - 1 = n := by omega
      rw [hnat, List.getElem?_eq_getElem hn, hkey]
    · obtain ⟨hpos, hkeyj⟩ := (getKey_eq_some_iff m).mp hj
      obtain ⟨hlt, heq⟩ := List.getElem?_eq_some_iff.mp hkeyj
      have hsame := (List.Nodup.getElem_inj_iff (nodup_keys m)).mp (heq.trans hkey.symm)
      exact index_inj m (by omega)

/-! ## Keys one by one -/

/-- A `CCEnum` over `keys` that stands where a reference has `left` to go. -/
structure StandsAt (keys : List Bstr) (e : CCEnum) (left : List Bstr) : Prop where
  copy : e.psaCopy = keys
  cells : e.maxel.toNat = keys.length
  inside : e.curel.toNat ≤ keys.length
  left : keys.drop e.curel.toNat = left

/-- INTERNAL: how many keys are left. -/
theorem StandsAt.length {keys left : List Bstr} {e : CCEnum} (h : StandsAt keys e left) :
    left.length = keys.length - e.curel.toNat := by
  rw [← h.left, List.length_drop]

/-- INTERNAL: going on by a number of keys. -/
theorem StandsAt.advance {keys left : List Bstr} {e : CCEnum} (h : StandsAt keys e left)
    (celt : BitVec 32) (hle : e.curel.toNat + celt.toNat ≤ keys.length) :
    StandsAt keys { e with curel := e.curel + celt } (left.drop celt.toNat) := by
  have hlt := e.maxel.isLt
  have hcells := h.cells
  have hsum : (e.curel + celt).toNat = e.curel.toNat + celt.toNat := by
    rw [BitVec.toNat_add, Nat.mod_eq_of_lt (by omega)]
  refine ⟨h.copy, h.cells, ?_, ?_⟩
  · rw [hsum]
    exact hle
  · rw [← h.left, hsum, List.drop_drop]

/-- INTERNAL: the answer of `Next`. -/
theorem perform_next {keys left : List Bstr} {e : CCEnum} (h : StandsAt keys e left)
    (celt : BitVec 32) :
    e.perform (.next celt) =
      match left with
      | [] => .ok (.sFalse, [], e)
      | key :: _ => .ok (.sOk, [key], { e with curel := e.curel + 1 }) := by
  have hcells := h.cells
  have hlength := h.length
  cases left with
  | nil =>
    have hend : ¬ e.curel < e.maxel := by
      rw [BitVec.lt_def]
      rw [List.length_nil] at hlength
      omega
    rw [CCEnum.perform, CCEnum.next, if_neg hend]
    rfl
  | cons key rest =>
    have hinside : e.curel < e.maxel := by
      rw [BitVec.lt_def]
      rw [List.length_cons] at hlength
      omega
    have hkey : e.psaCopy[e.curel.toNat]? = some key := by
      rw [h.copy, ← List.head?_drop, h.left, List.head?_cons]
    rw [CCEnum.perform, CCEnum.next, if_pos hinside, hkey]
    rfl

/-- INTERNAL: the answer of `Skip`. -/
theorem perform_skip (e : CCEnum) (celt : BitVec 32) :
    e.perform (.skip celt) =
      if (e.curel.toNat + celt.toNat) % 2 ^ 32 < e.maxel.toNat then
        .ok (.sOk, [], { e with curel := e.curel + celt })
      else .ok (.sFalse, [], e) := by
  have hsum : (e.curel.toNat + celt.toNat) % 2 ^ 32 < e.maxel.toNat ↔
      e.curel + celt < e.maxel := by
    rw [BitVec.lt_def, BitVec.toNat_add]
  rw [CCEnum.perform, CCEnum.skip]
  by_cases hlt : e.curel + celt < e.maxel
  · rw [if_pos hlt, if_pos (hsum.mpr hlt)]
    rfl
  · rw [if_neg hlt, if_neg (mt hsum.mp hlt)]
    rfl

/-- INTERNAL: what an enumerator that stands somewhere has to go. -/
theorem StandsAt.keysLeft {keys left : List Bstr} {e : CCEnum} (h : StandsAt keys e left) :
    keysLeft e = left := by
  rw [Analysis.keysLeft, h.copy, h.left]

/-- INTERNAL: a call that is right. -/
theorem observedEnum_agrees {keys left : List Bstr} {e : CCEnum} {call : EnumCall}
    (h : StandsAt keys e left) (hwell : CallWell keys left call) :
    ∃ e', observedEnum e call = .ok ((referenceEnum keys left call).1, e') ∧
      StandsAt keys e' (referenceEnum keys left call).2 := by
  have hlength := h.length
  have hinside := h.inside
  have hcells := h.cells
  cases call with
  | next celt =>
    cases left with
    | nil =>
      have hmore : ¬ celt.toNat ≤ ([] : List Bstr).length := by
        rw [List.length_nil]
        rcases hwell with hone | ⟨htwo, -⟩ <;> omega
      refine ⟨e, ?_, ?_⟩
      · rw [observedEnum, perform_next h, Run.ok_bind, referenceEnum, if_neg hmore,
          List.take_nil, List.drop_nil]
        dsimp only
        rw [h.keysLeft]
        rfl
      · rw [referenceEnum, List.drop_nil]
        exact h
    | cons key rest =>
      have hone : celt.toNat = 1 := by
        rcases hwell with hone | ⟨-, hnil⟩
        · exact hone
        · cases hnil
      have hnext : StandsAt keys { e with curel := e.curel + 1 } rest := by
        rw [List.length_cons] at hlength
        have hbit : (1 : BitVec 32).toNat = 1 := rfl
        exact h.advance 1 (by omega)
      refine ⟨{ e with curel := e.curel + 1 }, ?_, ?_⟩
      · rw [observedEnum, perform_next h, Run.ok_bind, referenceEnum, hone,
          if_pos (by rw [List.length_cons]; omega)]
        dsimp only
        rw [hnext.keysLeft]
        rfl
      · rw [referenceEnum, hone]
        exact hnext
  | skip celt =>
    rcases hwell with hbefore | ⟨rfl, hpos, hrange⟩
    · have hgo := h.advance celt (by omega)
      have hsum : (e.curel.toNat + celt.toNat) % 2 ^ 32 < e.maxel.toNat := by
        have hlt := e.maxel.isLt
        rw [Nat.mod_eq_of_lt (by omega)]
        omega
      refine ⟨_, ?_, hgo⟩
      rw [observedEnum, perform_skip, if_pos hsum, Run.ok_bind, referenceEnum, if_pos (by omega)]
      dsimp only
      rw [hgo.keysLeft]
      rfl
    · have hbeyond : ¬ (e.curel.toNat + celt.toNat) % 2 ^ 32 < e.maxel.toNat := by
        rw [List.length_nil] at hlength
        rw [Nat.mod_eq_of_lt (by omega)]
        omega
      refine ⟨e, ?_, ?_⟩
      · rw [observedEnum, perform_skip, if_neg hbeyond, Run.ok_bind, referenceEnum,
          if_neg (by rw [List.length_nil]; omega), List.drop_nil]
        dsimp only
        rw [h.keysLeft]
        rfl
      · rw [referenceEnum, List.drop_nil]
        exact h
  | reset =>
    have hstart : StandsAt keys e.reset keys := ⟨h.copy, h.cells, Nat.zero_le _, rfl⟩
    refine ⟨e.reset, ?_, hstart⟩
    have hleft := hstart.keysLeft
    rw [observedEnum, CCEnum.perform, referenceEnum]
    change Except.ok ((HResult.sOk, [], keysLeft e.reset), e.reset) = _
    rw [hleft]

/-- INTERNAL: a call whose answer is right. -/
theorem callWell_of_observedEnum {keys left : List Bstr} {e e' : CCEnum} {call : EnumCall}
    (h : StandsAt keys e left)
    (hanswer : observedEnum e call = .ok ((referenceEnum keys left call).1, e')) :
    CallWell keys left call := by
  have hlength := h.length
  have hinside := h.inside
  have hcells := h.cells
  cases call with
  | next celt =>
    rw [observedEnum, perform_next h] at hanswer
    cases left with
    | nil =>
      rw [Run.ok_bind, referenceEnum] at hanswer
      have hresult := congrArg (fun r => r.1) (Prod.ext_iff.mp (Except.ok.inj hanswer)).1
      dsimp only at hresult
      split at hresult
      · cases hresult
      · rename_i hmore
        rw [List.length_nil] at hmore
        change celt.toNat = 1 ∨ (2 ≤ celt.toNat ∧ ([] : List Bstr) = [])
        by_cases hone : celt.toNat = 1
        · exact .inl hone
        · exact .inr ⟨by omega, rfl⟩
    | cons key rest =>
      rw [Run.ok_bind, referenceEnum] at hanswer
      have hparts := (Prod.ext_iff.mp (Except.ok.inj hanswer)).1
      have hresult := congrArg (fun r => r.1) hparts
      have hfetched := congrArg (fun r => r.2.1.length) hparts
      dsimp only at hresult hfetched
      split at hresult
      · rename_i hle
        rw [List.length_take, List.length_singleton] at hfetched
        exact .inl (by omega)
      · cases hresult
  | skip celt =>
    rw [observedEnum, perform_skip] at hanswer
    have hlt := celt.isLt
    have hsize := e.maxel.isLt
    split at hanswer
    · rename_i hsum
      have hresult := congrArg (fun r => r.1) (Prod.ext_iff.mp (Except.ok.inj hanswer)).1
      dsimp only [referenceEnum] at hresult
      split at hresult
      · rename_i hle
        refine .inl ?_
        rw [Nat.mod_eq_of_lt (by omega)] at hsum
        omega
      · cases hresult
    · rename_i hsum
      have hparts := (Prod.ext_iff.mp (Except.ok.inj hanswer)).1
      have hresult := congrArg (fun r => r.1) hparts
      have hleft := congrArg (fun r => r.2.2) hparts
      dsimp only [referenceEnum] at hresult hleft
      split at hresult
      · cases hresult
      · rename_i hmore
        rw [h.keysLeft] at hleft
        have hnone : left = [] := by
          rw [hleft]
          exact List.drop_eq_nil_of_le (by omega)
        subst hnone
        rw [List.length_nil] at hlength hmore
        refine .inr ⟨rfl, by omega, ?_⟩
        by_contra hwraps
        have hmod : (e.curel.toNat + celt.toNat) % 2 ^ 32 =
            e.curel.toNat + celt.toNat - 2 ^ 32 := by
          rw [Nat.mod_eq_sub_mod (by omega), Nat.mod_eq_of_lt (by omega)]
        rw [hmod] at hsum
        omega
  | reset => exact trivial

/-- INTERNAL: where the enumerator of a map starts. -/
theorem standsAt_newEnum {keys : List Bstr} {e : CCEnum}
    (h : newEnum keys = .ok (.sOk, some e)) : StandsAt keys e keys := by
  unfold newEnum at h
  dsimp only at h
  split at h
  · cases h
  · split at h
    · rename_i hfits
      obtain rfl := Option.some.inj (Prod.ext_iff.mp (Except.ok.inj h)).2
      have hlt : keys.length < 2 ^ 32 := Nat.lt_of_le_of_lt hfits (BitVec.isLt _)
      refine ⟨rfl, ?_, Nat.zero_le _, rfl⟩
      dsimp only
      rw [BitVec.toNat_ofNat, Nat.mod_eq_of_lt hlt]
    · cases h

/-- **The enumerator of a map behaves as the reference** just over the sequences of calls that are
all right. -/
theorem enumeratesAs_iff {keys : List Bstr} {e : CCEnum} (h : newEnum keys = .ok (.sOk, some e))
    (calls : List EnumCall) : EnumeratesAs keys e calls ↔ CallsWell keys calls := by
  unfold EnumeratesAs CallsWell
  refine Runs.observe_eq_iff (StandsAt keys) ?_ ?_ calls (standsAt_newEnum h)
  · intro e left call hstands hwell
    exact observedEnum_agrees hstands hwell
  · intro e left call e' hstands hanswer
    exact callWell_of_observedEnum hstands hanswer

/-! ## The result -/

/-- **Keys by number and by enumeration agree**: `get_Key` is right for all indices but the one past
the last, every key has one index while the indices suffice, and the enumerator of `_NewEnum` is
the reference just over the calls that are right for the keys it has left. -/
theorem keyAccess_iff (m : KeyedStore loc) :
    (∀ i, KeyLaw m.keys (m.index i) (m.getKey i) ↔ m.index i ≠ m.keys.length + 1) ∧
    (EachOnce m ↔ m.keys.length < m.indexEnd) ∧
    ∀ e, m.newEnum = .ok (.sOk, some e) →
      ∀ calls, EnumeratesAs m.keys e calls ↔ CallsWell m.keys calls := by
  refine ⟨fun i => keyLaw_iff (getKey_eq_ite m i), eachOnce_iff m, fun e he calls => ?_⟩
  cases m with
  | session d => exact enumeratesAs_iff he calls
  | application a => exact enumeratesAs_iff he calls

/-- A session with the variables "a" and "b". -/
def twoVariables : KeyedStore Collation.ordinal :=
  .session { VariantDictionary.new with
    dictionary := (OrderedMap.empty.insert [97] .empty).insert [98] .empty }

theorem twoVariables_keyAccess :
    EachOnce twoVariables ∧
      EnumeratesAs twoVariables.keys ⟨0, 2, twoVariables.keys⟩ [.next 1, .next 1, .next 7, .reset] :=
  ⟨(keyAccess_iff twoVariables).2.1.mpr (by decide),
    ((keyAccess_iff twoVariables).2.2 ⟨0, 2, twoVariables.keys⟩ rfl _).mpr
      ⟨.inl rfl, .inl rfl, .inr ⟨by decide, rfl⟩, trivial, trivial⟩⟩

/-- **The index one past the last and a request for two keys**: the first is a success without a
key, and the second hands out one key and says that it was two. -/
theorem twoVariables_not_keyAccess :
    ¬ KeyLaw twoVariables.keys (twoVariables.index 3) (twoVariables.getKey 3) ∧
      ¬ EnumeratesAs twoVariables.keys ⟨0, 2, twoVariables.keys⟩ [.next 2] := by
  constructor
  · intro h
    have hin := h.1.mp rfl
    exact absurd hin.2 (by decide)
  · intro h
    cases h

end IspSession.Analysis
