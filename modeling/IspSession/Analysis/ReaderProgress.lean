import IspSession.Analysis.ValueReading

/-!
# Readers go forward

Whatever `ReadValue` makes of the bytes in front of it, it leaves them behind: none of its parts
ever moves the stream back (`forward_readValue`).
-/

set_option autoImplicit false

namespace IspSession.Analysis

open IspSession.Library IspSession.Model

/-- The stream has been moved forward, or not at all. -/
def Forward (c c' : Channel) : Prop := ∃ k, c'.stream = c.stream.advance k

theorem Forward.refl (c : Channel) : Forward c c := ⟨0, rfl⟩

theorem Forward.trans {c c' c'' : Channel} (h : Forward c c') (h' : Forward c' c'') :
    Forward c c'' := by
  obtain ⟨k, hk⟩ := h
  obtain ⟨k', hk'⟩ := h'
  exact ⟨k + k', by rw [hk', hk, CStream.advance_advance]⟩

/-- INTERNAL: a read. -/
theorem forward_read (c : Channel) (cb : ℕ) : Forward c (c.read cb).2.2 := by
  unfold Channel.read CStream.read
  dsimp only
  split
  · exact Forward.refl c
  · split
    · exact Forward.refl c
    · exact ⟨_, rfl⟩

/-- INTERNAL: the buffer is not the stream. -/
theorem forward_ensureBuffer {c c' : Channel} {n : ℕ} (h : c.ensureBuffer n = .ok c') :
    Forward c c' := by
  unfold Channel.ensureBuffer at h
  split at h
  · cases h
    exact Forward.refl c
  · dsimp only at h
    split at h
    · cases h
      exact ⟨0, rfl⟩
    · cases h

/-- INTERNAL: a string. -/
theorem forward_readString {strict : Bool} {mem : Memory} {c c' : Channel} {hr : HResult}
    {s : Option Bstr} (h : readString strict mem c = .ok (hr, s, c')) : Forward c c' := by
  unfold readString at h
  dsimp only at h
  split at h
  · cases h
    exact forward_read c 4
  · split at h
    · cases h
      exact forward_read c 4
    · obtain ⟨c₁, hbuffer, h⟩ := Run.bind_eq_ok h
      have hforward := (forward_read c 4).trans (forward_ensureBuffer hbuffer)
      split at h
      · cases h
        exact hforward
      · split at h
        · cases h
        · obtain ⟨text, -, h⟩ := Run.bind_eq_ok h
          cases text <;> cases h <;> exact hforward.trans (forward_read c₁ _)

/-- INTERNAL: a read over the payload union. -/
theorem forward_readOverUnion {strict : Bool} {hr hr' : HResult} {vtype : VarType}
    {pointer : BitVec 64} {cBytes : ℕ} {c c' : Channel} {v : Variant}
    (h : readOverUnion strict hr vtype pointer cBytes c = .ok (hr', v, c')) : Forward c c' := by
  unfold readOverUnion at h
  dsimp only at h
  split at h
  · cases h
  · cases h
    exact forward_read c cBytes

/-- INTERNAL: a value that is no array. -/
theorem forward_readScalar {strict : Bool} {mem : Memory} {vtype : VarType} {c c' : Channel}
    {hr : HResult} {v : Variant} (h : readScalar strict mem vtype c = .ok (hr, v, c')) :
    Forward c c' := by
  unfold readScalar at h
  dsimp only at h
  split at h
  · cases h
    exact Forward.refl c
  · split at h
    · split at h
      · cases h
        exact forward_read c 16
      · cases h
        exact (forward_read c 16).trans (forward_read _ 16)
    · split at h
      · obtain ⟨⟨hr₁, s, c₁⟩, hs, h⟩ := Run.bind_eq_ok h
        dsimp only at h
        split at h
        · cases h
          exact forward_readString hs
        · obtain ⟨⟨hr₂, v₂, c₂⟩, hunion, h⟩ := Run.bind_eq_ok h
          cases h
          exact (forward_readString hs).trans (forward_readOverUnion hunion)
      · split at h
        · split at h
          · split at h
            · cases h
              exact (forward_read c 4).trans (forward_read _ _)
            · split at h
              · cases h
                exact (forward_read c 4).trans (forward_read _ _)
              · exact (forward_read c 4).trans
                  ((forward_read _ _).trans (forward_readOverUnion h))
          · cases h
            exact forward_read c 4
        · split at h
          · cases h
            exact forward_read c _
          · cases h
            exact Forward.refl c

/-- INTERNAL: the bounds of an array. -/
theorem forward_readBounds (strict : Bool) (dims : ℕ) (n : BitVec 32) (c : Channel) :
    Forward c (readBounds strict dims n c).2.2 := by
  induction dims generalizing n c with
  | zero => exact Forward.refl c
  | succ dims ih =>
    unfold readBounds
    exact (forward_read c 8).trans (ih _ _)

/-- A reader of values goes forward. -/
def GoesForward (read : VarType → Channel → Run (HResult × Variant × Channel)) : Prop :=
  ∀ vtype c hr v c', read vtype c = .ok (hr, v, c') → Forward c c'

/-- INTERNAL: a loop over cells that goes forward in each of them. -/
theorem forward_walkArray {α : Type} {visit : List (BitVec 32) → CellState α → Run (CellState α)}
    (hvisit : ∀ is s s', visit is s = .ok s' → Forward s.2.2 s'.2.2)
    {bounds : List SafeArrayBound} {total : BitVec 32} {s s' : CellState α}
    (h : walkArray CellState.go visit bounds total s = .ok s') : Forward s.2.2 s'.2.2 := by
  unfold walkArray at h
  exact Odometer.walk_keeps carryLoop Stuck.fault Stuck.fuel _
    (fun s₁ : CellState α => Forward s.2.2 s₁.2.2)
    (fun is s₁ s₂ h₁ h₂ => h₁.trans (hvisit is s₁ s₂ h₂)) (Forward.refl _) h

/-- INTERNAL: a cell of a `VARIANT` array. -/
theorem forward_readVariantCell {strict : Bool} {mem : Memory} {bounds : List SafeArrayBound}
    {read : VarType → Channel → Run (HResult × Variant × Channel)} (hread : GoesForward read)
    (is : List (BitVec 32)) (s s' : CellState (List Variant))
    (h : readVariantCell strict mem bounds read is s = .ok s') : Forward s.2.2 s'.2.2 := by
  unfold readVariantCell at h
  split at h
  · cases h
    exact Forward.refl _
  · dsimp only at h
    split at h
    · obtain ⟨⟨hr, v, c⟩, hvalue, h⟩ := Run.bind_eq_ok h
      cases h
      exact (forward_read s.2.2 2).trans (hread _ _ _ _ _ hvalue)
    · cases h
      exact forward_read s.2.2 2

/-- INTERNAL: a cell of a `BSTR` array. -/
theorem forward_readBstrCell {strict : Bool} {mem : Memory} {bounds : List SafeArrayBound}
    (is : List (BitVec 32)) (s s' : CellState (List Bstr))
    (h : readBstrCell strict mem bounds is s = .ok s') : Forward s.2.2 s'.2.2 := by
  obtain ⟨⟨hr, text, c⟩, hs, h⟩ := Run.bind_eq_ok h
  have hforward := forward_readString hs
  dsimp only at h
  split at h <;> cases h <;> exact hforward

/-- INTERNAL: a cell of a `DECIMAL` array. -/
theorem forward_readDecimalCell {strict : Bool} {bounds : List SafeArrayBound}
    (is : List (BitVec 32)) (s s' : CellState (List UInt8))
    (h : readDecimalCell strict bounds is s = .ok s') : Forward s.2.2 s'.2.2 := by
  unfold readDecimalCell at h
  split at h
  · cases h
    exact Forward.refl _
  · split at h
    · cases h
    · cases h
      exact forward_read s.2.2 16

/-- INTERNAL: the cells of an array. -/
theorem forward_readCells {strict : Bool} {mem : Memory}
    {read : VarType → Channel → Run (HResult × Variant × Channel)} (hread : GoesForward read)
    {vtype : VarType} {bounds : List SafeArrayBound} {cb : ℕ} {lElements elSize : BitVec 32}
    {c c' : Channel} {hr : HResult} {v : Variant}
    (h : readCells strict mem read vtype bounds cb lElements elSize c = .ok (hr, v, c')) :
    Forward c c' := by
  unfold readCells at h
  dsimp only at h
  split at h
  · split at h
    · obtain ⟨⟨hr₁, cells, c₁⟩, hwalk, h⟩ := Run.bind_eq_ok h
      cases h
      exact forward_walkArray (forward_readVariantCell hread) hwalk
    · cases h
      exact Forward.refl c
  · split at h
    · split at h
      · obtain ⟨⟨hr₁, cells, c₁⟩, hwalk, h⟩ := Run.bind_eq_ok h
        cases h
        exact forward_walkArray forward_readBstrCell hwalk
      · cases h
        exact Forward.refl c
    · split at h
      · split at h
        · obtain ⟨⟨hr₁, cells, c₁⟩, hwalk, h⟩ := Run.bind_eq_ok h
          cases h
          exact forward_walkArray forward_readDecimalCell hwalk
        · cases h
          exact Forward.refl c
      · split at h
        · split at h
          · split at h
            · cases h
            · cases h
              exact forward_read c _
          · cases h
            exact Forward.refl c
        · cases h
          exact Forward.refl c

/-- INTERNAL: an array behind its type name. -/
theorem forward_readBehindName {strict : Bool} {mem : Memory}
    {read : VarType → Channel → Run (HResult × Variant × Channel)} (hread : GoesForward read)
    {vtype : VarType} {elSize cDims : BitVec 32} {c c' : Channel} {hr : HResult} {v : Variant}
    (h : readBehindName strict mem read vtype elSize cDims c = .ok (hr, v, c')) :
    Forward c c' := by
  unfold readBehindName at h
  dsimp only at h
  split at h
  · cases h
    exact Forward.refl c
  · split at h
    · cases h
    · have hbounds := forward_readBounds strict cDims.toNat 1 c
      split at h
      · cases h
        exact hbounds
      · exact hbounds.trans (forward_readCells hread h)

/-- INTERNAL: an array. -/
theorem forward_readArray {loc : Collation} {strict : Bool} {mem : Memory}
    {read : VarType → Channel → Run (HResult × Variant × Channel)} (hread : GoesForward read)
    {c c' : Channel} {hr : HResult} {v : Variant}
    (h : readArray loc strict mem read c = .ok (hr, v, c')) : Forward c c' := by
  unfold readArray at h
  dsimp only at h
  obtain ⟨⟨hr₁, name, c₁⟩, hname, h⟩ := Run.bind_eq_ok h
  have hfront := (forward_read c 12).trans (forward_readString hname)
  dsimp only at h
  split at h
  · cases h
    exact hfront
  · split at h
    · obtain ⟨⟨hr₂, jagged, c₂⟩, htext, h⟩ := Run.bind_eq_ok h
      exact (hfront.trans (forward_readString htext)).trans (forward_readBehindName hread h)
    · exact hfront.trans (forward_readBehindName hread h)

/-- **`ReadValue` goes forward.** -/
theorem forward_readValue (loc : Collation) (strict : Bool) (mem : Memory) (fuel : ℕ) :
    GoesForward (readValue loc strict mem fuel) := by
  induction fuel with
  | zero =>
    intro vtype c hr v c' h
    cases h
  | succ fuel ih =>
    intro vtype c hr v c' h
    rw [readValue] at h
    split at h
    · exact forward_readArray ih h
    · exact forward_readScalar h

end IspSession.Analysis
