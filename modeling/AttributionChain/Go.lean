import Mathlib.Logic.Basic

/-!
# Go values and error flow

The Go types that the ledger code moves around, and the shape of its
`if bad { return err }` chains.  A Go `string` is an arbitrary byte sequence, so
strings and slice contents are both `Bytes`.  A `[]byte` may also be nil, which
the CBOR encoder writes differently from an empty slice: `Slice` keeps the two
apart.  A `[n]byte` carries its length as a proof, so `copy` into one is total.

Fallible functions return `Except`.  `failIf` is one guard of such a chain, and
the two inversion lemmas below take a successful chain apart guard by guard.
-/

namespace AttributionChain

/-- The contents of a Go `string` or of a non-nil `[]byte`. -/
abbrev Bytes := List UInt8

/-- The bytes of an ASCII string constant. -/
def ascii (text : String) : Bytes := text.toList.map fun char => UInt8.ofNat char.toNat

/-- A Go `[]byte`; the nil slice is `none`. -/
abbrev Slice := Option Bytes

/-- `len` of a slice, zero for nil. -/
def Slice.len (slice : Slice) : Nat := (slice.getD []).length

@[simp] theorem Slice.len_none : Slice.len none = 0 := rfl

@[simp] theorem Slice.len_some (bytes : Bytes) : Slice.len (some bytes) = bytes.length := rfl

/-- A slice with at least one byte is not nil. -/
theorem Slice.exists_of_len_pos (slice : Slice) (h : 0 < slice.len) :
    ∃ bytes, slice = some bytes := by
  cases slice with
  | none => simp at h
  | some bytes => exact ⟨bytes, rfl⟩

theorem Slice.isSome_of_len_pos (slice : Slice) (h : 0 < slice.len) : slice.isSome = true := by
  obtain ⟨bytes, rfl⟩ := slice.exists_of_len_pos h
  rfl

/-! ### Fixed-size arrays -/

/-- A Go `[n]byte`. -/
structure FixedBytes (n : Nat) where
  bytes : Bytes
  length_eq : bytes.length = n
deriving DecidableEq

namespace FixedBytes

variable {n : Nat}

theorem ext {left right : FixedBytes n} (h : left.bytes = right.bytes) : left = right := by
  cases left
  cases right
  cases h
  rfl

/-- The zero value of `[n]byte`. -/
def zero (n : Nat) : FixedBytes n := ⟨List.replicate n 0, by simp⟩

/-- `var out [n]byte; copy(out[:], source)`: excess bytes are dropped and
missing ones stay zero. -/
def copyFrom (n : Nat) (source : Bytes) : FixedBytes n :=
  ⟨source.take n ++ List.replicate (n - source.length) 0, by simp; omega⟩

theorem bytes_copyFrom {source : Bytes} (h : source.length = n) :
    (copyFrom n source).bytes = source := by
  simp [copyFrom, ← h]

@[simp] theorem copyFrom_bytes (array : FixedBytes n) : copyFrom n array.bytes = array :=
  ext (bytes_copyFrom array.length_eq)

@[simp] theorem length_bytes (array : FixedBytes n) : array.bytes.length = n := array.length_eq

end FixedBytes

/-! ### Guards -/

variable {ε : Type} {α β : Type}

/-- `if bad { return err }` -/
def failIf (bad : Prop) [Decidable bad] (err : ε) : Except ε Unit :=
  if bad then .error err else .ok ()

@[simp] theorem failIf_eq_ok {bad : Prop} [Decidable bad] {err : ε} {done : Unit} :
    failIf bad err = .ok done ↔ ¬ bad := by
  unfold failIf
  split <;> simp_all

theorem failIf_neg {bad : Prop} [Decidable bad] {err : ε} (h : ¬ bad) :
    failIf bad err = .ok () := if_neg h

/-- A chain succeeds exactly when its first stage does and the rest succeeds on
the result. -/
theorem bind_eq_ok {first : Except ε α} {rest : α → Except ε β} {result : β} :
    first >>= rest = .ok result ↔ ∃ value, first = .ok value ∧ rest value = .ok result := by
  cases first with
  | error err => simp [bind, Except.bind]
  | ok value => simp [bind, Except.bind]

@[simp] theorem ok_bind {value : α} {rest : α → Except ε β} :
    (Except.ok value >>= rest) = rest value := rfl

@[simp] theorem error_bind {err : ε} {rest : α → Except ε β} :
    (Except.error err >>= rest) = .error err := rfl

/-- A passed guard leaves the rest of the chain. -/
theorem failIf_bind_eq_ok {bad : Prop} [Decidable bad] {err : ε}
    {rest : Unit → Except ε β} {result : β} :
    failIf bad err >>= rest = .ok result ↔ ¬ bad ∧ rest () = .ok result := by
  rw [bind_eq_ok]
  constructor
  · rintro ⟨_, hguard, hrest⟩
    exact ⟨failIf_eq_ok.mp hguard, hrest⟩
  · rintro ⟨hgood, hrest⟩
    exact ⟨(), failIf_neg hgood, hrest⟩

/-- `value, err := f(); if err != nil { return wrapped }` for an `f` whose own
error is not inspected. -/
def orError (value : Option α) (err : ε) : Except ε α :=
  match value with
  | none => .error err
  | some value => .ok value

@[simp] theorem orError_eq_ok {value : Option α} {err : ε} {result : α} :
    orError value err = .ok result ↔ value = some result := by
  cases value <;> simp [orError]

@[simp] theorem orError_some {value : α} {err : ε} : orError (some value) err = .ok value := rfl

@[simp] theorem mapError_ok {value : α} {wrap : ε → β} :
    (Except.ok value : Except ε α).mapError wrap = .ok value := rfl

@[simp] theorem mapError_error {err : ε} {wrap : ε → β} :
    (Except.error err : Except ε α).mapError wrap = .error (wrap err) := rfl

theorem mapError_eq_ok {first : Except ε α} {wrap : ε → β} {result : α} :
    first.mapError wrap = .ok result ↔ first = .ok result := by
  cases first with
  | error err => simp
  | ok value => simp

theorem toOption_eq_some {result : Except ε α} {value : α} :
    result.toOption = some value ↔ result = .ok value := by
  cases result <;> simp [Except.toOption]

theorem exists_ok_of_isOk {result : Except ε α} (h : result.isOk = true) :
    ∃ value, result = .ok value := by
  cases result with
  | error err => cases h
  | ok value => exact ⟨value, rfl⟩

theorem eq_ok_of_isOk {result : Except ε Unit} (h : result.isOk = true) : result = .ok () := by
  obtain ⟨done, hdone⟩ := exists_ok_of_isOk h
  exact hdone

/-! ### Loops -/

section Loops

variable {σ : Type} {step : σ → α → σ × Option ε}

/-- `for _, item := range items { if err := step(item); err != nil { return err } }`,
where `step` updates a state and returns an error or nil. -/
def rangeUntilError (step : σ → α → σ × Option ε) : σ → List α → σ × Option ε
  | state, [] => (state, none)
  | state, item :: items =>
    match step state item with
    | (next, none) => rangeUntilError step next items
    | (next, some err) => (next, some err)

@[simp] theorem rangeUntilError_nil (state : σ) :
    rangeUntilError step state [] = (state, none) := rfl

theorem rangeUntilError_cons_of_ok {state next : σ} {item : α} (h : step state item = (next, none))
    (items : List α) :
    rangeUntilError step state (item :: items) = rangeUntilError step next items := by
  rw [rangeUntilError, h]

theorem rangeUntilError_cons_of_error {state next : σ} {item : α} {err : ε}
    (h : step state item = (next, some err)) (items : List α) :
    rangeUntilError step state (item :: items) = (next, some err) := by
  rw [rangeUntilError, h]

theorem rangeUntilError_cons_eq_ok {state final : σ} {item : α} {items : List α} :
    rangeUntilError step state (item :: items) = (final, none) ↔
      ∃ next, step state item = (next, none) ∧
        rangeUntilError step next items = (final, none) := by
  rcases h : step state item with ⟨next, _ | err⟩
  · rw [rangeUntilError_cons_of_ok h]
    constructor
    · intro hrest
      exact ⟨next, rfl, hrest⟩
    · rintro ⟨_, hnext, hrest⟩
      cases hnext
      exact hrest
  · rw [rangeUntilError_cons_of_error h]
    simp

/-- A loop over two lists goes on to the second one if it gets through the first. -/
theorem rangeUntilError_append (state : σ) (front back : List α) :
    rangeUntilError step state (front ++ back) =
      match rangeUntilError step state front with
      | (middle, none) => rangeUntilError step middle back
      | (middle, some err) => (middle, some err) := by
  induction front generalizing state with
  | nil => rfl
  | cons item front ih =>
    rcases h : step state item with ⟨next, _ | err⟩
    · rw [List.cons_append, rangeUntilError_cons_of_ok h, rangeUntilError_cons_of_ok h, ih]
    · rw [List.cons_append, rangeUntilError_cons_of_error h, rangeUntilError_cons_of_error h]

theorem rangeUntilError_append_eq_ok {state final : σ} {front back : List α} :
    rangeUntilError step state (front ++ back) = (final, none) ↔
      ∃ middle, rangeUntilError step state front = (middle, none) ∧
        rangeUntilError step middle back = (final, none) := by
  rw [rangeUntilError_append]
  rcases rangeUntilError step state front with ⟨middle, _ | err⟩
  · constructor
    · intro hback
      exact ⟨middle, rfl, hback⟩
    · rintro ⟨_, hmiddle, hback⟩
      cases hmiddle
      exact hback
  · simp

/-- A loop that collects results, on inputs where every step succeeds. -/
theorem mapM_map_eq_ok {γ : Type} {f : α → Except ε β} {inject : γ → α} {project : γ → β}
    {items : List γ} (h : ∀ item ∈ items, f (inject item) = .ok (project item)) :
    (items.map inject).mapM f = .ok (items.map project) := by
  induction items with
  | nil => rfl
  | cons item items ih =>
    rw [List.map_cons, List.mapM_cons, h item (List.mem_cons_self ..), ok_bind,
      ih fun other hother => h other (List.mem_cons_of_mem _ hother), ok_bind]
    rfl

/-- What such a loop collects comes from its inputs. -/
theorem exists_mem_of_mapM_eq_ok {f : α → Except ε β} {items : List α} {results : List β}
    {result : β} (h : items.mapM f = .ok results) (hmem : result ∈ results) :
    ∃ item ∈ items, f item = .ok result := by
  induction items generalizing results with
  | nil =>
    cases h
    cases hmem
  | cons item items ih =>
    rw [List.mapM_cons] at h
    obtain ⟨first, hfirst, hrest⟩ := bind_eq_ok.mp h
    obtain ⟨rest, hresults, hreturn⟩ := bind_eq_ok.mp hrest
    cases hreturn
    rcases List.mem_cons.mp hmem with rfl | hlater
    · exact ⟨item, List.mem_cons_self .., hfirst⟩
    · obtain ⟨other, hother, hresult⟩ := ih hresults hlater
      exact ⟨other, List.mem_cons_of_mem _ hother, hresult⟩

/-- A loop whose steps add what they find to a state and restore the rest. -/
theorem foldlM_eq_foldl_flatMap {ρ : Type} {body : σ × ρ → α → Option (σ × ρ)} {rest : ρ}
    {found : α → List β} {add : σ → β → σ} {items : List α}
    (h : ∀ item ∈ items, ∀ state,
      body (state, rest) item = some ((found item).foldl add state, rest)) (state : σ) :
    items.foldlM body (state, rest) = some ((items.flatMap found).foldl add state, rest) := by
  induction items generalizing state with
  | nil => rfl
  | cons item items ih =>
    rw [List.foldlM_cons, h item (List.mem_cons_self ..), List.flatMap_cons, List.foldl_append]
    apply ih
    intro other hother
    exact h other (List.mem_cons_of_mem _ hother)

end Loops

/-! ### Machine integers -/

/-- Below the largest `int` an increment does not wrap. -/
theorem toInt_add_one {number : Int64} (h : number ≠ Int64.maxValue) :
    (number + 1).toInt = number.toInt + 1 := by
  have hmax : number.toInt ≠ 2 ^ 63 - 1 := by
    rw [← Int64.toInt_maxValue]
    exact fun hequal => h (Int64.toInt_inj.mp hequal)
  have hlow := number.le_toInt
  have hhigh := number.toInt_lt
  rw [Int64.toInt_add, Int64.toInt_one]
  apply Int.bmod_eq_of_le
  · omega
  · omega

end AttributionChain
