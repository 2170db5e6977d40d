import AttributionChain.Go
import Mathlib.Tactic.Positivity
import Mathlib.Tactic.Ring

/-!
# Big-endian numbers

Fixed-width big-endian byte strings, as CBOR arguments, hash words and curve
coordinates are written.  A number that fits its width is read back unchanged.
-/

namespace AttributionChain

/-- The low `width` bytes of `n`, most significant first. -/
def beBytes : Nat → Nat → Bytes
  | 0, _ => []
  | width + 1, n => UInt8.ofNat (n / 256 ^ width) :: beBytes width n

/-- The number a big-endian byte string denotes. -/
def beValue (bytes : Bytes) : Nat :=
  bytes.foldl (fun value byte => value * 256 + byte.toNat) 0

@[simp] theorem length_beBytes (width n : Nat) : (beBytes width n).length = width := by
  induction width with
  | zero => rfl
  | succ width ih => simp [beBytes, ih]

theorem foldl_beBytes (width n start : Nat) :
    (beBytes width n).foldl (fun value byte => value * 256 + byte.toNat) start =
      start * 256 ^ width + n % 256 ^ width := by
  induction width generalizing start with
  | zero => simp [beBytes, Nat.mod_one]
  | succ width ih =>
    have hdigit : n % 256 ^ (width + 1) =
        n / 256 ^ width % 256 * 256 ^ width + n % 256 ^ width := by
      rw [pow_succ, Nat.mod_mul, Nat.add_comm, Nat.mul_comm]
    have hbyte : (UInt8.ofNat (n / 256 ^ width)).toNat = n / 256 ^ width % 256 := by simp
    rw [beBytes, List.foldl_cons, ih, hbyte, hdigit, pow_succ]
    ring

theorem beValue_beBytes {width n : Nat} (h : n < 256 ^ width) :
    beValue (beBytes width n) = n := by
  simp [beValue, foldl_beBytes, Nat.mod_eq_of_lt h]

theorem foldl_beValue (bytes : Bytes) (start : Nat) :
    bytes.foldl (fun value byte => value * 256 + byte.toNat) start =
      start * 256 ^ bytes.length + beValue bytes := by
  induction bytes generalizing start with
  | nil => simp [beValue]
  | cons byte bytes ih =>
    rw [beValue, List.foldl_cons, List.foldl_cons, ih, ih (0 * 256 + byte.toNat),
      List.length_cons, pow_succ]
    ring

theorem beValue_cons (byte : UInt8) (bytes : Bytes) :
    beValue (byte :: bytes) = byte.toNat * 256 ^ bytes.length + beValue bytes := by
  rw [beValue, List.foldl_cons, foldl_beValue]
  simp

theorem beValue_lt (bytes : Bytes) : beValue bytes < 256 ^ bytes.length := by
  induction bytes with
  | nil => simp [beValue]
  | cons byte bytes ih =>
    have hbyte : byte.toNat + 1 ≤ 256 := byte.toNat_lt
    calc
      beValue (byte :: bytes) = byte.toNat * 256 ^ bytes.length + beValue bytes :=
        beValue_cons byte bytes
      _ < byte.toNat * 256 ^ bytes.length + 256 ^ bytes.length := by omega
      _ = (byte.toNat + 1) * 256 ^ bytes.length := by ring
      _ ≤ 256 * 256 ^ bytes.length := Nat.mul_le_mul_right _ hbyte
      _ = 256 ^ (byte :: bytes).length := by rw [List.length_cons, pow_succ, Nat.mul_comm]

/-- Digits above the width do not show. -/
theorem beBytes_add_mul (width high low : Nat) :
    beBytes width (high * 256 ^ width + low) = beBytes width low := by
  induction width generalizing high with
  | zero => rfl
  | succ width ih =>
    have hshift : high * 256 ^ (width + 1) + low = high * 256 * 256 ^ width + low := by
      rw [pow_succ]; ring
    have hdigit : UInt8.ofNat ((high * 256 * 256 ^ width + low) / 256 ^ width) =
        UInt8.ofNat (low / 256 ^ width) := by
      apply UInt8.toNat_inj.mp
      rw [Nat.add_comm, Nat.add_mul_div_right _ _ (by positivity)]
      simp
    rw [hshift, beBytes, beBytes, hdigit, ih]

/-- Reading a byte string and writing it at its own width gives it back. -/
theorem beBytes_beValue (bytes : Bytes) : beBytes bytes.length (beValue bytes) = bytes := by
  induction bytes with
  | nil => rfl
  | cons byte bytes ih =>
    have hhead : (byte.toNat * 256 ^ bytes.length + beValue bytes) / 256 ^ bytes.length =
        byte.toNat := by
      rw [Nat.add_comm, Nat.add_mul_div_right _ _ (by positivity),
        Nat.div_eq_of_lt (beValue_lt bytes), Nat.zero_add]
    rw [List.length_cons, beValue_cons, beBytes, hhead, beBytes_add_mul, ih]
    simp

/-- The first digit that differs decides. -/
theorem digit_lt_iff {base high other low rest : Nat} (hlow : low < base) (hrest : rest < base) :
    high * base + low < other * base + rest ↔ high < other ∨ high = other ∧ low < rest := by
  rcases Nat.lt_trichotomy high other with hlt | rfl | hgt
  · have hstep : (high + 1) * base ≤ other * base := Nat.mul_le_mul_right base hlt
    rw [Nat.add_mul, Nat.one_mul] at hstep
    omega
  · omega
  · have hstep : (other + 1) * base ≤ high * base := Nat.mul_le_mul_right base hgt
    rw [Nat.add_mul, Nat.one_mul] at hstep
    omega

/-- Byte strings of one length compare like the numbers they denote. -/
theorem lt_iff_beValue_lt {left right : Bytes} (h : left.length = right.length) :
    left < right ↔ beValue left < beValue right := by
  induction left generalizing right with
  | nil =>
    obtain rfl : right = [] := List.eq_nil_of_length_eq_zero h.symm
    simp
  | cons first left ih =>
    obtain ⟨other, right, rfl⟩ := List.exists_cons_of_length_pos
      (Nat.lt_of_lt_of_eq (Nat.succ_pos _) h)
    have hlength : left.length = right.length := by simpa using h
    rw [List.cons_lt_cons_iff, ih hlength, beValue_cons, beValue_cons, hlength,
      digit_lt_iff (hlength ▸ beValue_lt left) (beValue_lt right), UInt8.lt_iff_toNat_lt,
      UInt8.toNat_inj]

theorem beValue_injective {left right : Bytes} (h : left.length = right.length)
    (hvalue : beValue left = beValue right) : left = right := by
  rw [← beBytes_beValue left, ← beBytes_beValue right, h, hvalue]

end AttributionChain
