/-!
# Machine words

A word is a natural number below `2 ^ 64`, kept in memory as eight bytes, least significant first.
This module holds what both allocators need of words: rounding to a unit, sums and products that
are checked or that stop at the largest word, and the byte form of a word.

Main statement: `roundUp n unit` is the least multiple of `unit` that is at least `n`
(`le_roundUp`, `dvd_roundUp`, `roundUp_le`).
-/

namespace RegionAlloc.Word

/-- The largest word. It is never an offset, so it stands for "no link". -/
def nil : Nat := 0x10000000000000000 - 1

/-- The least multiple of `unit` that is at least `n`; `n` itself when `unit` is zero. -/
def roundUp (n unit : Nat) : Nat :=
  n + (unit - n % unit) % unit

/-- The largest multiple of `unit` that is at most `n`. -/
def roundDown (n unit : Nat) : Nat :=
  n / unit * unit

/-- `n` if it is a word. -/
def ofNat? (n : Nat) : Option Nat :=
  if n < 0x10000000000000000 then some n else none

def add? (a b : Nat) : Option Nat :=
  ofNat? (a + b)

def mul? (a b : Nat) : Option Nat :=
  ofNat? (a * b)

def roundUp? (n unit : Nat) : Option Nat :=
  ofNat? (roundUp n unit)

/-- The sum of two words, or the largest word if the sum is none. -/
def addUpTo (a b : Nat) : Nat :=
  min (a + b) nil

/-- A number that is a word is that word. -/
theorem ofNat?_eq_some {n m : Nat} : ofNat? n = some m ↔ n = m ∧ n < 0x10000000000000000 := by
  constructor
  · intro h
    unfold ofNat? at h
    split at h
    · exact ⟨Option.some.inj h, by assumption⟩
    · exact absurd h (by simp)
  · rintro ⟨rfl, h⟩
    exact if_pos h

/-- A number that is too large is no word. -/
theorem ofNat?_eq_none {n : Nat} : ofNat? n = none ↔ 0x10000000000000000 ≤ n := by
  constructor
  · intro h
    unfold ofNat? at h
    split at h
    · exact absurd h (by simp)
    · omega
  · intro h
    exact if_neg (by omega)

/-- Rounding up does not make less. -/
theorem le_roundUp (n unit : Nat) : n ≤ roundUp n unit :=
  Nat.le_add_right n _

/-- What is rounded up is a multiple of the unit. -/
theorem dvd_roundUp {unit : Nat} (hunit : 0 < unit) (n : Nat) : unit ∣ roundUp n unit := by
  apply Nat.dvd_of_mod_eq_zero
  have hlt := Nat.mod_lt n hunit
  rcases Nat.eq_zero_or_pos (n % unit) with h | h
  · simp [roundUp, h]
  · rw [roundUp, Nat.mod_eq_of_lt (by omega : unit - n % unit < unit), Nat.add_mod,
      Nat.mod_eq_of_lt (by omega : unit - n % unit < unit),
      show n % unit + (unit - n % unit) = unit by omega, Nat.mod_self]

/-- Rounding up adds less than a unit. -/
theorem roundUp_lt {unit : Nat} (hunit : 0 < unit) (n : Nat) : roundUp n unit < n + unit :=
  Nat.add_lt_add_left (Nat.mod_lt _ hunit) n

/-- Every multiple of `unit` that is at least `n` is at least `roundUp n unit`. -/
theorem roundUp_le {n unit m : Nat} (hm : unit ∣ m) (hn : n ≤ m) : roundUp n unit ≤ m := by
  rcases Nat.eq_zero_or_pos unit with rfl | hunit
  · obtain rfl : m = 0 := Nat.eq_zero_of_zero_dvd hm
    simp [roundUp, Nat.le_zero.1 hn]
  · obtain ⟨k, rfl⟩ := hm
    obtain ⟨j, hj⟩ := dvd_roundUp hunit n
    have hlt := roundUp_lt hunit n
    rw [hj] at hlt ⊢
    refine Nat.mul_le_mul_left unit ?_
    have : unit * j < unit * (k + 1) := by rw [Nat.mul_succ]; omega
    have := Nat.lt_of_mul_lt_mul_left this
    omega

def IsPowerOfTwo (n : Nat) : Prop :=
  1 <<< n.log2 = n

instance (n : Nat) : Decidable (IsPowerOfTwo n) :=
  inferInstanceAs (Decidable (_ = _))

/-- A power of two is a single bit. -/
theorem isPowerOfTwo_iff {n : Nat} : IsPowerOfTwo n ↔ ∃ k, n = 1 <<< k := by
  constructor
  · intro h
    exact ⟨n.log2, h.symm⟩
  · rintro ⟨k, rfl⟩
    simp [IsPowerOfTwo, Nat.one_shiftLeft, Nat.log2_two_pow]

/-- The bytes of `w`, least significant first, cut off after `count` of them. -/
def toBytes : Nat → Nat → List UInt8
  | 0, _ => []
  | count + 1, w => UInt8.ofNat (w % 256) :: toBytes count (w / 256)

/-- The number that a list of bytes, least significant first, stands for. -/
def ofBytes : List UInt8 → Nat
  | [] => 0
  | b :: rest => b.toNat + 256 * ofBytes rest

/-- As many bytes are made of a number as were asked for. -/
@[simp] theorem length_toBytes (count w : Nat) : (toBytes count w).length = count := by
  induction count generalizing w with
  | zero => rfl
  | succ count ih => simp [toBytes, ih]

end RegionAlloc.Word
