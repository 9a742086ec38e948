import RegionAlloc.Word

/-!
# Aligned buffers

A buffer holds a fixed number of bytes, all zero at first, at an address that is a multiple of
sixteen. It takes up its length rounded up to that boundary.
-/

namespace RegionAlloc

/-- A buffer of `length` bytes. -/
structure Buffer (length : Nat) where
  bytes : Vector UInt8 length
  address : Nat
  onBoundary : address % 16 = 0

namespace Buffer

variable {length : Nat}

/-- A buffer of zeros at the first multiple of sixteen that is not below `lowest`. -/
def zeroed (length lowest : Nat) : Buffer length :=
  { bytes := Vector.replicate length 0
    address := Word.roundUp lowest 16
    onBoundary := Nat.mod_eq_zero_of_dvd (Word.dvd_roundUp (by decide) lowest) }

def isEmpty (_ : Buffer length) : Bool :=
  length == 0

def footprint (_ : Buffer length) : Nat :=
  Word.roundUp length 16

end Buffer

end RegionAlloc
