import RegionAlloc.Region.Basic

/-!
# Setup errors

Why a heap could not be laid out in a region, which then goes back to its owner.
-/

namespace RegionAlloc

/-- The largest block boundary a heap can be set up with. -/
def maxAlignment : Nat := 4096

/-- Why no heap was laid out. -/
inductive SetupError where
  | invalidAlignment (alignment : Nat)
  /-- The region has `size` bytes, and the smallest heap takes `required`. -/
  | regionTooSmall (size required : Nat)
  deriving DecidableEq, Repr

def SetupError.message : SetupError → String
  | .invalidAlignment alignment =>
    s!"alignment {alignment} is not a power of two in 1..={maxAlignment}"
  | .regionTooSmall size required =>
    s!"arena of {size} bytes is too small, at least {required} bytes are needed"

/-- A region in which no heap was laid out, with the reason. -/
structure Refusal where
  error : SetupError
  region : Region

end RegionAlloc
