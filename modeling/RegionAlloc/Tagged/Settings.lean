import RegionAlloc.SetupError
import RegionAlloc.Word

/-!
# Settings of a tagged heap
-/

namespace RegionAlloc.Tagged

/-- How a tagged heap is set up. -/
structure Settings where
  alignment : Nat := 8
  /-- The pattern that every stored link is combined with, bit by bit. -/
  canary : UInt64 := 0x655556
  clearOnFree : Bool := false
  deriving DecidableEq, Repr

namespace Settings

/-- The alignment is a power of two, at most `maxAlignment`. -/
def Valid (s : Settings) : Prop :=
  Word.IsPowerOfTwo s.alignment ∧ s.alignment ≤ maxAlignment

instance (s : Settings) : Decidable s.Valid :=
  inferInstanceAs (Decidable (_ ∧ _))

def validate (s : Settings) : Except SetupError Unit :=
  if s.Valid then .ok () else .error (.invalidAlignment s.alignment)

/-- The bytes in front of every payload: a link word and a size word, rounded up so that the payload
is aligned as the block is. -/
def headerSize (s : Settings) : Nat :=
  Word.roundUp 16 s.alignment

/-- A header has room for two words. -/
theorem sixteen_le_headerSize (s : Settings) : 16 ≤ s.headerSize :=
  Word.le_roundUp 16 s.alignment

/-- The size of the block for a request of `request` bytes: with its header, and rounded up to the
alignment. There is none if it would reach into the tag bit. -/
def paddedSize? (s : Settings) (request : Nat) : Option Nat :=
  ((Word.add? request s.headerSize).bind fun size => Word.roundUp? size s.alignment).filter
    (· < 0x8000000000000000)

/-- The settings as labels and texts, in their fixed order. -/
def fields (s : Settings) : List (String × String) :=
  [("alignment", toString s.alignment), ("canary", toString s.canary.toNat),
    ("clear_on_free", toString s.clearOnFree)]

end Settings

end RegionAlloc.Tagged
