import RegionAlloc.Region.Basic
import RegionAlloc.Session.Command
import RegionAlloc.SetupError

/-!
# Where a session's region lies

How far behind a multiple of `placementUnit` a session's region begins is given; which multiple it is
makes no difference to the client, as long as pointers are what they are called: an address made of
a number does not lead into the region, and a pointer derived from the region is not null.

Places are tried in order, far enough apart for an address to rule out one of them at most, so one
more place than there are addresses is enough.
-/

namespace RegionAlloc.Session

/-- The pointer that a command brings along, if it does. -/
def Command.pointer? : Command → Option Pointer
  | .release (.direct pointer) => some pointer
  | _ => none

/-- The pointer is what it is called, if a region of `length` bytes begins at `base`. -/
def Pointer.Suits (base length : Nat) : Pointer → Prop
  | .inRegion distance => (Pointer.inRegion distance).address base ≠ 0
  | .absolute address => address < base ∨ base + length ≤ address

instance (base length : Nat) : (pointer : Pointer) → Decidable (pointer.Suits base length)
  | .inRegion distance => inferInstanceAs (Decidable (Pointer.address base (.inRegion distance) ≠ 0))
  | .absolute address => inferInstanceAs (Decidable (address < base ∨ base + length ≤ address))

/-- The distance of places that are alike for every boundary in use. -/
def placementUnit : Nat :=
  2 * maxAlignment

/-- The lowest multiple of the unit that is tried, above the small addresses of arrays without
bytes. -/
def lowestPlace : Nat :=
  0x10000000000

/-- The place that is tried after `tried` others, `skip` bytes behind a multiple of the unit. -/
def candidatePlace (skip length tried : Nat) : Nat :=
  lowestPlace + tried * Word.roundUp (length + 1) placementUnit + skip

/-- Places the bytes of a region for a session of these commands. -/
def placeRegion? (skip : Nat) (bytes : ByteArray) (commands : List Command) : Option Region := do
  let pointers := commands.filterMap Command.pointer?
  let places := (List.range (pointers.length + 1)).map (candidatePlace skip bytes.size)
  let base ← places.find? fun base => pointers.all fun pointer => pointer.Suits base bytes.size
  Region.ofBytes? base bytes

end RegionAlloc.Session
