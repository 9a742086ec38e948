/-!
# How values, offsets and addresses are written

A value with labelled fields is written as its name and, in braces, its fields in order. Offsets stand
in messages as hexadecimal numbers. An address is written relative to the first byte of the region it
was derived from, or as a plain hexadecimal number when it has nothing to do with the region; a
`Naming` carries that decision.
-/

namespace RegionAlloc

/-- The listing of a value with these fields, at least one. -/
def listing (name : String) (fields : List (String × String)) : String :=
  name ++ " \x7b " ++ ", ".intercalate (fields.map fun (label, text) => label ++ ": " ++ text)
    ++ " \x7d"

/-- The way the addresses of one message are written. -/
abbrev Naming := Nat → String

/-- `n` in lower-case hexadecimal after `0x`. -/
def hexText (n : Nat) : String :=
  "0x" ++ String.ofList (Nat.toDigits 16 n)

/-- An address as its signed decimal distance from `base`. -/
def Naming.relativeTo (base : Nat) : Naming := fun address =>
  if base ≤ address then s!"arena+{address - base}" else s!"arena-{base - address}"

end RegionAlloc
