import RegionAlloc.Tagged.Header

/-!
# Laying out a tagged heap

The heap starts at the first aligned address of the region and ends with a header in the last
aligned slot. All between is one free block.
-/

namespace RegionAlloc.Tagged.Heap

/-- The fewest bytes a region has to have for a heap that starts at offset `start`: room for a
block of one header and one alignment unit, and for the end marker. -/
def requiredSize (settings : Settings) (start : Nat) : Nat :=
  start + (2 * settings.headerSize + settings.alignment)

/-- The bytes between an aligned start and the last aligned slot with room for the end marker. -/
def usableSize (region : Region) (settings : Settings) (start : Nat) : Nat :=
  Word.roundDown (region.size - start - settings.headerSize) settings.alignment

/-- The heap of one free block from `start` on. Of the region only the headers of that block and of
the end marker are written. -/
def layOut (region : Region) (settings : Settings) (overflow : Overflow) (start : Nat) : Heap :=
  let usable := usableSize region settings start
  let endMarker := start + usable
  let blank : Heap :=
    { region, settings, start, endMarker, headLink := 0, usage := Usage.start usable,
      hook := none, overflow }
  { blank with
    region := (((region.writeWord (endMarker + 8) 0).writeWord endMarker
      (blank.encodeLink none)).writeWord (start + 8) usable).writeWord start
      (blank.encodeLink (some endMarker))
    headLink := blank.encodeLink (some start) }

/-- Lays out a heap in a region, or gives the region back. -/
def create (region : Region) (settings : Settings) (overflow : Overflow) :
    Except Refusal Heap :=
  match settings.validate with
  | .error error => .error { error, region }
  | .ok _ =>
    let start := region.alignedStart settings.alignment
    let required := requiredSize settings start
    if region.size < required then
      .error { error := .regionTooSmall region.size required, region }
    else
      .ok (layOut region settings overflow start)

def creationRecord (h : Heap) : Record :=
  .tagged (.formatted h.region.size h.start h.endMarker h.usage.free)

end RegionAlloc.Tagged.Heap
