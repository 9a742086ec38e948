import RegionAlloc.Proofs.Tagged.Corrupted

/-!
# Headers written and read

A header is two words: a link combined with the canary, and a size whose top bit is the tag. Each word is
written without a look at the other, and in either order both are read back as they were written
(`headers_round_trip`). This holds wherever there is room for a header, whatever bytes were there
before.

Only where no link was stored none is read. The canary may turn a link into a word of ones, but the word
that is compared with the reserved one is what is left when the canary is taken out again, and that is no
place for a block.
-/

namespace RegionAlloc.Tagged

open Region

/-- The offsets of the word at `field`. -/
def wordAt (field : Nat) : Set Nat :=
  {i | field ≤ i ∧ i < field + 8}

private theorem Tag.add_bit_lt {size : Nat} (small : size < 0x8000000000000000) (tag : Tag) :
    size + tag.bit < 0x10000000000000000 := by
  unfold Tag.bit
  cases tag with
  | free => exact Nat.lt_trans small (by decide)
  | allocated => exact Nat.add_lt_add_right small 0x8000000000000000

namespace Heap

variable {h : Heap} {b size : Nat} {tag : Tag} {link : Option Nat}

/-- The header at `b` is read as this size, this tag and this link. -/
structure Reads (h : Heap) (b size : Nat) (tag : Tag) (link : Option Nat) : Prop where
  size : h.blockSize b = .ok size
  tag : h.blockTag b = .ok tag
  link : h.next? (.block b) = .ok link

private theorem reads_of_words (inside : h.endMarker + 16 ≤ h.region.size)
    (room : b + 16 ≤ h.region.size)
    (small : size < 0x8000000000000000) (placed : h.Placed link)
    (linkWord : h.region.readWord b = code h.settings link)
    (sizeWord : h.region.readWord (b + 8) = size + tag.bit) : h.Reads b size tag link where
  size := by
    rw [blockSize_of_room room, sizeWord]
    cases tag with
    | free => exact congrArg Except.ok (Nat.mod_eq_of_lt small)
    | allocated =>
      rw [Tag.bit, Nat.add_mod_right]
      exact congrArg Except.ok (Nat.mod_eq_of_lt small)
  tag := by
    rw [blockTag_of_room room, sizeWord]
    cases tag with
    | free => exact congrArg Except.ok (if_pos small)
    | allocated => exact congrArg Except.ok (if_neg (Nat.not_lt.2 (Nat.le_add_left _ size)))
  link := by
    rw [next?, h.region.loadWord_eq_ok (by omega), linkWord]
    exact decodeLink_eq inside placed

/-! ## One word -/

private theorem readWord_putNext (room : b + 16 ≤ h.region.size)
    (small : ∀ o, link = some o → o < 0x10000000000000000) :
    (h.putNext (.block b) link).region.readWord b = code h.settings link :=
  h.region.readWord_writeWord (code_lt small) (by omega)

private theorem readWord_putSize (room : b + 16 ≤ h.region.size) (small : size < 0x8000000000000000) :
    (h.putSize (b + 8) size tag).region.readWord (b + 8) = size + tag.bit :=
  h.region.readWord_writeWord (Tag.add_bit_lt small tag) (by omega)

/-- The word of the size is not touched when a link is stored. -/
theorem setNext_frame (room : b + 16 ≤ h.region.size) (link : Option Nat) :
    (setNext (.block b) link).Ensures h False fun _ h' =>
      Alters (wordAt b) h h' ∧ h'.headLink = h.headLink ∧
        h'.region.readBytes (b + 8) 8 = h.region.readBytes (b + 8) 8 := by
  apply Call.Ensures.of_run (run_setNext_block room)
  have region : AgreesOff (wordAt b) h.region (h.putNext (.block b) link).region :=
    agreesOff_writeWord _ fun i low high => ⟨low, high⟩
  refine ⟨⟨⟨rfl, rfl, rfl, rfl, rfl⟩, region, rfl⟩, rfl, region.readBytes_eq ?_⟩
  intro i low _ inside
  exact Nat.not_lt.2 low inside.2

/-- The word of the link is not touched when a size is stored. -/
theorem setSize_frame (room : b + 16 ≤ h.region.size) (small : size < 0x8000000000000000) (tag : Tag) :
    (setSize b size tag).Ensures h False fun _ h' =>
      Alters (wordAt (b + 8)) h h' ∧ h'.headLink = h.headLink ∧
        h'.region.readBytes b 8 = h.region.readBytes b 8 := by
  apply Call.Ensures.of_run (run_setSize room small)
  have region : AgreesOff (wordAt (b + 8)) h.region (h.putSize (b + 8) size tag).region :=
    agreesOff_writeWord _ fun i low high => ⟨low, high⟩
  refine ⟨⟨⟨rfl, rfl, rfl, rfl, rfl⟩, region, rfl⟩, rfl, region.readBytes_eq ?_⟩
  intro i _ high inside
  exact Nat.not_lt.2 inside.1 high

/-! ## Both words -/

section Both

variable (inside : h.endMarker + 16 ≤ h.region.size) (room : b + 16 ≤ h.region.size)
  (small : size < 0x8000000000000000) (placed : h.Placed link) (tag : Tag)

include inside room small placed

private theorem setSize_setNext_reads :
    (do setSize b size tag; setNext (.block b) link).Ensures h False fun _ h' =>
      h'.Reads b size tag link := by
  have same : (h.putSize (b + 8) size tag).region.size = h.region.size := size_putSize _ _ _
  have room₁ : b + 16 ≤ (h.putSize (b + 8) size tag).region.size := same ▸ room
  apply Call.Ensures.run_bind (run_setSize room small)
  apply Call.Ensures.of_run (run_setNext_block room₁)
  have same₂ : ((h.putSize (b + 8) size tag).putNext (.block b) link).region.size = h.region.size :=
    (Region.size_writeWord _ _ _).trans same
  apply reads_of_words
  · exact same₂ ▸ inside
  · exact same₂ ▸ room
  · exact small
  · exact placed
  · exact readWord_putNext room₁ (placed.small inside)
  · exact (readWord_writeWord_of_disjoint _ (Or.inr (Nat.le_refl _))).trans (readWord_putSize room small)

private theorem setNext_setSize_reads :
    (do setNext (.block b) link; setSize b size tag).Ensures h False fun _ h' =>
      h'.Reads b size tag link := by
  have same : (h.putNext (.block b) link).region.size = h.region.size := Region.size_writeWord _ _ _
  have room₁ : b + 16 ≤ (h.putNext (.block b) link).region.size := same ▸ room
  apply Call.Ensures.run_bind (run_setNext_block room)
  apply Call.Ensures.of_run (run_setSize room₁ small)
  have same₂ : ((h.putNext (.block b) link).putSize (b + 8) size tag).region.size = h.region.size :=
    (size_putSize _ _ _).trans same
  apply reads_of_words
  · exact same₂ ▸ inside
  · exact same₂ ▸ room
  · exact small
  · exact placed
  · refine (readWord_writeWord_of_disjoint _ (Or.inl (Nat.le_refl _))).trans ?_
    exact readWord_putNext room (placed.small inside)
  · exact readWord_putSize room₁ small

end Both

/-! ## Links -/

/-- A word is read as no link just if it is the one that is stored for none. -/
theorem decodeLink_eq_none_iff {stored : Nat} :
    h.decodeLink stored = .ok none ↔ stored = h.encodeLink none := by
  constructor
  · intro none_read
    unfold decodeLink at none_read
    by_cases nowhere : h.protect stored = Word.nil
    · rw [← protect_protect (h := h) stored, nowhere]
      rfl
    · simp only [if_neg nowhere] at none_read
      cases place : h.checkPlace (h.protect stored) with
      | ok _ =>
        rw [place] at none_read
        cases none_read
      | error fault =>
        rw [place] at none_read
        cases none_read
  · rintro rfl
    exact if_pos (protect_protect _)

/-- What is written into headers is read there, and nothing else changes. Headers can be written at
every place for a block, and wherever else there is room for one. -/
structure CodesHeaders (h : Heap) : Prop where
  room : ∀ b, h.IsPlace b → b + 16 ≤ h.region.size
  sizeThenLink : ∀ b size tag link, b + 16 ≤ h.region.size → size < 0x8000000000000000 →
    h.Placed link → (do setSize b size tag; setNext (.block b) link).Ensures h False fun _ h' =>
      h'.Reads b size tag link
  linkThenSize : ∀ b size tag link, b + 16 ≤ h.region.size → size < 0x8000000000000000 →
    h.Placed link → (do setNext (.block b) link; setSize b size tag).Ensures h False fun _ h' =>
      h'.Reads b size tag link
  linkAlone : ∀ b link, b + 16 ≤ h.region.size →
    (setNext (.block b) link).Ensures h False fun _ h' =>
      Alters (wordAt b) h h' ∧ h'.headLink = h.headLink ∧
        h'.region.readBytes (b + 8) 8 = h.region.readBytes (b + 8) 8
  sizeAlone : ∀ b size tag, b + 16 ≤ h.region.size → size < 0x8000000000000000 →
    (setSize b size tag).Ensures h False fun _ h' =>
      Alters (wordAt (b + 8)) h h' ∧ h'.headLink = h.headLink ∧
        h'.region.readBytes b 8 = h.region.readBytes b 8
  linkKept : ∀ o, h.IsPlace o → h.decodeLink (h.encodeLink (some o)) = .ok (some o)
  onlyNone : ∀ stored, h.decodeLink stored = .ok none ↔ stored = h.encodeLink none

end Heap

/-- **Headers round-trip.** -/
theorem headers_round_trip {region : Region} {settings : Settings} {overflow : Overflow} {h₀ h : Heap}
    (created : Heap.create region settings overflow = .ok h₀) (same : SameGeometry h₀ h) :
    h.CodesHeaders := by
  obtain ⟨_, laid, _⟩ := Heap.laid_create created
  have inside := (same.formed laid.formed).inside_header
  refine ⟨?_, ?_, ?_, ?_, ?_, ?_, ?_⟩
  · intro b place
    have high := place.2.1
    omega
  · intro b size tag link room small placed
    exact Heap.setSize_setNext_reads inside room small placed tag
  · intro b size tag link room small placed
    exact Heap.setNext_setSize_reads inside room small placed tag
  · intro b link room
    exact Heap.setNext_frame room link
  · intro b size tag room small
    exact Heap.setSize_frame room small tag
  · intro o place
    refine Heap.decodeLink_eq inside ?_
    intro p same
    obtain rfl := Option.some.inj same
    exact place
  · intro stored
    exact Heap.decodeLink_eq_none_iff

set_option maxRecDepth 4000 in
/-- With this canary the link to the odd offset 23 is stored as a word of ones. -/
theorem headers_round_trip_onesCanary : ∃ h₀ h : Heap,
    Heap.create oddRegion { alignment := 1, canary := 0xFFFFFFFFFFFFFFE8 } .trap = .ok h₀ ∧
      SameGeometry h₀ h ∧ h.CodesHeaders ∧ h.IsPlace 23 ∧ h.encodeLink (some 23) = Word.nil := by
  obtain ⟨h₀, created, place, stored⟩ : ∃ h₀ : Heap,
      Heap.create oddRegion { alignment := 1, canary := 0xFFFFFFFFFFFFFFE8 } .trap = .ok h₀ ∧
        h₀.IsPlace 23 ∧ h₀.encodeLink (some 23) = Word.nil := ⟨_, rfl, by decide +kernel⟩
  have same := sameGeometry_scribbled h₀ 31 (some 23) 0x8000000000000005
  exact ⟨h₀, _, created, same, headers_round_trip created same, place, stored⟩

end RegionAlloc.Tagged
