import Mathlib.Data.List.Duplicate
import RegionAlloc.Proofs.Tagged.FirstFit

/-!
# Allocation from corrupted headers

What if the bytes of a heap are not what its calls left there? Then a walk along the free list may end
too early, go in circles, or pass through headers that overlap, and a write to one header may change
another. Here nothing is known of a heap but the place and the settings that it was made with. An
allocation from it may fault, or search in circles (`Heap.goesInCircles_of_endless`). But what it hands
out lies where a block can be, is stamped as large enough, and was paid for from the free bytes
(`corrupted_heap_hands_out_sound_block`).

Two checks make this so. Whoever reads a link checks where it leads, so that a block that is found has
a place in the heap. And a block that is too small, as the last one of a list cut short may be, would
leave a rest below zero: that is a fault, or else a rest too large to be stored as a size.
-/

namespace RegionAlloc.Tagged

open Block Region

namespace Heap

variable {h h' : Heap} {anchor : Anchor} {link next : Option Nat} {b block o padded size : Nat}

/-! ## Reading a link -/

/-- A link that is read leads to where a block can be. -/
theorem isPlace_of_decodeLink {stored : Nat} (found : h.decodeLink stored = .ok (some o)) :
    h.IsPlace o := by
  unfold decodeLink at found
  by_cases nowhere : h.protect stored = Word.nil
  · simp only [if_pos nowhere] at found
    cases found
  · simp only [if_neg nowhere] at found
    by_cases place : h.IsPlace (h.protect stored)
    · rw [checkPlace, if_pos place] at found
      cases found
      exact place
    · rw [checkPlace, if_neg place] at found
      cases found

private theorem isPlace_of_next? (found : h.next? anchor = .ok (some o)) : h.IsPlace o := by
  cases anchor with
  | head => exact isPlace_of_decodeLink found
  | block b =>
    obtain ⟨stored, _, decoded⟩ := exists_of_bind_eq_ok found
    exact isPlace_of_decodeLink decoded

private theorem bind_ne_endless {α β : Type} {x : Except Fault α} {f : α → Except Fault β}
    (first : x ≠ .error .endless) (second : ∀ a, f a ≠ .error .endless) :
    (x >>= f) ≠ .error .endless := by
  cases x with
  | ok a => exact second a
  | error fault =>
    intro stuck
    cases stuck
    exact first rfl

private theorem loadWord_ne_endless {r : Region} : r.loadWord o ≠ .error .endless := by
  apply bind_ne_endless
  · unfold checkRange
    by_cases inside : o + 8 ≤ r.size
    · rw [if_pos inside]
      intro stuck
      cases stuck
    · rw [if_neg inside]
      intro stuck
      cases stuck
  · intro _ stuck
    cases stuck

private theorem decodeLink_ne_endless {stored : Nat} : h.decodeLink stored ≠ .error .endless := by
  unfold decodeLink
  by_cases nowhere : h.protect stored = Word.nil
  · simp only [if_pos nowhere]
    intro stuck
    cases stuck
  · simp only [if_neg nowhere]
    apply bind_ne_endless
    · unfold checkPlace
      by_cases place : h.IsPlace (h.protect stored)
      · rw [if_pos place]
        intro stuck
        cases stuck
      · rw [if_neg place]
        intro stuck
        cases stuck
    · intro _ stuck
      cases stuck

private theorem next?_ne_endless : h.next? anchor ≠ .error .endless := by
  cases anchor with
  | head => exact decodeLink_ne_endless
  | block b => exact bind_ne_endless loadWord_ne_endless fun _ => decodeLink_ne_endless

private theorem blockSize_ne_endless : h.blockSize b ≠ .error .endless := by
  apply bind_ne_endless
  · intro stuck
    unfold sizeField at stuck
    cases (Overflow.of_add_error stuck).1
  · intro field
    apply bind_ne_endless loadWord_ne_endless
    intro word stuck
    cases stuck

/-! ## Where a search can lead -/

/-- A search for `padded` bytes goes on from a block that is too small to the one that it links to. -/
def Passes (h : Heap) (padded b o : Nat) : Prop :=
  (∃ size < padded, h.blockSize b = .ok size) ∧ h.next? (.block b) = .ok (some o)

/-- One step of a search: it fails to read a header, or ends at the block, or goes on from the next. -/
theorem firstFitFrom_step (h : Heap) (padded fuel : Nat) (anchor : Anchor) (b : Nat) :
    (∃ fault ≠ .endless, h.firstFitFrom padded (fuel + 1) anchor b = .error fault) ∨
    h.firstFitFrom padded (fuel + 1) anchor b = .ok (anchor, b) ∨
    ∃ o, h.Passes padded b o ∧
      h.firstFitFrom padded (fuel + 1) anchor b = h.firstFitFrom padded fuel (.block b) o := by
  rw [firstFitFrom]
  cases sized : h.blockSize b with
  | error fault =>
    have readable : fault ≠ .endless := fun same => blockSize_ne_endless (same ▸ sized)
    exact Or.inl ⟨fault, readable, rfl⟩
  | ok size =>
    simp only [bind, Except.bind]
    by_cases short : size < padded
    · rw [if_pos short]
      cases linked : h.next? (.block b) with
      | error fault =>
        have readable : fault ≠ .endless := fun same => next?_ne_endless (same ▸ linked)
        exact Or.inl ⟨fault, readable, rfl⟩
      | ok link =>
        cases link with
        | none => exact Or.inr (Or.inl rfl)
        | some o => exact Or.inr (Or.inr ⟨o, ⟨⟨size, short, sized⟩, linked⟩, rfl⟩)
    · rw [if_neg short]
      exact Or.inr (Or.inl rfl)

/-- A search fails to read the first link, or begins where that leads. -/
theorem firstFit_begins (h : Heap) (padded : Nat) :
    (∃ fault ≠ .endless, h.firstFit padded = .error fault) ∨
    ∃ o, h.IsPlace o ∧ h.firstFit padded = h.firstFitFrom padded h.walkBound .head o := by
  rw [firstFit, next]
  cases linked : h.next? .head with
  | error fault =>
    have readable : fault ≠ .endless := fun same => next?_ne_endless (same ▸ linked)
    exact Or.inl ⟨fault, readable, rfl⟩
  | ok link =>
    cases link with
    | none =>
      have other : Fault.listEndsEarly ≠ .endless := by decide
      exact Or.inl ⟨.listEndsEarly, other, rfl⟩
    | some o => exact Or.inr ⟨o, isPlace_of_next? linked, rfl⟩

/-- A search ends at a place for a block if it begins at one, also where the list breaks off. -/
theorem isPlace_of_firstFitFrom {fuel : Nat} {found : Anchor × Nat} (place : h.IsPlace b)
    (walked : h.firstFitFrom padded fuel anchor b = .ok found) : h.IsPlace found.2 := by
  induction fuel generalizing anchor b with
  | zero => cases walked
  | succ fuel ih =>
    rcases h.firstFitFrom_step padded fuel anchor b with
      ⟨fault, _, fails⟩ | ends | ⟨o, passes, goes_on⟩
    · rw [fails] at walked
      cases walked
    · rw [ends] at walked
      cases walked
      exact place
    · rw [goes_on] at walked
      exact ih (isPlace_of_next? passes.2) walked

private theorem isPlace_of_firstFit {found : Anchor × Nat} (walked : h.firstFit padded = .ok found) :
    h.IsPlace found.2 := by
  rcases h.firstFit_begins padded with ⟨fault, _, fails⟩ | ⟨o, place, begins⟩
  · rw [fails] at walked
    cases walked
  · rw [begins] at walked
    exact isPlace_of_firstFitFrom place walked

/-- The search for `padded` bytes comes back to a block that it passed. -/
def GoesInCircles (h : Heap) (padded : Nat) : Prop :=
  ∃ b, Relation.TransGen (h.Passes padded) b b

/-- A search that uses up its steps passes a block in each. -/
theorem exists_chain_of_endless {fuel : Nat}
    (stuck : h.firstFitFrom padded fuel anchor b = .error .endless) :
    ∃ blocks : List Nat, blocks.length = fuel ∧ (∀ o ∈ blocks, h.IsPlace o) ∧
      (b :: blocks).IsChain (h.Passes padded) := by
  induction fuel generalizing anchor b with
  | zero => exact ⟨[], rfl, List.forall_mem_nil _, List.isChain_singleton b⟩
  | succ fuel ih =>
    rcases h.firstFitFrom_step padded fuel anchor b with
      ⟨fault, readable, fails⟩ | ends | ⟨o, passes, goes_on⟩
    · rw [fails] at stuck
      exact absurd (Except.error.inj stuck) readable
    · rw [ends] at stuck
      cases stuck
    · rw [goes_on] at stuck
      obtain ⟨blocks, length, places, chain⟩ := ih stuck
      refine ⟨o :: blocks, congrArg (· + 1) length, ?_, List.isChain_cons_cons.2 ⟨passes, chain⟩⟩
      exact List.forall_mem_cons.2 ⟨isPlace_of_next? passes.2, places⟩

/-- A chain of more places than there are meets one of them twice. -/
theorem goesInCircles_of_chain {blocks : List Nat} (inside : h.endMarker < h.region.size)
    (many : h.region.size < blocks.length) (places : ∀ o ∈ blocks, h.IsPlace o)
    (chain : blocks.IsChain (h.Passes padded)) : h.GoesInCircles padded := by
  have repeats : ¬ blocks.Nodup := by
    intro nodup
    have below : ∀ o ∈ blocks, o < h.region.size := fun o member =>
      Nat.lt_of_le_of_lt (places o member).2.1 inside
    exact Nat.not_le.2 many (length_le_of_nodup nodup below)
  obtain ⟨b, twice⟩ := List.exists_duplicate_iff_not_nodup.2 repeats
  have leads : blocks.IsChain (Relation.TransGen (h.Passes padded)) :=
    chain.imp fun _ _ => Relation.TransGen.single
  have again := leads.pairwise.sublist (List.duplicate_iff_sublist.1 twice)
  exact ⟨b, (List.pairwise_cons.1 again).1 b List.mem_cons_self⟩

/-- **A search that does not end goes in circles.** The bound on its steps stops no other one. -/
theorem goesInCircles_of_endless (inside : h.endMarker < h.region.size)
    (stuck : h.firstFit padded = .error .endless) : h.GoesInCircles padded := by
  rcases h.firstFit_begins padded with ⟨fault, readable, fails⟩ | ⟨o, _, begins⟩
  · rw [fails] at stuck
    exact absurd (Except.error.inj stuck) readable
  · rw [begins] at stuck
    obtain ⟨blocks, length, places, chain⟩ := exists_chain_of_endless stuck
    have many : h.region.size < blocks.length := by
      rw [length]
      exact Nat.lt_succ_self _
    exact goesInCircles_of_chain inside many places chain.tail

/-! ## What is written -/

/-- Any bytes may change, and the first link, but nothing else does. -/
theorem setNext_alters : (setNext anchor link).Ensures h True fun _ h' => Alters Set.univ h h' := by
  apply Call.Ensures.change_of_plan fun _ _ => trivial
  intro _ _
  cases anchor with
  | head => exact alters_putNext_head link _
  | block b =>
    have written : Alters (headersOf [⟨b, 0⟩]) h (h.putNext (.block b) link) :=
      alters_putNext_block link List.mem_cons_self rfl
    exact written.mono (Set.subset_univ _)

private theorem alters_putSize_univ (field size : Nat) (tag : Tag) :
    Alters Set.univ h (h.putSize field size tag) :=
  ⟨⟨rfl, rfl, rfl, rfl, rfl⟩, agreesOff_writeWord _ fun _ _ _ => Set.mem_univ _, rfl⟩

private theorem Alters.room {changed : Set Nat} (alters : Alters changed h h')
    (room : b + 16 ≤ h.region.size) : b + 16 ≤ h'.region.size := by
  rw [alters.region.sameSize]
  exact room

/-- A size is stored only if it stays clear of the tag bit. -/
theorem setSize_alters {tag : Tag} : (setSize b size tag).Ensures h True fun _ h' =>
    Alters Set.univ h h' ∧ size < 0x8000000000000000 := by
  apply Call.Ensures.change_of_plan fun _ _ => trivial
  intro field planned
  refine ⟨alters_putSize_univ field size tag, ?_⟩
  unfold sizePlace at planned
  by_cases small : size < 0x8000000000000000
  · exact small
  · rw [if_neg small] at planned
    cases planned

/-- The free size that is stored is read back. -/
theorem setSize_stores (room : b + 16 ≤ h.region.size) (small : size < 0x8000000000000000) :
    (setSize b size .free).Ensures h True fun _ h' =>
      Alters Set.univ h h' ∧ h'.blockSize b = .ok size := by
  apply Call.Ensures.of_run (run_setSize room small)
  refine ⟨alters_putSize_univ _ _ _, ?_⟩
  have stored : (h.putSize (b + 8) size .free).region.readWord (b + 8) = size :=
    h.region.readWord_writeWord (by simp only [Tag.bit]; omega) (by omega)
  rw [blockSize_of_room (by rw [size_putSize]; exact room), stored, Nat.mod_eq_of_lt small]

/-- Two headers are a small size. -/
theorem splitLimit_lt (valid : h.settings.Valid) : h.splitLimit < 0x8000000000000000 := by
  have header : h.headerSize < 16 + h.settings.alignment := Word.roundUp_lt valid.alignment_pos 16
  have bound := valid.2
  unfold maxAlignment at bound
  unfold splitLimit
  omega

/-- A rest that is stored as a size is no rest below zero. -/
theorem le_of_rest {overflow : Overflow} {found rest : Nat}
    (subtracted : overflow.sub found padded = .ok rest) (small : padded < 0x8000000000000000)
    (short : rest < 0x8000000000000000) : padded ≤ found := by
  by_contra wrapped
  unfold Overflow.sub at subtracted
  rw [if_neg wrapped] at subtracted
  cases overflow with
  | trap => cases subtracted
  | wrap =>
    have rest_eq := Except.ok.inj subtracted
    omega

/-- **What is left of a block after trimming has the size asked for**, and not more than there was,
whatever was in the headers. -/
theorem trim_covers (valid : h.settings.Valid) (room : block + 16 ≤ h.region.size)
    (small : padded < 0x8000000000000000) :
    (trim anchor block padded next).Ensures h True fun _ h' =>
      Alters Set.univ h h' ∧ ∃ found size, h.blockSize block = .ok found ∧ padded ≤ size ∧
        size ≤ found ∧ h'.blockSize block = .ok size := by
  have unchanged : Alters Set.univ h h := ⟨⟨rfl, rfl, rfl, rfl, rfl⟩, AgreesOff.refl _ _, rfl⟩
  unfold trim
  apply Call.Ensures.ask_bind_of_answer
  intro found sized
  apply Call.Ensures.ask_bind_of_answer
  intro rest subtracted
  apply Call.Ensures.state_bind
  by_cases split : h.splitLimit < rest
  · rw [if_pos split]
    unfold Heap.split
    apply Call.Ensures.ask_bind_of_answer
    intro remainder _
    apply setSize_alters.bind
    intro _ h₁ sized₁
    obtain ⟨alters₁, short⟩ := sized₁
    have enough := le_of_rest subtracted small short
    apply setNext_alters.bind
    intro _ h₂ alters₂
    apply setNext_alters.bind
    intro _ h₃ alters₃
    have alters := (alters₁.trans alters₂).trans alters₃
    apply (setSize_stores (alters.room room) small).mono id
    intro _ h₄ stored
    obtain ⟨alters₄, size⟩ := stored
    exact ⟨alters.trans alters₄, found, padded, sized, Nat.le_refl padded, enough, size⟩
  · -- Nothing was cut off. A rest that small is no difference that wrapped around.
    rw [if_neg split]
    have limit := splitLimit_lt valid
    have enough := le_of_rest subtracted small (Nat.lt_of_le_of_lt (Nat.le_of_not_lt split) limit)
    exact Call.Ensures.pure ⟨unchanged, found, found, sized, enough, Nat.le_refl found, sized⟩

/-- The block is stamped as handed out with this size, and the free bytes paid for it. -/
structure Handed (h h' : Heap) (block size : Nat) : Prop where
  alike : Alike h h'
  base : h'.region.base = h.region.base
  regionSize : h'.region.size = h.region.size
  stamped : Stamped h'.settings h'.region ⟨block, size⟩
  small : size < 0x8000000000000000
  counted : h.usage.allocate size h.overflow = .ok h'.usage

/-- **A block that is taken is stamped as large enough**, whatever was in the headers. -/
theorem takeBlock_covers (valid : h.settings.Valid) (room : block + 16 ≤ h.region.size)
    (small : padded < 0x8000000000000000) :
    (takeBlock anchor block padded).Ensures h True fun _ h' =>
      ∃ size, padded ≤ size ∧ Handed h h' block size := by
  unfold takeBlock
  apply Call.Ensures.ask_bind_of_answer
  intro next _
  apply setNext_alters.bind
  intro _ h₁ alters₁
  have valid₁ : h₁.settings.Valid := by
    rw [alters₁.settings]
    exact valid
  apply (trim_covers valid₁ (alters₁.room room) small).bind
  intro _ h₂ trimmed
  obtain ⟨alters₂, found, size, _, covers, _, sized⟩ := trimmed
  have alters := alters₁.trans alters₂
  have room₂ := alters.room room
  have short : size < 0x8000000000000000 := by
    rw [blockSize_of_room room₂] at sized
    rw [← Except.ok.inj sized]
    exact Nat.mod_lt _ (by decide)
  refine Call.Ensures.ask_bind sized ?_
  apply (count_ensures.mono (fun _ => trivial) fun _ _ => id).bind
  intro _ h₃ paid
  obtain ⟨usage, counted, rfl⟩ := paid
  rw [alters.usage, alters.overflow] at counted
  have stamped := stamped_putHeader (h := { h₂ with usage }) (e := ⟨block, size⟩) room₂ short
  have written := alters_putHeader (h := { h₂ with usage }) ⟨block, size⟩ size .allocated none
  apply Call.Ensures.run_bind (run_setSize (h := { h₂ with usage }) room₂ short)
  apply Call.Ensures.run_bind (run_setNext_block (by rw [size_putSize]; exact room₂))
  apply Call.Ensures.emit
  exact ⟨size, covers, alters.toAlike.trans ⟨written.settings, written.start, written.endMarker,
      written.hook, written.overflow⟩,
    written.region.sameBase.trans alters.region.sameBase,
    written.region.sameSize.trans alters.region.sameSize, stamped, short, counted⟩

/-- What was handed out at the address `p` is sound: it lies where a block can be, it is stamped as
handed out, and the free bytes paid for all of it. -/
structure SoundBlock (h h' : Heap) (need p b size : Nat) : Prop where
  address : p = h.region.base + (b + h.headerSize)
  place : h.IsPlace b
  below : b < h.endMarker
  aligned : h.settings.alignment ∣ p
  tagged : h'.blockTag b = .ok .allocated
  unlinked : h'.region.loadWord b = .ok (h'.encodeLink none)
  sized : h'.blockSize b = .ok size
  covers : need ≤ size
  spent : h'.usage.free + size = h.usage.free
  alike : Alike h h'

private theorem Handed.soundBlock {size : Nat} (handed : Handed h h' block size) (formed : h.Formed)
    (place : h.IsPlace block) (below : block < h.endMarker) (covers : padded ≤ size) :
    SoundBlock h h' padded (h.region.base + (block + h.headerSize)) block size := by
  obtain ⟨enough, spent, _⟩ := Usage.of_allocate handed.counted
  obtain ⟨low, _, multiple⟩ := place
  have header : h.settings.alignment ∣ h.headerSize :=
    Word.dvd_roundUp formed.valid.alignment_pos 16
  have split : h.region.base + (block + h.headerSize)
      = h.region.base + h.start + (block - h.start) + h.headerSize := by omega
  refine ⟨rfl, ⟨low, Nat.le_of_lt below, multiple⟩, below, ?_, ?_, ?_, ?_, covers, ?_, handed.alike⟩
  · rw [split]
    exact Nat.dvd_add (Nat.dvd_add formed.aligned (Nat.dvd_of_mod_eq_zero multiple)) header
  · exact blockTag_of_stamped handed.stamped
  · have room : block + 16 ≤ h'.region.size := handed.stamped.room
    rw [h'.region.loadWord_eq_ok (by omega)]
    exact congrArg Except.ok handed.stamped.link
  · exact blockSize_of_stamped handed.stamped handed.small
  · omega

/-- What an allocation can come to where nothing is known of the bytes, the first link and the
counters: a sound block, or nothing and the heap as it was. -/
def SoundOrNothing (h : Heap) (need : Nat) : Option Nat → Heap → Prop
  | none, h' => h' = h
  | some p, h' => ∃ b size, SoundBlock h h' need p b size

/-- The search may lead anywhere. Where it leads to a block, there is a place for one. -/
theorem Formed.allocatePadded_sound (formed : h.Formed) (small : padded < 0x8000000000000000) :
    (allocatePadded padded).Ensures h True (h.SoundOrNothing padded) := by
  have inside := formed.inside
  have limit : h.region.size < 0x8000000000000000 := h.region.sizeLt
  have header : 16 ≤ h.headerSize := h.settings.sixteen_le_headerSize
  unfold allocatePadded
  apply Call.Ensures.ask_bind_of_answer
  intro found walked
  obtain ⟨anchor, block⟩ := found
  have place : h.IsPlace block := isPlace_of_firstFit walked
  apply Call.Ensures.state_bind
  by_cases last : block = h.endMarker
  · simp only [if_pos last]
    exact Call.Ensures.emit_bind (Call.Ensures.pure rfl)
  simp only [if_neg last]
  have below : block < h.endMarker := Nat.lt_of_le_of_ne place.2.1 last
  apply (takeBlock_covers formed.valid (by omega) small).bind
  intro _ h' taken
  obtain ⟨size, covers, handed⟩ := taken
  have address : (do h'.region.addressOf (← h'.overflow.add block h'.headerSize))
      = .ok (h.region.base + (block + h.headerSize)) := by
    have same_size := handed.regionSize
    rw [handed.alike.headerSize_eq, Overflow.add_eq_ok (by omega), ← handed.base]
    exact h'.region.addressOf_eq_ok (by omega)
  refine Call.Ensures.ask_bind address ?_
  exact Call.Ensures.pure ⟨block, size, handed.soundBlock formed place below covers⟩

/-- **An allocation that ends hands out a sound block or changes nothing**, whatever the bytes, the
first link and the counters are. -/
theorem Formed.tryAllocate_sound (formed : h.Formed) {request need : Nat}
    (needs : h.settings.Needs request need) :
    (tryAllocate request).Ensures h True (h.SoundOrNothing need) := by
  apply tryAllocate_of_padded rfl
  intro padded _ padding _
  obtain rfl := needs.eq_of_paddedSize? formed.valid padding
  obtain ⟨_, _, small⟩ := Settings.paddedSize?_eq_some formed.valid padding
  exact formed.allocatePadded_sound small

end Heap

variable {region : Region} {settings : Settings} {overflow : Overflow} {h₀ h : Heap}
  {request need : Nat}

/-- The heap has the place and the settings of another one. Its bytes, its first link, its counters
and what it does with sums and differences that are no words may be any. -/
structure SameGeometry (h₀ h : Heap) : Prop extends SamePlace h₀ h where
  size : h.region.size = h₀.region.size

/-- Heaps of one geometry in two steps have one geometry. -/
theorem SameGeometry.trans {h' : Heap} (first : SameGeometry h₀ h) (second : SameGeometry h h') :
    SameGeometry h₀ h' where
  toSamePlace := first.toSamePlace.trans second.toSamePlace
  size := second.size.trans first.size

/-- A heap of the geometry of a well-formed one is well formed. -/
theorem SameGeometry.formed (same : SameGeometry h₀ h) (formed : h₀.Formed) : h.Formed where
  valid := by
    rw [same.settings]
    exact formed.valid
  aligned := by
    rw [same.settings, same.base, same.start]
    exact formed.aligned
  inside := by
    rw [same.endMarker, same.size, Heap.headerSize, same.settings]
    exact formed.inside

/-- **Corrupted headers cannot make a heap hand out a bad block.** An allocation that ends well from a
heap of which only the geometry is known changes nothing, or hands out a sound block. Where its search
does not end, the free list leads back to itself. -/
theorem corrupted_heap_hands_out_sound_block
    (created : Heap.create region settings overflow = .ok h₀) (same : SameGeometry h₀ h)
    (needs : settings.Needs request need) :
    (Heap.tryAllocate request).Ensures h True (h.SoundOrNothing need) ∧
      (h.firstFit need = .error .endless → h.GoesInCircles need) := by
  obtain ⟨_, laid, _, _, set⟩ := Heap.laid_create created
  have formed := same.formed laid.formed
  rw [← set, ← same.settings] at needs
  have inside := formed.inside_header
  exact ⟨formed.tryAllocate_sound needs, Heap.goesInCircles_of_endless (by omega)⟩

/-- The heap after stray writes. The bytes at `b` look like a header, the list begins there, and the
counter of free bytes is off too. -/
def scribbled (h : Heap) (b : Nat) (link : Option Nat) (size : Nat) : Heap :=
  { h with
    region := (h.region.writeWord b (h.encodeLink link)).writeWord (b + 8) size
    headLink := h.encodeLink (some b)
    usage := { h.usage with free := 101 } }

/-- Scribbling over a header keeps the geometry. -/
theorem sameGeometry_scribbled (h : Heap) (b : Nat) (link : Option Nat) (size : Nat) :
    SameGeometry h (scribbled h b link size) where
  settings := rfl
  start := rfl
  endMarker := rfl
  base := by
    unfold scribbled
    rw [Region.base_writeWord, Region.base_writeWord]
  size := by
    unfold scribbled
    rw [Region.size_writeWord, Region.size_writeWord]

/-- A region just large enough for a heap. -/
def narrowRegion : Region where
  base := 8192
  bytes := ⟨Array.replicate 40 0⟩
  basePos := by decide
  sizeLt := by decide +kernel
  endLe := by decide +kernel

set_option maxRecDepth 4000 in
/-- The list of the first heap begins inside a block, at a header that is tagged as handed out, has a
size that is no multiple of the alignment, and has no link. In the second one a block links to itself. -/
theorem corrupted_heap_hands_out_sound_block_scribbled :
    (∃ h₀ h' : Heap, ∃ b size, Heap.create oddRegion clearing .wrap = .ok h₀ ∧
      Heap.SoundBlock (scribbled h₀ 47 none 0x8000000000000064) h' 32 4160 b size) ∧
    ∃ h₀ : Heap, Heap.create narrowRegion {} .trap = .ok h₀ ∧
      (scribbled h₀ 0 (some 0) 16).GoesInCircles 24 := by
  constructor
  · obtain ⟨h₀, created, result⟩ : ∃ h₀, Heap.create oddRegion clearing .wrap = .ok h₀ ∧
        ((Heap.tryAllocate 1).run (scribbled h₀ 47 none 0x8000000000000064)).result.toOption
          = some (some 4160) := ⟨_, rfl, by decide +kernel⟩
    have same := sameGeometry_scribbled h₀ 47 none 0x8000000000000064
    have sound := (corrupted_heap_hands_out_sound_block created same clearing_needs).1
    obtain ⟨h', events, run⟩ := Call.exists_run result
    obtain ⟨b, size, block⟩ := sound.post_of_run run
    exact ⟨h₀, h', b, size, created, block⟩
  · obtain ⟨h₀, created, stuck⟩ : ∃ h₀, Heap.create narrowRegion {} .trap = .ok h₀ ∧
        (scribbled h₀ 0 (some 0) 16).firstFit 24 = .error .endless := ⟨_, rfl, by decide +kernel⟩
    have same := sameGeometry_scribbled h₀ 0 (some 0) 16
    have needs : ({} : Settings).Needs 1 24 := Settings.needs_roundUp (by decide) 1
    have circles := (corrupted_heap_hands_out_sound_block created same needs).2
    exact ⟨h₀, created, circles stuck⟩

end RegionAlloc.Tagged
