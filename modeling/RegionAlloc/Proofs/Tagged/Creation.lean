import RegionAlloc.Proofs.Tagged.FirstFit

/-!
# Creating a tagged heap

Where a heap begins and ends in its region, how small a region may be, and what is written there
before the first allocation. A region is refused just if its settings are invalid or no heap fits in
it, and then it goes back as it was. A heap that is created takes up all of the region that it can, in
one free block (`creation_is_exact`).
-/

namespace RegionAlloc

/-- Every multiple of `unit` that is at most `n` is at most `roundDown n unit`. -/
theorem Word.le_roundDown {n unit m : Nat} (multiple : unit ∣ m) (le : m ≤ n) :
    m ≤ roundDown n unit := by
  rw [← Nat.div_mul_cancel multiple]
  exact Nat.mul_le_mul_right unit (Nat.div_le_div_right le)

namespace Tagged

open Block Region

variable {region : Region} {settings : Settings} {overflow : Overflow} {h : Heap}

namespace Settings

/-- A heap fits into so many bytes at this address: from one aligned address to another there is room
for a header and one unit of payload, and behind that for the header of the end marker. -/
def Fits (settings : Settings) (base size : Nat) : Prop :=
  ∃ start stop, settings.alignment ∣ base + start ∧ settings.alignment ∣ base + stop ∧
    start + (settings.headerSize + settings.alignment) ≤ stop ∧ stop + settings.headerSize ≤ size

private theorem valid_iff : settings.Valid ↔
    (∃ k, settings.alignment = 2 ^ k) ∧ settings.alignment ≤ 4096 := by
  unfold Valid
  rw [Word.isPowerOfTwo_iff]
  simp only [Nat.one_shiftLeft]
  rfl

/-- As many bytes as are required are enough, and no fewer. -/
theorem Valid.fits_iff (valid : settings.Valid) (region : Region) {size : Nat} :
    settings.Fits region.base size ↔
      Heap.requiredSize settings (region.alignedStart settings.alignment) ≤ size := by
  unfold Heap.requiredSize
  constructor
  · intro fits
    obtain ⟨start, stop, aligned, _, room, inside⟩ := fits
    have low := region.alignedStart_le aligned
    omega
  · intro large
    have aligned := region.dvd_base_add_alignedStart valid.alignment_pos
    have behind := Nat.dvd_add aligned
      (Nat.dvd_add valid.dvd_headerSize (Nat.dvd_refl settings.alignment))
    rw [Nat.add_assoc] at behind
    exact ⟨_, _, aligned, behind, Nat.le_refl _, by omega⟩

end Settings

namespace Heap

/-! ## Which regions are refused -/

private theorem create_of_invalid (region : Region) (overflow : Overflow) (invalid : ¬ settings.Valid) :
    create region settings overflow
      = .error { error := .invalidAlignment settings.alignment, region } := by
  rw [create, Settings.validate, if_neg invalid]

private theorem create_of_not_fits (overflow : Overflow) (valid : settings.Valid)
    (small : ¬ settings.Fits region.base region.size) :
    create region settings overflow = .error
      { error := .regionTooSmall region.size
          (requiredSize settings (region.alignedStart settings.alignment))
        region } := by
  rw [valid.fits_iff] at small
  rw [create, Settings.validate, if_pos valid]
  exact if_pos (Nat.not_le.1 small)

private theorem create_of_fits (overflow : Overflow) (valid : settings.Valid)
    (fits : settings.Fits region.base region.size) :
    create region settings overflow
      = .ok (layOut region settings overflow (region.alignedStart settings.alignment)) := by
  rw [valid.fits_iff] at fits
  rw [create, Settings.validate, if_pos valid]
  exact if_neg (Nat.not_lt.2 fits)

private theorem create_eq_ok_iff :
    (∃ h, create region settings overflow = .ok h) ↔
      settings.Valid ∧ settings.Fits region.base region.size := by
  constructor
  · intro succeeds
    obtain ⟨h, created⟩ := succeeds
    obtain ⟨valid, large, _⟩ := layOut_of_create created
    exact ⟨valid, (valid.fits_iff region).2 large⟩
  · intro both
    exact ⟨_, create_of_fits overflow both.1 both.2⟩

/-- Of what a refused region is told, its own size and the one it would have to have. -/
theorem create_eq_error {refusal : Refusal}
    (refused : create region settings overflow = .error refusal) :
    refusal.region = region ∧
      (¬ settings.Valid ∧ refusal.error = .invalidAlignment settings.alignment ∨
        settings.Valid ∧ ¬ settings.Fits region.base region.size ∧
          refusal.error = .regionTooSmall region.size
            (requiredSize settings (region.alignedStart settings.alignment))) := by
  by_cases valid : settings.Valid
  · by_cases fits : settings.Fits region.base region.size
    · rw [create_of_fits overflow valid fits] at refused
      cases refused
    · rw [create_of_not_fits overflow valid fits] at refused
      cases refused
      exact ⟨rfl, Or.inr ⟨valid, fits, rfl⟩⟩
  · rw [create_of_invalid region overflow valid] at refused
    cases refused
    exact ⟨rfl, Or.inl ⟨valid, rfl⟩⟩

/-! ## What is laid out -/

/-- A new heap makes the most of its region. It starts at the first aligned address and ends in the
last aligned place with room for a header. All between is one free block. Of the region only the two
headers are written, and any request is served at once that leaves room for the header in front of
it. -/
structure MakesMost (region : Region) (h : Heap) : Prop where
  first : IsLeast {o | h.settings.alignment ∣ region.base + o} h.start
  last : IsGreatest {o | h.settings.alignment ∣ region.base + o ∧ o + h.headerSize ≤ region.size}
    h.endMarker
  written : AgreesOff {i | h.start ≤ i ∧ i < h.start + 16 ∨
    h.endMarker ≤ i ∧ i < h.endMarker + 16} region h.region
  whole : h.freeBlocks = .ok [⟨h.start, h.endMarker - h.start⟩]
  serves : ∀ request, (tryAllocate request).Ensures h False fun place _ =>
    place.isSome ↔ 0 < request ∧ request ≤ h.endMarker - h.start - h.headerSize

private theorem isLeast_alignedStart (region : Region) {alignment : Nat} (positive : 0 < alignment) :
    IsLeast {o | alignment ∣ region.base + o} (region.alignedStart alignment) := by
  constructor
  · exact region.dvd_base_add_alignedStart positive
  · intro o aligned
    exact region.alignedStart_le aligned

/-- What can be used of the region ends at the last aligned place for a header. -/
theorem isGreatest_usable (valid : settings.Valid)
    (large : requiredSize settings (region.alignedStart settings.alignment) ≤ region.size) :
    IsGreatest {o | settings.alignment ∣ region.base + o ∧ o + settings.headerSize ≤ region.size}
      (region.alignedStart settings.alignment
        + usableSize region settings (region.alignedStart settings.alignment)) := by
  have aligned := region.dvd_base_add_alignedStart valid.alignment_pos
  obtain ⟨multiple, _, fits⟩ := usableSize_spec valid large
  constructor
  · refine ⟨?_, fits⟩
    rw [← Nat.add_assoc]
    exact Nat.dvd_add aligned multiple
  · intro o both
    obtain ⟨place, inside⟩ := both
    have low := region.alignedStart_le place
    have distance : settings.alignment ∣ o - region.alignedStart settings.alignment := by
      have apart := Nat.dvd_sub place aligned
      rwa [Nat.add_sub_add_left] at apart
    have most := Word.le_roundDown distance
      (show _ ≤ region.size - region.alignedStart settings.alignment - settings.headerSize by omega)
    unfold usableSize
    omega

/-- Two words are written at the end marker and two at the first block. -/
theorem agreesOff_layOut (region : Region) (settings : Settings) (overflow : Overflow) (start : Nat)
    {changed : Set Nat} (first : ∀ i, start ≤ i → i < start + 16 → i ∈ changed)
    (last : ∀ i, start + usableSize region settings start ≤ i →
      i < start + usableSize region settings start + 16 → i ∈ changed) :
    AgreesOff changed region (layOut region settings overflow start).region := by
  unfold layOut
  refine .trans (.trans (.trans (agreesOff_writeWord _ ?_) (agreesOff_writeWord _ ?_))
    (agreesOff_writeWord _ ?_)) (agreesOff_writeWord _ ?_)
  · intro i low high
    exact last i (by omega) high
  · intro i low high
    exact last i low (by omega)
  · intro i low high
    exact first i (by omega) high
  · intro i low high
    exact first i low (by omega)

/-- The only block of a heap serves just what leaves room for a header. -/
theorem Laid.tryAllocate_single {size : Nat}
    (laid : h.Laid [{ offset := h.start, size := size, live := false }])
    (unused : h.usage.CanAllocate h.overflow) (request : Nat) :
    (tryAllocate request).Ensures h False fun place _ =>
      place.isSome ↔ 0 < request ∧ request ≤ size - h.headerSize := by
  have valid := laid.formed.valid
  have needs := Settings.needs_roundUp valid request
  obtain ⟨multiple, wide⟩ : h.settings.alignment ∣ size ∧
    h.headerSize + h.settings.alignment ≤ size := laid.sizes _ List.mem_cons_self
  have room : Word.roundUp (request + h.settings.headerSize) h.settings.alignment
      ≤ (Survey.ofEntries (roster false [{ offset := h.start, size := size, live := false }])).largest
      ↔ request ≤ size - h.headerSize := by
    have only : ∀ need, (∃ e ∈ [(⟨h.start, size⟩ : Entry)], need ≤ e.size) ↔ need ≤ size := by
      simp
    refine (Survey.le_largest_iff needs.pos).trans ((only _).trans ?_)
    unfold headerSize at wide ⊢
    constructor
    · intro enough
      have covers := needs.1.2
      omega
    · intro small
      exact needs.2 ⟨multiple, by omega⟩
  apply (laid.tryAllocate_first_fit needs).mono (fun stopped => stopped.2 unused)
  intro place h' outcome
  rw [← room]
  split at outcome
  · rename_i served
    obtain ⟨_, _, _, address, _, rfl, _⟩ := outcome
    exact iff_of_true rfl served
  · rename_i refused
    obtain ⟨rfl, _⟩ := outcome
    exact iff_of_false Bool.false_ne_true refused

private theorem makesMost_of_create (created : create region settings overflow = .ok h) :
    MakesMost region h := by
  obtain ⟨valid, large, rfl⟩ := layOut_of_create created
  have aligned := region.dvd_base_add_alignedStart valid.alignment_pos
  obtain ⟨laid, _⟩ := laid_layOut overflow valid aligned large
  have block : (layOut region settings overflow (region.alignedStart settings.alignment)).endMarker
      - region.alignedStart settings.alignment
      = usableSize region settings (region.alignedStart settings.alignment) :=
    Nat.add_sub_cancel_left _ _
  refine ⟨isLeast_alignedStart region valid.alignment_pos, isGreatest_usable valid large, ?_, ?_, ?_⟩
  · exact agreesOff_layOut region settings overflow _ (fun i low high => Or.inl ⟨low, high⟩)
      fun i low high => Or.inr ⟨low, high⟩
  · rw [laid.freeBlocks_eq]
    exact congrArg (fun size => Except.ok [(⟨_, size⟩ : Entry)]) block.symm
  · intro request
    have unused : (Usage.start (usableSize region settings
        (region.alignedStart settings.alignment))).CanAllocate overflow :=
      Or.inr (show 0 + 1 < 0x10000000000000000 by decide)
    exact block ▸ laid.tryAllocate_single unused request

end Heap

/-- What decides whether a heap is created, and how. A region is refused for its settings just if the
alignment is no power of two up to 4096, and with valid settings just if no heap fits in it. It then
goes back as it was. The size that a region is told to need is the least at its address in which a heap
fits, and for which one is created. A heap that is created makes the most of its region. -/
structure CreatedExactly (region : Region) (settings : Settings) (overflow : Overflow) : Prop where
  invalid : (∃ refusal n, Heap.create region settings overflow = .error refusal ∧
      refusal.error = .invalidAlignment n) ↔
    ¬ ((∃ k, settings.alignment = 2 ^ k) ∧ settings.alignment ≤ 4096)
  tooSmall : (∃ k, settings.alignment = 2 ^ k) ∧ settings.alignment ≤ 4096 →
    ((∃ refusal size required, Heap.create region settings overflow = .error refusal ∧
        refusal.error = .regionTooSmall size required) ↔ ¬ settings.Fits region.base region.size)
  succeeds : (∃ h, Heap.create region settings overflow = .ok h) ↔
    ((∃ k, settings.alignment = 2 ^ k) ∧ settings.alignment ≤ 4096) ∧
      settings.Fits region.base region.size
  unchanged : ∀ refusal, Heap.create region settings overflow = .error refusal →
    refusal.region = region
  told : ∀ refusal size required, Heap.create region settings overflow = .error refusal →
    refusal.error = .regionTooSmall size required →
      size = region.size ∧ IsLeast {n | settings.Fits region.base n} required ∧
        ∀ other : Region, other.base = region.base →
          ((∃ h, Heap.create other settings overflow = .ok h) ↔ required ≤ other.size)
  tight : ∀ h, Heap.create region settings overflow = .ok h →
    h.settings = settings ∧ Heap.MakesMost region h

/-- The size that is required is the least one in which a heap fits. -/
theorem Settings.Valid.isLeast_requiredSize (valid : settings.Valid) (region : Region) :
    IsLeast {n | settings.Fits region.base n}
      (Heap.requiredSize settings (region.alignedStart settings.alignment)) := by
  constructor
  · exact (valid.fits_iff region).2 (Nat.le_refl _)
  · intro n fits
    exact (valid.fits_iff region).1 fits

/-- **Creation is exact and tight**, for every region and all settings. -/
theorem creation_is_exact (region : Region) (settings : Settings) (overflow : Overflow) :
    CreatedExactly region settings overflow where
  invalid := by
    rw [← Settings.valid_iff]
    constructor
    · intro refused
      obtain ⟨refusal, n, refused, error⟩ := refused
      obtain ⟨_, ⟨invalid, _⟩ | ⟨_, _, other⟩⟩ := Heap.create_eq_error refused
      · exact invalid
      · rw [other] at error
        cases error
    · intro invalid
      exact ⟨_, _, Heap.create_of_invalid region overflow invalid, rfl⟩
  tooSmall valid := by
    rw [← Settings.valid_iff] at valid
    constructor
    · intro refused
      obtain ⟨refusal, size, required, refused, error⟩ := refused
      obtain ⟨_, ⟨invalid, _⟩ | ⟨_, small, _⟩⟩ := Heap.create_eq_error refused
      · exact absurd valid invalid
      · exact small
    · intro small
      exact ⟨_, _, _, Heap.create_of_not_fits overflow valid small, rfl⟩
  succeeds := by
    rw [← Settings.valid_iff]
    exact Heap.create_eq_ok_iff
  unchanged refusal refused := (Heap.create_eq_error refused).1
  told refusal size required refused error := by
    obtain ⟨_, ⟨_, other⟩ | ⟨valid, _, same⟩⟩ := Heap.create_eq_error refused
    · rw [other] at error
      cases error
    rw [same] at error
    cases error
    refine ⟨rfl, valid.isLeast_requiredSize region, ?_⟩
    intro other place
    rw [Heap.create_eq_ok_iff, and_iff_right valid, place]
    exact valid.fits_iff region
  tight h created := by
    obtain ⟨_, _, made⟩ := Heap.layOut_of_create created
    exact ⟨congrArg Heap.settings made.symm, Heap.makesMost_of_create created⟩

set_option maxRecDepth 4000 in
/-- Of a hundred and seventy-six bytes at an odd address a block of 144 is left, and the first request
may be for 128 of them. With an alignment of 64 the region would have to have 255 bytes. -/
theorem creation_is_exact_oddRegion :
    (∃ h, Heap.create oddRegion clearing .trap = .ok h ∧ (h.start, h.endMarker) = (15, 159) ∧
      Heap.MakesMost oddRegion h ∧
      ((Heap.tryAllocate 128).run h).result.toOption.join.isSome = true ∧
      ((Heap.tryAllocate 129).run h).result.toOption.join.isSome = false) ∧
    Heap.create oddRegion { alignment := 64 } .trap
      = .error { error := .regionTooSmall 176 255, region := oddRegion } ∧
    IsLeast {n | ({ alignment := 64 } : Settings).Fits 4097 n} 255 := by
  constructor
  · obtain ⟨h, created, place, served, refused⟩ : ∃ h,
        Heap.create oddRegion clearing .trap = .ok h ∧ (h.start, h.endMarker) = (15, 159) ∧
        ((Heap.tryAllocate 128).run h).result.toOption.join.isSome = true ∧
        ((Heap.tryAllocate 129).run h).result.toOption.join.isSome = false :=
      ⟨_, rfl, by decide +kernel⟩
    exact ⟨h, created, place, ((creation_is_exact oddRegion clearing .trap).tight h created).2, served,
      refused⟩
  · have refused : Heap.create oddRegion { alignment := 64 } .trap
        = .error { error := .regionTooSmall 176 255, region := oddRegion } := rfl
    exact ⟨refused, ((creation_is_exact oddRegion { alignment := 64 } .trap).told _ _ _ refused rfl).2.1⟩

end Tagged

end RegionAlloc
