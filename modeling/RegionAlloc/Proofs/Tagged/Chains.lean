import RegionAlloc.Proofs.Chained
import RegionAlloc.Proofs.Ensures
import RegionAlloc.Tagged.Allocate
import RegionAlloc.Tagged.Audit
import RegionAlloc.Tagged.Release

/-!
# Walking and changing the free list of a tagged heap

`Heap.Leads` says through which entries the free list leads. Walks pass the entries that they do not
stop at one by one (`firstFitFrom_append`, `placeFrom_append`, `freeBlocksFrom_append`). The header of
a live block is no part of the list: it is `Heap.Stamped`. Links are stored combined with the canary,
and what reads one checks that it leads to a place for a block (`Heap.Placed`).
-/

namespace RegionAlloc.Tagged

open Region

/-- The word that stands for a link. -/
def code (settings : Settings) (link : Option Nat) : Nat :=
  link.getD Word.nil ^^^ settings.canary.toNat

/-- A link to a word is stored as a word. -/
theorem code_lt {settings : Settings} {link : Option Nat}
    (small : ∀ o, link = some o → o < 0x10000000000000000) :
    code settings link < 0x10000000000000000 := by
  refine Nat.xor_lt_two_pow ?_ settings.canary.toNat_lt
  cases link with
  | none => decide
  | some o => exact small o rfl

/-- Where a list that leads to the offset `stop` begins. -/
def startOf (stop : Nat) : List Entry → Nat
  | [] => stop
  | e :: _ => e.offset

/-- A list that leads to some offset begins somewhere. -/
theorem leadsTo_some (stop : Nat) (es : List Entry) : leadsTo (some stop) es = some (startOf stop es) := by
  cases es <;> rfl

/-- Two lists begin where the first does, with the second behind it. -/
@[simp] theorem startOf_append (stop : Nat) (xs ys : List Entry) :
    startOf stop (xs ++ ys) = startOf (startOf stop ys) xs := by
  cases xs <;> rfl

/-- The last anchor that a walk over these entries passes, after `anchor`. -/
def anchorFrom (anchor : Anchor) : List Entry → Anchor
  | [] => anchor
  | e :: rest => anchorFrom (.block e.offset) rest

/-- The last anchor of a list is the entry at its end. -/
@[simp] theorem anchorFrom_concat (anchor : Anchor) (xs : List Entry) (e : Entry) :
    anchorFrom anchor (xs ++ [e]) = .block e.offset := by
  induction xs generalizing anchor with
  | nil => rfl
  | cons x rest ih => exact ih (.block x.offset)

/-- An anchor that a walk passes is one of its entries. -/
theorem exists_of_anchorFrom {es : List Entry} {p : Nat} (last : anchorFrom .head es = .block p) :
    ∃ e ∈ es, e.offset = p := by
  rcases es.eq_nil_or_concat' with rfl | ⟨front, e, rfl⟩
  · cases last
  · rw [anchorFrom_concat] at last
    exact ⟨e, List.mem_append_right _ List.mem_cons_self, Anchor.block.inj last⟩

namespace Heap

variable {h h' h'' : Heap} {es xs ys : List Entry} {e : Entry} {stop link : Option Nat}
  {changed : Set Nat}

/-- The header behind the last block. -/
def marker (h : Heap) : Entry :=
  { offset := h.endMarker, size := 0 }

/-- The free list leads from its first link through these entries to `stop`. -/
structure Leads (h : Heap) (es : List Entry) (stop : Option Nat) : Prop where
  head : h.headLink = code h.settings (leadsTo stop es)
  chained : Chained (code h.settings) h.region stop es

/-- A link leads to a place for a block, or nowhere. -/
def Placed (h : Heap) (link : Option Nat) : Prop :=
  ∀ o, link = some o → h.IsPlace o

/-- The header says that the block was handed out. -/
structure Stamped (settings : Settings) (r : Region) (e : Entry) : Prop where
  room : e.offset + 16 ≤ r.size
  link : r.readWord e.offset = code settings none
  size : r.readWord (e.offset + 8) = e.size + 0x8000000000000000

/-- A free list through two lists of entries leads through the first to the second. -/
theorem leads_append :
    h.Leads (xs ++ ys) stop ↔
      h.Leads xs (leadsTo stop ys) ∧ Chained (code h.settings) h.region stop ys := by
  constructor
  · rintro ⟨head, chained⟩
    obtain ⟨front, back⟩ := chained_append.1 chained
    exact ⟨⟨head.trans (congrArg _ (leadsTo_append stop xs ys)), front⟩, back⟩
  · rintro ⟨⟨head, front⟩, back⟩
    exact ⟨head.trans (congrArg _ (leadsTo_append stop xs ys).symm), chained_append.2 ⟨front, back⟩⟩

/-! ## Reading -/

private theorem sizeField_eq {b : Nat} (room : b + 16 ≤ h.region.size) :
    h.sizeField b = .ok (b + 8) := by
  have limit : h.region.size < 0x8000000000000000 := h.region.sizeLt
  exact Overflow.add_eq_ok (by omega)

/-- A header in the region shows its size word without the tag bit. -/
theorem blockSize_of_room {b : Nat} (room : b + 16 ≤ h.region.size) :
    h.blockSize b = .ok (h.region.readWord (b + 8) % 0x8000000000000000) := by
  rw [blockSize, sizeField_eq room]
  simp only [bind, Except.bind, h.region.loadWord_eq_ok (show b + 8 + 8 ≤ h.region.size by omega)]
  rfl

/-- A header in the region shows the tag bit of its size word. -/
theorem blockTag_of_room {b : Nat} (room : b + 16 ≤ h.region.size) :
    h.blockTag b =
      .ok (if h.region.readWord (b + 8) < 0x8000000000000000 then .free else .allocated) := by
  rw [blockTag, sizeField_eq room]
  simp only [bind, Except.bind, h.region.loadWord_eq_ok (show b + 8 + 8 ≤ h.region.size by omega)]
  rfl

/-- The header of an entry on the free list shows its size. -/
theorem blockSize_eq (chained : Chained (code h.settings) h.region stop (e :: es))
    (small : e.size < 0x8000000000000000) : h.blockSize e.offset = .ok e.size := by
  rw [blockSize_of_room chained.1, chained.2.2.1, Nat.mod_eq_of_lt small]

/-- The header of an entry on the free list shows a free block. -/
theorem blockTag_eq (chained : Chained (code h.settings) h.region stop (e :: es))
    (small : e.size < 0x8000000000000000) : h.blockTag e.offset = .ok .free := by
  rw [blockTag_of_room chained.1, chained.2.2.1, if_pos small]

/-- The header of a block that was handed out shows its size. -/
theorem blockSize_of_stamped (stamped : Stamped h.settings h.region e)
    (small : e.size < 0x8000000000000000) :
    h.blockSize e.offset = .ok e.size := by
  rw [blockSize_of_room stamped.room, stamped.size, Nat.add_mod_right, Nat.mod_eq_of_lt small]

/-- The header of a block that was handed out shows a live block. -/
theorem blockTag_of_stamped (stamped : Stamped h.settings h.region e) :
    h.blockTag e.offset = .ok .allocated := by
  rw [blockTag_of_room stamped.room, stamped.size, if_neg (by omega)]

/-- The canary is taken out as it is put in. -/
theorem protect_protect (word : Nat) : h.protect (h.protect word) = word := by
  rw [protect, protect, Nat.xor_assoc, Nat.xor_self, Nat.xor_zero]

/-- No place for a block is taken for the end of links. -/
theorem IsPlace.ne_nil {o : Nat} (place : h.IsPlace o)
    (inside : h.endMarker + 16 ≤ h.region.size) : o ≠ Word.nil := by
  have limit : h.region.size < 0x8000000000000000 := h.region.sizeLt
  have high := place.2.1
  unfold Word.nil
  omega

/-- A stored link to a place for a block is read as that link. -/
theorem decodeLink_of_place {stored o : Nat} (inside : h.endMarker + 16 ≤ h.region.size)
    (plain : h.protect stored = o) (place : h.IsPlace o) : h.decodeLink stored = .ok (some o) := by
  subst plain
  unfold decodeLink
  rw [if_neg (place.ne_nil inside), checkPlace, if_pos place]
  rfl

/-- A stored link is read as it was, if there is a place for a block where it leads. -/
theorem decodeLink_eq (inside : h.endMarker + 16 ≤ h.region.size) (placed : h.Placed link) :
    h.decodeLink (code h.settings link) = .ok link := by
  have plain : h.protect (code h.settings link) = link.getD Word.nil := protect_protect _
  cases link with
  | none =>
    unfold decodeLink
    exact if_pos plain
  | some o => exact decodeLink_of_place inside plain (placed o rfl)

/-- The first link of the free list is read as where the list begins. -/
theorem next?_head (inside : h.endMarker + 16 ≤ h.region.size) (leads : h.Leads es stop)
    (placed : h.Placed (leadsTo stop es)) : h.next? .head = .ok (leadsTo stop es) := by
  rw [next?, leads.head]
  exact decodeLink_eq inside placed

/-- The link of an entry is read as where the rest of the list begins. -/
theorem next?_block (inside : h.endMarker + 16 ≤ h.region.size)
    (chained : Chained (code h.settings) h.region stop (e :: es))
    (placed : h.Placed (leadsTo stop es)) : h.next? (.block e.offset) = .ok (leadsTo stop es) := by
  have room := chained.1
  rw [next?, h.region.loadWord_eq_ok (by omega), chained.2.1]
  exact decodeLink_eq inside placed

/-- A link that leads on is the next offset. -/
theorem next_of_next? {anchor : Anchor} {o : Nat} (found : h.next? anchor = .ok (some o)) :
    h.next anchor = .ok o := by
  rw [next, found]
  rfl

/-! ## Walks -/

/-- The heap has places for these entries, and their sizes stay clear of the tag bit. -/
def Admits (h : Heap) (es : List Entry) : Prop :=
  ∀ e ∈ es, h.IsPlace e.offset ∧ e.size < 0x8000000000000000

/-- A list of admitted entries begins at a place for a block. -/
theorem Admits.placed {o : Nat} (admits : h.Admits es) (place : h.IsPlace o) :
    h.Placed (leadsTo (some o) es) := by
  intro p same
  cases es with
  | nil =>
    obtain rfl := Option.some.inj same
    exact place
  | cons e rest =>
    obtain rfl := Option.some.inj same
    exact (admits e List.mem_cons_self).1

/-- What admits a list admits its rest. -/
theorem Admits.of_cons (admits : h.Admits (e :: es)) : h.Admits es :=
  fun f member => admits f (List.mem_cons_of_mem _ member)

section Walks

variable {o : Nat} (inside : h.endMarker + 16 ≤ h.region.size)
  (chained : Chained (code h.settings) h.region (some o) es) (place : h.IsPlace o)
  (admits : h.Admits es) (fuel : Nat)

include inside chained place admits

/-- The search for a block passes by those that are too small. -/
theorem firstFitFrom_append {padded : Nat} (short : ∀ e ∈ es, e.size < padded) (anchor : Anchor) :
    h.firstFitFrom padded (es.length + fuel) anchor (startOf o es)
      = h.firstFitFrom padded fuel (anchorFrom anchor es) o := by
  induction es generalizing anchor with
  | nil => simp [startOf, anchorFrom]
  | cons e rest ih =>
    have next := next?_block inside chained (admits.of_cons.placed place)
    rw [leadsTo_some] at next
    rw [List.length_cons, show rest.length + 1 + fuel = rest.length + fuel + 1 by omega, startOf,
      anchorFrom, firstFitFrom, blockSize_eq chained (admits e List.mem_cons_self).2, next]
    simp only [bind, Except.bind, if_pos (short e List.mem_cons_self)]
    exact ih chained.2.2.2 admits.of_cons (fun f member => short f (List.mem_cons_of_mem _ member)) _

/-- The search for a place passes by the blocks below it. -/
theorem placeFrom_append {block : Nat} (below : ∀ e ∈ es, e.offset < block) (anchor : Anchor) :
    h.placeFrom block (es.length + fuel) anchor (startOf o es)
      = h.placeFrom block fuel (anchorFrom anchor es) o := by
  induction es generalizing anchor with
  | nil => simp [startOf, anchorFrom]
  | cons e rest ih =>
    have next := next?_block inside chained (admits.of_cons.placed place)
    rw [leadsTo_some] at next
    rw [List.length_cons, show rest.length + 1 + fuel = rest.length + fuel + 1 by omega, startOf,
      anchorFrom, placeFrom, next_of_next? next]
    simp only [bind, Except.bind, if_pos (below e List.mem_cons_self)]
    exact ih chained.2.2.2 admits.of_cons (fun f member => below f (List.mem_cons_of_mem _ member)) _

/-- The walk along the free list comes by its entries and ends at the end marker. -/
theorem freeBlocksFrom_append (last : o = h.endMarker) (other : ∀ e ∈ es, e.offset ≠ h.endMarker) :
    h.freeBlocksFrom (es.length + (fuel + 1)) (leadsTo (some o) es) = .ok es := by
  induction es with
  | nil => simp [leadsTo, freeBlocksFrom, last, pure, Except.pure]
  | cons e rest ih =>
    have next := next?_block inside chained (admits.of_cons.placed place)
    rw [List.length_cons, show rest.length + 1 + (fuel + 1) = rest.length + (fuel + 1) + 1 by omega,
      leadsTo, freeBlocksFrom, if_neg (other e List.mem_cons_self), next,
      blockSize_eq chained (admits e List.mem_cons_self).2]
    simp only [bind, Except.bind, ih chained.2.2.2 admits.of_cons
      fun f member => other f (List.mem_cons_of_mem _ member)]
    rfl

end Walks

/-! ## Changes -/

/-- Both heaps are set up alike. -/
structure Alike (h h' : Heap) : Prop where
  settings : h'.settings = h.settings
  start : h'.start = h.start
  endMarker : h'.endMarker = h.endMarker
  hook : h'.hook = h.hook
  overflow : h'.overflow = h.overflow

/-- Heaps that are set up alike in two steps are set up alike. -/
theorem Alike.trans (first : Alike h h') (second : Alike h' h'') : Alike h h'' where
  settings := second.settings.trans first.settings
  start := second.start.trans first.start
  endMarker := second.endMarker.trans first.endMarker
  hook := second.hook.trans first.hook
  overflow := second.overflow.trans first.overflow

/-- Heaps that are set up alike have headers of one size. -/
theorem Alike.headerSize_eq (alike : Alike h h') : h'.headerSize = h.headerSize :=
  congrArg Settings.headerSize alike.settings

/-- The second heap is the first but for these bytes and for the first link of the free list. -/
structure Alters (changed : Set Nat) (h h' : Heap) : Prop extends Alike h h' where
  region : AgreesOff changed h.region h'.region
  usage : h'.usage = h.usage

/-- Two changes to the same bytes are one. -/
theorem Alters.trans (first : Alters changed h h') (second : Alters changed h' h'') :
    Alters changed h h'' where
  toAlike := first.toAlike.trans second.toAlike
  region := first.region.trans second.region
  usage := second.usage.trans first.usage

/-- What changed is among what may change. -/
theorem Alters.mono {wider : Set Nat} (alters : Alters changed h h') (subset : changed ⊆ wider) :
    Alters wider h h' :=
  { alters with region := alters.region.mono subset }

/-- Places for blocks stay where they are. -/
theorem Alters.isPlace {o : Nat} (alters : Alters changed h h') (place : h.IsPlace o) :
    h'.IsPlace o := by
  unfold IsPlace at place ⊢
  rwa [alters.settings, alters.start, alters.endMarker]

/-- Admitted entries stay admitted. -/
theorem Alters.admits (alters : Alters changed h h') (admits : h.Admits es) : h'.Admits es :=
  fun e member => ⟨alters.isPlace (admits e member).1, (admits e member).2⟩

/-- The end marker stays in the region. -/
theorem Alters.inside (alters : Alters changed h h') (inside : h.endMarker + 16 ≤ h.region.size) :
    h'.endMarker + 16 ≤ h'.region.size := by
  rwa [alters.endMarker, alters.region.sameSize]

/-- No header of these entries is among the changed bytes. -/
def Clear (changed : Set Nat) (es : List Entry) : Prop :=
  ∀ e ∈ es, ∀ i, e.offset ≤ i → i < e.offset + 16 → i ∉ changed

private theorem clear_of_apart (apart : HeadersApart xs ys) : Clear (headersOf xs) ys := by
  rintro y right i low high ⟨x, left, from_start, below⟩
  have := apart x left y right
  omega

private theorem Alters.chained_of_clear (alters : Alters changed h h')
    (chained : Chained (code h.settings) h.region stop ys) (clear : Clear changed ys) :
    Chained (code h'.settings) h'.region stop ys := by
  rw [alters.settings]
  exact chained.agreesOff alters.region clear

/-- The free list stays as it is if its first link and the headers on it do. -/
theorem Alters.leads_of_clear (alters : Alters changed h h') (head : h'.headLink = h.headLink)
    (leads : h.Leads ys stop) (clear : Clear changed ys) : h'.Leads ys stop where
  head := by
    rw [head, leads.head, alters.settings]
  chained := alters.chained_of_clear leads.chained clear

/-- A block that was handed out stays so if its header does. -/
theorem Alters.stamped_of_clear (alters : Alters changed h h')
    (stamped : Stamped h.settings h.region e) (clear : Clear changed [e]) :
    Stamped h'.settings h'.region e := by
  have outside := clear e List.mem_cons_self
  refine ⟨?_, ?_, ?_⟩
  · rw [alters.region.sameSize]
    exact stamped.room
  · rw [alters.region.readWord_eq fun i low high => outside i low (by omega), alters.settings]
    exact stamped.link
  · rw [alters.region.readWord_eq fun i low high => outside i (by omega) (by omega)]
    exact stamped.size

/-- Writes into the headers of one list leave a list apart from it as it is. -/
theorem Alters.chained (alters : Alters (headersOf xs) h h')
    (chained : Chained (code h.settings) h.region stop ys) (apart : HeadersApart xs ys) :
    Chained (code h'.settings) h'.region stop ys :=
  alters.chained_of_clear chained (clear_of_apart apart)

/-- A change to some headers leaves the free list through others as it is. -/
theorem Alters.leads (alters : Alters (headersOf xs) h h') (head : h'.headLink = h.headLink)
    (leads : h.Leads ys stop) (apart : HeadersApart xs ys) : h'.Leads ys stop :=
  alters.leads_of_clear head leads (clear_of_apart apart)

/-- A change to some headers leaves another block handed out. -/
theorem Alters.stamped (alters : Alters (headersOf xs) h h') (stamped : Stamped h.settings h.region e)
    (apart : HeadersApart xs [e]) : Stamped h'.settings h'.region e :=
  alters.stamped_of_clear stamped (clear_of_apart apart)

/-- A new size and tag change only the header they are for. -/
theorem alters_putSize {p : Nat} (size : Nat) (tag : Tag) (member : e ∈ es) (field : p = e.offset + 8) :
    Alters (headersOf es) h (h.putSize p size tag) :=
  ⟨⟨rfl, rfl, rfl, rfl, rfl⟩, agreesOff_header _ member (Or.inr field), rfl⟩

/-- A new link changes only the header that it is for. -/
theorem alters_putNext_block {b : Nat} (link : Option Nat) (member : e ∈ es) (place : b = e.offset) :
    Alters (headersOf es) h (h.putNext (.block b) link) :=
  ⟨⟨rfl, rfl, rfl, rfl, rfl⟩, agreesOff_header _ member (Or.inl place), rfl⟩

/-- A new first link changes no byte. -/
theorem alters_putNext_head (link : Option Nat) (changed : Set Nat) :
    Alters changed h (h.putNext .head link) :=
  ⟨⟨rfl, rfl, rfl, rfl, rfl⟩, AgreesOff.refl _ _, rfl⟩

/-- Both words of a header are written. -/
theorem alters_putHeader (e : Entry) (size : Nat) (tag : Tag) (link : Option Nat) :
    Alters (headersOf [e]) h
      ((h.putSize (e.offset + 8) size tag).putNext (.block e.offset) link) :=
  (alters_putSize size tag List.mem_cons_self rfl).trans
    (alters_putNext_block link List.mem_cons_self rfl)

/-- With room for the header and a size clear of the tag bit, the size is stored. -/
theorem run_setSize {b size : Nat} {tag : Tag} (room : b + 16 ≤ h.region.size)
    (small : size < 0x8000000000000000) :
    (setSize b size tag).run h = ⟨.ok (), h.putSize (b + 8) size tag, []⟩ := by
  have inside : h.region.checkRange (b + 8) 8 = .ok () := if_pos (by omega)
  have place : h.sizePlace b size = .ok (b + 8) := by
    rw [sizePlace, if_pos small, sizeField_eq room]
    simp only [bind, Except.bind, inside]
    rfl
  exact Call.run_change place

/-- A new size leaves the region as large as it was. -/
@[simp] theorem size_putSize (p size : Nat) (tag : Tag) :
    (h.putSize p size tag).region.size = h.region.size :=
  h.region.size_writeWord p _

/-- With room for the header, the link is stored. -/
theorem run_setNext_block {b : Nat} (room : b + 16 ≤ h.region.size) :
    (setNext (.block b) link).run h = ⟨.ok (), h.putNext (.block b) link, []⟩ := by
  have inside : h.checkLink (.block b) = .ok () := if_pos (by omega)
  exact Call.run_change inside

/-- A link to a place for a block is a word. -/
theorem Placed.small (inside : h.endMarker + 16 ≤ h.region.size) (placed : h.Placed link) :
    ∀ o, link = some o → o < 0x10000000000000000 := by
  intro o same
  have limit : h.region.size < 0x8000000000000000 := h.region.sizeLt
  obtain ⟨_, below, _⟩ := placed o same
  omega

/-- A block whose size is stored comes in front of a list by its link. -/
theorem chained_putNext (inside : h.endMarker + 16 ≤ h.region.size)
    (chained : Chained (code h.settings) h.region stop ys) (placed : h.Placed (leadsTo stop ys))
    (room : e.offset + 16 ≤ h.region.size) (size : h.region.readWord (e.offset + 8) = e.size)
    (apart : HeadersApart [e] ys) :
    Chained (code h.settings) (h.putNext (.block e.offset) (leadsTo stop ys)).region stop (e :: ys) := by
  have alters : Alters (headersOf [e]) h (h.putNext (.block e.offset) (leadsTo stop ys)) :=
    alters_putNext_block _ List.mem_cons_self rfl
  refine ⟨?_, ?_, ?_, alters.chained chained apart⟩
  · rw [alters.region.sameSize]
    exact room
  · exact h.region.readWord_writeWord (code_lt (placed.small inside)) (by omega)
  · exact (h.region.readWord_writeWord_of_disjoint (by omega)).trans size

/-- A header written for a block puts the block in front of a list. -/
theorem chained_putHeader (inside : h.endMarker + 16 ≤ h.region.size)
    (chained : Chained (code h.settings) h.region stop ys) (placed : h.Placed (leadsTo stop ys))
    (room : e.offset + 16 ≤ h.region.size) (small : e.size < 0x8000000000000000)
    (apart : HeadersApart [e] ys) :
    Chained (code h.settings)
      ((h.putSize (e.offset + 8) e.size .free).putNext (.block e.offset) (leadsTo stop ys)).region
      stop (e :: ys) := by
  have alters : Alters (headersOf [e]) h (h.putSize (e.offset + 8) e.size .free) :=
    alters_putSize _ _ List.mem_cons_self rfl
  have stored : (h.putSize (e.offset + 8) e.size .free).region.readWord (e.offset + 8) = e.size :=
    h.region.readWord_writeWord (by simp only [Tag.bit]; omega) (by omega)
  refine chained_putNext (alters.inside inside) (alters.chained chained apart)
    (fun o same => alters.isPlace (placed o same)) ?_ stored apart
  rw [alters.region.sameSize]
  exact room

/-- A header written for a block stamps the block as handed out. -/
theorem stamped_putHeader (room : e.offset + 16 ≤ h.region.size)
    (small : e.size < 0x8000000000000000) :
    Stamped h.settings
      ((h.putSize (e.offset + 8) e.size .allocated).putNext (.block e.offset) none).region e := by
  have alters := alters_putHeader (h := h) e e.size .allocated none
  refine ⟨?_, ?_, ?_⟩
  · rw [alters.region.sameSize]
    exact room
  · refine readWord_writeWord _ (code_lt fun o absurd => by cases absurd) ?_
    rw [putSize, size_writeWord]
    omega
  · refine (readWord_writeWord_of_disjoint _ (by omega)).trans ?_
    exact h.region.readWord_writeWord (by simp only [Tag.bit]; omega) (by omega)

/-- The link that a walk ended at is replaced by another one. -/
theorem setNext_ensures {gap limit : Nat} (leads : h.Leads es stop)
    (spread : Block.Spread gap limit es) (small : ∀ o, link = some o → o < 0x10000000000000000) :
    (setNext (anchorFrom .head es) link).Ensures h False fun _ h' =>
      h'.Leads es link ∧ Alters (headersOf es) h h' := by
  rcases es.eq_nil_or_concat' with rfl | ⟨front, e, rfl⟩
  · have place : h.checkLink .head = .ok () := rfl
    exact Call.Ensures.change place ⟨⟨rfl, trivial⟩, alters_putNext_head link _⟩
  · rw [anchorFrom_concat]
    have last : e ∈ front ++ [e] := List.mem_append_right _ List.mem_cons_self
    have apart : ∀ f ∈ front, f.offset + 16 ≤ e.offset := by
      intro f member
      have room := spread.room f (List.mem_append_left _ member)
      have := (List.pairwise_append.1 spread.apart).2.2 f member e List.mem_cons_self
      omega
    have head : h.headLink = code h.settings (leadsTo link (front ++ [e])) := by
      rw [leads.head, leadsTo_append, leadsTo_append]
      rfl
    refine Call.Ensures.of_run (run_setNext_block (leads.chained.room last)) ⟨⟨head, ?_⟩, ?_⟩
    · exact leads.chained.relink apart (code_lt small)
    · exact alters_putNext_block link last rfl

/-- Counting changes the counters and nothing else. -/
theorem count_ensures {step : Overflow → Usage → Except Fault Usage} :
    (count step).Ensures h (∃ fault, step h.overflow h.usage = .error fault) fun _ h' =>
      ∃ usage, step h.overflow h.usage = .ok usage ∧ h' = { h with usage } :=
  Call.Ensures.change_of_plan (fun fault stopped => ⟨fault, stopped⟩) fun usage counted =>
    ⟨usage, counted, rfl⟩

end Heap

end RegionAlloc.Tagged
