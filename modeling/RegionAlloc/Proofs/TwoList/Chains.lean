import RegionAlloc.Proofs.Chained
import RegionAlloc.Proofs.Ensures
import RegionAlloc.TwoList.Allocate
import RegionAlloc.TwoList.Audit
import RegionAlloc.TwoList.Release

/-!
# Walking and changing the chains of a two-list heap

`Heap.Leads` says through which entries a chain leads. Every walk along a chain passes the entries
that it does not stop at one by one (`firstFitFrom_append`, `placeFrom_append`, `findFrom_append`,
`entriesFrom_append`). Taking a block off a chain and putting one in are a redirection of the
entries in front of it each (`unlink_ensures`, `insertSorted_ensures`).
-/

namespace RegionAlloc.TwoList

open Region

/-- The word that stands for a link. -/
def code (link : Option Nat) : Nat :=
  link.getD Word.nil

private theorem code_lt {link : Option Nat} (small : ∀ o, link = some o → o < 0x10000000000000000) :
    code link < 0x10000000000000000 := by
  cases link with
  | none => decide
  | some o => exact small o rfl

namespace Heap

variable {h : Heap} {chain : Chain} {es xs ys : List Entry} {e : Entry} {stop : Option Nat}

/-- A chain leads from its first link through these entries to `stop`. -/
structure Leads (h : Heap) (chain : Chain) (es : List Entry) (stop : Option Nat) : Prop where
  head : h.headOf chain = leadsTo stop es
  chained : Chained code h.region stop es

/-- A chain through two lists of entries leads through the first to the second. -/
theorem leads_append :
    h.Leads chain (xs ++ ys) stop ↔
      h.Leads chain xs (leadsTo stop ys) ∧ Chained code h.region stop ys := by
  constructor
  · rintro ⟨head, chained⟩
    obtain ⟨front, back⟩ := chained_append.1 chained
    exact ⟨⟨head.trans (leadsTo_append stop xs ys), front⟩, back⟩
  · rintro ⟨⟨head, front⟩, back⟩
    exact ⟨head.trans (leadsTo_append stop xs ys).symm, chained_append.2 ⟨front, back⟩⟩

/-- No link is within any bound. -/
theorem lt_of_none {n : Nat} : ∀ o : Nat, none = some o → o < n := by
  intro o absurd
  cases absurd

/-- A chain leads to an offset in the region if what it ends at is one. -/
theorem leadsTo_lt (chained : Chained code h.region stop es)
    (bounded : ∀ o, stop = some o → o < h.region.size) :
    ∀ o, leadsTo stop es = some o → o < h.region.size := by
  cases es with
  | nil => exact bounded
  | cons e rest =>
    rintro o same
    obtain rfl := Option.some.inj same
    have := chained.1
    omega

private theorem sizeField_eq {node : Nat} (room : node + 16 ≤ h.region.size) :
    h.sizeField node = .ok (node + 8) := by
  have := h.region.sizeLt
  unfold Region.size at room
  exact Overflow.add_eq_ok (by omega)

/-- The data of a block begins behind its header. -/
theorem dataOf_eq {node : Nat} (room : node + 16 ≤ h.region.size) :
    h.dataOf node = .ok (node + 16) := by
  have := h.region.sizeLt
  unfold Region.size at room
  exact Overflow.add_eq_ok (by unfold headerSize; omega)

/-- A header in the region shows its size word. -/
theorem blockSize_of_room {node : Nat} (room : node + 16 ≤ h.region.size) :
    h.blockSize node = .ok (h.region.readWord (node + 8)) := by
  rw [blockSize, sizeField_eq room]
  exact h.region.loadWord_eq_ok (by omega)

/-- The header of an entry on a chain shows its size. -/
theorem blockSize_eq (chained : Chained code h.region stop (e :: es)) :
    h.blockSize e.offset = .ok e.size := by
  rw [blockSize_of_room chained.1, chained.2.2.1]

/-- A link that was stored for a block in the region, or for none, is read as it was. -/
theorem next?_of_word {node : Nat} {link : Option Nat} (room : node + 8 ≤ h.region.size)
    (word : h.region.readWord node = code link)
    (bounded : ∀ o, link = some o → o < h.region.size) : h.next? node = .ok link := by
  have limit := h.region.sizeLt
  unfold Region.size at bounded
  rw [next?, h.region.loadWord_eq_ok room, word]
  cases link with
  | none => rfl
  | some o =>
    have := bounded o rfl
    have proper : ¬ code (some o) = Word.nil := by
      simp only [code, Option.getD_some, Word.nil]
      omega
    simp only [bind, Except.bind, pure, Except.pure, if_neg proper]
    rfl

/-- The link of an entry on a chain is read as where the rest of the chain begins. -/
theorem next?_eq (chained : Chained code h.region stop (e :: es))
    (bounded : ∀ o, stop = some o → o < h.region.size) :
    h.next? e.offset = .ok (leadsTo stop es) := by
  obtain ⟨room, word, _, tail⟩ := chained
  exact next?_of_word (by omega) word (leadsTo_lt tail bounded)

/-! ## Walks -/

/-- The search for a block passes by those that are too small. -/
theorem firstFitFrom_append {request : Nat} (chained : Chained code h.region stop es)
    (bounded : ∀ o, stop = some o → o < h.region.size) (short : ∀ e ∈ es, e.size < request)
    (fuel : Nat) (previous : Option Nat) :
    h.firstFitFrom request (es.length + fuel) previous (leadsTo stop es)
      = h.firstFitFrom request fuel (lastFrom previous es) stop := by
  induction es generalizing previous with
  | nil => simp [leadsTo, lastFrom]
  | cons e rest ih =>
    have small := short e List.mem_cons_self
    rw [List.length_cons, show rest.length + 1 + fuel = rest.length + fuel + 1 by omega, leadsTo,
      lastFrom, firstFitFrom, blockSize_eq chained, next?_eq chained bounded]
    simp only [bind, Except.bind, if_neg (Nat.not_le.2 small)]
    exact ih chained.2.2.2 (fun f member => short f (List.mem_cons_of_mem _ member)) _

private theorem placeFrom_append {node : Nat} (chained : Chained code h.region stop es)
    (bounded : ∀ o, stop = some o → o < h.region.size) (below : ∀ e ∈ es, e.offset < node)
    (fuel : Nat) (previous : Option Nat) :
    h.placeFrom node (es.length + fuel) previous (leadsTo stop es)
      = h.placeFrom node fuel (lastFrom previous es) stop := by
  induction es generalizing previous with
  | nil => simp [leadsTo, lastFrom]
  | cons e rest ih =>
    have before := below e List.mem_cons_self
    rw [List.length_cons, show rest.length + 1 + fuel = rest.length + fuel + 1 by omega, leadsTo,
      lastFrom, placeFrom, next?_eq chained bounded]
    simp only [bind, Except.bind, if_pos before]
    exact ih chained.2.2.2 (fun f member => below f (List.mem_cons_of_mem _ member)) _

/-- The search for a block passes by the others. -/
theorem findFrom_append {node : Nat} (chained : Chained code h.region stop es)
    (bounded : ∀ o, stop = some o → o < h.region.size) (other : ∀ e ∈ es, e.offset ≠ node)
    (fuel : Nat) (previous : Option Nat) :
    h.findFrom node (es.length + fuel) previous (leadsTo stop es)
      = h.findFrom node fuel (lastFrom previous es) stop := by
  induction es generalizing previous with
  | nil => simp [leadsTo, lastFrom]
  | cons e rest ih =>
    have different := other e List.mem_cons_self
    rw [List.length_cons, show rest.length + 1 + fuel = rest.length + fuel + 1 by omega, leadsTo,
      lastFrom, findFrom, next?_eq chained bounded]
    simp only [bind, Except.bind, if_neg different]
    exact ih chained.2.2.2 (fun f member => other f (List.mem_cons_of_mem _ member)) _

private theorem entriesFrom_append (chained : Chained code h.region none es) (fuel : Nat) :
    h.entriesFrom (es.length + fuel) (leadsTo none es) = .ok es := by
  induction es with
  | nil => simp [leadsTo, entriesFrom, pure, Except.pure]
  | cons e rest ih =>
    rw [List.length_cons, show rest.length + 1 + fuel = rest.length + fuel + 1 by omega, leadsTo,
      entriesFrom, next?_eq chained lt_of_none, blockSize_eq chained]
    simp only [bind, Except.bind, ih chained.2.2.2]
    rfl

/-- A chain that is short enough is read as its entries. -/
theorem entries_of_leads (leads : h.Leads chain es none) (short : es.length ≤ h.region.size) :
    h.entries chain = .ok es := by
  obtain ⟨fuel, enough⟩ : ∃ fuel, h.walkBound = es.length + fuel :=
    Nat.exists_eq_add_of_le (by unfold walkBound; omega)
  rw [entries, leads.head, enough]
  exact entriesFrom_append leads.chained fuel

/-! ## Changes -/

/-- The second heap is the first but for these bytes and for the first link of a chain. -/
structure Alters (chain : Chain) (changed : Set Nat) (h h' : Heap) : Prop where
  region : AgreesOff changed h.region h'.region
  other : ∀ c, c ≠ chain → h'.headOf c = h.headOf c
  usage : h'.usage = h.usage
  overflow : h'.overflow = h.overflow

/-- Two changes to the same bytes and to one first link are one. -/
theorem Alters.trans {changed : Set Nat} {h' h'' : Heap} (first : Alters chain changed h h')
    (second : Alters chain changed h' h'') : Alters chain changed h h'' where
  region := first.region.trans second.region
  other c different := (second.other c different).trans (first.other c different)
  usage := second.usage.trans first.usage
  overflow := second.overflow.trans first.overflow

/-- What changed is among what may change. -/
theorem Alters.mono {changed wider : Set Nat} {h' : Heap} (alters : Alters chain changed h h')
    (subset : changed ⊆ wider) : Alters chain wider h h' :=
  { alters with region := alters.region.mono subset }

/-- Writes into the headers of one list leave a chain apart from it as it is. -/
theorem Leads.off_headers {h' : Heap} (leads : h.Leads chain es stop)
    (head : h'.headOf chain = h.headOf chain) (agrees : AgreesOff (headersOf xs) h.region h'.region)
    (apart : HeadersApart xs es) : h'.Leads chain es stop where
  head := head.trans leads.head
  chained := leads.chained.off_headers agrees apart

/-- What lies apart from the changes of one chain keeps its place on the other. -/
theorem Leads.of_alters {changed : Chain} {h' : Heap} (leads : h.Leads chain es stop)
    (alters : Alters changed (headersOf xs) h h') (different : chain ≠ changed)
    (apart : HeadersApart xs es) : h'.Leads chain es stop :=
  leads.off_headers (alters.other chain different) alters.region apart

/-- A new word changes no first link. -/
@[simp] theorem headOf_putWord (offset word : Nat) :
    (h.putWord offset word).headOf chain = h.headOf chain := by
  cases chain <;> rfl

private theorem headOf_putHead (link : Option Nat) : (h.putHead chain link).headOf chain = link := by
  cases chain <;> rfl

private theorem alters_putHead (link : Option Nat) (changed : Set Nat) :
    Alters chain changed h (h.putHead chain link) := by
  cases chain
  · refine ⟨AgreesOff.refl _ _, fun c different => ?_, rfl, rfl⟩
    cases c
    · exact absurd rfl different
    · rfl
  · refine ⟨AgreesOff.refl _ _, fun c different => ?_, rfl, rfl⟩
    cases c
    · rfl
    · exact absurd rfl different

/-- A new link or a new size changes only the header that it is for. -/
theorem alters_putWord {p : Nat} (word : Nat) (member : e ∈ es)
    (place : p = e.offset ∨ p = e.offset + 8) :
    Alters chain (headersOf es) h (h.putWord p word) where
  region := agreesOff_header word member place
  other _ _ := headOf_putWord p word
  usage := rfl
  overflow := rfl

/-- A new header changes no other. -/
theorem alters_putHeader {c : Chain} (e : Entry) (link : Nat) :
    Alters c (headersOf [e]) h ((h.putWord (e.offset + 8) e.size).putWord e.offset link) :=
  (alters_putWord _ List.mem_cons_self (Or.inr rfl)).trans
    (alters_putWord _ List.mem_cons_self (Or.inl rfl))

/-- A header written for a block puts the block in front of a list. -/
theorem chained_putHeader {e : Entry} {ys : List Entry} (chained : Chained code h.region none ys)
    (room : e.offset + 16 ≤ h.region.size) (small : e.size < 0x10000000000000000)
    (apart : HeadersApart [e] ys) :
    Chained code ((h.putWord (e.offset + 8) e.size).putWord e.offset (code (leadsTo none ys))).region
      none (e :: ys) := by
  have limit : h.region.size < 0x8000000000000000 := h.region.sizeLt
  have word : code (leadsTo none ys) < 0x10000000000000000 := by
    refine code_lt fun o same => ?_
    have := leadsTo_lt chained lt_of_none o same
    omega
  have agrees := (alters_putHeader (h := h) (c := .free) e (code (leadsTo none ys))).region
  refine ⟨?_, ?_, ?_, chained.off_headers agrees apart⟩
  · rw [agrees.sameSize]
    exact room
  · refine readWord_writeWord _ word ?_
    change e.offset + 8 ≤ (h.region.writeWord (e.offset + 8) e.size).size
    rw [size_writeWord]
    omega
  · refine (readWord_writeWord_of_disjoint _ (by omega)).trans ?_
    exact h.region.readWord_writeWord small (by omega)

/-- Chains do not depend on the counters. -/
theorem Leads.of_usage (leads : h.Leads chain es stop) (usage : Usage) :
    ({ h with usage } : Heap).Leads chain es stop where
  head := by
    rw [← leads.head]
    cases chain <;> rfl
  chained := leads.chained

/-- With room for the header, the link is stored. -/
theorem run_setNext {node : Nat} {link : Option Nat} (room : node + 16 ≤ h.region.size) :
    (setNext node link).run h = ⟨.ok (), h.putWord node (code link), []⟩ := by
  have inside : h.region.checkRange node 8 = .ok () := if_pos (by omega)
  exact Call.run_change inside

/-- With room for the header, the size is stored. -/
theorem run_setBlockSize {node size : Nat} (room : node + 16 ≤ h.region.size) :
    (setBlockSize node size).run h = ⟨.ok (), h.putWord (node + 8) size, []⟩ := by
  have inside : h.region.checkRange (node + 8) 8 = .ok () := if_pos (by omega)
  have place : h.sizePlace node = .ok (node + 8) := by
    rw [sizePlace, sizeField_eq room]
    simp only [bind, Except.bind, inside]
    rfl
  exact Call.run_change place

/-- The link that a walk ended at is replaced by another one. -/
theorem setSuccessor_ensures {link : Option Nat} {gap limit : Nat}
    (leads : h.Leads chain es stop) (spread : Block.Spread gap limit es)
    (small : ∀ o, link = some o → o < 0x10000000000000000) :
    (setSuccessor chain (lastFrom none es) link).Ensures h False fun _ h' =>
      h'.Leads chain es link ∧ Alters chain (headersOf es) h h' := by
  rcases es.eq_nil_or_concat' with rfl | ⟨front, e, rfl⟩
  · -- No entry is in front, so the link is the first one of the chain.
    exact Call.Ensures.update ⟨⟨headOf_putHead link, trivial⟩, alters_putHead link _⟩
  · rw [lastFrom_concat]
    have last : e ∈ front ++ [e] := List.mem_append_right _ List.mem_cons_self
    have apart : ∀ f ∈ front, f.offset + 16 ≤ e.offset := by
      intro f member
      have room := spread.room f (List.mem_append_left _ member)
      have := (List.pairwise_append.1 spread.apart).2.2 f member e List.mem_cons_self
      omega
    have head : h.headOf chain = leadsTo link (front ++ [e]) := by
      rw [leads.head, leadsTo_append, leadsTo_append]
      rfl
    refine Call.Ensures.of_run (run_setNext (leads.chained.room last)) ⟨⟨?_, ?_⟩, ?_⟩
    · rwa [headOf_putWord]
    · exact leads.chained.relink apart (code_lt small)
    · exact alters_putWord _ last (Or.inl rfl)

/-- A block leaves its chain. -/
theorem unlink_ensures (leads : h.Leads chain (xs ++ e :: ys) none) {gap : Nat}
    (spread : Block.Spread gap h.region.size (xs ++ e :: ys)) :
    (unlink chain (lastFrom none xs) e.offset).Ensures h False fun _ h' =>
      h'.Leads chain (xs ++ ys) none ∧ Alters chain (headersOf xs) h h' := by
  obtain ⟨front, back⟩ := leads_append.1 leads
  have limit := h.region.sizeLt
  have small := leadsTo_lt back.2.2.2 lt_of_none
  refine Call.Ensures.ask_bind (next?_eq back lt_of_none) ?_
  refine (setSuccessor_ensures front (spread.sublist (List.sublist_append_left _ _)) ?_).mono
    id fun _ h' => ?_
  · intro o same
    have := small o same
    unfold Region.size at this
    omega
  · rintro ⟨redirected, alters⟩
    refine ⟨leads_append.2 ⟨redirected, ?_⟩, alters⟩
    have apart : HeadersApart xs ys := by
      apply headersApart_of_spread
      exact spread.sublist (List.Sublist.append_left (List.sublist_cons_self e ys) xs)
    exact back.2.2.2.off_headers alters.region apart

private theorem placeFrom_stop {node : Nat} (chained : Chained code h.region none ys)
    (above : ∀ y ∈ ys, node ≤ y.offset) (fuel : Nat) (previous : Option Nat) :
    h.placeFrom node (fuel + 1) previous (leadsTo none ys) = .ok (previous, leadsTo none ys) := by
  cases ys with
  | nil => simp [leadsTo, placeFrom, pure, Except.pure]
  | cons y rest =>
    rw [leadsTo, placeFrom, if_neg (Nat.not_lt.2 (above y List.mem_cons_self))]
    rfl

/-- A block whose size is stored already comes to its place on a chain. -/
theorem insertSorted_ensures (leads : h.Leads chain (xs ++ ys) none) {gap : Nat}
    (spread : Block.Spread gap h.region.size (xs ++ e :: ys)) (room : e.offset + 16 ≤ h.region.size)
    (size : h.region.readWord (e.offset + 8) = e.size) :
    (insertSorted chain e.offset).Ensures h False fun _ h' =>
      h'.Leads chain (xs ++ e :: ys) none ∧ Alters chain (headersOf (xs ++ [e])) h h' := by
  obtain ⟨front, back⟩ := leads_append.1 leads
  have limit := h.region.sizeLt
  have bounded := leadsTo_lt back lt_of_none
  obtain ⟨_, tail, cross⟩ := List.pairwise_append.1 spread.ascending
  have below : ∀ x ∈ xs, x.offset < e.offset := fun x member => cross x member e List.mem_cons_self
  have above : ∀ y ∈ ys, e.offset < y.offset := (List.pairwise_cons.1 tail).1
  obtain ⟨fuel, enough⟩ : ∃ fuel, h.walkBound = xs.length + (fuel + 1) :=
    (spread.sublist (List.sublist_append_left _ _)).exists_fuel (Nat.le_refl _)
  have place : h.placeFrom e.offset h.walkBound none (h.headOf chain)
      = .ok (lastFrom none xs, leadsTo none ys) := by
    rw [leads.head, leadsTo_append, enough, placeFrom_append front.chained bounded below]
    exact placeFrom_stop back (fun y member => Nat.le_of_lt (above y member)) fuel _
  refine Call.Ensures.ask_bind place ?_
  have front_apart : HeadersApart [e] xs := by
    refine (headersApart_of_spread (spread.sublist ?_)).symm
    exact List.Sublist.append_left (List.singleton_sublist.2 List.mem_cons_self) xs
  have back_apart : HeadersApart [e] ys :=
    headersApart_of_spread (spread.sublist (List.sublist_append_right xs (e :: ys)))
  -- The header of the block is complete before the entries in front of it lead there.
  have alters : Alters chain (headersOf [e]) h (h.putWord e.offset (code (leadsTo none ys))) :=
    alters_putWord _ List.mem_cons_self (Or.inl rfl)
  have front' : (h.putWord e.offset (code (leadsTo none ys))).Leads chain xs (leadsTo none ys) :=
    ⟨by rw [headOf_putWord]; exact front.head, front.chained.off_headers alters.region front_apart⟩
  have word : code (leadsTo none ys) < 0x10000000000000000 := by
    refine code_lt fun o same => ?_
    have := bounded o same
    unfold Region.size at this
    omega
  have back' : Chained code (h.putWord e.offset (code (leadsTo none ys))).region none (e :: ys) := by
    refine ⟨?_, ?_, ?_, back.off_headers alters.region back_apart⟩
    · rw [alters.region.sameSize]
      exact room
    · exact h.region.readWord_writeWord word (by omega)
    · exact (h.region.readWord_writeWord_of_disjoint (by omega)).trans size
  refine Call.Ensures.run_bind (run_setNext room) ?_
  refine (setSuccessor_ensures front' (spread.sublist (List.sublist_append_left _ _)) ?_).mono
    id fun _ h' => ?_
  · intro o same
    obtain rfl := Option.some.inj same
    unfold Region.size at room
    omega
  · rintro ⟨redirected, alters'⟩
    constructor
    · refine leads_append.2 ⟨redirected, ?_⟩
      exact back'.off_headers alters'.region (headersApart_of_spread spread)
    · have left : xs ⊆ xs ++ [e] := List.subset_append_left _ _
      have right : [e] ⊆ xs ++ [e] := List.subset_append_right _ _
      exact (alters.mono (headersOf_mono right)).trans (alters'.mono (headersOf_mono left))

/-- Counting changes the counters and nothing else. -/
theorem count_ensures {step : Overflow → Usage → Except Fault Usage} :
    (count step).Ensures h (∃ fault, step h.overflow h.usage = .error fault) fun _ h' =>
      ∃ usage, step h.overflow h.usage = .ok usage ∧ h' = { h with usage } :=
  Call.Ensures.change_of_plan (fun fault stopped => ⟨fault, stopped⟩) fun usage counted =>
    ⟨usage, counted, rfl⟩

end Heap

end RegionAlloc.TwoList
