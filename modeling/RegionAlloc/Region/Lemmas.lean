import Mathlib.Algebra.Ring.Nat
import RegionAlloc.Region.Basic

/-!
# What reads see after writes

A write of bytes is seen at exactly the offsets it covers (`byte_writeBytes`), and a word survives the
way through its bytes (`Word.ofBytes_toBytes`). Hence a word reads back as it was written
(`readWord_writeWord`), and a word apart from a written range reads as before
(`readWord_writeBytes_of_disjoint`, `readWord_writeWord_of_disjoint`).
-/

namespace RegionAlloc

namespace Word

private theorem ofBytes_toBytes {count w : Nat} (hw : w < 256 ^ count) :
    ofBytes (toBytes count w) = w := by
  induction count generalizing w with
  | zero => simp [toBytes, ofBytes]; omega
  | succ count ih =>
    have hdiv : w / 256 < 256 ^ count := by
      rw [Nat.pow_succ] at hw
      exact Nat.div_lt_of_lt_mul (by omega)
    have hmod : (UInt8.ofNat (w % 256)).toNat = w % 256 := by
      simp [UInt8.toNat_ofNat']
    rw [toBytes, ofBytes, ih hdiv, hmod]
    omega

end Word

namespace Region

variable (r : Region)

@[simp] private theorem size_setByte (offset : Nat) (value : UInt8) :
    (r.setByte offset value).size = r.size := by
  unfold setByte
  split
  · exact size_set ..
  · rfl

@[simp] private theorem base_setByte (offset : Nat) (value : UInt8) :
    (r.setByte offset value).base = r.base := by
  unfold setByte
  split <;> rfl

private theorem get_set (bytes : ByteArray) {i j : Nat} (value : UInt8) (hi : i < bytes.size)
    (hj : j < (bytes.set i value hi).size) (hj' : j < bytes.size) :
    (bytes.set i value hi).get j hj = if j = i then value else bytes.get j hj' := by
  have h := @Array.getElem_set UInt8 bytes.data i hi value j hj
  refine h.trans ?_
  by_cases hij : i = j
  · rw [if_pos hij, if_pos hij.symm]
  · rw [if_neg hij, if_neg (Ne.symm hij)]
    rfl

private theorem byte_setByte (offset i : Nat) (value : UInt8) :
    (r.setByte offset value).byte i
      = if i = offset ∧ offset < r.size then value else r.byte i := by
  unfold setByte size
  by_cases hoffset : offset < r.bytes.size
  · rw [dif_pos hoffset]
    by_cases hi : i < r.bytes.size
    · have inside : i < (r.bytes.set offset value hoffset).size := by rw [size_set]; exact hi
      refine (dif_pos inside).trans ?_
      rw [get_set r.bytes value hoffset inside hi, byte, dif_pos hi]
      by_cases same : i = offset
      · rw [if_pos same, if_pos ⟨same, hoffset⟩]
      · rw [if_neg same, if_neg fun both => same both.1]
    · simp [byte, size_set, hi, show i ≠ offset by omega]
  · simp [hoffset]

/-- Writing leaves a region as large as it was. -/
@[simp] theorem size_writeBytes (offset : Nat) (data : List UInt8) :
    (r.writeBytes offset data).size = r.size := by
  induction data generalizing r offset with
  | nil => rfl
  | cons value rest ih => simp [writeBytes, ih]

/-- Writing leaves a region where it was. -/
@[simp] theorem base_writeBytes (offset : Nat) (data : List UInt8) :
    (r.writeBytes offset data).base = r.base := by
  induction data generalizing r offset with
  | nil => rfl
  | cons value rest ih => simp [writeBytes, ih]

/-- Inside the range a write is seen, outside the byte stays. -/
theorem byte_writeBytes (offset i : Nat) (data : List UInt8) :
    (r.writeBytes offset data).byte i
      = if offset ≤ i ∧ i < r.size then data.getD (i - offset) (r.byte i) else r.byte i := by
  induction data generalizing r offset with
  | nil => simp [writeBytes]
  | cons value rest ih =>
    rw [writeBytes, ih, size_setByte, byte_setByte]
    rcases Nat.lt_trichotomy i offset with h | rfl | h
    · simp [show ¬ offset + 1 ≤ i by omega, show ¬ offset ≤ i by omega, show i ≠ offset by omega]
    · by_cases hlt : i < r.size <;> simp [hlt, show ¬ i + 1 ≤ i by omega]
    · obtain ⟨k, rfl⟩ : ∃ k, i = offset + 1 + k := ⟨i - (offset + 1), by omega⟩
      simp [show offset + 1 + k - offset = k + 1 by omega, show offset ≤ offset + 1 + k by omega,
        show offset + 1 + k ≠ offset by omega]

/-- A byte that is not written to is as it was. -/
theorem byte_writeBytes_of_disjoint {offset i : Nat} {data : List UInt8}
    (hi : i < offset ∨ offset + data.length ≤ i) :
    (r.writeBytes offset data).byte i = r.byte i := by
  rw [byte_writeBytes]
  split
  · simp [List.getD_eq_getElem?_getD, show data.length ≤ i - offset by omega]
  · rfl

/-- As many bytes are read as were asked for. -/
@[simp] theorem length_readBytes (offset count : Nat) :
    (r.readBytes offset count).length = count := by
  simp [readBytes]

/-- What was written reads back, if it lies in the region. -/
theorem readBytes_writeBytes {offset : Nat} {data : List UInt8}
    (hdata : offset + data.length ≤ r.size) :
    (r.writeBytes offset data).readBytes offset data.length = data := by
  apply List.ext_getElem (by simp)
  intro i _ hi
  simp only [readBytes, List.getElem_map, List.getElem_range, byte_writeBytes]
  rw [if_pos (by omega), show offset + i - offset = i by omega,
    List.getD_eq_getElem?_getD, List.getElem?_eq_getElem hi, Option.getD_some]

private theorem readBytes_writeBytes_of_disjoint {offset o count : Nat} {data : List UInt8}
    (ho : o + count ≤ offset ∨ offset + data.length ≤ o) :
    (r.writeBytes offset data).readBytes o count = r.readBytes o count := by
  apply List.map_congr_left
  intro i hi
  have := List.mem_range.1 hi
  exact r.byte_writeBytes_of_disjoint (by omega)

/-- What was written at an address is read there. -/
theorem readAt_writeAt (address : Nat) (data : List UInt8)
    (inside : address - r.base + data.length ≤ r.size) :
    (r.writeAt address data).readAt address data.length = data := by
  rw [readAt, writeAt, base_writeBytes]
  exact r.readBytes_writeBytes inside

/-- The first bytes at an address are the first of more bytes there. -/
theorem readAt_eq_take (address : Nat) {count n : Nat} (le : count ≤ n) :
    r.readAt address count = (r.readAt address n).take count := by
  rw [readAt, readAt, readBytes, readBytes, ← List.map_take, List.take_range, Nat.min_eq_left le]

private theorem readNat_eq (count offset : Nat) :
    r.readNat count offset = Word.ofBytes (r.readBytes offset count) := by
  induction count generalizing offset with
  | zero => rfl
  | succ count ih =>
    have hbytes : r.readBytes offset (count + 1)
        = r.byte offset :: r.readBytes (offset + 1) count := by
      simp only [readBytes, List.range_succ_eq_map, List.map_cons, List.map_map, Nat.add_zero]
      refine congrArg _ (List.map_congr_left fun i _ => ?_)
      simp only [Function.comp_apply]
      rw [show offset + i.succ = offset + 1 + i by omega]
    rw [readNat, hbytes, Word.ofBytes, ih]

/-- A word is the number that its eight bytes stand for. -/
theorem readWord_eq (offset : Nat) :
    r.readWord offset = Word.ofBytes (r.readBytes offset 8) := by
  rw [readWord_def]
  exact r.readNat_eq 8 offset

/-- A word that is written leaves the region as large as it was. -/
@[simp] theorem size_writeWord (offset word : Nat) : (r.writeWord offset word).size = r.size := by
  rw [writeWord_def]
  exact r.size_writeBytes _ _

/-- A word that is written leaves the region where it was. -/
@[simp] theorem base_writeWord (offset word : Nat) : (r.writeWord offset word).base = r.base := by
  rw [writeWord_def]
  exact r.base_writeBytes _ _

/-- The top bit of a word is that of its last byte. -/
theorem readWord_lt_iff (offset : Nat) :
    r.readWord offset < 0x8000000000000000 ↔ (r.byte (offset + 7)).toNat < 128 := by
  have byte_lt (i : Nat) : (r.byte i).toNat < 256 := (r.byte i).toNat_lt
  have first := byte_lt offset
  have second := byte_lt (offset + 1)
  have third := byte_lt (offset + 2)
  have fourth := byte_lt (offset + 3)
  have fifth := byte_lt (offset + 4)
  have sixth := byte_lt (offset + 5)
  have seventh := byte_lt (offset + 6)
  rw [readWord_def]
  simp only [readNat, Nat.add_assoc, Nat.reduceAdd]
  omega

/-- A word that fits in the region reads back as it was written. -/
theorem readWord_writeWord {offset word : Nat} (hword : word < 0x10000000000000000)
    (hoffset : offset + 8 ≤ r.size) :
    (r.writeWord offset word).readWord offset = word := by
  have hlength := Word.length_toBytes 8 word
  have h : (r.writeBytes offset (Word.toBytes 8 word)).readBytes offset _ = Word.toBytes 8 word :=
    r.readBytes_writeBytes (by rw [hlength]; exact hoffset)
  rw [hlength] at h
  rw [readWord_eq, writeWord_def, h]
  exact Word.ofBytes_toBytes hword

private theorem readWord_writeBytes_of_disjoint {offset o : Nat} {data : List UInt8}
    (ho : o + 8 ≤ offset ∨ offset + data.length ≤ o) :
    (r.writeBytes offset data).readWord o = r.readWord o := by
  rw [readWord_eq, r.readBytes_writeBytes_of_disjoint ho, readWord_eq]

/-- A word apart from the one that is written is as it was. -/
theorem readWord_writeWord_of_disjoint {offset o word : Nat}
    (ho : o + 8 ≤ offset ∨ offset + 8 ≤ o) :
    (r.writeWord offset word).readWord o = r.readWord o := by
  rw [writeWord_def]
  refine r.readWord_writeBytes_of_disjoint ?_
  rw [Word.length_toBytes]
  exact ho

/-- A word in the region can be read. -/
theorem loadWord_eq_ok {offset : Nat} (hoffset : offset + 8 ≤ r.size) :
    r.loadWord offset = .ok (r.readWord offset) := by
  simp [loadWord, checkRange, hoffset, bind, Except.bind, pure, Except.pure]

/-- An offset in the region, or just behind it, has an address. -/
theorem addressOf_eq_ok {offset : Nat} (hoffset : offset ≤ r.size) :
    r.addressOf offset = .ok (r.base + offset) := by
  simp [addressOf, checkRange, hoffset, bind, Except.bind, pure, Except.pure]

/-- An address has the offset that it lies behind the base, if that is in the region. -/
theorem offsetOf?_eq_some {address offset : Nat} :
    r.offsetOf? address = some offset ↔ address = r.base + offset ∧ offset < r.size := by
  unfold offsetOf?
  split <;> simp <;> omega

/-- `alignedStart` is an offset with an aligned address. -/
theorem dvd_base_add_alignedStart {alignment : Nat} (halignment : 0 < alignment) :
    alignment ∣ r.base + r.alignedStart alignment := by
  have h := Word.le_roundUp r.base alignment
  rw [alignedStart, show r.base + (Word.roundUp r.base alignment - r.base)
    = Word.roundUp r.base alignment by omega]
  exact Word.dvd_roundUp halignment r.base

/-- No smaller offset has an aligned address. -/
theorem alignedStart_le {alignment offset : Nat} (h : alignment ∣ r.base + offset) :
    r.alignedStart alignment ≤ offset := by
  have := Word.roundUp_le h (Nat.le_add_right r.base offset)
  unfold alignedStart
  omega

end Region

end RegionAlloc
