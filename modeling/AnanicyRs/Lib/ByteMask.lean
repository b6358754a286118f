import Mathlib.Data.List.Basic
import Mathlib.Data.Nat.Bitwise

/-!
Contract: sets of small numbers as the bits of a byte vector.

Bit `k` of a mask is bit `k % 8` of its byte `k / 8`. `setBit` is the assignment
`mask[k / 8] |= 1 << (k % 8)`: it has no answer where the index is out of range.
`setBits` makes that assignment for a list of numbers. A mask is known by its length and
its bits (`ext_testBit`), so equality of masks is equality of sets.

Does not own where the numbers come from.
-/

set_option autoImplicit false

namespace AnanicyRs.Lib.ByteMask

abbrev Mask := List UInt8

def zeroes (size : Nat) : Mask := List.replicate size 0

def testBit (mask : Mask) (k : Nat) : Bool := (mask.getD (k / 8) 0).toNat.testBit (k % 8)

def setBit (mask : Mask) (k : Nat) : Option Mask :=
  (mask[k / 8]?).map fun byte => mask.set (k / 8) (byte ||| 1 <<< UInt8.ofNat (k % 8))

def setBits (mask : Mask) (ks : List Nat) : Option Mask := ks.foldlM setBit mask

def and (left right : Mask) : Mask := List.zipWith (· &&& ·) left right

def anySet (mask : Mask) : Bool := mask.any (· != 0)

/-! ## One byte -/

theorem toNat_singleBit {bit : Nat} (small : bit < 8) :
    ((1 : UInt8) <<< UInt8.ofNat bit).toNat = 2 ^ bit := by
  have all : ∀ place : Fin 8, ((1 : UInt8) <<< UInt8.ofNat place.val).toNat = 2 ^ place.val := by
    decide
  exact all ⟨bit, small⟩

theorem testBit_byte_or (byte : UInt8) {bit : Nat} (small : bit < 8) (other : Nat) :
    (byte ||| 1 <<< UInt8.ofNat bit).toNat.testBit other =
      (byte.toNat.testBit other || decide (bit = other)) := by
  rw [UInt8.toNat_or, Nat.testBit_or, toNat_singleBit small, Nat.testBit_two_pow]

theorem byte_ext {left right : UInt8}
    (same : ∀ bit < 8, left.toNat.testBit bit = right.toNat.testBit bit) : left = right := by
  apply UInt8.toNat_inj.mp
  apply Nat.eq_of_testBit_eq
  intro bit
  by_cases small : bit < 8
  · exact same bit small
  · have large : 2 ^ 8 ≤ 2 ^ bit := Nat.pow_le_pow_right (by decide) (by omega)
    rw [Nat.testBit_lt_two_pow (left.toNat_lt.trans_le large),
      Nat.testBit_lt_two_pow (right.toNat_lt.trans_le large)]

/-! ## Masks -/

theorem testBit_zeroes (size k : Nat) : testBit (zeroes size) k = false := by
  have byte : (zeroes size).getD (k / 8) 0 = 0 := by
    rw [zeroes, List.getD_eq_getElem?_getD, List.getElem?_replicate]
    split <;> rfl
  rw [testBit, byte]
  exact Nat.zero_testBit _

theorem setBit_isSome_iff (mask : Mask) (k : Nat) :
    (setBit mask k).isSome ↔ k < 8 * mask.length := by
  have inside : mask[k / 8]?.isSome ↔ k / 8 < mask.length := by
    simp
  rw [setBit, Option.isSome_map, inside]
  omega

theorem length_setBit {mask changed : Mask} {k : Nat} (set : setBit mask k = some changed) :
    changed.length = mask.length := by
  obtain ⟨byte, _, rfl⟩ := Option.map_eq_some_iff.mp set
  exact List.length_set

theorem testBit_and (left right : Mask) (k : Nat) :
    testBit (and left right) k = (testBit left k && testBit right k) := by
  unfold testBit and
  rw [List.getD_eq_getElem?_getD, List.getD_eq_getElem?_getD, List.getD_eq_getElem?_getD,
    List.getElem?_zipWith]
  cases left[k / 8]? with
  | none => simp
  | some leftByte =>
      cases right[k / 8]? with
      | none => simp
      | some rightByte =>
          show (leftByte &&& rightByte).toNat.testBit (k % 8) = _
          rw [UInt8.toNat_and, Nat.testBit_and]
          rfl

theorem testBit_setBit {mask changed : Mask} {k : Nat} (set : setBit mask k = some changed)
    (other : Nat) : testBit changed other = (testBit mask other || decide (k = other)) := by
  obtain ⟨byte, held, rfl⟩ := Option.map_eq_some_iff.mp set
  obtain ⟨inside, isByte⟩ := List.getElem?_eq_some_iff.mp held
  have small : k % 8 < 8 := Nat.mod_lt _ (by decide)
  rw [testBit, testBit]
  by_cases sameByte : k / 8 = other / 8
  · have sameBit : decide (k % 8 = other % 8) = decide (k = other) := by
      rw [decide_eq_decide]
      omega
    have here : (mask.set (k / 8) (byte ||| 1 <<< UInt8.ofNat (k % 8))).getD (other / 8) 0 =
        byte ||| 1 <<< UInt8.ofNat (k % 8) := by
      rw [← sameByte, List.getD_eq_getElem?_getD, List.getElem?_set_self inside, Option.getD_some]
    have before : mask.getD (other / 8) 0 = byte := by
      rw [← sameByte, List.getD_eq_getElem?_getD, held, Option.getD_some]
    rw [here, before, testBit_byte_or byte small, sameBit]
  · have different : decide (k = other) = false := by
      rw [decide_eq_false_iff_not]
      rintro rfl
      exact sameByte rfl
    rw [List.getD_eq_getElem?_getD, List.getElem?_set_ne sameByte, ← List.getD_eq_getElem?_getD,
      different, Bool.or_false]

theorem ext_testBit {left right : Mask} (sameLength : left.length = right.length)
    (sameBits : ∀ k, testBit left k = testBit right k) : left = right := by
  apply List.ext_getElem sameLength
  intro index inLeft inRight
  apply byte_ext
  intro bit small
  have same := sameBits (8 * index + bit)
  have byteIndex : (8 * index + bit) / 8 = index := by
    omega
  have bitIndex : (8 * index + bit) % 8 = bit := by
    omega
  rwa [testBit, testBit, byteIndex, bitIndex, List.getD_eq_getElem _ _ inLeft,
    List.getD_eq_getElem _ _ inRight] at same

/-! ## Several numbers -/

theorem setBits_cons (mask : Mask) (k : Nat) (ks : List Nat) :
    setBits mask (k :: ks) = (setBit mask k).bind fun changed => setBits changed ks :=
  List.foldlM_cons

theorem setBits_isSome_iff (ks : List Nat) :
    ∀ mask : Mask, (setBits mask ks).isSome ↔ ∀ k ∈ ks, k < 8 * mask.length := by
  induction ks with
  | nil => simp [setBits]
  | cons k rest inductionHypothesis =>
      intro mask
      rw [setBits_cons, List.forall_mem_cons, ← setBit_isSome_iff mask k]
      cases set : setBit mask k with
      | none => simp
      | some changed =>
          rw [Option.bind_some, inductionHypothesis changed, length_setBit set]
          simp

theorem length_setBits (ks : List Nat) :
    ∀ {mask changed : Mask}, setBits mask ks = some changed → changed.length = mask.length := by
  induction ks with
  | nil =>
      intro mask changed set
      rw [Option.some.inj set]
  | cons k rest inductionHypothesis =>
      intro mask changed set
      rw [setBits_cons] at set
      obtain ⟨middle, first, others⟩ := Option.bind_eq_some_iff.mp set
      rw [inductionHypothesis others, length_setBit first]

theorem testBit_setBits (ks : List Nat) :
    ∀ {mask changed : Mask}, setBits mask ks = some changed → ∀ other,
      testBit changed other = (testBit mask other || decide (other ∈ ks)) := by
  induction ks with
  | nil =>
      intro mask changed set other
      rw [Option.some.inj set]
      simp
  | cons k rest inductionHypothesis =>
      intro mask changed set other
      rw [setBits_cons] at set
      obtain ⟨middle, first, others⟩ := Option.bind_eq_some_iff.mp set
      rw [inductionHypothesis others, testBit_setBit first, Bool.or_assoc]
      simp [eq_comm]

end AnanicyRs.Lib.ByteMask
