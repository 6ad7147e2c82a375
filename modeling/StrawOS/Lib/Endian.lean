import Mathlib.Data.UInt
import Mathlib.Tactic.IntervalCases

/-!
# Little-endian memory and byte swaps

A little-endian machine stores a 16- or 32-bit word as its bytes from the least
significant one on.  `swap16` and `swap32` are the byte swaps that turn such a
word into network order; both are involutions.
-/

namespace Endian

/-- The 16-bit word held by two bytes of memory. -/
def le16 (b0 b1 : UInt8) : UInt16 := .ofNat (b0.toNat + 256 * b1.toNat)

/-- The 32-bit word held by four bytes of memory. -/
def le32 (b0 b1 b2 b3 : UInt8) : UInt32 :=
  .ofNat (b0.toNat + 256 * b1.toNat + 65536 * b2.toNat + 16777216 * b3.toNat)

/-- The 64-bit word held by eight bytes of memory, as two 32-bit words. -/
def le64 (lo hi : UInt32) : UInt64 := .ofNat (lo.toNat + 4294967296 * hi.toNat)

/-- Byte `i` of a number, counted from the least significant. -/
def byteAt (n i : Nat) : UInt8 := .ofNat (n / 256 ^ i)

/-- The bytes of a 16-bit word in memory. -/
def store16 (v : UInt16) : List UInt8 := [byteAt v.toNat 0, byteAt v.toNat 1]

/-- The bytes of a 32-bit word in memory. -/
def store32 (v : UInt32) : List UInt8 :=
  [byteAt v.toNat 0, byteAt v.toNat 1, byteAt v.toNat 2, byteAt v.toNat 3]

/-- The bytes of a 64-bit number in memory. -/
def store64 (n : Nat) : List UInt8 := (List.range 8).map (byteAt n)

/-- The number held by the bytes of a list. -/
def load (bytes : List UInt8) : Nat := bytes.foldr (fun b rest => b.toNat + 256 * rest) 0

theorem toNat_byteAt (n i : Nat) : (byteAt n i).toNat = n / 256 ^ i % 256 := by
  simp [byteAt]

theorem le16_byteAt (v : UInt16) : le16 (byteAt v.toNat 0) (byteAt v.toNat 1) = v := by
  have hv := v.toNat_lt
  apply UInt16.toNat_inj.mp
  rw [le16, UInt16.toNat_ofNat', toNat_byteAt, toNat_byteAt]
  omega

theorem le32_byteAt (v : UInt32) :
    le32 (byteAt v.toNat 0) (byteAt v.toNat 1) (byteAt v.toNat 2) (byteAt v.toNat 3) = v := by
  have hv := v.toNat_lt
  apply UInt32.toNat_inj.mp
  rw [le32, UInt32.toNat_ofNat', toNat_byteAt, toNat_byteAt, toNat_byteAt, toNat_byteAt]
  omega

/-- The lowest `w` bytes of a number in memory. -/
def store (w n : Nat) : List UInt8 := (List.range w).map (byteAt n)

@[simp] theorem length_store (w n : Nat) : (store w n).length = w := by
  simp [store]

theorem load_store {w n : Nat} (h : n < 256 ^ w) : load (store w n) = n := by
  induction w generalizing n with
  | zero => simpa [store, load] using (Nat.lt_one_iff.mp h).symm
  | succ w ih =>
    have hdiv : n / 256 < 256 ^ w := by
      exact Nat.div_lt_of_lt_mul (by omega)
    have htail : (List.range w).map (byteAt n ∘ Nat.succ) = store w (n / 256) := by
      apply List.map_congr_left
      simp [byteAt, Nat.pow_succ', Nat.div_div_eq_div_mul]
    have hhead : (byteAt n 0).toNat = n % 256 := by simp [toNat_byteAt]
    rw [store, List.range_succ_eq_map, List.map_cons, List.map_map, htail]
    show (byteAt n 0).toNat + 256 * load (store w (n / 256)) = n
    rw [ih hdiv, hhead]
    omega

/-- The number held by bytes in network order. -/
def loadBe (bytes : List UInt8) : Nat := load bytes.reverse

/-- The lowest `w` bytes of a number in network order. -/
def storeBe (w n : Nat) : List UInt8 := (store w n).reverse

@[simp] theorem length_storeBe (w n : Nat) : (storeBe w n).length = w := by
  simp [storeBe]

theorem loadBe_storeBe {w n : Nat} (h : n < 256 ^ w) : loadBe (storeBe w n) = n := by
  rw [loadBe, storeBe, List.reverse_reverse, load_store h]

theorem load_store64 {n : Nat} (h : n < 18446744073709551616) : load (store64 n) = n := by
  simp only [store64, List.range_succ, List.range_zero, List.nil_append, List.cons_append,
    List.map_cons, List.map_nil, load, List.foldr_cons, List.foldr_nil, toNat_byteAt]
  omega

def swap16 (v : UInt16) : UInt16 := (v <<< 8) ||| (v >>> 8)

def swap32 (v : UInt32) : UInt32 :=
  ((v &&& 0x000000FF) <<< 24) ||| ((v &&& 0x0000FF00) <<< 8) |||
    ((v &&& 0x00FF0000) >>> 8) ||| ((v &&& 0xFF000000) >>> 24)

theorem swap16_swap16 (v : UInt16) : swap16 (swap16 v) = v := by
  apply UInt16.toBitVec_inj.mp
  apply BitVec.eq_of_getLsbD_eq
  intro i hi
  simp only [swap16, UInt16.toBitVec_or, UInt16.toBitVec_shiftLeft, UInt16.toBitVec_shiftRight]
  interval_cases i <;> simp

theorem swap32_swap32 (v : UInt32) : swap32 (swap32 v) = v := by
  apply UInt32.toBitVec_inj.mp
  apply BitVec.eq_of_getLsbD_eq
  intro i hi
  simp only [swap32, UInt32.toBitVec_or, UInt32.toBitVec_and, UInt32.toBitVec_shiftLeft,
    UInt32.toBitVec_shiftRight]
  interval_cases i <;> simp

end Endian
