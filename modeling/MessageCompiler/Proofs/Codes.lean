/-
Packed codes.

Some entries of a flat stream have several numbers in one word, each in bits of its own. As long as every number
fits its bits, the code is a sum, and the numbers can be read off again.
-/
import Mathlib.Algebra.Group.Nat.Defs
import MessageCompiler.Stream.Icu

namespace MessageCompiler

/-! ### Words -/

theorem wrap_eq_toInt (i : Int) : wrap i = (BitVec.ofInt 64 i).toInt := by
  rw [BitVec.toInt_ofInt]
  rfl

theorem ofInt_wrap (i : Int) : BitVec.ofInt 64 (wrap i) = BitVec.ofInt 64 i := by
  rw [wrap_eq_toInt, BitVec.ofInt_toInt]

theorem bitOr_comm (i j : Int) : bitOr i j = bitOr j i := by
  unfold bitOr
  rw [BitVec.or_comm]

theorem bitOr_assoc (i j k : Int) : bitOr (bitOr i j) k = bitOr i (bitOr j k) := by
  unfold bitOr
  rw [BitVec.ofInt_toInt, BitVec.ofInt_toInt, BitVec.or_assoc]

theorem toNat_shiftLeft (i : Int) {n : Nat} (hn : n ≤ 64) :
    (BitVec.ofInt 64 (shiftLeft i n)).toNat = 2 ^ n * (i % (2 ^ (64 - n) : Nat)).toNat := by
  have hpow : 2 ^ 64 = 2 ^ n * 2 ^ (64 - n) := by rw [← Nat.pow_add, Nat.add_sub_cancel' hn]
  have hpos : (0 : Int) < (2 ^ n : Nat) := Int.natCast_pos.mpr (Nat.two_pow_pos n)
  have hnonneg : 0 ≤ i % (2 ^ (64 - n) : Nat) :=
    Int.emod_nonneg _ (Int.natCast_ne_zero.mpr (Nat.ne_of_gt (Nat.two_pow_pos _)))
  unfold shiftLeft
  rw [ofInt_wrap, BitVec.toNat_ofInt, hpow, Int.natCast_mul, Int.mul_comm i]
  show (((2 ^ n : Nat) : Int) * i % _).toNat = _
  rw [Int.mul_emod_mul_of_pos _ _ hpos, Int.toNat_mul (Int.le_of_lt hpos) hnonneg, Int.toNat_natCast]

theorem bitOr_shiftLeft (i : Int) {n k : Nat} (hn : n ≤ 64) (hk : k < 2 ^ n) :
    bitOr (shiftLeft i n) k = wrap (i * (2 ^ n : Nat) + k) := by
  have hlow : (BitVec.ofInt 64 k).toNat = k := by
    have hlt : k < 2 ^ 64 := Nat.lt_of_lt_of_le hk (Nat.pow_le_pow_right (by decide) hn)
    rw [BitVec.ofInt_natCast, BitVec.toNat_ofNat, Nat.mod_eq_of_lt hlt]
  have hor : BitVec.ofInt 64 (shiftLeft i n) ||| BitVec.ofInt 64 k =
      BitVec.ofInt 64 (shiftLeft i n) + BitVec.ofInt 64 k := by
    have hlt := (BitVec.ofInt 64 (shiftLeft i n) ||| BitVec.ofInt 64 k).isLt
    apply BitVec.eq_of_toNat_eq
    rw [BitVec.toNat_or, toNat_shiftLeft i hn, hlow, ← Nat.two_pow_add_eq_or_of_lt hk] at hlt ⊢
    rw [BitVec.toNat_add, toNat_shiftLeft i hn, hlow, Nat.mod_eq_of_lt hlt]
  unfold bitOr
  rw [hor, wrap_eq_toInt, BitVec.ofInt_add]
  unfold shiftLeft
  rw [ofInt_wrap]
  rfl

def bitAnd (i j : Int) : Int := (BitVec.ofInt 64 i &&& BitVec.ofInt 64 j).toInt

def shiftRight (i : Int) (n : Nat) : Int := ((BitVec.ofInt 64 i).sshiftRight n).toInt

theorem shiftRight_eq (i : Int) (n : Nat) : shiftRight i n = wrap i / (2 ^ n : Nat) := by
  unfold shiftRight
  rw [BitVec.toInt_sshiftRight, Int.shiftRight_eq_div_pow, wrap_eq_toInt]

/-! ### Codes as sums -/

theorem CreateOp.code_eq {op : CreateOp} (hl : -2305843009213693952 ≤ op.index) (hu : op.index < 2305843009213693952) :
    op.code = 4 * op.index + (if op.eager then 1 else 0) + if op.comment then 2 else 0 := by
  have hcode : ∀ k : Nat, k < 4 → bitOr (shiftLeft op.index 2) k = 4 * op.index + k := by
    intro k hk
    rw [bitOr_shiftLeft op.index (by decide) hk, wrap_of_range (by omega) (by omega)]
    omega
  have hflags : bitOr (if op.eager then 1 else 0) (if op.comment then 2 else 0) =
      ((if op.eager then 1 else 0) + (if op.comment then 2 else 0) : Nat) := by
    cases op.eager <;> cases op.comment <;> decide
  unfold code
  rw [bitOr_assoc, hflags, hcode _ (by split <;> split <;> decide)]
  split <;> split <;> omega

theorem UpdateOp.ref_eq {op : UpdateOp} (hcode : op.target.code < 4) (hl : 0 ≤ op.index)
    (hu : op.index < 2305843009213693952) : op.ref = 4 * op.index + op.target.code := by
  unfold ref
  rw [bitOr_shiftLeft op.index (by decide) hcode, wrap_of_range (by omega) (by omega)]
  omega

theorem attributeCode_eq {i : Int} (hl : -4611686018427387904 ≤ i) (hu : i < 4611686018427387904) :
    bitOr (shiftLeft i 1) 1 = 2 * i + 1 := by
  have hcode := bitOr_shiftLeft i (n := 1) (k := 1) (by decide) (by decide)
  rw [wrap_of_range (by omega) (by omega)] at hcode
  exact hcode.trans (by omega)

theorem packIcuCreate_eq {parent ref : Int} (hl : 0 ≤ ref) (hu : ref < 65536) (hparent : -70368744177664 ≤ parent)
    (hparent' : parent < 70368744177664) : packIcuCreate 0 parent ref = 131072 * parent + 2 * ref := by
  have hlow : bitOr 0 (shiftLeft ref 1) = (2 * ref).toNat := by
    have hcode := bitOr_shiftLeft ref (n := 1) (k := 0) (by decide) (by decide)
    rw [wrap_of_range (by omega) (by omega)] at hcode
    rw [bitOr_comm]
    exact hcode.trans (by omega)
  unfold packIcuCreate
  rw [hlow, bitOr_comm, bitOr_shiftLeft parent (by decide) (by omega), wrap_of_range (by omega) (by omega)]
  omega

/-! ### Reading a code -/

/-- The slot of the node in the code of an instruction that appends it: 16 bits. -/
def packedRef (code : Int) : Int := shiftRight (bitAnd code (shiftLeft 65535 1)) 1

def packedParent (code : Int) : Int := shiftRight code 17

theorem packedRef_eq (code : Int) : packedRef code = code / 2 % 65536 := by
  have hmask : (BitVec.ofInt 64 (shiftLeft 65535 1)).toNat = 131070 := by decide
  have hfield : ∀ n : Nat, (n &&& 131070) / 2 = n / 2 % 65536 := by
    intro n
    have hshift : (n &&& 131070) >>> 1 = n >>> 1 &&& 131070 >>> 1 := Nat.shiftRight_and_distrib
    rw [Nat.shiftRight_eq_div_pow, Nat.shiftRight_eq_div_pow] at hshift
    exact hshift.trans (Nat.and_two_pow_sub_one_eq_mod (n / 2) 16)
  have hle : ∀ n : Nat, n &&& 131070 ≤ 131070 := fun n => Nat.and_le_right
  unfold packedRef bitAnd
  rw [shiftRight_eq, BitVec.toInt_and, hmask]
  have hsmall : ((((BitVec.ofInt 64 code).toNat &&& 131070 : Nat) : Int).bmod (2 ^ 64)) =
      ((BitVec.ofInt 64 code).toNat &&& 131070 : Nat) := by
    have := hle (BitVec.ofInt 64 code).toNat
    exact wrap_of_range (by omega) (by omega)
  rw [hsmall, wrap_of_range (by omega) (by have := hle (BitVec.ofInt 64 code).toNat; omega)]
  have hhalf := hfield (BitVec.ofInt 64 code).toNat
  have hcode : ((BitVec.ofInt 64 code).toNat : Int) = code % 18446744073709551616 := by
    rw [BitVec.toNat_ofInt]
    exact Int.toNat_of_nonneg (Int.emod_nonneg _ (by decide))
  omega

section Packed

variable {parent ref : Int} (hl : 0 ≤ ref) (hu : ref < 65536) (hparent : -70368744177664 ≤ parent)
  (hparent' : parent < 70368744177664)

include hl hu hparent hparent'

theorem packedRef_packIcuCreate : packedRef (packIcuCreate 0 parent ref) = ref := by
  rw [packedRef_eq, packIcuCreate_eq hl hu hparent hparent']
  omega

theorem packedParent_packIcuCreate : packedParent (packIcuCreate 0 parent ref) = parent := by
  unfold packedParent
  rw [packIcuCreate_eq hl hu hparent hparent', shiftRight_eq, wrap_of_range (by omega) (by omega)]
  omega

end Packed

/-- **What is packed.** Of a slot and a parent with a smaller slot, or none, both can be read off the code if and only
if the slot fits 16 bits. -/
theorem packed_iff {parent ref : Int} (hparent : -1 ≤ parent) (hlt : parent < ref) :
    packedRef (packIcuCreate 0 parent ref) = ref ∧ packedParent (packIcuCreate 0 parent ref) = parent ↔
      ref < 65536 := by
  constructor
  · rintro ⟨href, -⟩
    rw [packedRef_eq] at href
    omega
  · intro hu
    have hl : 0 ≤ ref := by omega
    exact ⟨packedRef_packIcuCreate hl hu (by omega) (by omega), packedParent_packIcuCreate hl hu (by omega) (by omega)⟩

end MessageCompiler
