/-
Machine words: signed 64-bit arithmetic on `Int`, and 32-bit change masks.

Slot numbers and packed instruction codes are 64-bit two's complement integers. They are kept as
`Int` in the range of `wrap`, so that statements about them are statements about integers; the
operations below are the ones of the word.
-/

namespace MessageCompiler

/-- The 64-bit signed integer congruent to `i` modulo 2^64. -/
def wrap (i : Int) : Int := i.bmod 18446744073709551616

/-- Left shift of a word: the bits that leave it are lost. -/
def shiftLeft (i : Int) (n : Nat) : Int := wrap (i * (Nat.pow 2 n : Nat))

def bitOr (i j : Int) : Int := (BitVec.ofInt 64 i ||| BitVec.ofInt 64 j).toInt

def complement (i : Int) : Int := -i - 1

theorem wrap_of_range {i : Int} (hl : -9223372036854775808 ≤ i)
    (hu : i ≤ 9223372036854775807) : wrap i = i := by
  unfold wrap
  rw [Int.bmod_eq_of_le] <;> omega

/-- A set of binding numbers, one bit each; bit 31 stands for every number from 31 on. -/
abbrev Mask := BitVec 32

namespace Mask

/-- The bit of binding `i`; a negative number has none. -/
def ofBinding (i : Int) : Mask :=
  if i < 0 then 0#32 else BitVec.twoPow 32 (min i.toNat 31)

def all : Mask := BitVec.allOnes 32

def meets (m n : Mask) : Bool := m &&& n != 0#32

def binary (m : Mask) : String := String.ofList (Nat.toDigits 2 m.toNat)

end Mask

end MessageCompiler
