/-
The hash of a digest, word by word.

* **`wordwise`** — the hash in terms of whole words: every block of twelve bytes is three words, and the
  last, incomplete one is filled up with zeros.
* **`hash32_eq_wordwise`** — the hash that adds the bytes of the last block one by one is this hash.
* **`mix_bijective`** — mixing loses nothing: it is nine times one invertible turn.
-/
import Mathlib.Data.Nat.Digits.Lemmas
import MessageCompiler.Artifact.Digest

namespace MessageCompiler.Digest

open List

/-! ### Words -/

/-- The word with the given bytes, the lowest first. -/
def littleEndian (bytes : List UInt8) : Word :=
  BitVec.ofNat 32 (Nat.ofDigits 256 (bytes.map UInt8.toNat))

def slice (i j : Nat) (bytes : List UInt8) : List UInt8 := (bytes.take j).drop i

theorem littleEndian_nil : littleEndian [] = 0#32 := rfl

theorem littleEndian_cons (b : UInt8) (bytes : List UInt8) :
    littleEndian (b :: bytes) = byte b + littleEndian bytes <<< 8 := by
  unfold littleEndian byte
  rw [map_cons, Nat.ofDigits_cons, BitVec.ofNat_add, BitVec.ofNat_mul, BitVec.mul_comm, BitVec.shiftLeft_eq_mul_twoPow]
  rfl

/-- A byte and a word above it share no bit. -/
theorem byte_or_shiftLeft (b : UInt8) (x : Word) : byte b ||| x <<< 8 = byte b + x <<< 8 := by
  refine (BitVec.add_eq_or_of_and_eq_zero _ _ (BitVec.eq_of_getLsbD_eq fun i hi => ?_)).symm
  rw [BitVec.getLsbD_and, BitVec.getLsbD_shiftLeft, BitVec.getLsbD_zero]
  by_cases hlow : i < 8
  · simp [hlow]
  · have hbit : b.toNat.testBit i = false :=
      Nat.testBit_lt_two_pow (Nat.lt_of_lt_of_le b.toNat_lt (Nat.pow_le_pow_right (by decide) (by omega)))
    rw [byte, BitVec.getLsbD_ofNat, hbit, Bool.and_false, Bool.false_and]

theorem word_eq_littleEndian (b₀ b₁ b₂ b₃ : UInt8) : word b₀ b₁ b₂ b₃ = littleEndian [b₀, b₁, b₂, b₃] := by
  have hor : ∀ b bytes, littleEndian (b :: bytes) = byte b ||| littleEndian bytes <<< 8 := fun b bytes =>
    (littleEndian_cons b bytes).trans (byte_or_shiftLeft b _).symm
  simp only [hor, littleEndian_nil, BitVec.shiftLeft_or_distrib, ← BitVec.shiftLeft_add, BitVec.zero_shiftLeft,
    BitVec.or_zero]
  rw [word, BitVec.or_assoc, BitVec.or_assoc]

/-- Words of equally many bytes, of which there are at most four, are equal for equal bytes only. -/
theorem littleEndian_inj {x y : List UInt8} (hlen : x.length = y.length) (hx : x.length ≤ 4)
    (h : littleEndian x = littleEndian y) : x = y := by
  have hdigit : ∀ z : List UInt8, ∀ n ∈ z.map UInt8.toNat, n < 256 := by
    intro z n hn
    obtain ⟨b, -, rfl⟩ := mem_map.mp hn
    exact b.toNat_lt
  have hfits : ∀ z : List UInt8, z.length ≤ 4 → Nat.ofDigits 256 (z.map UInt8.toNat) < 2 ^ 32 := by
    intro z hz
    have hlt := Nat.ofDigits_lt_base_pow_length (by decide) (hdigit z)
    rw [length_map] at hlt
    exact Nat.lt_of_lt_of_le hlt (Nat.pow_le_pow_right (by decide) hz)
  have hnat := congrArg BitVec.toNat h
  unfold littleEndian at hnat
  rw [BitVec.toNat_ofNat, BitVec.toNat_ofNat, Nat.mod_eq_of_lt (hfits x hx),
    Nat.mod_eq_of_lt (hfits y (hlen ▸ hx))] at hnat
  have hdigits := Nat.ofDigits_inj_of_len_eq (by decide) (by simpa using hlen) (hdigit x) (hdigit y) hnat
  exact map_injective_iff.mpr (fun _ _ => UInt8.toNat_inj.mp) hdigits

/-! ### Blocks -/

/-- A state with the three words of a block added, mixed. -/
def absorb (s : State) (block : List UInt8) : State :=
  mix ⟨s.a + littleEndian (slice 0 4 block), s.b + littleEndian (slice 4 8 block),
    s.c + littleEndian (slice 8 12 block)⟩

/-- The end of the hash, for the last bytes of a text filled up to a block. -/
def close (s : State) (length : Nat) (last : List UInt8) : Word :=
  (mix ⟨s.a + littleEndian (slice 0 4 last), s.b + littleEndian (slice 4 8 last),
    s.c + (BitVec.ofNat 32 length + littleEndian (slice 8 11 last) <<< 8)⟩).c

/-- The state after the given number of full blocks. -/
def absorbAll : Nat → State → List UInt8 → State
  | 0, s, _ => s
  | n + 1, s, bytes => absorbAll n (absorb s (bytes.take 12)) (bytes.drop 12)

/-- The bytes after the full blocks, with zeros up to a block. -/
def lastBlock (bytes : List UInt8) : List UInt8 :=
  bytes.drop (12 * (bytes.length / 12)) ++ replicate (12 - bytes.length % 12) 0

/-- The hash in terms of words. -/
def wordwise (bytes : List UInt8) (seed : Word) : Word :=
  close (absorbAll (bytes.length / 12) ⟨0x9e3779b9#32, 0x9e3779b9#32, seed⟩ bytes) bytes.length (lastBlock bytes)

theorem absorb_injOn (hmix : Function.Injective mix) (s : State) :
    Set.InjOn (absorb s) {block | block.length = 12} := by
  have hjoin : ∀ x : List UInt8, x.length = 12 → slice 0 4 x ++ slice 4 8 x ++ slice 8 12 x = x := by
    intro x hx
    have hfirst : slice 0 4 x ++ slice 4 8 x = x.take 8 := by
      have hsplit := take_append_drop 4 (x.take 8)
      rwa [take_take] at hsplit
    rw [hfirst, slice, take_of_length_le (Nat.le_of_eq hx), take_append_drop]
  have hlen : ∀ x : List UInt8, x.length = 12 → ∀ i, i ≤ 8 → (slice i (i + 4) x).length = 4 := by
    intro x hx i hi
    rw [slice, length_drop, length_take, hx]
    omega
  intro x hx y hy h
  have hpart : ∀ i, i ≤ 8 → littleEndian (slice i (i + 4) x) = littleEndian (slice i (i + 4) y) →
      slice i (i + 4) x = slice i (i + 4) y := fun i hi =>
    littleEndian_inj ((hlen x hx i hi).trans (hlen y hy i hi).symm) (Nat.le_of_eq (hlen x hx i hi))
  have hstate := hmix h
  simp only [State.mk.injEq, BitVec.add_right_inj] at hstate
  rw [← hjoin x hx, ← hjoin y hy, hpart 0 (by decide) hstate.1, hpart 4 (by decide) hstate.2.1,
    hpart 8 (by decide) hstate.2.2]

/-! ### The last block -/

variable (s : State)

theorem addByte_zero (i place : Nat) : addByte s i place 0 = s := by
  have hzero : ∀ n, byte 0 <<< n = 0#32 := fun n => BitVec.zero_shiftLeft n
  simp [addByte, hzero]

/-- Zeros at the end do not count. -/
theorem addBytes_append_zeros (n : Nat) : ∀ (rest : List UInt8) (s : State) (i place : Nat),
    addBytes s i place (rest ++ replicate n 0) = addBytes s i place rest
  | [], s, i, place => by
    induction n generalizing i place with
    | zero => rfl
    | succ n ih => exact (congrArg (addBytes · (i + 1) ((place + 1) % 4) _) (addByte_zero s i place)).trans (ih _ _)
  | b :: rest, s, i, place => addBytes_append_zeros n rest _ _ _

theorem addBytes_eq : ∀ {last : List UInt8}, last.length = 11 →
    addBytes s 0 0 last = ⟨s.a + littleEndian (slice 0 4 last), s.b + littleEndian (slice 4 8 last),
      s.c + littleEndian (slice 8 11 last) <<< 8⟩
  | [b₀, b₁, b₂, b₃, b₄, b₅, b₆, b₇, b₈, b₉, b₁₀], _ => by
    simp only [slice, take, drop, littleEndian_cons, littleEndian_nil, BitVec.shiftLeft_add_distrib,
      ← BitVec.shiftLeft_add, BitVec.zero_shiftLeft, BitVec.add_zero, ← BitVec.add_assoc]
    simp [addBytes, addByte]

theorem finish_eq_close (length : Nat) {rest : List UInt8} (hrest : rest.length < 12) :
    finish s length rest = close s length (rest ++ replicate (12 - rest.length) 0) := by
  have hlen : (rest ++ replicate (11 - rest.length) 0).length = 11 := by
    rw [length_append, length_replicate]
    omega
  have hlast : rest ++ replicate (12 - rest.length) 0 = rest ++ replicate (11 - rest.length) 0 ++ [0] := by
    rw [append_assoc, ← replicate_succ']
    congr 2
    omega
  have hslice : ∀ i j, j ≤ 11 → slice i j (rest ++ replicate (12 - rest.length) 0) =
      slice i j (rest ++ replicate (11 - rest.length) 0) := by
    intro i j hj
    rw [hlast, slice, take_append_of_le_length (by omega), slice]
  unfold finish close
  rw [← addBytes_append_zeros (11 - rest.length), addBytes_eq _ hlen, hslice 0 4 (by decide),
    hslice 4 8 (by decide), hslice 8 11 (by decide), BitVec.add_assoc]

theorem hashFrom_eq (length : Nat) (s : State) (bytes : List UInt8) :
    hashFrom length s bytes = close (absorbAll (bytes.length / 12) s bytes) length (lastBlock bytes) := by
  induction s, bytes using hashFrom.induct with
  | case1 s b₀ b₁ b₂ b₃ b₄ b₅ b₆ b₇ b₈ b₉ b₁₀ b₁₁ rest ih =>
    rw [hashFrom, ih]
    simp only [word_eq_littleEndian, lastBlock, length_cons, Nat.add_assoc, Nat.reduceAdd, Nat.add_mod_right,
      Nat.add_div_right _ (show 0 < 12 by decide)]
    rfl
  | case2 s rest hshort =>
    have hlen : rest.length < 12 := by
      by_contra hlong
      obtain ⟨block, tail, rfl, hblock⟩ : ∃ block tail, rest = block ++ tail ∧ block.length = 12 :=
        ⟨rest.take 12, rest.drop 12, (take_append_drop 12 rest).symm, length_take_of_le (by omega)⟩
      match block, hblock with
      | [_, _, _, _, _, _, _, _, _, _, _, _], _ => exact hshort _ _ _ _ _ _ _ _ _ _ _ _ _ rfl
    rw [hashFrom.eq_2 _ _ _ hshort, finish_eq_close s length hlen, lastBlock, Nat.div_eq_of_lt hlen,
      Nat.mod_eq_of_lt hlen]
    rfl

/-! ### Mixing -/

/-- One of the nine turns of mixing, after which another word is the first. -/
def turn (shifted : Word → Word) (s : State) : State :=
  ⟨s.b, s.c, blend s.a s.b s.c (shifted s.c)⟩

def shifts : List (Word → Word) :=
  [(· >>> 13), (· <<< 8), (· >>> 13), (· >>> 12), (· <<< 16), (· >>> 5), (· >>> 3), (· <<< 10), (· >>> 15)]

theorem turn_bijective (f : Word → Word) : Function.Bijective (turn f) := by
  refine Function.bijective_iff_has_inverse.mpr ⟨fun s => ⟨(s.c ^^^ f s.b) + s.b + s.a, s.a, s.b⟩, ?_, ?_⟩
  · rintro ⟨a, b, c⟩
    show State.mk (((a - b - c) ^^^ f c ^^^ f c) + c + b) b c = _
    rw [BitVec.xor_assoc, BitVec.xor_self, BitVec.xor_zero, BitVec.sub_add_cancel, BitVec.sub_add_cancel]
  · rintro ⟨a, b, c⟩
    show State.mk a b (((c ^^^ f b) + b + a - a - b) ^^^ f b) = _
    rw [BitVec.add_sub_cancel, BitVec.add_sub_cancel, BitVec.xor_assoc, BitVec.xor_self, BitVec.xor_zero]

theorem mix_bijective : Function.Bijective mix := by
  have hturns : ∀ fs : List (Word → Word), Function.Bijective fun s => fs.foldl (fun s f => turn f s) s := by
    intro fs
    induction fs with
    | nil => exact Function.bijective_id
    | cons f fs ih => exact ih.comp (turn_bijective f)
  exact hturns shifts

/-- **The hash is the word-wise one, and mixing loses nothing.** From one state, different blocks lead to different
states. -/
theorem hash32_eq_wordwise :
    (∀ (bytes : List UInt8) (seed : Word), hash32 bytes seed = wordwise bytes seed) ∧
      Function.Bijective mix ∧ ∀ s, Set.InjOn (absorb s) {block | block.length = 12} :=
  ⟨fun bytes _ => hashFrom_eq bytes.length _ bytes, mix_bijective, absorb_injOn mix_bijective.injective⟩

end MessageCompiler.Digest
