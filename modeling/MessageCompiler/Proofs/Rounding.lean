/-
Which integers survive a floating point number.

A number that is stored without a type is read as the nearest floating point number, and printed again with the
fewest digits that name it. An integer of at most 53 binary digits is such a number itself, and no shorter decimal
lies near enough: it is printed as it was.
-/
import Mathlib.Data.List.TakeDrop
import Mathlib.Data.List.TakeWhile
import Mathlib.Data.Nat.Log
import Mathlib.Tactic.Ring
import MessageCompiler.Artifact.Basic

namespace MessageCompiler

open List

/-! ### Digits -/

namespace Text

def withSign (negative : Bool) (ds : List Char) : List Char := if negative then '-' :: ds else ds

theorem toList_showInt_withSign (i : Int) :
    (showInt i).toList = withSign (decide (i < 0)) (Nat.toDigits 10 i.natAbs) := by
  cases i with
  | ofNat n =>
    have hnot : ¬Int.ofNat n < 0 := Int.not_lt.mpr (Int.natCast_nonneg n)
    rw [decide_eq_false hnot]
    exact toList_showInt n
  | negSucc n =>
    rw [decide_eq_true (Int.negSucc_lt_zero n)]
    show ("-" ++ Nat.repr (n + 1)).toList = _
    rw [String.toList_append, Nat.toList_repr]
    rfl

theorem splitSign_showInt (i : Int) : splitSign (showInt i).toList = (decide (i < 0), Nat.toDigits 10 i.natAbs) := by
  rw [toList_showInt_withSign]
  by_cases hneg : i < 0
  · rw [decide_eq_true hneg]
    rfl
  · rw [decide_eq_false hneg]
    exact splitSign_of_digits fun c hc => isDigit_of_mem_toDigits hc

theorem readInt?_showInt {i : Int} (h : fitsWord i = true) : readInt? (showInt i).toList = some i := by
  have hdigits : (Nat.toDigits 10 i.natAbs).all isDigit = true :=
    all_eq_true.mpr fun c hc => isDigit_of_mem_toDigits hc
  have hsigned : signed (decide (i < 0)) i.natAbs = i := by
    unfold signed
    by_cases hneg : i < 0
    · rw [decide_eq_true hneg, if_pos rfl]
      omega
    · rw [decide_eq_false hneg, if_neg Bool.false_ne_true]
      omega
  unfold readInt?
  rw [splitSign_showInt]
  dsimp only
  rw [hdigits, natOfDigits_toDigits, hsigned, h, isEmpty_eq_false_iff.mpr Nat.toDigits_ne_nil]
  rfl

theorem lt_length_toDigits_iff {n k : Nat} (hn : 0 < n) : k < (Nat.toDigits 10 n).length ↔ 10 ^ k ≤ n := by
  cases k with
  | zero => exact iff_of_true Nat.length_toDigits_pos hn
  | succ k => rw [← Nat.not_le, Nat.length_toDigits_le_iff (by decide) (Nat.succ_pos k), Nat.not_lt]

theorem toDigits_mul_pow {k : Nat} (hk : 0 < k) (j : Nat) :
    Nat.toDigits 10 (k * 10 ^ j) = Nat.toDigits 10 k ++ List.replicate j '0' := by
  induction j with
  | zero => simp
  | succ j ih =>
    have hpos : 0 < k * 10 ^ j := Nat.mul_pos hk (Nat.pow_pos (by decide))
    have hstep := Nat.toDigits_append_toDigits (b := 10) (by decide) hpos (d := 0) (by decide)
    rw [ih, Nat.toDigits_zero, append_assoc, ← replicate_succ'] at hstep
    rw [hstep]
    congr 1
    ring

theorem append_replicate_zeros (ds : List Char) : (ds.reverse.dropWhile (· == '0')).reverse ++
      List.replicate (ds.length - (ds.reverse.dropWhile (· == '0')).reverse.length) '0' = ds := by
  have hsplit : ds.reverse.takeWhile (· == '0') ++ ds.reverse.dropWhile (· == '0') = ds.reverse :=
    takeWhile_append_dropWhile
  have hzeros : ds.reverse.takeWhile (· == '0') = List.replicate (ds.reverse.takeWhile (· == '0')).length '0' :=
    eq_replicate_of_mem fun c hc => beq_iff_eq.mp (all_eq_true.mp (all_takeWhile) c hc)
  have hlength := congrArg List.length hsplit
  rw [length_append, length_reverse] at hlength
  have hcount : ds.length - (ds.reverse.dropWhile (· == '0')).reverse.length =
      (ds.reverse.takeWhile (· == '0')).length := by
    rw [length_reverse]
    omega
  calc (ds.reverse.dropWhile (· == '0')).reverse ++ _
      = (ds.reverse.dropWhile (· == '0')).reverse ++ (ds.reverse.takeWhile (· == '0')).reverse := by
        rw [hcount, hzeros, reverse_replicate, length_replicate]
    _ = ds := by rw [← reverse_append, hsplit, reverse_reverse]

end Text

open Text

namespace Binary64

/-! ### The number nearest to an integer -/

section Small

variable {n : Nat}

theorem log2_le (hn : 0 < n) (hlt : n < 2 ^ 53) : n.log2 ≤ 52 :=
  Nat.lt_succ_iff.mp ((Nat.log2_lt (Nat.ne_of_gt hn)).mpr hlt)

theorem mantissa_lt (hn : 0 < n) (hlt : n < 2 ^ 53) : n * 2 ^ (52 - n.log2) < 9007199254740992 := by
  have hlog := log2_le hn hlt
  calc n * 2 ^ (52 - n.log2) < 2 ^ (n.log2 + 1) * 2 ^ (52 - n.log2) :=
        Nat.mul_lt_mul_of_pos_right Nat.lt_log2_self (Nat.pow_pos (by decide))
    _ = 9007199254740992 := by rw [← Nat.pow_add, show n.log2 + 1 + (52 - n.log2) = 53 by omega]

/-- The floating point number of an integer with at most 53 binary digits is the integer, with as many zeros as
the mantissa has room for. -/
theorem ofRatio_one (negative : Bool) (hn : 0 < n) (hlt : n < 2 ^ 53) :
    ofRatio negative n 1 = .finite negative (n * 2 ^ (52 - n.log2)) (-((52 - n.log2 : Nat) : Int)) := by
  have hlog := log2_le hn hlt
  -- With one exponent less the mantissa would have 54 digits.
  have hhuge : ¬n * 2 ^ (53 - n.log2) < 1 * 9007199254740992 := by
    rw [Nat.not_lt, Nat.one_mul]
    calc 9007199254740992 = 2 ^ n.log2 * 2 ^ (53 - n.log2) := by
          rw [← Nat.pow_add, show n.log2 + (53 - n.log2) = 53 by omega]
      _ ≤ n * 2 ^ (53 - n.log2) := Nat.mul_le_mul_right _ (Nat.log2_self_le (Nat.ne_of_gt hn))
  unfold ofRatio
  rw [if_neg (by simp [Nat.ne_of_gt hn])]
  extract_lets guess scaled fits e₀ e m
  have hguess : guess = -((53 - n.log2 : Nat) : Int) := by
    have hone : bitLength 1 = 1 := by decide
    show (bitLength n : Int) - (bitLength 1 : Int) - 53 = _
    rw [bitLength, if_neg (by simp [Nat.ne_of_gt hn]), hone]
    omega
  have hscaled : ∀ k : Nat, scaled (-(k : Int)) = (n * 2 ^ k, 1) := by
    intro k
    unfold scaled
    cases k with
    | zero => simp
    | succ k =>
      rw [if_neg (by omega), Int.neg_neg, Int.toNat_natCast]
      rfl
  have hfits : fits guess = false := by
    show decide ((scaled guess).1 < (scaled guess).2 * 9007199254740992) = false
    rw [hguess, hscaled]
    exact decide_eq_false hhuge
  have he : e = -((52 - n.log2 : Nat) : Int) := by
    show max (if fits guess then guess else guess + 1) (-1074) = _
    rw [hfits, hguess]
    show max (-((53 - n.log2 : Nat) : Int) + 1) (-1074) = _
    omega
  have hm : m = n * 2 ^ (52 - n.log2) := by
    show roundDiv (scaled e).1 (scaled e).2 = _
    rw [he, hscaled]
    simp [roundDiv, Nat.mod_one]
  have hsmall : (m == 9007199254740992) = false := beq_eq_false_iff_ne.mpr (hm ▸ Nat.ne_of_lt (mantissa_lt hn hlt))
  clear_value m e
  rw [hsmall]
  show (if 971 < e then _ else _) = _
  rw [if_neg (by omega), hm, he]

end Small

/-! ### The fewest digits -/

/-- The bounds around the integer `n`, counted in units of `1 / den`, are at most half away. -/
structure Near (n den low high : Nat) : Prop where
  den_ge : 4 ≤ den
  low_lt : low < n * den
  low_ge : n * den ≤ low + 2
  high_gt : n * den < high
  high_le : high ≤ n * den + 2

section Shortest

variable {n den low high : Nat}

section

variable (h : Near n den low high) (ends : Bool)
include h

theorem Near.within_iff (j : Nat) : (if ends then decide (low ≤ j * den) && decide (j * den ≤ high)
      else decide (low < j * den) && decide (j * den < high)) = decide (j = n) := by
  obtain ⟨hden, hlow, hlow', hhigh, hhigh'⟩ := h
  rcases Nat.lt_trichotomy j n with hlt | rfl | hgt
  · have hstep : j * den + den ≤ n * den := by
      rw [← Nat.succ_mul]
      exact Nat.mul_le_mul_right den hlt
    grind
  · cases ends <;> simp <;> omega
  · have hstep : n * den + den ≤ j * den := by
      rw [← Nat.succ_mul]
      exact Nat.mul_le_mul_right den hgt
    grind

theorem within_eq {count point : Nat} (hcount : count ≤ point) : within count point (n * den) low high den ends =
      if 10 ^ (point - count) ∣ n then some (n / 10 ^ (point - count)) else none := by
  have hgrid : (if (0 : Int) ≤ (count : Int) - point then (Nat.pow 10 ((count : Int) - point).toNat, 1)
      else (1, Nat.pow 10 (-((count : Int) - point)).toNat)) = (1, 10 ^ (point - count)) := by
    by_cases heq : count = point
    · simp [heq]
    · rw [if_neg (by omega), show (-((count : Int) - point)).toNat = point - count by omega]
      rfl
  unfold within
  extract_lets shift
  rw [show (if 0 ≤ shift then (Nat.pow 10 shift.toNat, 1) else (1, Nat.pow 10 (-shift).toNat)) =
    (1, 10 ^ (point - count)) from hgrid]
  have hpos : 0 < 10 ^ (point - count) := Nat.pow_pos (by decide)
  generalize 10 ^ (point - count) = step at hpos ⊢
  dsimp only
  have hdown : n * den / (den * step) = n / step := by
    rw [Nat.mul_comm den step]
    exact Nat.mul_div_mul_right n step (Nat.lt_of_lt_of_le (by decide) h.den_ge)
  simp only [Nat.mul_one, hdown, h.within_iff ends]
  have habove : ¬(n / step + 1) * step = n := by
    intro heq
    have := Nat.lt_div_mul_add hpos (a := n)
    rw [Nat.succ_mul] at heq
    omega
  rw [decide_eq_false habove]
  by_cases hdvd : step ∣ n
  · rw [if_pos hdvd, decide_eq_true (Nat.div_mul_cancel hdvd)]
  · rw [if_neg hdvd, decide_eq_false fun heq => hdvd ⟨n / step, by rw [Nat.mul_comm]; exact heq.symm⟩]

theorem exists_firstWithin {point : Nat} : ∀ (fuel count : Nat), count ≤ point →
    point < count + fuel → ∃ j ≤ point, 10 ^ j ∣ n ∧
      firstWithin point (n * den) low high den ends count fuel = some (point - j, n / 10 ^ j)
  | 0, count, hcount, hfuel => by omega
  | fuel + 1, count, hcount, hfuel => by
    unfold firstWithin
    rw [within_eq h ends hcount]
    by_cases hdvd : 10 ^ (point - count) ∣ n
    · grind
    · rw [if_neg hdvd]
      have hne : count ≠ point := by
        rintro rfl
        simp at hdvd
      exact exists_firstWithin fuel (count + 1) (by omega) (by omega)

end

theorem pointOf_mul (hn : 0 < n) (hden : 0 < den) : pointOf (n * den) den = (Nat.toDigits 10 n).length := by
  have hiff : ∀ k, k < (Nat.toDigits 10 n).length ↔ 10 ^ k ≤ n := fun _ => lt_length_toDigits_iff hn
  have hiff' : ∀ k, k < (Nat.toDigits 10 den).length ↔ 10 ^ k ≤ den := fun _ => lt_length_toDigits_iff hden
  have hlen : 0 < (Nat.toDigits 10 n).length := Nat.length_toDigits_pos
  have hlen' : 0 < (Nat.toDigits 10 den).length := Nat.length_toDigits_pos
  have hprod : ∀ k, k < (Nat.toDigits 10 (n * den)).length ↔ 10 ^ k ≤ n * den := fun _ =>
    lt_length_toDigits_iff (Nat.mul_pos hn hden)
  unfold pointOf
  extract_lets guess below
  have hguess : guess - 1 = ((Nat.toDigits 10 (n * den)).length : Int) - ((Nat.toDigits 10 den).length : Int) :=
    Int.add_sub_cancel _ 1
  clear_value guess
  generalize (Nat.toDigits 10 n).length = a at *
  generalize (Nat.toDigits 10 den).length = b at *
  generalize (Nat.toDigits 10 (n * den)).length = c at *
  -- A product has as many digits as its factors together, or one less.
  have hle : a + b - 2 < c := by
    rw [hprod, show a + b - 2 = (a - 1) + (b - 1) by omega, Nat.pow_add]
    exact Nat.mul_le_mul ((hiff _).mp (by omega)) ((hiff' _).mp (by omega))
  have hge : c ≤ a + b := by
    rw [← Nat.not_lt, hprod, Nat.not_le, Nat.pow_add]
    exact Nat.mul_lt_mul'' (Nat.not_le.mp fun h => Nat.lt_irrefl a ((hiff a).mpr h))
      (Nat.not_le.mp fun h => Nat.lt_irrefl b ((hiff' b).mpr h))
  have hbelow : below (guess - 1) = decide (n < 10 ^ (c - b)) := by
    show (if 0 ≤ guess - 1 then _ else _) = _
    rw [hguess, if_pos (by omega), show ((c : Int) - b).toNat = c - b by omega, Nat.mul_comm n den]
    exact decide_eq_decide.mpr (Nat.mul_lt_mul_left hden)
  rw [hbelow]
  by_cases hlt : n < 10 ^ (c - b)
  · have := mt (hiff (c - b)).mp (Nat.not_le.mpr hlt)
    rw [decide_eq_true hlt, if_pos rfl, hguess]
    omega
  · have := (hiff (c - b)).mpr (Nat.not_lt.mp hlt)
    rw [decide_eq_false hlt, if_neg Bool.false_ne_true]
    omega

def significant (n : Nat) : List Char := ((Nat.toDigits 10 n).reverse.dropWhile (· == '0')).reverse

theorem significant_mul_pow {k : Nat} (hk : 0 < k) (j : Nat) : significant (k * 10 ^ j) = significant k := by
  unfold significant
  rw [toDigits_mul_pow hk, reverse_append, reverse_replicate, dropWhile_append_of_pos]
  intro c hc
  rw [eq_of_mem_replicate hc]
  rfl

theorem shortest_mantissa (hn : 0 < n) (hlt : n < 2 ^ 53) :
    shortest (n * 2 ^ (52 - n.log2)) (-((52 - n.log2 : Nat) : Int)) = ⟨significant n, (Nat.toDigits 10 n).length⟩ := by
  have hlog := log2_le hn hlt
  generalize 52 - n.log2 = k
  have hup : (if (0 : Int) ≤ -(k : Int) then Nat.pow 2 (-(k : Int)).toNat else 1) = 1 := by
    split
    · rw [show (-(k : Int)).toNat = 0 by omega]
    · rfl
  have hden : (if (0 : Int) ≤ -(k : Int) then 1 else Nat.pow 2 (-(-(k : Int))).toNat) = 2 ^ k := by
    split
    · rw [show k = 0 by omega, Nat.pow_zero]
    · rw [Int.neg_neg, Int.toNat_natCast]
      rfl
  have hpow : 0 < 2 ^ k := Nat.pow_pos (by decide)
  have hpoint : (Nat.toDigits 10 n).length ≤ 16 :=
    (Nat.length_toDigits_le_iff (by decide) (by decide)).mpr (Nat.lt_trans hlt (by decide))
  have hpos : 0 < (Nat.toDigits 10 n).length := Nat.length_toDigits_pos
  unfold shortest
  extract_lets up den num high low ends point
  have hup' : up = 1 := hup
  have hden' : den = 4 * 2 ^ k := congrArg (4 * ·) hden
  have hnum : num = n * den := by
    show 4 * (n * 2 ^ k) * up = n * den
    rw [hup', hden']
    ring
  have hnear : Near n den low high := by
    have hmantissa : 1 ≤ n * 2 ^ k := Nat.mul_pos hn hpow
    have hprod : n * den = 4 * (n * 2 ^ k) := by
      rw [hden']
      ring
    have hhigh : high = 4 * (n * 2 ^ k) + 2 := by
      show (4 * (n * 2 ^ k) + 2) * up = _
      rw [hup', Nat.mul_one]
    have hlow : low = 4 * (n * 2 ^ k) - 1 ∨ low = 4 * (n * 2 ^ k) - 2 := by
      unfold low
      rw [hup', Nat.mul_one, Nat.mul_one]
      split
      · exact .inl rfl
      · exact .inr rfl
    refine ⟨by omega, ?_, ?_, ?_, ?_⟩ <;> rw [hprod] <;> omega
  have hpoint' : point = ((Nat.toDigits 10 n).length : Int) := by
    show pointOf num den = _
    rw [hnum]
    exact pointOf_mul hn (Nat.lt_of_lt_of_le (by decide) hnear.den_ge)
  obtain ⟨j, hj, ⟨q, rfl⟩, hfirst⟩ := exists_firstWithin hnear ends 17 1 hpos (by omega)
  rw [hpoint', hnum, hfirst]
  have hq : 0 < q := Nat.pos_of_mul_pos_left hn
  have hquot : 10 ^ j * q / 10 ^ j = q := Nat.mul_div_cancel_left q (Nat.pow_pos (by decide))
  have hdigits : (Nat.toDigits 10 (10 ^ j * q)).length = (Nat.toDigits 10 q).length + j := by
    rw [Nat.mul_comm, toDigits_mul_pow hq, length_append, length_replicate]
  dsimp only
  rw [hquot, Nat.mul_comm (10 ^ j) q, significant_mul_pow hq, Nat.mul_comm q (10 ^ j), hdigits]
  congr 1
  omega

end Shortest

/-! ### Printing -/

theorem length_significant_le (n : Nat) : (significant n).length ≤ (Nat.toDigits 10 n).length := by
  unfold significant
  rw [length_reverse]
  exact (dropWhile_sublist _).length_le.trans (length_reverse).le

theorem positional_significant (n : Nat) :
    positional (significant n) ((Nat.toDigits 10 n).length : Nat) = Nat.toDigits 10 n := by
  have hpos : 0 < (Nat.toDigits 10 n).length := Nat.length_toDigits_pos
  have hle := length_significant_le n
  unfold positional
  rw [if_neg (by omega), Int.toNat_natCast, take_of_length_le hle, drop_of_length_le hle]
  exact append_replicate_zeros (Nat.toDigits 10 n)

theorem render_ofDecimal (negative : Bool) {n : Nat} (h : n ≤ 2 ^ 53) :
    render .json (ofDecimal ⟨negative, n, 0⟩) = String.ofList (withSign negative (Nat.toDigits 10 n)) := by
  rcases Nat.eq_zero_or_pos n with rfl | hn
  · cases negative <;> decide +kernel
  rcases Nat.lt_or_eq_of_le h with hlt | rfl
  · have hpoint : (Nat.toDigits 10 n).length ≤ 16 :=
      (Nat.length_toDigits_le_iff (by decide) (by decide)).mpr (Nat.lt_trans hlt (by decide))
    have hpos : 0 < (Nat.toDigits 10 n).length := Nat.length_toDigits_pos
    have hratio : ofDecimal ⟨negative, n, 0⟩ = ofRatio negative n 1 := by
      unfold ofDecimal
      dsimp only
      rw [if_neg (by simp; omega), if_neg (by omega), if_pos (Int.le_refl 0)]
      exact congrArg (ofRatio negative · 1) (Nat.mul_one n)
    have hmantissa : (n * 2 ^ (52 - n.log2) == 0) = false := by
      have : 0 < n * 2 ^ (52 - n.log2) := Nat.mul_pos hn (Nat.pow_pos (by decide))
      simp only [beq_eq_false_iff_ne]
      omega
    have hstyle : (decide (Style.json.least ≤ ((Nat.toDigits 10 n).length : Int) - 1) &&
        decide (((Nat.toDigits 10 n).length : Int) - 1 ≤ Style.json.greatest)) = true := by
      have hleast : (-6 : Int) ≤ ((Nat.toDigits 10 n).length : Int) - 1 := by omega
      have hgreatest : ((Nat.toDigits 10 n).length : Int) - 1 ≤ 20 := by omega
      exact Bool.and_eq_true_iff.mpr ⟨decide_eq_true hleast, decide_eq_true hgreatest⟩
    rw [hratio, ofRatio_one negative hn hlt]
    unfold render
    simp only [hmantissa, shortest_mantissa hn hlt, hstyle, positional_significant, withSign, Bool.false_eq_true,
      if_false, if_true]
  · cases negative <;> decide +kernel

end Binary64

theorem Json.decimalOf_showInt (i : Int) : Json.decimalOf (showInt i) = (decide (i < 0), i.natAbs, 0) := by
  have hdigits : ∀ c ∈ Nat.toDigits 10 i.natAbs, isDigit c = true := fun c hc => isDigit_of_mem_toDigits hc
  have hspan : Json.spanDigits (Nat.toDigits 10 i.natAbs) = (Nat.toDigits 10 i.natAbs, []) := by
    unfold Json.spanDigits
    rw [span_eq_takeWhile_dropWhile, takeWhile_eq_self_iff.mpr hdigits, dropWhile_eq_nil_iff.mpr hdigits]
  unfold Json.decimalOf
  rw [splitSign_showInt]
  dsimp only
  rw [hspan]
  dsimp only
  rw [append_nil, natOfDigits_toDigits]
  rfl

/-- **Small integers survive:** rounding leaves the text of an integer up to `2 ^ 53` as it is. -/
theorem Artifact.roundedNumber_showInt {i : Int} (h : i.natAbs ≤ 2 ^ 53) :
    Artifact.roundedNumber (showInt i) = showInt i := by
  unfold Artifact.roundedNumber
  rw [Json.decimalOf_showInt]
  dsimp only
  rw [Binary64.render_ofDecimal _ h, ← toList_showInt_withSign, String.ofList_toList]

end MessageCompiler
