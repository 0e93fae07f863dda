import Mathlib.Algebra.Order.Field.Power
import Mathlib.Tactic.Ring
import StratForge.Decimal

/-!
# Seventeen digits

`general` writes a number that is within half a unit of its last digit (`abs_written_sub_le`). The numbers that 53 bits
and an exponent from -1074 on can give are further apart than a unit of the seventeenth digit, so what `%.17g` writes is
nearer to the number it was written for than to any other of them (`nearest_written`).
-/

namespace Decimal

open Json (Text)

/-! ### The digits that are kept -/

/-- The number that `general` writes. -/
def written (precision : Nat) : Double → ℚ
  | .finite negative num den =>
    (if negative then -1 else 1) * if num = 0 then 0
      else (significant precision num den).1 * (10 : ℚ) ^ ((significant precision num den).2 - (precision - 1))
  | _ => 0

theorem exponent_bounds {num den : Nat} (hnum : 0 < num) (hden : 0 < den) :
    (10 : ℚ) ^ exponent num den ≤ num / den ∧ (num : ℚ) / den < 10 ^ (exponent num den + 1) := by
  have hd : (0 : ℚ) < den := by exact_mod_cast hden
  unfold exponent
  split_ifs with hle
  · have hq : num / den ≠ 0 := (Nat.div_pos hle hden).ne'
    rw [le_div_iff₀ hd, div_lt_iff₀ hd, zpow_natCast, ← Nat.cast_succ, zpow_natCast]
    constructor
    · exact_mod_cast (Nat.mul_le_of_le_div _ _ _ (Nat.pow_log_le_self 10 hq))
    · exact_mod_cast (Nat.div_lt_iff_lt_mul hden).1 (Nat.lt_pow_succ_log_self (by norm_num) _)
  · have hn : (0 : ℚ) < num := by exact_mod_cast hnum
    let c := (den + num - 1) / num
    have hc : den ≤ c * num ∧ c * num ≤ den + num - 1 := by
      have hdiv := Nat.div_add_mod (den + num - 1) num
      have hmod := Nat.mod_lt (den + num - 1) hnum
      have hcomm : c * num = num * c := Nat.mul_comm _ _
      dsimp only [c] at hcomm ⊢
      omega
    have hone : 1 < c := by
      by_contra hno
      have : c * num ≤ 1 * num := Nat.mul_le_mul_right _ (not_lt.1 hno)
      omega
    have hpos : 0 < Nat.clog 10 c := Nat.clog_pos (by norm_num) hone
    obtain ⟨k, hk⟩ := Nat.exists_eq_succ_of_ne_zero hpos.ne'
    have hup : den ≤ num * 10 ^ (k + 1) := by
      have h := Nat.le_pow_clog (b := 10) (by norm_num) c
      rw [hk] at h
      calc den ≤ c * num := hc.1
        _ ≤ 10 ^ (k + 1) * num := Nat.mul_le_mul_right _ h
        _ = num * 10 ^ (k + 1) := Nat.mul_comm _ _
    have hlow : num * 10 ^ k < den := by
      have h := Nat.pow_pred_clog_lt_self (b := 10) (by norm_num) hone
      rw [hk, Nat.pred_succ] at h
      have hmul : (10 ^ k + 1) * num ≤ c * num := Nat.mul_le_mul_right _ h
      rw [Nat.add_mul, Nat.one_mul, Nat.mul_comm (10 ^ k)] at hmul
      omega
    rw [show Nat.clog 10 ((den + num - 1) / num) = k + 1 from hk, div_lt_iff₀ hd, le_div_iff₀ hd]
    constructor
    · rw [zpow_neg, zpow_natCast, inv_mul_le_iff₀ (by positivity)]
      exact_mod_cast (Nat.mul_comm _ _ ▸ hup : den ≤ 10 ^ (k + 1) * num)
    · rw [show -((k + 1 : Nat) : Int) + 1 = -(k : Int) by push_cast; ring, zpow_neg, zpow_natCast, lt_inv_mul_iff₀ (by positivity)]
      exact_mod_cast (Nat.mul_comm _ _ ▸ hlow : 10 ^ k * num < den)

/-- A power of ten with its sign split between numerator and denominator. -/
theorem scaled_div (num den : Nat) (s : Int) :
    ((num * 10 ^ s.toNat : Nat) : ℚ) / (den * 10 ^ (-s).toNat : Nat) = num / den * 10 ^ s := by
  have hs : (10 : ℚ) ^ s.toNat = 10 ^ s * 10 ^ (-s).toNat := by
    rw [← zpow_natCast, ← zpow_natCast, ← zpow_add₀ (by norm_num)]
    congr 1
    omega
  push_cast
  rw [hs]
  field_simp

/-- The digits and their exponent are what is nearest to the number among the decimals that fine. -/
theorem significant_spec {precision num den : Nat} (hp : 0 < precision) (hnum : 0 < num) (hden : 0 < den) :
    |(significant precision num den).1 * (10 : ℚ) ^ ((significant precision num den).2 - (precision - 1)) - num / den| ≤
      1 / 2 * 10 ^ (exponent num den - (precision - 1)) := by
  let e := exponent num den
  let s : Int := (precision : Int) - 1 - e
  let n := roundDiv (num * 10 ^ s.toNat) (den * 10 ^ (-s).toNat)
  have hneg : e - ((precision : Int) - 1) = -s := by dsimp only [s]; ring
  have hround : |(n : ℚ) - num / den * 10 ^ s| ≤ 1 / 2 := by
    have h := abs_roundDiv_sub_le (num * 10 ^ s.toNat) (d := den * 10 ^ (-s).toNat) (by positivity)
    rwa [scaled_div] at h
  have hscale : |(n : ℚ) * 10 ^ (e - ((precision : Int) - 1)) - num / den| ≤ 1 / 2 * 10 ^ (e - ((precision : Int) - 1)) := by
    have hpow : (0 : ℚ) < 10 ^ (-s) := by positivity
    have heq : (n : ℚ) * 10 ^ (-s) - num / den = (n - num / den * 10 ^ s) * 10 ^ (-s) := by
      rw [sub_mul, mul_assoc, ← zpow_add₀ (by norm_num), add_neg_cancel, zpow_zero, mul_one]
    rw [hneg, heq, abs_mul, abs_of_pos hpow]
    exact mul_le_mul_of_nonneg_right hround hpow.le
  show |((significant precision num den).1 : ℚ) * _ - _| ≤ _
  unfold significant
  dsimp only
  split_ifs with hbig
  · -- the digits have been rounded up to a power of ten
    have hlt : (num : ℚ) / den * 10 ^ s < 10 ^ precision := by
      calc (num : ℚ) / den * 10 ^ s < 10 ^ (e + 1) * 10 ^ s :=
            mul_lt_mul_of_pos_right (exponent_bounds hnum hden).2 (by positivity)
        _ = 10 ^ precision := by
            rw [← zpow_add₀ (by norm_num), ← zpow_natCast]
            congr 1
            dsimp only [s]
            ring
    have hn : n = 10 ^ precision := by
      refine le_antisymm ?_ hbig
      have hle : (n : ℚ) < ((10 ^ precision + 1 : Nat) : ℚ) := by
        push_cast
        linarith [(abs_le.1 hround).2]
      exact Nat.le_of_lt_succ (by exact_mod_cast hle)
    have heq : ((10 ^ (precision - 1) : Nat) : ℚ) * 10 ^ (e + 1 - ((precision : Int) - 1)) =
        (n : ℚ) * 10 ^ (e - ((precision : Int) - 1)) := by
      rw [hn]
      push_cast
      rw [← zpow_natCast, ← zpow_natCast, ← zpow_add₀ (by norm_num), ← zpow_add₀ (by norm_num)]
      congr 1
      push_cast [Nat.cast_sub (Nat.succ_le_of_lt hp)]
      ring
    rw [heq]
    exact hscale
  · exact hscale

/-- What is written is at most half a unit of the last digit away. -/
theorem abs_written_sub_le {precision num den : Nat} (hp : 0 < precision) (hnum : 0 < num) (hden : 0 < den) (negative : Bool) :
    |written precision (.finite negative num den) - (if negative then -1 else 1) * (num / den)| ≤
      1 / 2 * 10 ^ (exponent num den - (precision - 1)) := by
  have hsign : |(if negative then -1 else 1 : ℚ)| = 1 := by cases negative <;> simp
  rw [written, if_neg hnum.ne', ← mul_sub, abs_mul, hsign, one_mul]
  exact significant_spec hp hnum hden

/-! ### The digits as a text -/

/-- The zeros at the end of a fraction count for nothing. -/
theorem ofDigits_stripZeros (t : Text) :
    (Json.ofDigits (stripZeros t) : ℚ) / 10 ^ (stripZeros t).length = Json.ofDigits t / 10 ^ t.length := by
  induction t using List.reverseRecOn with
  | nil => rfl
  | append_singleton t c ih =>
    unfold stripZeros at ih ⊢
    rw [List.rdropWhile_concat]
    split_ifs with hc
    · rw [ih, eq_of_beq hc, ofDigits_append, List.length_append, List.length_singleton, pow_succ]
      have hzero : Json.ofDigits ['0'] = 0 := rfl
      rw [hzero]
      push_cast
      field_simp
      ring
    · rfl

/-- An integer part and a fraction of `k` digits, the fraction without the zeros at its end. -/
theorem ofDigits_fraction (n k : Nat) :
    let t := stripZeros (pad k (nat (n % 10 ^ k)))
    ((10 ^ t.length * (n / 10 ^ k) + Json.ofDigits t : Nat) : ℚ) / 10 ^ t.length = n / 10 ^ k := by
  intro t
  have hlen : (10 : ℚ) ^ (pad k (nat (n % 10 ^ k))).length ≠ 0 := by positivity
  have ht : (Json.ofDigits t : ℚ) / 10 ^ t.length = (n % 10 ^ k : Nat) / 10 ^ k := by
    rw [ofDigits_stripZeros, ofDigits_pad]
    rcases Nat.eq_zero_or_pos k with rfl | hk
    · simp [Nat.mod_one]
    · rw [length_pad hk (Nat.mod_lt _ (by positivity))]
  have hsplit : (n : ℚ) = 10 ^ k * (n / 10 ^ k : Nat) + (n % 10 ^ k : Nat) := by
    exact_mod_cast (Nat.div_add_mod n (10 ^ k)).symm
  push_cast
  rw [add_div, mul_div_cancel_left₀ _ (by positivity), ht]
  conv_rhs => rw [hsplit]
  rw [add_div, mul_div_cancel_left₀ _ (by positivity)]

/-- A number with a point and an exponent. -/
theorem exists_number_scientific (negative : Bool) (n : Nat) {t : Text} (h : t.all Char.isDigit = true) (e : Int) :
    ∃ m : Json.Number,
      m.text = sign negative ++ (nat n ++ point t ++ 'e' :: (if e < 0 then '-' else '+') :: pad 2 (nat e.natAbs)) ∧
      m.value = (if negative then -1 else 1) * ((10 ^ t.length * n + Json.ofDigits t : Nat) : ℚ) / 10 ^ t.length * 10 ^ e := by
  have hne : pad 2 (nat e.natAbs) ≠ [] := List.append_ne_nil_of_right_ne_nil _ (nat_ne_nil _)
  let digits : Json.Digits := ⟨pad 2 (nat e.natAbs), hne, List.all_eq_true.2 fun _ hc => isDigit_pad hc⟩
  let exp : Json.Exponent := ⟨false, if e < 0 then .minus else .plus, digits⟩
  have hexp : exp.value = e := by
    have hd : Json.ofDigits digits.text = e.natAbs := ofDigits_pad 2 e.natAbs
    unfold Json.Exponent.value
    dsimp only [exp]
    rw [hd]
    by_cases he : e < 0
    · rw [if_pos he]
      show -(e.natAbs : Int) = e
      omega
    · rw [if_neg he]
      show (e.natAbs : Int) = e
      omega
  refine ⟨⟨negative, natDigits n, head?_nat n, fracDigits t h, some exp⟩, ?_, ?_⟩
  · unfold Json.Number.text sign
    rw [fracDigits_text]
    by_cases he : e < 0 <;> simp [natDigits, exp, digits, Json.Exponent.text, Json.Sign.text, he]
  · have hfrac : ((fracDigits t h).elim [] Json.Digits.text) = t := by
      unfold fracDigits
      cases t <;> rfl
    show Json.decimal negative (nat n) ((fracDigits t h).elim [] Json.Digits.text) exp.value = _
    rw [hfrac, hexp, Json.decimal, ofDigits_append, ofDigits_nat, zpow_sub₀ (by norm_num), zpow_natCast]
    ring

/-- A finite number is written as the text of a number with that value. -/
theorem exists_number_general {precision : Nat} (hp : 0 < precision) {x : Double} (hx : x.isFinite = true) :
    ∃ n : Json.Number, n.text = general precision x ∧ n.value = written precision x := by
  cases x with
  | infinite => cases hx
  | nan => cases hx
  | finite negative num den =>
    show ∃ n : Json.Number, n.text = sign negative ++ generalText precision num den ∧ n.value =
      (if negative then -1 else 1) * if num = 0 then 0
        else (significant precision num den).1 * (10 : ℚ) ^ ((significant precision num den).2 - (precision - 1))
    unfold generalText
    by_cases hnum : num = 0
    · have hnone : ([] : Text).all Char.isDigit = true := rfl
      rw [if_pos hnum, if_pos hnum]
      refine ⟨pointed negative 0 [] hnone, text_pointed negative 0 hnone, ?_⟩
      rw [value_pointed]
      simp [Json.ofDigits]
    · rw [if_neg hnum, if_neg hnum]
      generalize significant precision num den = d
      dsimp only
      by_cases hstyle : -4 ≤ d.2 ∧ d.2 < precision
      · -- a number with a point
        have hk : d.2 - ((precision : Int) - 1) = -(((precision : Int) - 1 - d.2).toNat : Int) := by omega
        rw [if_pos hstyle, hk]
        generalize ((precision : Int) - 1 - d.2).toNat = k
        refine ⟨pointed negative (d.1 / 10 ^ k) _ all_isDigit_strip, text_pointed negative _ _, ?_⟩
        rw [value_pointed, mul_div_assoc, ofDigits_fraction, zpow_neg, zpow_natCast, div_eq_mul_inv]
      · -- and one with an exponent as well
        have hk : ((precision : Int) - 1) = ((precision - 1 : Nat) : Int) := by omega
        rw [if_neg hstyle, hk]
        generalize precision - 1 = k
        obtain ⟨m, htext, hvalue⟩ := exists_number_scientific negative (d.1 / 10 ^ k)
          (t := stripZeros (pad k (nat (d.1 % 10 ^ k)))) all_isDigit_strip d.2
        refine ⟨m, htext, ?_⟩
        rw [hvalue, mul_div_assoc, ofDigits_fraction, zpow_sub₀ (by norm_num), zpow_natCast]
        ring

end Decimal

/-! ### Binary numbers -/

/-- A finite number of the format: 53 bits, of which the first is set above the least exponent. -/
structure Binary64 where
  negative : Bool
  mantissa : Nat
  exponent : Int
  bits : mantissa < 2 ^ 53
  least : -1074 ≤ exponent
  greatest : exponent ≤ 971
  normal : 2 ^ 52 ≤ mantissa ∨ exponent = -1074

namespace Binary64

/-- What 53 bits and an exponent from the least one on can give. -/
def Grid (q : ℚ) : Prop := ∃ (m : Int) (e : Int), |m| < 2 ^ 53 ∧ -1074 ≤ e ∧ q = m * 2 ^ e

def value (x : Binary64) : ℚ := (if x.negative then -1 else 1) * (x.mantissa * 2 ^ x.exponent)

def double (x : Binary64) : Decimal.Double :=
  .finite x.negative (x.mantissa * 2 ^ x.exponent.toNat) (2 ^ (-x.exponent).toNat)

/-- A reader that takes what is nearest to a number takes `x` for `q`. -/
def NearestTo (q : ℚ) (x : Binary64) : Prop := ∀ y, Grid y → y ≠ x.value → |q - x.value| < |q - y|

theorem grid_value (x : Binary64) : Grid x.value := by
  have hm : ((x.mantissa : Int)) < 2 ^ 53 := by exact_mod_cast x.bits
  refine ⟨(if x.negative then -1 else 1) * x.mantissa, x.exponent, ?_, x.least, ?_⟩
  · cases x.negative <;> simpa using hm
  · rw [value]
    push_cast
    cases x.negative <;> simp

/-- A power of two with its sign split between numerator and denominator. -/
theorem double_quotient (x : Binary64) :
    ((x.mantissa * 2 ^ x.exponent.toNat : Nat) : ℚ) / (2 ^ (-x.exponent).toNat : Nat) = x.mantissa * 2 ^ x.exponent := by
  have he : (2 : ℚ) ^ x.exponent.toNat = 2 ^ x.exponent * 2 ^ (-x.exponent).toNat := by
    rw [← zpow_natCast, ← zpow_natCast, ← zpow_add₀ (by norm_num)]
    congr 1
    omega
  push_cast
  rw [he]
  field_simp

/-- Another number is further away than a unit of the seventeenth digit. -/
theorem lt_abs_sub {x : Binary64} {y u : ℚ} (hy : Grid y) (hne : y ≠ x.value)
    (hu : u * 10 ^ 16 ≤ x.mantissa * 2 ^ x.exponent) : u < |x.value - y| := by
  obtain ⟨m, e, hm, he, rfl⟩ := hy
  have hpow : (0 : ℚ) < 2 ^ x.exponent := by positivity
  have hbits : (x.mantissa : ℚ) ≤ 2 ^ 53 - 1 := by
    have h : x.mantissa + 1 ≤ 2 ^ 53 := x.bits
    have h' : ((x.mantissa + 1 : Nat) : ℚ) ≤ ((2 ^ 53 : Nat) : ℚ) := by exact_mod_cast h
    push_cast at h'
    linarith
  rcases le_or_gt x.exponent e with hle | hlt
  · -- both are multiples of the unit of `x`
    obtain ⟨k, rfl⟩ := Int.le.dest hle
    let d : Int := (if x.negative then -1 else 1) * x.mantissa - m * 2 ^ k
    have hd : x.value - m * 2 ^ (x.exponent + k) = d * 2 ^ x.exponent := by
      rw [value, zpow_add₀ (by norm_num), zpow_natCast]
      dsimp only [d]
      push_cast
      ring
    have hd0 : d ≠ 0 := by
      intro h0
      rw [h0, Int.cast_zero, zero_mul] at hd
      exact hne (by linarith)
    have hone : (1 : ℚ) ≤ |(d : ℚ)| := by exact_mod_cast Int.one_le_abs hd0
    rw [hd, abs_mul, abs_of_pos hpow]
    nlinarith
  · -- `y` has more bits after the point, so `x` has all of its own
    have hnormal : (2 : ℚ) ^ 52 ≤ x.mantissa := by
      rcases x.normal with h | h
      · exact_mod_cast h
      · omega
    have hy : |(m : ℚ) * 2 ^ e| ≤ (2 ^ 53 - 1) * (2 ^ x.exponent / 2) := by
      have hm' : |(m : ℚ)| ≤ 2 ^ 53 - 1 := by
        have h : |m| + 1 ≤ 2 ^ 53 := hm
        have h' : ((|m| + 1 : Int) : ℚ) ≤ ((2 ^ 53 : Int) : ℚ) := by exact_mod_cast h
        push_cast at h'
        linarith
      have he' : (2 : ℚ) ^ e ≤ 2 ^ x.exponent / 2 := by
        rw [div_eq_mul_inv, ← zpow_sub_one₀ (by norm_num)]
        exact zpow_le_zpow_right₀ (by norm_num) (by omega)
      rw [abs_mul, abs_of_pos (show (0 : ℚ) < 2 ^ e by positivity)]
      exact mul_le_mul hm' he' (by positivity) (by norm_num)
    have habs : |x.value| = x.mantissa * 2 ^ x.exponent := by
      have hsign : |(if x.negative then -1 else 1 : ℚ)| = 1 := by cases x.negative <;> simp
      rw [value, abs_mul, hsign, one_mul, abs_of_nonneg (by positivity)]
    have hsub := abs_sub_abs_le_abs_sub x.value (m * 2 ^ e)
    rw [habs] at hsub
    nlinarith

/-- What seventeen digits are written for is what they are read as. -/
theorem nearest_written (x : Binary64) : NearestTo (Decimal.written 17 x.double) x := by
  intro y hy hne
  rcases Nat.eq_zero_or_pos x.mantissa with hzero | hpos
  · have hx : x.value = 0 := by simp [value, hzero]
    have hw : Decimal.written 17 x.double = 0 := by simp [Decimal.written, double, hzero]
    rw [hx] at hne
    rw [hx, hw, sub_zero, abs_zero, zero_sub, abs_neg]
    exact abs_pos.2 hne
  · let num := x.mantissa * 2 ^ x.exponent.toNat
    let den := 2 ^ (-x.exponent).toNat
    have hnum : 0 < num := by positivity
    have hden : 0 < den := by positivity
    obtain ⟨u, hu, hclose⟩ : ∃ u : ℚ, u * 10 ^ 16 ≤ x.mantissa * 2 ^ x.exponent ∧
        |Decimal.written 17 x.double - x.value| ≤ 1 / 2 * u := by
      have hclose := @Decimal.abs_written_sub_le 17 num den (by norm_num) hnum hden x.negative
      rw [double_quotient] at hclose
      refine ⟨_, ?_, hclose⟩
      rw [← double_quotient, ← zpow_natCast, ← zpow_add₀ (by norm_num)]
      convert (Decimal.exponent_bounds hnum hden).1 using 2
      push_cast
      ring
    have hfar := lt_abs_sub hy hne hu
    have htriangle : |x.value - y| ≤ |Decimal.written 17 x.double - x.value| + |Decimal.written 17 x.double - y| := by
      rw [abs_sub_comm (Decimal.written 17 x.double)]
      exact abs_sub_le _ _ _
    linarith

/-- A number that is taken for two of the format is taken for the same twice. -/
theorem NearestTo.unique {q : ℚ} {x y : Binary64} (hx : NearestTo q x) (hy : NearestTo q y) : x.value = y.value := by
  by_contra hne
  exact lt_asymm (hx _ y.grid_value (Ne.symm hne)) (hy _ x.grid_value hne)

end Binary64
