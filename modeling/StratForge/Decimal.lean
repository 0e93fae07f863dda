import Mathlib.Data.List.DropRight
import Mathlib.Tactic.Linarith
import Mathlib.Tactic.FieldSimp
import Mathlib.Tactic.Positivity
import Mathlib.Data.Nat.Log
import StratForge.JsonText

/-!
# Numbers as a stream writes them

`general` is the default notation with a precision (`%.17g`), `fixed` that of `std::fixed` (`%.6f`). Both write the
exact quotient rounded to the nearest decimal, ties to the even digit, and a finite number comes out as JSON has
numbers (`finite_json`); what they write for an infinity or a NaN is no JSON (`not_finite_refused`).
-/

namespace Decimal

open Json (Text)

/-- A floating-point number: `num / den` with its sign, which a zero has too. -/
inductive Double
  | finite (negative : Bool) (num den : Nat)
  | infinite (negative : Bool)
  | nan (negative : Bool)
deriving DecidableEq, Repr

namespace Double

def isFinite : Double → Bool
  | finite .. => true
  | _ => false

def ofRat (q : ℚ) : Double := .finite (decide (q < 0)) q.num.natAbs q.den

end Double

/-! ### Integers -/

def nat (n : Nat) : Text := Nat.toDigits 10 n

def int (i : Int) : Text := (if i < 0 then ['-'] else []) ++ nat i.natAbs

theorem isDigit_nat {n : Nat} {c : Char} (h : c ∈ nat n) : c.isDigit = true :=
  Nat.isDigit_of_mem_toDigits (by decide) (by decide) h

theorem nat_ne_nil (n : Nat) : nat n ≠ [] := Nat.toDigits_ne_nil

theorem digitChar_eq_zero {n : Nat} (h : n < 10) (hz : n.digitChar = '0') : n = 0 := by
  have hall : ∀ d : Fin 10, (d : Nat).digitChar = '0' → d = 0 := by decide
  exact congrArg Fin.val (hall ⟨n, h⟩ hz)

/-- No number begins with a zero it does not need. -/
theorem head?_nat (n : Nat) : (nat n).head? = some '0' → nat n = ['0'] := by
  induction n using Nat.strongRecOn with
  | ind n ih =>
    unfold nat at ih ⊢
    rw [Nat.toDigits_eq_if (by decide)]
    split_ifs with hlt
    · intro h
      rw [List.head?_cons] at h
      rw [Option.some.inj h]
    · intro h
      rw [List.head?_append_of_ne_nil _ Nat.toDigits_ne_nil] at h
      have hten := ih (n / 10) (by omega) h
      -- a quotient that is not zero does not begin with one
      have hsmall : n / 10 = 0 := by
        by_contra hne
        rw [Nat.toDigits_eq_if (by decide)] at hten
        split_ifs at hten with hq
        · exact hne (digitChar_eq_zero hq (List.cons.inj hten).1)
        · have hlen := congrArg List.length hten
          have hpos := List.length_pos_iff.2 (Nat.toDigits_ne_nil (n := n / 10 / 10) (b := 10))
          simp only [List.length_append, List.length_singleton] at hlen
          omega
      omega

def natDigits (n : Nat) : Json.Digits :=
  ⟨nat n, nat_ne_nil n, List.all_eq_true.2 fun _ hc => isDigit_nat hc⟩

theorem isJson_int (i : Int) : Json.IsJson (int i) := by
  have h : int i = Json.Number.text ⟨decide (i < 0), natDigits i.natAbs, head?_nat _, none, none⟩ := by
    unfold int Json.Number.text
    by_cases hi : i < 0
    · simp [hi, natDigits]
    · simp [hi, natDigits]
  rw [h]
  exact .number _

theorem isJson_nat (n : Nat) : Json.IsJson (nat n) := by
  have h : nat n = int n := rfl
  rw [h]
  exact isJson_int n

/-! ### Rounding -/

/-- The integer nearest to a quotient; halfway, the even one. -/
def roundDiv (n d : Nat) : Nat :=
  if d < 2 * (n % d) ∨ (2 * (n % d) = d ∧ n / d % 2 = 1) then n / d + 1 else n / d

/-- At least so many digits. -/
def pad (k : Nat) (t : Text) : Text := List.replicate (k - t.length) '0' ++ t

theorem isDigit_pad {k n : Nat} {c : Char} (h : c ∈ pad k (nat n)) : c.isDigit = true := by
  rcases List.mem_append.1 h with h | h
  · rw [List.eq_of_mem_replicate h]
    rfl
  · exact isDigit_nat h

def point (frac : Text) : Text := if frac.isEmpty then [] else '.' :: frac

def sign (negative : Bool) : Text := if negative then ['-'] else []

/-! ### The two notations -/

/-- `std::fixed`. -/
def fixedText (precision num den : Nat) : Text :=
  let n := roundDiv (num * 10 ^ precision) den
  nat (n / 10 ^ precision) ++ point (if precision = 0 then [] else pad precision (nat (n % 10 ^ precision)))

/-- `e` with `10 ^ e ≤ num / den < 10 ^ (e + 1)`. -/
def exponent (num den : Nat) : Int :=
  if den ≤ num then Nat.log 10 (num / den) else -(Nat.clog 10 ((den + num - 1) / num) : Int)

/-- The digits, and the exponent that goes with them. -/
def significant (precision num den : Nat) : Nat × Int :=
  let e := exponent num den
  let s := (precision : Int) - 1 - e
  let n := roundDiv (num * 10 ^ s.toNat) (den * 10 ^ (-s).toNat)
  if 10 ^ precision ≤ n then (10 ^ (precision - 1), e + 1) else (n, e)

def stripZeros (t : Text) : Text := t.rdropWhile (· == '0')

/-- The default notation: fixed from the exponent -4 to the precision, scientific otherwise, and no zeros at the end. -/
def generalText (precision num den : Nat) : Text :=
  if num = 0 then ['0']
  else
    let (n, e) := significant precision num den
    if -4 ≤ e ∧ e < precision then
      let s := (precision - 1 - e).toNat
      nat (n / 10 ^ s) ++ point (stripZeros (pad s (nat (n % 10 ^ s))))
    else
      let s := precision - 1
      nat (n / 10 ^ s) ++ point (stripZeros (pad s (nat (n % 10 ^ s)))) ++
        'e' :: (if e < 0 then '-' else '+') :: pad 2 (nat e.natAbs)

def write (finite : Nat → Nat → Text) : Double → Text
  | .finite negative num den => sign negative ++ finite num den
  | .infinite negative => sign negative ++ ['i', 'n', 'f']
  | .nan negative => sign negative ++ ['n', 'a', 'n']

def general (precision : Nat) : Double → Text := write (generalText precision)

def fixed (precision : Nat) : Double → Text := write (fixedText precision)

/-! ### What is written -/

def fracDigits (t : Text) (h : t.all Char.isDigit = true) : Option Json.Digits :=
  if hne : t = [] then none else some ⟨t, hne, h⟩

theorem fracDigits_text (t : Text) (h : t.all Char.isDigit = true) :
    ((fracDigits t h).elim [] fun f => '.' :: f.text) = point t := by
  unfold fracDigits point
  cases t <;> rfl

theorem all_isDigit_strip {k n : Nat} : (stripZeros (pad k (nat n))).all Char.isDigit = true :=
  List.all_eq_true.2 fun _ hc => isDigit_pad ((List.rdropWhile_prefix (· == '0') _).subset hc)

/-- A number with a point. -/
def pointed (negative : Bool) (n : Nat) (t : Text) (h : t.all Char.isDigit = true) : Json.Number :=
  ⟨negative, natDigits n, head?_nat n, fracDigits t h, none⟩

theorem text_pointed (negative : Bool) (n : Nat) {t : Text} (h : t.all Char.isDigit = true) :
    (pointed negative n t h).text = sign negative ++ (nat n ++ point t) := by
  unfold Json.Number.text sign pointed
  rw [fracDigits_text]
  simp [natDigits]

theorem isJson_pointed (negative : Bool) (n : Nat) {t : Text} (h : t.all Char.isDigit = true) :
    Json.IsJson (sign negative ++ (nat n ++ point t)) := by
  rw [← text_pointed negative n h]
  exact .number _

/-- A number with a point and an exponent. -/
theorem isJson_scientific (negative : Bool) (n : Nat) {t : Text} (h : t.all Char.isDigit = true) (e : Int) :
    Json.IsJson (sign negative ++ (nat n ++ point t ++ 'e' :: (if e < 0 then '-' else '+') :: pad 2 (nat e.natAbs))) := by
  have hne : pad 2 (nat e.natAbs) ≠ [] := List.append_ne_nil_of_right_ne_nil _ (nat_ne_nil _)
  let digits : Json.Digits := ⟨pad 2 (nat e.natAbs), hne, List.all_eq_true.2 fun _ hc => isDigit_pad hc⟩
  have heq : sign negative ++ (nat n ++ point t ++ 'e' :: (if e < 0 then '-' else '+') :: pad 2 (nat e.natAbs)) =
      Json.Number.text ⟨negative, natDigits n, head?_nat n, fracDigits t h,
        some ⟨false, if e < 0 then .minus else .plus, digits⟩⟩ := by
    unfold Json.Number.text sign
    rw [fracDigits_text]
    by_cases he : e < 0 <;> simp [natDigits, digits, Json.Exponent.text, Json.Sign.text, he]
  rw [heq]
  exact .number _

theorem isJson_generalText (negative : Bool) (precision num den : Nat) :
    Json.IsJson (sign negative ++ generalText precision num den) := by
  unfold generalText
  split_ifs
  · exact isJson_pointed negative 0 (t := []) rfl
  · dsimp only
    by_cases hstyle : -4 ≤ (significant precision num den).2 ∧ (significant precision num den).2 < precision
    · rw [if_pos hstyle]
      exact isJson_pointed negative _ all_isDigit_strip
    · rw [if_neg hstyle]
      exact isJson_scientific negative _ all_isDigit_strip _

theorem isJson_fixedText (negative : Bool) (precision num den : Nat) :
    Json.IsJson (sign negative ++ fixedText precision num den) := by
  unfold fixedText
  refine isJson_pointed negative _ ?_
  split_ifs
  · rfl
  · exact List.all_eq_true.2 fun _ hc => isDigit_pad hc

theorem settled_write {finite : Nat → Nat → Text} (h : ∀ negative num den, Json.IsJson (sign negative ++ finite num den))
    (x : Double) : Json.Settled (write finite x) (x.isFinite = true) := by
  cases x with
  | finite negative num den => exact ⟨fun _ => h negative num den, fun hn => absurd rfl hn⟩
  | infinite negative => exact ⟨fun hf => (nomatch hf), fun _ => by cases negative <;> rfl⟩
  | nan negative => exact ⟨fun hf => (nomatch hf), fun _ => by cases negative <;> rfl⟩

/-- A finite number is well formed, and anything else is refused. -/
theorem settled_general (precision : Nat) (x : Double) : Json.Settled (general precision x) (x.isFinite = true) :=
  settled_write (fun negative => isJson_generalText negative precision) x

theorem isJson_fixed (precision : Nat) {x : Double} (h : x.isFinite = true) : Json.IsJson (fixed precision x) :=
  (settled_write (fun negative => isJson_fixedText negative precision) x).json h

/-! ### What the digits stand for -/

theorem ofDigits_append (t u : Text) : Json.ofDigits (t ++ u) = 10 ^ u.length * Json.ofDigits t + Json.ofDigits u :=
  (Nat.ofDigitChars_append 0).trans Nat.ofDigitChars_eq_ofDigitChars_zero

theorem ofDigits_nat (n : Nat) : Json.ofDigits (nat n) = n := Nat.ofDigitChars_ten_toDigits

theorem ofDigits_pad (k n : Nat) : Json.ofDigits (pad k (nat n)) = n := by
  have hzeros : ∀ m, Json.ofDigits (List.replicate m '0') = 0 := fun m => Nat.ofDigitChars_replicate_zero
  rw [pad, ofDigits_append, hzeros, ofDigits_nat, Nat.mul_zero, Nat.zero_add]

theorem length_pad {k n : Nat} (hk : 0 < k) (hn : n < 10 ^ k) : (pad k (nat n)).length = k := by
  have hle : (nat n).length ≤ k := (Nat.length_toDigits_le_iff (by decide) hk).2 hn
  rw [pad, List.length_append, List.length_replicate]
  omega

theorem value_pointed (negative : Bool) (n : Nat) {t : Text} (h : t.all Char.isDigit = true) : (pointed negative n t h).value =
    (if negative then -1 else 1) * ((10 ^ t.length * n + Json.ofDigits t : Nat) : ℚ) / 10 ^ t.length := by
  have hfrac : ((fracDigits t h).elim [] Json.Digits.text) = t := by
    unfold fracDigits
    cases t <;> rfl
  show Json.decimal negative (nat n) ((fracDigits t h).elim [] Json.Digits.text) 0 = _
  rw [hfrac, Json.decimal, ofDigits_append, ofDigits_nat, zero_sub, zpow_neg, zpow_natCast]
  rfl

theorem exists_number_int (i : Int) : ∃ n : Json.Number, n.text = int i ∧ n.value = i := by
  have hnone : ([] : Text).all Char.isDigit = true := rfl
  refine ⟨pointed (decide (i < 0)) i.natAbs [] hnone, ?_, ?_⟩
  · rw [text_pointed, int, sign]
    simp [point]
  · rw [value_pointed]
    by_cases hi : i < 0
    · have habs : ((i.natAbs : Nat) : ℚ) = -i := by
        rw [← Int.cast_natCast, Int.ofNat_natAbs_of_nonpos hi.le, Int.cast_neg]
      simp [hi, Json.ofDigits, habs]
    · have habs : ((i.natAbs : Nat) : ℚ) = i := by
        rw [← Int.cast_natCast, Int.natAbs_of_nonneg (not_lt.1 hi)]
      simp [hi, Json.ofDigits, habs]

/-- The number that `fixed` writes. -/
def rounded (precision : Nat) : Double → ℚ
  | .finite negative num den => (if negative then -1 else 1) * (roundDiv (num * 10 ^ precision) den : ℚ) / 10 ^ precision
  | _ => 0

theorem exists_number_fixed (precision : Nat) {x : Double} (hx : x.isFinite = true) :
    ∃ n : Json.Number, n.text = fixed precision x ∧ n.value = rounded precision x := by
  cases x with
  | infinite => cases hx
  | nan => cases hx
  | finite negative num den =>
    let n := roundDiv (num * 10 ^ precision) den
    let t := if precision = 0 then [] else pad precision (nat (n % 10 ^ precision))
    have hdigits : t.all Char.isDigit = true := by
      dsimp only [t]
      split_ifs
      · rfl
      · exact List.all_eq_true.2 fun _ hc => isDigit_pad hc
    refine ⟨pointed negative (n / 10 ^ precision) t hdigits, text_pointed negative _ hdigits, ?_⟩
    rw [value_pointed, rounded]
    have hlt : n % 10 ^ precision < 10 ^ precision := Nat.mod_lt _ (by positivity)
    have ht : t.length = precision ∧ Json.ofDigits t = n % 10 ^ precision := by
      dsimp only [t]
      split_ifs with hp
      · subst hp
        exact ⟨rfl, (Nat.mod_one n).symm⟩
      · exact ⟨length_pad (by omega) hlt, ofDigits_pad _ _⟩
    rw [ht.1, ht.2, Nat.div_add_mod]

/-- The nearest integer is at most a half away. -/
theorem abs_roundDiv_sub_le (n : Nat) {d : Nat} (hd : 0 < d) : |(roundDiv n d : ℚ) - n / d| ≤ 1 / 2 := by
  have hsplit : (n : ℚ) / d = (n / d : Nat) + (n % d : Nat) / d := by
    have h : ((d * (n / d) + n % d : Nat) : ℚ) = n := by rw [Nat.div_add_mod]
    rw [← h]
    push_cast
    field_simp
  have hmod : ((n % d : Nat) : ℚ) / d < 1 := by
    rw [div_lt_one (by exact_mod_cast hd)]
    exact_mod_cast Nat.mod_lt n hd
  have hnonneg : 0 ≤ ((n % d : Nat) : ℚ) / d := by positivity
  unfold roundDiv
  rw [hsplit]
  split_ifs with hup
  · have hge : 1 / 2 ≤ ((n % d : Nat) : ℚ) / d := by
      rw [le_div_iff₀ (by exact_mod_cast hd)]
      have : (d : ℚ) ≤ 2 * (n % d : Nat) := by exact_mod_cast (show d ≤ 2 * (n % d) by omega)
      linarith
    push_cast
    rw [abs_le]
    constructor <;> linarith
  · have hle : ((n % d : Nat) : ℚ) / d ≤ 1 / 2 := by
      rw [div_le_iff₀ (by exact_mod_cast hd)]
      have : (2 * (n % d : Nat) : ℚ) ≤ d := by exact_mod_cast (show 2 * (n % d) ≤ d by omega)
      linarith
    rw [abs_le]
    constructor <;> linarith

/-- A finite number comes out at most half a unit of the last place away. -/
theorem abs_rounded_sub_le (precision : Nat) (negative : Bool) (num : Nat) {den : Nat} (hden : 0 < den) :
    |rounded precision (.finite negative num den) - (if negative then -1 else 1) * (num : ℚ) / den| ≤ 1 / 2 / 10 ^ precision := by
  have hround := abs_roundDiv_sub_le (num * 10 ^ precision) hden
  have hpos : (0 : ℚ) < 10 ^ precision := by positivity
  have hscale : rounded precision (.finite negative num den) - (if negative then -1 else 1) * (num : ℚ) / den =
      (if negative then -1 else 1) * (((roundDiv (num * 10 ^ precision) den : ℚ) -
        ((num * 10 ^ precision : Nat) : ℚ) / den) / 10 ^ precision) := by
    rw [rounded]
    push_cast
    field_simp
  have hsign : |(if negative then -1 else 1 : ℚ)| = 1 := by cases negative <;> simp
  rw [hscale, abs_mul, hsign, one_mul, abs_div, abs_of_pos hpos]
  exact div_le_div_of_nonneg_right hround hpos.le

end Decimal
