import StratForge.Account
import StratForge.Marginal
import Mathlib.Data.Real.Basic
import Mathlib.Data.Rat.Cast.Order

/-!
# Tiered commissions (`broker/commission.hpp`)

`TieredCommission::calculate` walks the tiers with the volume still to charge and charges what is
left after the walk at the last tier's rate. It leaves the walk at a tier of no width, and then
everything above is charged at the last rate, so it is the integral of the marginal rates exactly
for the lists whose tiers after such a gap have the last tier's rate (`integrates_iff`).
-/

namespace StratForge

structure Tier (α : Type) where
  /-- Cumulative volume. -/
  threshold : α
  rate : α
deriving DecidableEq, Repr

structure TieredCommission (α : Type) where
  tiers : List (Tier α)
  tierType : CommissionType
  minCommission : α
deriving Repr

namespace TieredCommission

section
variable {α : Type} [Arith α]

/-- The loop over the tiers: the commission and what remains to charge. -/
def loop (type : CommissionType) (price : α) : List (Tier α) → α → α → α → α × α
  | [], comm, remaining, _ => (comm, remaining)
  | tier :: rest, comm, remaining, prevThreshold =>
      let tierVolume := tier.threshold - prevThreshold
      let applicable := Arith.min remaining tierVolume
      if applicable ≤ 0 then (comm, remaining)
      else
        let (comm, remaining) := match type with
          | .PerShare => (comm + applicable * tier.rate, remaining)
          | .Percentage => (comm + applicable * price * tier.rate, remaining)
          | .Fixed => (comm + tier.rate, 0)
        let remaining := remaining - applicable
        if remaining ≤ 0 then (comm, remaining) else loop type price rest comm remaining tier.threshold

/-- The commission before the minimum. -/
def volumeCharge (c : TieredCommission α) (size price : α) : α :=
  let (comm, remaining) := loop c.tierType price c.tiers 0 (Arith.abs size) 0
  match c.tiers.getLast? with
  | none => comm
  | some back =>
      if 0 < remaining then
        match c.tierType with
        | .PerShare => comm + remaining * back.rate
        | .Percentage => comm + remaining * price * back.rate
        | .Fixed => comm
      else comm

def calculate (c : TieredCommission α) (size price : α) : α :=
  Arith.max (c.volumeCharge size price) c.minCommission

end

/-- What a unit of volume is worth to the rate. -/
def unit (type : CommissionType) (price : ℚ) : ℚ :=
  match type with
  | .Percentage => price
  | _ => 1

def lastRate (tiers : List (Tier ℚ)) : ℚ := (tiers.getLast?.map Tier.rate).getD 0

/-- The rate of the first tier whose threshold is above the volume, the last one's beyond. -/
noncomputable def marginalRate (tiers : List (Tier ℚ)) (volume : ℝ) : ℝ :=
  Marginal.rateAt (fun t : Tier ℚ => (t.threshold : ℝ)) (fun t => (t.rate : ℝ)) (lastRate tiers) tiers volume

/-- The tiers with their widths. -/
def widths : List (Tier ℚ) → ℚ → List (Tier ℚ × ℚ)
  | [], _ => []
  | t :: rest, start => (t, t.threshold - start) :: widths rest t.threshold

/-- After a tier of no width every tier that has some takes the last tier's rate. -/
def LevelAfterGap (tiers : List (Tier ℚ)) : Prop :=
  ∀ p ∈ (widths tiers 0).dropWhile (fun p => 0 < p.2), 0 < p.2 → p.1.rate = lastRate tiers

instance (tiers : List (Tier ℚ)) : Decidable (LevelAfterGap tiers) :=
  inferInstanceAs (Decidable (∀ p ∈ _, _))

/-- The commission is the integral of the marginal rates, and at least the minimum. -/
structure Integrates (c : TieredCommission ℚ) : Prop where
  integral : ∀ size price : ℚ, 0 ≤ price → ((c.volumeCharge size price : ℚ) : ℝ) =
    (∫ v in (0 : ℝ)..|(size : ℝ)|, marginalRate c.tiers v) * (unit c.tierType price : ℚ)
  minimum : ∀ size price : ℚ, c.calculate size price = max (c.volumeCharge size price) c.minCommission
  monotone : (∀ t ∈ c.tiers, 0 ≤ t.rate) → ∀ size size' price : ℚ, 0 ≤ price → |size| ≤ |size'| →
    c.volumeCharge size price ≤ c.volumeCharge size' price

/-! ### What the walk charges -/

/-- The code's sum from `start` to `v`, at rates per unit: at a tier of no width the walk ends. -/
def levied (last : ℚ) : List (Tier ℚ) → ℚ → ℚ → ℚ
  | [], start, v => last * (v - start)
  | t :: rest, start, v =>
      if t.threshold ≤ start then last * (v - start)
      else if v ≤ t.threshold then t.rate * (v - start)
      else t.rate * (t.threshold - start) + levied last rest t.threshold v

theorem loop_cons {type : CommissionType} (h : type ≠ .Fixed) (price : ℚ) (t : Tier ℚ)
    (rest : List (Tier ℚ)) (comm remaining start : ℚ) :
    loop type price (t :: rest) comm remaining start =
      if min remaining (t.threshold - start) ≤ 0 then (comm, remaining)
      else if remaining - min remaining (t.threshold - start) ≤ 0 then
        (comm + t.rate * min remaining (t.threshold - start) * unit type price,
          remaining - min remaining (t.threshold - start))
      else loop type price rest (comm + t.rate * min remaining (t.threshold - start) * unit type price)
        (remaining - min remaining (t.threshold - start)) t.threshold := by
  have hcomm : ∀ x : ℚ, t.rate * x * price = x * price * t.rate := fun x => by ring
  cases type with
  | Fixed => exact absurd rfl h
  | PerShare => simp only [loop, Arith.min_rat, unit, mul_one, mul_comm]
  | Percentage => simp only [loop, Arith.min_rat, unit, hcomm]

theorem loop_levied {type : CommissionType} (h : type ≠ .Fixed) (price last : ℚ) (tiers : List (Tier ℚ))
    (comm remaining start : ℚ) (hr : 0 ≤ remaining) :
    0 ≤ (loop type price tiers comm remaining start).2 ∧
      (loop type price tiers comm remaining start).1 +
        last * (loop type price tiers comm remaining start).2 * unit type price =
      comm + levied last tiers start (start + remaining) * unit type price := by
  induction tiers generalizing comm remaining start with
  | nil => exact ⟨hr, by simp [loop, levied]⟩
  | cons t rest ih =>
    rw [loop_cons h, levied]
    rcases le_or_gt t.threshold start with hgap | hwidth
    -- no width: the walk ends
    · rw [if_pos ((min_le_right _ _).trans (sub_nonpos.2 hgap)), if_pos hgap]
      refine ⟨hr, ?_⟩
      dsimp only
      ring
    rw [if_neg (not_le.2 hwidth)]
    rcases le_or_gt remaining (t.threshold - start) with hrem | hrem
    -- the rest lies in this tier
    · rw [min_eq_left hrem, sub_self, if_pos (by linarith : start + remaining ≤ t.threshold)]
      by_cases h0 : remaining ≤ 0
      · rw [if_pos h0]
        have hz : remaining = 0 := le_antisymm h0 hr
        refine ⟨hr, ?_⟩
        dsimp only
        rw [hz]
        ring
      · rw [if_neg h0, if_pos le_rfl]
        refine ⟨le_rfl, ?_⟩
        dsimp only
        ring
    · have hpos : 0 < t.threshold - start := sub_pos.2 hwidth
      rw [min_eq_right hrem.le, if_neg (not_le.2 hpos), if_neg (not_le.2 (sub_pos.2 hrem)),
        if_neg (not_le.2 (by linarith : t.threshold < start + remaining))]
      obtain ⟨hnn, heq⟩ := ih (comm + t.rate * (t.threshold - start) * unit type price)
        (remaining - (t.threshold - start)) t.threshold (sub_nonneg.2 hrem.le)
      refine ⟨hnn, ?_⟩
      rw [heq, show t.threshold + (remaining - (t.threshold - start)) = start + remaining by ring]
      ring

theorem volumeCharge_eq {c : TieredCommission ℚ} (h : c.tierType ≠ .Fixed) (size price : ℚ) :
    c.volumeCharge size price = levied (lastRate c.tiers) c.tiers 0 |size| * unit c.tierType price := by
  obtain ⟨hnn, heq⟩ := loop_levied h price (lastRate c.tiers) c.tiers 0 |size| 0 (abs_nonneg size)
  rw [zero_add, zero_add] at heq
  rw [← heq]
  unfold volumeCharge
  rw [Arith.abs_rat]
  generalize loop c.tierType price c.tiers 0 |size| 0 = r at hnn ⊢
  obtain ⟨comm, remaining⟩ := r
  unfold lastRate
  cases c.tiers.getLast? with
  | none => simp
  | some back =>
    by_cases hr : 0 < remaining
    · simp only [hr, if_true, Option.map_some, Option.getD_some]
      cases ht : c.tierType with
      | Fixed => exact absurd ht h
      | PerShare => simp only [unit]; ring
      | Percentage => simp only [unit]; ring
    · have h0 : remaining = 0 := le_antisymm (not_lt.1 hr) hnn
      simp [h0]

/-! ### When that is the area under the rates -/

section
variable {last : ℚ} {tiers : List (Tier ℚ)} {start v : ℚ}

theorem levied_self (last : ℚ) (tiers : List (Tier ℚ)) (start : ℚ) : levied last tiers start start = 0 := by
  cases tiers with
  | nil => simp [levied]
  | cons t rest =>
    rw [levied]
    split_ifs with h1 h2
    · simp
    · simp
    · exact absurd (not_le.1 h1).le h2

/-- The area is that of the last rate alone if and only if the tiers of some width have that rate. -/
theorem area_level_iff (hs : Marginal.Ascending Tier.threshold tiers start) :
    (∀ v, start ≤ v → Marginal.area Tier.threshold Tier.rate last tiers start v = last * (v - start)) ↔
      ∀ p ∈ widths tiers start, 0 < p.2 → p.1.rate = last := by
  induction tiers generalizing start with
  | nil => simp [widths, Marginal.area]
  | cons t rest ih =>
    obtain ⟨h1, h2⟩ := hs
    rw [widths, List.forall_mem_cons, ← ih h2]
    constructor
    · intro h
      have hrate : 0 < t.threshold - start → t.rate = last := by
        intro hw
        have := h t.threshold h1
        rw [Marginal.area_of_le le_rfl] at this
        exact mul_right_cancel₀ (ne_of_gt hw) this
      refine ⟨hrate, fun v hv => ?_⟩
      have := h v (h1.trans hv)
      rw [Marginal.area_cons_of_ge h2 hv] at this
      rcases h1.lt_or_eq with hlt | heq
      · rw [hrate (sub_pos.2 hlt)] at this
        linarith
      · rw [heq, sub_self, mul_zero, zero_add] at this
        exact this
    · rintro ⟨hrate, hrest⟩ v hv
      rcases h1.lt_or_eq with hlt | heq
      · rcases le_total v t.threshold with hvt | hvt
        · rw [Marginal.area_of_le hvt, hrate (sub_pos.2 hlt)]
        · rw [Marginal.area_cons_of_ge h2 hvt, hrest v hvt, hrate (sub_pos.2 hlt)]
          ring
      · rw [Marginal.area_cons_of_ge h2 (heq ▸ hv), hrest v (heq ▸ hv), heq]
        ring

theorem levied_eq_area_iff (hs : Marginal.Ascending Tier.threshold tiers start) :
    (∀ v, start ≤ v → levied last tiers start v = Marginal.area Tier.threshold Tier.rate last tiers start v) ↔
      ∀ p ∈ (widths tiers start).dropWhile (fun p => 0 < p.2), 0 < p.2 → p.1.rate = last := by
  induction tiers generalizing start with
  | nil => simp [widths, levied, Marginal.area]
  | cons t rest ih =>
    rcases le_or_gt t.threshold start with hgap | hwidth
    · have hdrop : (widths (t :: rest) start).dropWhile (fun p => decide (0 < p.2)) = widths (t :: rest) start := by
        rw [widths, List.dropWhile_cons_of_neg (by simpa using hgap)]
      rw [hdrop, ← area_level_iff hs]
      simp only [levied, if_pos hgap, eq_comm]
    · obtain ⟨h1, h2⟩ := hs
      have hdrop : (widths (t :: rest) start).dropWhile (fun p => decide (0 < p.2)) =
          (widths rest t.threshold).dropWhile (fun p => decide (0 < p.2)) := by
        rw [widths, List.dropWhile_cons_of_pos (by simpa using hwidth)]
      rw [hdrop, ← ih h2]
      have hlev : ∀ v, t.threshold ≤ v → levied last (t :: rest) start v =
          t.rate * (t.threshold - start) + levied last rest t.threshold v := by
        intro v hv
        rw [levied, if_neg (not_le.2 hwidth)]
        rcases hv.lt_or_eq with hlt | rfl
        · rw [if_neg (not_le.2 hlt)]
        · rw [if_pos le_rfl, levied_self, add_zero]
      constructor
      · intro h v hv
        have := h v (h1.trans hv)
        rw [hlev v hv, Marginal.area_cons_of_ge h2 hv] at this
        exact add_left_cancel this
      · intro h v hv
        rcases le_total v t.threshold with hvt | hvt
        · rw [levied, if_neg (not_le.2 hwidth), if_pos hvt, Marginal.area_of_le hvt]
        · rw [hlev v hvt, Marginal.area_cons_of_ge h2 hvt, h v hvt]

theorem cast_area (last : ℚ) (tiers : List (Tier ℚ)) (start v : ℚ) :
    ((Marginal.area Tier.threshold Tier.rate last tiers start v : ℚ) : ℝ) =
      Marginal.area (fun t : Tier ℚ => (t.threshold : ℝ)) (fun t => (t.rate : ℝ)) last tiers start v := by
  induction tiers generalizing start with
  | nil => simp [Marginal.area]
  | cons t rest ih =>
    simp only [Marginal.area, Rat.cast_le]
    split_ifs with hv
    · push_cast; rfl
    · rw [← ih]; push_cast; rfl

theorem cast_ascending (hs : Marginal.Ascending Tier.threshold tiers start) :
    Marginal.Ascending (fun t : Tier ℚ => (t.threshold : ℝ)) tiers (start : ℝ) := by
  induction tiers generalizing start with
  | nil => trivial
  | cons t rest ih => exact ⟨Rat.cast_le.2 hs.1, ih hs.2⟩

/-- The integral of the marginal rates, in rational terms. -/
theorem integral_marginalRate (hs : Marginal.Ascending Tier.threshold tiers 0) (hv : 0 ≤ v) :
    ∫ x in (0 : ℝ)..(v : ℝ), marginalRate tiers x =
      ((Marginal.area Tier.threshold Tier.rate (lastRate tiers) tiers 0 v : ℚ) : ℝ) := by
  have hcast := cast_ascending hs
  rw [Rat.cast_zero] at hcast
  rw [cast_area, Rat.cast_zero]
  exact (Marginal.integral_rateAt hcast (Rat.cast_nonneg.2 hv)).2

end

/-- On a sorted list the commission is the integral of the marginal rates for every volume if and
only if the tiers after the first one of no width all have the last rate. -/
theorem integrates_iff {c : TieredCommission ℚ} (htype : c.tierType ≠ .Fixed)
    (hs : Marginal.Ascending Tier.threshold c.tiers 0) : Integrates c ↔ LevelAfterGap c.tiers := by
  have hint : ∀ size : ℚ, ∫ x in (0 : ℝ)..|(size : ℝ)|, marginalRate c.tiers x =
      ((Marginal.area Tier.threshold Tier.rate (lastRate c.tiers) c.tiers 0 |size| : ℚ) : ℝ) := by
    intro size
    rw [← Rat.cast_abs]
    exact integral_marginalRate hs (abs_nonneg size)
  rw [LevelAfterGap, ← levied_eq_area_iff hs]
  constructor
  · intro h v hv
    have heq := h.integral v 1 zero_le_one
    have hunit : unit c.tierType 1 = 1 := by cases c.tierType <;> rfl
    rw [volumeCharge_eq htype, hint, hunit, mul_one, Rat.cast_one, mul_one, abs_of_nonneg hv] at heq
    exact Rat.cast_injective heq
  · intro h
    have hcharge : ∀ size price : ℚ, c.volumeCharge size price =
        Marginal.area Tier.threshold Tier.rate (lastRate c.tiers) c.tiers 0 |size| * unit c.tierType price := by
      intro size price
      rw [volumeCharge_eq htype, h _ (abs_nonneg size)]
    refine ⟨fun size price _ => ?_, fun size price => Arith.max_rat _ _, fun hrate size size' price hp hle => ?_⟩
    · rw [hcharge, hint, Rat.cast_mul]
    · have hlast : 0 ≤ lastRate c.tiers := by
        unfold lastRate
        cases hl : c.tiers.getLast? with
        | none => simp
        | some back => exact hrate back (List.mem_of_getLast? hl)
      have hunit : 0 ≤ unit c.tierType price := by
        cases c.tierType with
        | Percentage => exact hp
        | Fixed => exact zero_le_one
        | PerShare => exact zero_le_one
      rw [hcharge, hcharge]
      exact mul_le_mul_of_nonneg_right (Marginal.area_mono hs hrate hlast (abs_nonneg size) hle) hunit

/-- Rates that fall at 500 and at 1000 shares. -/
def falling : TieredCommission ℚ := ⟨[⟨500, 1 / 100⟩, ⟨1000, 8 / 1000⟩, ⟨5000, 5 / 1000⟩], .PerShare, 1⟩

theorem integrates_falling : Integrates falling :=
  (@integrates_iff falling (by decide) ⟨by decide +kernel, by decide +kernel, by decide +kernel, trivial⟩).2
    (by decide +kernel)

/-- The same schedule with a first tier of no width. -/
def opened : TieredCommission ℚ :=
  ⟨[⟨0, 1 / 100⟩, ⟨500, 1 / 100⟩, ⟨1000, 8 / 1000⟩, ⟨5000, 5 / 1000⟩], .PerShare, 1⟩

/-- Its 800 shares are all charged at the last rate: 4 instead of 7.4. -/
theorem not_integrates_opened : opened.volumeCharge 800 50 = 4 ∧ ¬ Integrates opened := by
  have hs : Marginal.Ascending Tier.threshold opened.tiers 0 :=
    ⟨by decide +kernel, by decide +kernel, by decide +kernel, by decide +kernel, trivial⟩
  have hv : opened.volumeCharge 800 50 = 4 := by decide +kernel
  have harea : Marginal.area Tier.threshold Tier.rate (lastRate opened.tiers) opened.tiers 0 800 = 37 / 5 := by
    decide +kernel
  refine ⟨hv, fun h => ?_⟩
  have heq := h.integral 800 50 (by norm_num)
  rw [← Rat.cast_abs, abs_of_pos (by norm_num), integral_marginalRate hs (by norm_num), harea, hv] at heq
  norm_num [unit, opened] at heq

end TieredCommission

end StratForge
