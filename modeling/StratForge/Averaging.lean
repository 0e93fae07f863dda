import StratForge.Account
import Mathlib.Algebra.Order.Field.Basic
import Mathlib.Algebra.BigOperators.Group.List.Basic
import Mathlib.Algebra.BigOperators.Ring.List
import Mathlib.Data.Rat.Lemmas
import Mathlib.Tactic.FieldSimp
import Mathlib.Tactic.NormNum
import Mathlib.Tactic.Positivity

/-!
# Average cost (`broker/position.hpp`)

`AverageCost` keeps for a history of fills the opening parts that are still held. A fill that only
closes takes the same share of each of them, so the average price of what is held does not move;
going flat or to the other side starts anew. `Position::update` computes that average from the old
one and the old size alone (`Position.Averages.update`).
-/

namespace AverageCost
variable {K : Type*} [Field K]

structure Fill (K : Type*) where
  size : K
  price : K
deriving DecidableEq, Repr

def total (fills : List (Fill K)) : K := (fills.map Fill.size).sum

def worth (fills : List (Fill K)) : K := (fills.map fun f => f.size * f.price).sum

/-- Average price, weighted by size. -/
def average (fills : List (Fill K)) : K := worth fills / total fills

/-- What stays of a part when every closing fill takes the same share of all. -/
def scale (share : K) (lot : Fill K) : Fill K := ⟨lot.size * share, lot.price⟩

@[simp] theorem total_nil : total ([] : List (Fill K)) = 0 := rfl
@[simp] theorem worth_nil : worth ([] : List (Fill K)) = 0 := rfl

@[simp] theorem total_concat (fills : List (Fill K)) (f : Fill K) :
    total (fills ++ [f]) = total fills + f.size := by
  simp [total]

@[simp] theorem worth_concat (fills : List (Fill K)) (f : Fill K) :
    worth (fills ++ [f]) = worth fills + f.size * f.price := by
  simp [worth]

theorem total_scale (share : K) (fills : List (Fill K)) :
    total (fills.map (scale share)) = total fills * share := by
  induction fills with
  | nil => simp
  | cons f fills ih =>
    simp only [total, scale, List.map_cons, List.sum_cons] at ih ⊢
    rw [ih]; ring

theorem worth_scale (share : K) (fills : List (Fill K)) :
    worth (fills.map (scale share)) = worth fills * share := by
  induction fills with
  | nil => simp
  | cons f fills ih =>
    simp only [worth, scale, List.map_cons, List.sum_cons] at ih ⊢
    rw [ih]; ring

variable [LinearOrder K]

/-- The part of a fill that moves the holding `old` away from zero. -/
def opened (old fill : K) : K :=
  if 0 ≤ old * fill then fill else if old * (old + fill) < 0 then old + fill else 0

/-- One more fill, on opening parts `lots` of the holding `old`; `left` is what stays of a part when
only the given share of the holding does. -/
def book (left : K → Fill K → Fill K) (old : K) (lots : List (Fill K)) (f : Fill K) : List (Fill K) :=
  if old + f.size = 0 then []
  else if old * (old + f.size) ≤ 0 then [⟨old + f.size, f.price⟩]
  else if 0 ≤ old * f.size then lots ++ [f]
  else lots.map (left ((old + f.size) / old))

def step (left : K → Fill K → Fill K) (s : K × List (Fill K)) (f : Fill K) : K × List (Fill K) :=
  (s.1 + f.size, book left s.1 s.2 f)

/-- The opening parts since the holding was last flat or on the other side, as far as they are held. -/
def lots (fills : List (Fill K)) : List (Fill K) := (fills.foldl (step scale) (0, [])).2

/-- The same parts at their full size. -/
def openings (fills : List (Fill K)) : List (Fill K) := (fills.foldl (step fun _ lot => lot) (0, [])).2

theorem foldl_step_fst (left : K → Fill K → Fill K) (fills : List (Fill K)) (s : K × List (Fill K)) :
    (fills.foldl (step left) s).1 = s.1 + total fills := by
  induction fills generalizing s with
  | nil => simp
  | cons f fills ih =>
    rw [List.foldl_cons, ih]
    simp only [step, total, List.map_cons, List.sum_cons]
    ring

theorem lots_concat (fills : List (Fill K)) (f : Fill K) :
    lots (fills ++ [f]) = book scale (total fills) (lots fills) f := by
  unfold lots
  rw [List.foldl_concat, step, foldl_step_fst, zero_add]

theorem opened_zero {fill : K} : opened 0 fill = fill := by simp [opened]

section
variable [IsStrictOrderedRing K] {old : K}

theorem opened_of_pos (h : 0 < old) (fill : K) :
    opened old fill = if 0 ≤ fill then fill else if old + fill < 0 then old + fill else 0 := by
  simp only [opened, mul_nonneg_iff_of_pos_left h, mul_neg_iff, h, h.le.not_gt, true_and, false_and,
    or_false]

theorem opened_of_neg (h : old < 0) (fill : K) :
    opened old fill = if fill ≤ 0 then fill else if 0 < old + fill then old + fill else 0 := by
  have h1 : 0 ≤ old * fill ↔ fill ≤ 0 := by
    rw [← neg_mul_neg, mul_nonneg_iff_of_pos_left (neg_pos.2 h), neg_nonneg]
  simp only [opened, h1, mul_neg_iff, h, h.le.not_gt, true_and, false_and, false_or]

/-- A fill closes no more than there was. -/
theorem abs_closed_le (old fill : K) : |fill - opened old fill| ≤ |old| := by
  rcases lt_trichotomy old 0 with h | rfl | h
  · rw [opened_of_neg h, abs_of_neg h, abs_le]
    split_ifs <;> constructor <;> linarith
  · simp [opened_zero]
  · rw [opened_of_pos h, abs_of_pos h, abs_le]
    split_ifs <;> constructor <;> linarith

end

/-- The parts held are the whole holding. -/
theorem total_book {old : K} {ls : List (Fill K)} (h : total ls = old) (f : Fill K) :
    total (book scale old ls f) = old + f.size := by
  unfold book
  split_ifs with h0 hflip hadd
  · rw [h0]; rfl
  · simp [total]
  · rw [total_concat, h]
  · have hold : old ≠ 0 := fun h0' => hflip (by simp [h0'])
    rw [total_scale, h]
    field_simp

theorem total_lots (fills : List (Fill K)) : total (lots fills) = total fills := by
  induction fills using List.reverseRecOn with
  | nil => rfl
  | append_singleton fills f ih => rw [lots_concat, total_book ih, total_concat]

/-- A fill that opens nothing leaves the average alone. -/
theorem average_closes [IsStrictOrderedRing K] {old : K} (ls : List (Fill K)) {f : Fill K}
    (hnew : old + f.size ≠ 0) (h : opened old f.size = 0) : average (book scale old ls f) = average ls := by
  have hold : old ≠ 0 := fun h0 => hnew (by rw [h0, opened_zero] at h; rw [h0, h, add_zero])
  unfold opened at h
  by_cases hadd : 0 ≤ old * f.size
  · rw [if_pos hadd] at h
    have hside : ¬ old * (old + f.size) ≤ 0 := by
      rw [h, add_zero]; exact not_le.2 (mul_self_pos.2 hold)
    rw [book, if_neg hnew, if_neg hside, if_pos hadd, average, total_concat, worth_concat, h, zero_mul,
      add_zero, add_zero]
    rfl
  · rw [if_neg hadd] at h
    have hge : ¬ old * (old + f.size) < 0 := fun hlt => hnew (by rwa [if_pos hlt] at h)
    have hside : ¬ old * (old + f.size) ≤ 0 :=
      fun hle => (mul_ne_zero hold hnew) (le_antisymm hle (not_lt.1 hge))
    rw [book, if_neg hnew, if_neg hside, if_neg hadd, average, worth_scale, total_scale]
    exact mul_div_mul_right _ _ (div_ne_zero hnew hold)

/-- Fills that go on in one direction keep their full size. -/
theorem lots_of_adds [IsStrictOrderedRing K] (before : List (Fill K)) (f : Fill K) (rest : List (Fill K))
    (hf : total before * (total before + f.size) ≤ 0) (h0 : total before + f.size ≠ 0)
    (hrest : ∀ g ∈ rest, 0 < (total before + f.size) * g.size) :
    lots (before ++ f :: rest) = ⟨total before + f.size, f.price⟩ :: rest ∧
      0 < (total before + f.size) * total (before ++ f :: rest) := by
  induction rest using List.reverseRecOn with
  | nil =>
    rw [lots_concat, book, if_neg h0, if_pos hf, total_concat]
    exact ⟨rfl, mul_self_pos.2 h0⟩
  | append_singleton rest g ih =>
    obtain ⟨hl, hpos⟩ := ih fun g hg => hrest g (List.mem_append_left _ hg)
    have hg := hrest g (by simp)
    rw [← List.cons_append, ← List.append_assoc, lots_concat, total_concat, hl]
    generalize total (before ++ f :: rest) = old at hpos ⊢
    generalize total before + f.size = first at hpos hg ⊢
    -- the holding, the first part and the fill are on one side
    have hadd : 0 < old * g.size := by
      have := mul_pos hpos hg
      have hsq : 0 < first * first * (old * g.size) := by
        calc (0 : K) < first * old * (first * g.size) := this
          _ = first * first * (old * g.size) := by ring
      exact pos_of_mul_pos_right hsq (mul_self_nonneg first)
    have hnew : 0 < first * (old + g.size) := by
      rw [mul_add]; exact add_pos hpos hg
    have hsame : 0 < old * (old + g.size) := by
      rw [mul_add]; exact add_pos_of_nonneg_of_pos (mul_self_nonneg old) hadd
    refine ⟨?_, hnew⟩
    have hne : old + g.size ≠ 0 := fun h => by simp [h] at hnew
    rw [book, if_neg hne, if_neg (not_le.2 hsame), if_pos hadd.le]
    rfl

end AverageCost

namespace StratForge
open AverageCost (Fill)

/-- Up to the code's `eps`, the multiples of a lot are told from zero. -/
theorem abs_lt_eps_iff {lot x : ℚ} (hlot : 1e-9 ≤ lot) (hx : ∃ k : ℤ, x = k * lot) :
    |x| < 1e-10 ↔ x = 0 := by
  obtain ⟨k, rfl⟩ := hx
  constructor
  · intro h
    by_contra hne
    have hk : k ≠ 0 := fun h0 => hne (by simp [h0])
    have h1 : (1 : ℚ) ≤ |(k : ℚ)| := by exact_mod_cast Int.one_le_abs hk
    have hpos : (0 : ℚ) < lot := lt_of_lt_of_le (by norm_num) hlot
    rw [abs_mul, abs_of_pos hpos] at h
    have h2 : lot ≤ |(k : ℚ)| * lot := le_mul_of_one_le_left hpos.le h1
    have h3 : (1e-9 : ℚ) < 1e-10 := lt_of_le_of_lt (hlot.trans h2) h
    norm_num at h3
  · intro h
    rw [h, abs_zero]
    norm_num

namespace Position

/-- The position is the holding `old` at the average cost of `lots`. -/
structure Averages (p : Position ℚ) (old : ℚ) (lots : List (Fill ℚ)) : Prop where
  size : p.size = old
  price : p.price = p.avgPrice
  cost : p.avgPrice * old = AverageCost.worth lots

theorem upopened_eq {old fill : ℚ} (h : |old| < 1e-10 ↔ old = 0) :
    upopenedUpclosed old fill (old + fill) =
      (AverageCost.opened old fill, fill - AverageCost.opened old fill) := by
  rw [upopenedUpclosed, Arith.abs_rat]
  by_cases h0 : old = 0
  · rw [if_pos (h.2 h0), h0, AverageCost.opened_zero, sub_self]
  rw [if_neg (mt h.1 h0)]
  rcases lt_or_gt_of_ne h0 with hneg | hpos
  · rw [if_neg hneg.not_gt, AverageCost.opened_of_neg hneg]
    split_ifs <;> refine Prod.ext ?_ ?_ <;> dsimp only <;> linarith
  · rw [if_pos hpos, AverageCost.opened_of_pos hpos]
    split_ifs <;> refine Prod.ext ?_ ?_ <;> dsimp only <;> linarith

theorem parts_update (p : Position ℚ) (s q : ℚ) :
    ((p.update s q).upopened, (p.update s q).upclosed) = upopenedUpclosed p.size s (p.size + s) := by
  unfold update
  dsimp only
  split_ifs <;> rfl

theorem upopened_update {p : Position ℚ} {old : ℚ} (hsize : p.size = old) (h : |old| < 1e-10 ↔ old = 0)
    (f : Fill ℚ) : (p.update f.size f.price).upopened = AverageCost.opened old f.size ∧
      (p.update f.size f.price).upclosed = f.size - AverageCost.opened old f.size := by
  have hparts := parts_update p f.size f.price
  rw [hsize, upopened_eq h] at hparts
  exact Prod.mk.inj hparts

/-- `update` is `book` on the average cost. -/
theorem Averages.update {p : Position ℚ} {old : ℚ} {lots : List (Fill ℚ)} (h : p.Averages old lots)
    (f : Fill ℚ) (ho : |old| < 1e-10 ↔ old = 0) (hn : |old + f.size| < 1e-10 ↔ old + f.size = 0) :
    (p.update f.size f.price).Averages (old + f.size) (AverageCost.book AverageCost.scale old lots f) := by
  obtain ⟨rfl, hprice, hcost⟩ := h
  unfold Position.update
  dsimp only
  simp only [Arith.abs_rat, ho, hn]
  by_cases hnew : p.size + f.size = 0
  · rw [if_pos hnew, AverageCost.book, if_pos hnew]
    exact ⟨hnew.symm, rfl, by simp⟩
  rw [if_neg hnew, AverageCost.book, if_neg hnew]
  by_cases hold : p.size = 0
  · rw [if_pos hold, if_pos (by simp [hold])]
    exact ⟨rfl, rfl, by simp [AverageCost.worth, mul_comm]⟩
  rw [if_neg hold]
  generalize hs : p.size = old at *
  by_cases hadd : (0 < old ∧ 0 < f.size) ∨ (old < 0 ∧ f.size < 0)
  · have hprod : 0 < old * f.size := mul_pos_iff.2 hadd
    have hside : 0 < old * (old + f.size) := by
      rw [mul_add]; exact add_pos_of_nonneg_of_pos (mul_self_nonneg old) hprod
    rw [if_pos hadd, if_neg (not_le.2 hside), if_pos hprod.le]
    refine ⟨rfl, rfl, ?_⟩
    rw [AverageCost.worth_concat, ← hcost, hprice]
    field_simp
  rw [if_neg hadd]
  by_cases hflip : (0 < old ∧ old + f.size < 0) ∨ (old < 0 ∧ 0 < old + f.size)
  · rw [if_pos hflip, if_pos (mul_neg_iff.2 hflip).le]
    exact ⟨rfl, rfl, by simp [AverageCost.worth, mul_comm]⟩
  -- a fill that only closes
  have hside : 0 < old * (old + f.size) :=
    lt_of_le_of_ne (not_lt.1 (mt mul_neg_iff.1 hflip)) (mul_ne_zero hold hnew).symm
  rw [if_neg hflip, if_neg (not_le.2 hside)]
  by_cases hzero : 0 ≤ old * f.size
  · have hf : f.size = 0 := by
      have := le_antisymm (not_lt.1 (mt mul_pos_iff.1 hadd)) hzero
      exact (mul_eq_zero.1 this).resolve_left hold
    rw [if_pos hzero]
    exact ⟨rfl, hprice, by simp [hf, hcost]⟩
  · rw [if_neg hzero]
    refine ⟨rfl, hprice, ?_⟩
    rw [AverageCost.worth_scale, ← hcost]
    field_simp

/-- The flat position after the fills. -/
def after (im : Option (Instrument ℚ)) (k : Nat) (fills : List (Fill ℚ)) : Position ℚ :=
  fills.foldl (fun p f => p.update f.size f.price) (flat im k)

/-- What a position says about the fills it has seen. -/
structure Accounts (fills : List (Fill ℚ)) (p : Position ℚ) : Prop where
  size : p.size = AverageCost.total fills
  /-- The last fill splits into the part that opened and the part that closed. -/
  parts : ∀ done f, fills = done ++ [f] →
    p.upopened = AverageCost.opened (AverageCost.total done) f.size ∧
      p.upopened + p.upclosed = f.size ∧ |p.upclosed| ≤ |AverageCost.total done|
  /-- The parts held make up the position, and it shows their average price. -/
  held : AverageCost.total (AverageCost.lots fills) = AverageCost.total fills
  average : AverageCost.total fills ≠ 0 → p.avgPrice = AverageCost.average (AverageCost.lots fills)
  closes : ∀ done f, fills = done ++ [f] → AverageCost.total fills ≠ 0 →
    AverageCost.opened (AverageCost.total done) f.size = 0 →
    p.avgPrice = AverageCost.average (AverageCost.lots done)
  /-- Fills in one direction are all held in full. -/
  adds : ∀ before f rest, fills = before ++ f :: rest →
    AverageCost.total before * (AverageCost.total before + f.size) ≤ 0 →
    AverageCost.total before + f.size ≠ 0 →
    (∀ g ∈ rest, 0 < (AverageCost.total before + f.size) * g.size) →
    p.avgPrice = AverageCost.average (⟨AverageCost.total before + f.size, f.price⟩ :: rest)

variable {lot : ℚ}

theorem total_multiple {fills : List (Fill ℚ)} (h : ∀ f ∈ fills, ∃ k : ℤ, f.size = k * lot) :
    ∃ k : ℤ, AverageCost.total fills = k * lot := by
  induction fills using List.reverseRecOn with
  | nil => exact ⟨0, by simp⟩
  | append_singleton fills f ih =>
    obtain ⟨k, hk⟩ := ih fun g hg => h g (List.mem_append_left _ hg)
    obtain ⟨n, hn⟩ := h f (by simp)
    exact ⟨k + n, by rw [AverageCost.total_concat, hk, hn]; push_cast; ring⟩

theorem averages_after (im : Option (Instrument ℚ)) (k : Nat) (hlot : 1e-9 ≤ lot)
    (fills : List (Fill ℚ)) (h : ∀ f ∈ fills, ∃ k : ℤ, f.size = k * lot) :
    (after im k fills).Averages (AverageCost.total fills) (AverageCost.lots fills) := by
  induction fills using List.reverseRecOn with
  | nil => exact ⟨rfl, rfl, by simp [AverageCost.lots]⟩
  | append_singleton fills f ih =>
    have hdone : ∀ g ∈ fills, ∃ k : ℤ, g.size = k * lot := fun g hg => h g (List.mem_append_left _ hg)
    have ho := abs_lt_eps_iff hlot (total_multiple hdone)
    have hn := abs_lt_eps_iff hlot (total_multiple h)
    rw [AverageCost.total_concat] at hn ⊢
    rw [AverageCost.lots_concat, after, List.foldl_concat]
    exact (ih hdone).update f ho hn

/-- A position is the sum of its fills at their average cost: every fill splits into what it opens
and what it closes, and what it closes leaves the average price alone. -/
theorem accounts_after (im : Option (Instrument ℚ)) (k : Nat) (hlot : 1e-9 ≤ lot)
    (fills : List (Fill ℚ)) (h : ∀ f ∈ fills, ∃ k : ℤ, f.size = k * lot) :
    Accounts fills (after im k fills) := by
  have hav := averages_after im k hlot fills h
  have haverage : AverageCost.total fills ≠ 0 →
      (after im k fills).avgPrice = AverageCost.average (AverageCost.lots fills) := by
    intro h0
    rw [AverageCost.average, AverageCost.total_lots, ← hav.cost, mul_div_assoc, div_self h0, mul_one]
  refine ⟨hav.size, ?_, AverageCost.total_lots fills, haverage, ?_, ?_⟩
  · rintro done f rfl
    have hdone : ∀ g ∈ done, ∃ k : ℤ, g.size = k * lot := fun g hg => h g (List.mem_append_left _ hg)
    have hsize := (averages_after im k hlot done hdone).size
    obtain ⟨hup, hdown⟩ := upopened_update hsize (abs_lt_eps_iff hlot (total_multiple hdone)) f
    have hlast : after im k (done ++ [f]) = (after im k done).update f.size f.price :=
      List.foldl_concat ..
    rw [hlast, hup, hdown]
    exact ⟨rfl, by ring, AverageCost.abs_closed_le _ _⟩
  · rintro done f rfl h0 hclose
    rw [haverage h0, AverageCost.lots_concat]
    rw [AverageCost.total_concat] at h0
    exact AverageCost.average_closes _ h0 hclose
  · rintro before f rest rfl hf h0 hrest
    obtain ⟨hlots, hpos⟩ := AverageCost.lots_of_adds before f rest hf h0 hrest
    rw [← hlots]
    exact haverage fun hzero => by simp [hzero] at hpos

/-- Ten bought, five sold, five bought. -/
def reload : List (Fill ℚ) := [⟨10, 100⟩, ⟨-5, 100⟩, ⟨5, 200⟩]

theorem reload_multiples : ∀ f ∈ reload, ∃ k : ℤ, f.size = k * 1 := by
  intro f hf
  simp only [reload, List.mem_cons, List.not_mem_nil, or_false] at hf
  rcases hf with rfl | rfl | rfl
  · exact ⟨10, by norm_num⟩
  · exact ⟨-5, by norm_num⟩
  · exact ⟨5, by norm_num⟩

theorem accounts_after_reload : Accounts reload (after none 0 reload) ∧
    (after none 0 reload).avgPrice = 150 :=
  ⟨@accounts_after 1 none 0 (by norm_num) reload reload_multiples, by decide +kernel⟩

/-- The five that were sold weigh no more in the average. -/
theorem average_of_openings_fails :
    ¬ ∀ fills : List (Fill ℚ), (∀ f ∈ fills, ∃ k : ℤ, f.size = k * 1) → AverageCost.total fills ≠ 0 →
      (after none 0 fills).avgPrice = AverageCost.average (AverageCost.openings fills) := by
  intro h
  have := h reload reload_multiples (by decide +kernel)
  exact absurd this (by decide +kernel)

end Position

end StratForge
