import StratForge.Schedule
import Mathlib.Order.Monotone.Basic

/-!
# Whether a run starts

`check_warmup_feasibility` compares a strategy's minimum periods with the bars that are loaded; the main loop compares
them with the bars that are delivered. A bar of a context feed is delivered when its period has closed by the close of
a master bar, so that one which is loaded and never closes in time passes the check, and the strategy is in `prenext`
to the end of the run. A run starts exactly when the bars that have closed with the last master bar are enough
(`starts_iff`).
-/

namespace StratForge

variable {α W : Type}

deriving instance DecidableEq for Lifecycle

/-- `bars_delivered[k] >= minimum_period(k)` for all feeds. -/
def Clock.Satisfied (p : Nat → Nat) (clock : Clock α) : Prop :=
  ∀ k s, clock.slots[k]? = some s → p k ≤ s.barsDelivered

/-- The bars of a feed whose period has closed by the close of the last bar of the master. -/
def closedAtEnd (master feed : DataFeed α) : Nat :=
  match master.datetime.data[master.size - 1]? with
  | none => 0
  | some barOpen =>
    match barClose master.timeframe barOpen with
    | .error _ => 0
    | .ok close => feed.datetime.data.countP (closedBy feed.timeframe close)

namespace Cerebro
variable [Arith α] (c : Cerebro α W)

/-- The method that a strategy is called with on a bar. -/
def method (clock : Clock α) (st : BackBroker α W × List Bool) (si : Nat) : Lifecycle :=
  if st.2[si]?.getD false then .next else if c.ready clock st.1.world si then .nextstart else .prenext

/-- The broker and the flags as strategy `si` finds them on a bar, after the gate. -/
def atTurn (e : CerebroState α W) (si : Nat) : BackBroker α W × List Bool :=
  (List.range si).foldl (c.turn e.clock) (e.broker.processOrders (c.hooks e.clock) e.clock.feeds, e.entered)

/-- What strategy `si` receives on bar `n`. -/
def received (feeds : DataFeed α × List (DataFeed α)) (b : BackBroker α W) (n si : Nat) : Except Error Lifecycle := do
  let e ← c.gated feeds b n
  return c.method e.clock (c.atTurn e si) si

/-- The broker after `init` and `start` of the strategies. -/
def initialised (feeds : DataFeed α × List (DataFeed α)) (b : BackBroker α W) : BackBroker α W :=
  let clock := Clock.start feeds
  (List.range c.strategies).foldl (fun b si => c.phase .start clock (c.phase .init clock b si) si) b

/-- The minimum periods of strategy `si` are `p` from the end of `init`. -/
structure Fixed (feeds : DataFeed α × List (DataFeed α)) (b : BackBroker α W) (si : Nat) (p : Nat → Nat) : Prop where
  checked : ∀ k, c.minimumPeriod (c.initialised feeds b).world si k = p k
  turns : ∀ n e k, n < feeds.1.size → c.gated feeds b n = .ok e → c.minimumPeriod (c.atTurn e si).1.world si k = p k

/-- Bar `m` is the first one that every feed is ready on: the strategy is called with `prenext` before it, with
`nextstart` on it, and with `next` after it. -/
structure StartsOn (feeds : DataFeed α × List (DataFeed α)) (b : BackBroker α W) (si : Nat) (p : Nat → Nat) (m : Nat) :
    Prop where
  lt : m < feeds.1.size
  ready : ∃ e, c.gated feeds b m = .ok e ∧ e.clock.Satisfied p
  first : ∀ n < m, ∀ e, c.gated feeds b n = .ok e → ¬ e.clock.Satisfied p
  calls : ∀ n < feeds.1.size,
    c.received feeds b n si = .ok (if n < m then .prenext else if n = m then .nextstart else .next)

variable {c} {feeds : DataFeed α × List (DataFeed α)} {b : BackBroker α W} {e : CerebroState α W} {n m si : Nat} {p : Nat → Nat}

/-! ### One bar -/

theorem turn_flags (clock : Clock α) (st : BackBroker α W × List Bool) (si : Nat) :
    (c.turn clock st si).2 = if c.method clock st si = .nextstart then st.2.set si true else st.2 := by
  unfold turn method
  split_ifs <;> first | rfl | simp_all

/-- A strategy's turn leaves the flags of the others. -/
theorem turn_flag_other (clock : Clock α) (st : BackBroker α W × List Bool) {i j : Nat} (h : i ≠ j) :
    (c.turn clock st i).2[j]? = st.2[j]? := by
  rw [turn_flags]
  split
  · exact List.getElem?_set_ne h
  · rfl

theorem atTurn_succ (e : CerebroState α W) (i : Nat) : c.atTurn e (i + 1) = c.turn e.clock (c.atTurn e i) i := by
  unfold atTurn
  rw [List.range_succ, List.foldl_append]
  rfl

theorem atTurn_flag (e : CerebroState α W) (si : Nat) : ∀ i ≤ si, (c.atTurn e i).2[si]? = e.entered[si]?
  | 0, _ => rfl
  | i + 1, hi => by
    rw [atTurn_succ, turn_flag_other _ _ (by omega)]
    exact atTurn_flag e si i (by omega)

/-- The flag of a strategy after a bar. -/
theorem entered_trade {entered : Bool} (hsi : si < c.strategies) (hflag : e.entered[si]? = some entered) :
    (c.trade n e).entered[si]? = some (entered || decide (c.method e.clock (c.atTurn e si) si = .nextstart)) := by
  have hturn : (c.atTurn e (si + 1)).2[si]? =
      some (entered || decide (c.method e.clock (c.atTurn e si) si = .nextstart)) := by
    have hat := (atTurn_flag (c := c) e si si le_rfl).trans hflag
    rw [atTurn_succ, turn_flags]
    split_ifs with h
    · simp [h, List.getElem?_set_self (List.getElem?_eq_some_iff.1 hat).1]
    · simp [h, hat]
  have hrest : ∀ i, si + 1 ≤ i → (c.atTurn e i).2[si]? = (c.atTurn e (si + 1)).2[si]? := by
    intro i hi
    induction i, hi using Nat.le_induction with
    | base => rfl
    | succ i hi ih => rw [atTurn_succ, turn_flag_other _ _ (by omega), ih]
  exact (hrest c.strategies hsi).trans hturn

omit [Arith α] in
/-- With fixed periods, the method depends on the flag and the clock. -/
theorem method_eq (clock : Clock α) {st : BackBroker α W × List Bool} {entered : Bool} (hflag : st.2[si]? = some entered)
    (hp : ∀ k, c.minimumPeriod st.1.world si k = p k) [Decidable (clock.Satisfied p)] :
    c.method clock st si = if entered then .next else if clock.Satisfied p then .nextstart else .prenext := by
  have hready : c.ready clock st.1.world si = true ↔ clock.Satisfied p := by
    unfold ready Clock.Satisfied
    rw [List.all_eq_true]
    constructor
    · intro h k s hs
      have hk := h k (List.mem_range.2 (List.getElem?_eq_some_iff.1 hs).1)
      rw [hs] at hk
      rw [← hp k]
      exact of_decide_eq_true hk
    · intro h k _
      cases hs : clock.slots[k]? with
      | none => rfl
      | some s => exact decide_eq_true (hp k ▸ h k s hs)
  unfold method
  rw [hflag]
  simp only [Option.getD_some, hready]

/-! ### The bars of a run -/

theorem upTo_of_le (h : c.upTo feeds b n = .ok e) (hm : m ≤ n) : ∃ e', c.upTo feeds b m = .ok e' := by
  induction n, hm using Nat.le_induction generalizing e with
  | base => exact ⟨e, h⟩
  | succ n _ ih =>
    obtain ⟨e₀, h₀, -⟩ := bind_eq_ok.1 h
    exact ih h₀

theorem gated_of_lt (h : c.upTo feeds b n = .ok e) (hm : m < n) : ∃ e', c.gated feeds b m = .ok e' := by
  obtain ⟨e₁, h₁⟩ := upTo_of_le h (Nat.succ_le_of_lt hm)
  obtain ⟨e', h', -⟩ := c.upTo_succ h₁
  exact ⟨e', h'⟩

/-- Whether every feed is ready is settled by the schedule. -/
theorem satisfied_iff (h : c.gated feeds b n = .ok e) (hn : n < feeds.1.size) : e.clock.Satisfied p ↔
    p 0 ≤ n + 1 ∧ ∀ k f, feeds.2[k]? = some f → p (k + 1) ≤ delivered feeds.1 f (n + 1) := by
  obtain ⟨-, -, hmaster, -⟩ := c.gated_master h hn
  constructor
  · intro hp
    refine ⟨hmaster ▸ hp 0 e.clock.master rfl, fun k f hf => ?_⟩
    obtain ⟨s, hs, -, hd, -⟩ := c.gated_schedule h hn hf
    exact hd ▸ hp (k + 1) s hs
  · rintro ⟨h0, hk⟩ k s hs
    cases k with
    | zero =>
      cases hs
      rw [hmaster]
      exact h0
    | succ k =>
      obtain ⟨e₀, h₀, hgate⟩ := bind_eq_ok.1 h
      have hlen := ((c.along_upTo hn h₀).tick (clock_gate hgate)).context.length_eq
      have hkl : k < feeds.2.length := hlen ▸ (List.getElem?_eq_some_iff.1 (show e.clock.context[k]? = some s from hs)).1
      obtain ⟨s', hs', -, hd, -⟩ := c.gated_schedule h hn (List.getElem?_eq_getElem hkl)
      obtain rfl : s = s' := Option.some.inj ((show e.clock.context[k]? = some s from hs).symm.trans hs')
      rw [hd]
      exact hk k _ (List.getElem?_eq_getElem hkl)

/-- A strategy has entered `next` once there has been a bar on which every feed is ready. -/
theorem entered_upTo (hsi : si < c.strategies) (hfixed : c.Fixed feeds b si p)
    (hready : ∀ n < feeds.1.size, ∀ e, c.gated feeds b n = .ok e → n ≤ m → (e.clock.Satisfied p ↔ n = m)) :
    ∀ {n e}, n ≤ feeds.1.size → c.upTo feeds b n = .ok e → e.entered[si]? = some (decide (m < n)) := by
  intro n
  induction n with
  | zero =>
    intro e _ h
    obtain ⟨-, -, h⟩ := bind_eq_ok.1 h
    obtain ⟨-, -, h⟩ := bind_eq_ok.1 h
    cases h
    exact List.getElem?_replicate_of_lt hsi
  | succ n ih =>
    intro e hn h
    classical
    obtain ⟨e₁, h₁, -, hentered, -⟩ := c.upTo_succ h
    obtain ⟨e₀, h₀, -, heq⟩ := c.gated_broker h₁
    have hflag : e₁.entered[si]? = some (decide (m < n)) := heq ▸ ih (by omega) h₀
    have hmethod := method_eq (c := c) e₁.clock ((atTurn_flag e₁ si si le_rfl).trans hflag) (hfixed.turns n e₁ · (by omega) h₁)
    rw [hentered, entered_trade hsi hflag, hmethod]
    rcases Nat.lt_trichotomy m n with hlt | rfl | hgt
    · simp [hlt, show m < n + 1 by omega]
    · simp [(hready m (by omega) e₁ h₁ le_rfl).2 rfl]
    · have hnot : ¬ e₁.clock.Satisfied p := fun hp => by have := (hready n (by omega) e₁ h₁ hgt.le).1 hp; omega
      simp [hnot, show ¬ m < n by omega, show ¬ m < n + 1 by omega]

/-- What the run has delivered at its end. -/
theorem delivered_end (h : c.upTo feeds b feeds.1.size = .ok e) (hne : feeds.1.size ≠ 0) (hmaster : Ordered feeds.1)
    {k : Nat} {f : DataFeed α} (hf : feeds.2[k]? = some f) (hordered : Ordered f) :
    delivered feeds.1 f feeds.1.size = closedAtEnd feeds.1 f := by
  obtain ⟨t, ht⟩ := Nat.exists_eq_succ_of_ne_zero hne
  obtain ⟨e₁, h₁⟩ := gated_of_lt h (show t < feeds.1.size by omega)
  obtain ⟨-, -, s, barOpen, close, -, -, hs, hopen, hclose, hdata, hle, hvisible, -⟩ :=
    c.gated_advance hmaster hf hordered (by omega) h₁
  obtain ⟨s', hs', -, hd, -⟩ := c.gated_schedule h₁ (by omega) hf
  obtain rfl : s = s' := Option.some.inj (hs.symm.trans hs')
  unfold closedAtEnd
  rw [show feeds.1.size - 1 = t by omega, hopen]
  dsimp only
  rw [hclose]
  dsimp only
  rw [ht, ← hd]
  have hlen : f.datetime.data.length = f.size := by
    rw [DataFeed.size_eq]
    exact List.length_map _
  symm
  refine Fold.countP_initial (hlen ▸ hle) fun i dt hdt => ?_
  rw [closedBy_eq_true]
  exact (hvisible i dt hdt).symm

/-- A run has found that the bars that are loaded are enough. -/
theorem loaded_of_run (h : c.start feeds b = .ok e) (hsi : si < c.strategies)
    (hp : ∀ k, c.minimumPeriod (c.initialised feeds b).world si k = p k) : p 0 ≤ feeds.1.size := by
  obtain ⟨-, -, h⟩ := bind_eq_ok.1 h
  obtain ⟨_, hwarm, -⟩ := bind_eq_ok.1 h
  have hk := Fold.forM_eq_ok.1 (Fold.forM_eq_ok.1 hwarm si (List.mem_range.2 hsi)) 0 (List.mem_range.2 (Nat.succ_pos _))
  rw [show (Clock.start feeds).slots[0]? = some { feed := feeds.1.home } from rfl] at hk
  dsimp only at hk
  split at hk
  · cases hk
  · rename_i henough
    rw [← hp 0]
    exact not_lt.1 henough

/-- A run starts exactly when the bars of each context feed that have closed with the last bar of the master are as many
as the strategy waits for. -/
theorem starts_iff (hrun : c.run feeds b = .ok e) (hmaster : Ordered feeds.1) (hcontext : ∀ f ∈ feeds.2, Ordered f)
    (hsi : si < c.strategies) (hfixed : c.Fixed feeds b si p) :
    (∃ m, c.StartsOn feeds b si p m) ↔
      feeds.1.size ≠ 0 ∧ ∀ k f, feeds.2[k]? = some f → p (k + 1) ≤ closedAtEnd feeds.1 f := by
  classical
  have hup : feeds.1.size ≠ 0 → ∃ e, c.upTo feeds b feeds.1.size = .ok e := fun hne => ⟨e, by rwa [run, if_neg hne] at hrun⟩
  constructor
  · rintro ⟨m, hm⟩
    have hlt := hm.lt
    obtain ⟨e', he'⟩ := hup (by omega)
    obtain ⟨em, hgate, hsat⟩ := hm.ready
    refine ⟨by omega, fun k f hf => ?_⟩
    rw [← delivered_end he' (by omega) hmaster hf (hcontext f (List.mem_of_getElem? hf))]
    exact (((satisfied_iff hgate hlt).1 hsat).2 k f hf).trans
      (monotone_nat_of_le_succ (delivered_le_succ feeds.1 f) hlt)
  · rintro ⟨hne, hp⟩
    obtain ⟨e', he'⟩ := hup hne
    let ready : Nat → Prop := fun n => ∃ e, c.gated feeds b n = .ok e ∧ e.clock.Satisfied p
    obtain ⟨t, ht⟩ := Nat.exists_eq_succ_of_ne_zero hne
    have hlast : ready t := by
      obtain ⟨e₁, h₁⟩ := gated_of_lt he' (show t < feeds.1.size by omega)
      refine ⟨e₁, h₁, (satisfied_iff h₁ (by omega)).2 ⟨?_, fun k f hf => ?_⟩⟩
      · obtain ⟨e₀, h₀⟩ := c.start_of_upTo he'
        have := loaded_of_run h₀ hsi hfixed.checked
        omega
      · rw [← Nat.succ_eq_add_one t, ← ht, delivered_end he' hne hmaster hf (hcontext f (List.mem_of_getElem? hf))]
        exact hp k f hf
    have hex : ∃ n, ready n := ⟨t, hlast⟩
    refine ⟨Nat.find hex, ?_, Nat.find_spec hex, fun n hn e he hsat => Nat.find_min hex hn ⟨e, he, hsat⟩, fun n hn => ?_⟩
    · have := Nat.find_min' hex hlast
      omega
    · obtain ⟨e₁, h₁⟩ := gated_of_lt he' hn
      obtain ⟨e₀, h₀, -, heq⟩ := c.gated_broker h₁
      have hfirst : ∀ n < feeds.1.size, ∀ e, c.gated feeds b n = .ok e → n ≤ Nat.find hex →
          (e.clock.Satisfied p ↔ n = Nat.find hex) := by
        intro n _ e he hle
        refine ⟨fun hsat => le_antisymm hle (Nat.find_min' hex ⟨e, he, hsat⟩), fun heq => ?_⟩
        obtain ⟨e', h', hsat⟩ := Nat.find_spec hex
        rw [← heq, he] at h'
        cases h'
        exact hsat
      have hflag : e₁.entered[si]? = some (decide (Nat.find hex < n)) :=
        heq ▸ entered_upTo hsi hfixed hfirst hn.le h₀
      have hmethod := method_eq (c := c) e₁.clock ((atTurn_flag e₁ si si le_rfl).trans hflag) (hfixed.turns n e₁ · hn h₁)
      refine bind_eq_ok.2 ⟨e₁, h₁, congrArg Except.ok (hmethod.trans ?_)⟩
      rcases Nat.lt_trichotomy n (Nat.find hex) with hlt | heq | hgt
      · have hnot : ¬ e₁.clock.Satisfied p := fun hsat => hlt.ne ((hfirst n hn e₁ h₁ hlt.le).1 hsat)
        simp only [hlt, hnot, if_true, if_false, not_lt.2 hlt.le, decide_false, Bool.false_eq_true]
      · have hsat : e₁.clock.Satisfied p := (hfirst n hn e₁ h₁ heq.le).2 heq
        simp only [heq, hsat, lt_irrefl, if_true, if_false, decide_false, Bool.false_eq_true]
      · simp only [hgt, not_lt.2 hgt.le, hgt.ne', if_true, if_false, decide_true]

/-! ### A strategy that waits for one bar of each feed -/

def waiting : Cerebro ℚ Unit := { silent with minimumPeriod := fun _ _ _ => 1 }

/-- Two hours of a day, and the day. -/
def hours (first : Int) : DataFeed ℚ × List (DataFeed ℚ) :=
  (.timed ⟨.Minutes, 60⟩ [first * 3600 * nsPerSecond, (first + 1) * 3600 * nsPerSecond], [.timed ⟨.Days, 1⟩ [0]])

theorem ran {first : Int} (h : (waiting.run (hours first) (BackBroker.init .USD 1000 none ())).isOk = true) :
    ∃ e, waiting.run (hours first) (BackBroker.init .USD 1000 none ()) = .ok e := by
  cases hrun : waiting.run (hours first) (BackBroker.init .USD 1000 none ()) with
  | error err => rw [hrun] at h; cases h
  | ok e => exact ⟨e, rfl⟩

/-- The day closes with the last hour. -/
theorem starts_with_the_last_hour :
    ∃ m, waiting.StartsOn (hours 22) (BackBroker.init .USD 1000 none ()) 0 (fun _ => 1) m := by
  have hok : (waiting.run (hours 22) (BackBroker.init .USD 1000 none ())).isOk = true := by decide +kernel
  obtain ⟨e, he⟩ := ran hok
  refine (starts_iff he (by unfold Ordered; decide +kernel) (by unfold Ordered; decide +kernel) Nat.one_pos
    ⟨fun _ => rfl, fun _ _ _ _ _ => rfl⟩).2 ⟨by decide +kernel, fun k f hf => ?_⟩
  cases k with
  | zero =>
    cases hf
    decide +kernel
  | succ k => cases hf

/-- The day is loaded and does not close: the strategy never leaves `prenext`. -/
theorem never_starts :
    (waiting.run (hours 0) (BackBroker.init .USD 1000 none ())).isOk = true ∧
      (∀ n < 2, waiting.received (hours 0) (BackBroker.init .USD 1000 none ()) n 0 = .ok .prenext) ∧
      ¬ ∃ m, waiting.StartsOn (hours 0) (BackBroker.init .USD 1000 none ()) 0 (fun _ => 1) m := by
  have hcalls : ∀ n < 2, waiting.received (hours 0) (BackBroker.init .USD 1000 none ()) n 0 = .ok .prenext := by
    decide +kernel
  refine ⟨by decide +kernel, hcalls, fun ⟨m, hm⟩ => ?_⟩
  have hstart := (hcalls m hm.lt).symm.trans (hm.calls m hm.lt)
  simp at hstart

end Cerebro

end StratForge
