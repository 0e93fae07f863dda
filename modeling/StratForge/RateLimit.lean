import StratForge.EngineStays
import StratForge.SlidingWindow

/-!
# How many orders go out in a second

`check_order_rate` keeps the times of the orders it has let through, drops those that are older than a second
from the front, and lets one more through while fewer than `max_orders_per_second` are left; else it trips the kill
switch. Its queue serves a window of a second (`Rated`), whatever is called from inside a submission.

`Shut` is what happens once the switch is on: every order that comes to the wrapper is marked so.
-/

namespace StratForge

open SlidingWindow

/-- The order has gone to the connector, before the switch. -/
def Offer.forwarded {α : Type} (f : Offer α) : Bool := f.passed && !f.killed

/-- When orders have gone to the connector, before the switch. -/
def Offer.times {α : Type} (fs : List (Offer α)) : List Int := (fs.filter Offer.forwarded).map Offer.time

/-- `std::chrono::seconds(1)`, in nanoseconds. -/
def second : Int := 1000000000

namespace LiveEngine
variable {α W : Type} [Arith α]

/-! ### The switch is on -/

/-- The switch is on, and what has come to the wrapper since has met it so. -/
structure Shut (e e' : LiveEngine α W) : Prop where
  limits : e'.engine.limits = e.engine.limits
  killed : e'.engine.killSwitchTriggered = true
  clock : e.engine.now ≤ e'.engine.now
  offers : ∃ fs, e'.engine.offers = e.engine.offers ++ fs ∧ ∀ f ∈ fs, f.killed = true

variable {env : Env α W} {b e e' : LiveEngine α W} {trigger : Trigger α W}

omit [Arith α] in
theorem Shut.refl (h : e.engine.killSwitchTriggered = true) : Shut e e :=
  ⟨rfl, h, le_rfl, [], (List.append_nil _).symm, List.forall_mem_nil _⟩

omit [Arith α] in
theorem Shut.regs (h : Shut b e) (hregs : e'.regs = e.regs) : Shut b e' := by
  unfold LiveEngine.regs at hregs
  simp only [Prod.mk.injEq] at hregs
  obtain ⟨hlim, hk, hnow, -, hoff, -⟩ := hregs
  exact ⟨hlim.trans h.limits, hk.trans h.killed, hnow ▸ h.clock, hoff ▸ h.offers⟩

omit [Arith α] in
theorem Shut.received (h : Shut b e) : Shut b (received e) := ⟨h.limits, h.killed, h.clock, h.offers⟩

omit [Arith α] in
theorem checkOrderRate_killed (trigger : Trigger α W) (h : e.engine.killSwitchTriggered = true) :
    ∃ passed, checkOrderRate trigger e = (passed, e, none) := by
  unfold checkOrderRate
  cases e.engine.limits.maxOrdersPerSecond with
  | none => exact ⟨_, rfl⟩
  | some limit =>
    dsimp only
    rw [if_pos h]
    exact ⟨_, rfl⟩

omit [Arith α] in
theorem Shut.submitOrder (hcall : ∀ ev {e}, Shut b e → Shut b (env.call ev e)) (own : Option Nat) (o : Order α)
    (h : Shut b e) : Shut b (submitOrder env trigger own o e) := by
  obtain ⟨passed, hrate⟩ := checkOrderRate_killed trigger h.killed
  have hoffer : Shut b (modify (fun g => { g with offers := g.offers ++ [⟨o, own, e.engine.killSwitchTriggered,
      e.engine.flattening, (window e).length, passed, e.engine.now⟩] }) e) := by
    obtain ⟨fs, hfs, hall⟩ := h.offers
    refine ⟨h.limits, h.killed, h.clock, fs ++ [⟨o, own, e.engine.killSwitchTriggered, e.engine.flattening,
      (window e).length, passed, e.engine.now⟩], ?_, ?_⟩
    · exact (congrArg (· ++ _) hfs).trans (List.append_assoc ..)
    · intro f hf
      rcases List.mem_append.1 hf with hf | hf
      · exact hall f hf
      · rw [List.mem_singleton.1 hf]
        exact h.killed
  unfold LiveEngine.submitOrder
  dsimp only
  rw [hrate]
  dsimp only
  split
  · exact (hcall _ hoffer).regs rfl
  · exact hoffer.regs rfl

/-- With the switch on, it is not triggered again. -/
theorem Shut.steps (hcall : ∀ ev {e}, Shut b e → Shut b (env.call ev e)) : EngineSteps env (Shut b) where
  toEngineFrames := .of_regs Shut.regs hcall
  submit own o _ h := h.submitOrder hcall own o
  trigger reason e h := by
    unfold LiveEngine.triggerKillSwitch
    rw [if_pos h.killed]
    exact h
  reconnect _ h := hcall _ ⟨h.limits, h.killed, h.clock, h.offers⟩
  tick d _ h := ⟨h.limits, h.killed, h.clock.trans (by show _ ≤ _ + _; omega), h.offers⟩

/-- After the trigger, the switch is on. -/
theorem triggerKillSwitch_shut (hcall : ∀ b ev {e : LiveEngine α W}, Shut b e → Shut b (env.call ev e)) (reason : String)
    (e : LiveEngine α W) : Shut e (triggerKillSwitch env reason e).1 := by
  unfold triggerKillSwitch
  by_cases hk : e.engine.killSwitchTriggered = true
  · rw [if_pos hk]
    exact .refl hk
  · rw [if_neg hk]
    have hon : Shut e (modify ({ · with killSwitchTriggered := true, killSwitchReason := reason }) e) :=
      ⟨rfl, rfl, le_rfl, [], (List.append_nil _).symm, List.forall_mem_nil _⟩
    dsimp only
    split_ifs
    · exact (Shut.steps (hcall e)).flattenPositions (fun own o _ h => h.submitOrder (hcall e) own o) hon
    · exact hon

/-! ### What the limiter has decided -/

/-- An order that met the switch off has gone out just if the second before it had room. If it has not, the switch
is on and every later one has met it so. -/
def Judged (n : Nat) (killed : Bool) (fs : List (Offer α)) : Prop :=
  ∀ A f B, fs = A ++ f :: B → f.killed = false →
    (f.passed = true ↔ (recent second f.time (Offer.times A)).length < n) ∧
    (f.passed = false → killed = true ∧ ∀ b ∈ B, b.killed = true)

variable {n : Nat} {killed : Bool} {fs : List (Offer α)}

omit [Arith α] in
theorem Judged.passed (h : Judged n false fs) : ∀ f ∈ fs, f.killed = false → f.passed = true := by
  intro f hf hk
  obtain ⟨A, B, hAB⟩ := List.append_of_mem hf
  by_contra hp
  have hon := ((h A f B hAB hk).2 (Bool.eq_false_iff.2 hp)).1
  exact Bool.false_ne_true hon

omit [Arith α] in
theorem Judged.on (h : Judged n killed fs) : Judged n true fs := fun A f B hAB hk =>
  ⟨(h A f B hAB hk).1, fun hp => ⟨rfl, ((h A f B hAB hk).2 hp).2⟩⟩

omit [Arith α] in
/-- Orders that meet the switch on. -/
theorem Judged.shut (h : Judged n killed fs) : ∀ (K : List (Offer α)), (∀ f ∈ K, f.killed = true) →
    Judged n killed (fs ++ K) := by
  intro K hK A f B hAB hk
  rcases List.append_eq_append_iff.1 hAB with ⟨C, rfl, hC⟩ | ⟨C, hC, hB⟩
  · have hf : f.killed = true := hK f (hC ▸ List.mem_append_right C (List.mem_cons_self ..))
    rw [hk] at hf
    exact absurd hf Bool.false_ne_true
  · cases C with
    | nil =>
      have hf : f.killed = true := hK f (by rw [← List.nil_append K, ← hB]; exact List.mem_cons_self ..)
      rw [hk] at hf
      exact absurd hf Bool.false_ne_true
    | cons c C =>
      obtain ⟨rfl, rfl⟩ := List.cons.inj hB
      obtain ⟨hiff, hlast⟩ := h A f C hC hk
      refine ⟨hiff, fun hp => ⟨(hlast hp).1, fun b hb => ?_⟩⟩
      rcases List.mem_append.1 hb with hb | hb
      · exact (hlast hp).2 b hb
      · exact hK b hb

omit [Arith α] in
/-- One more order that meets the switch off, where all that met it so have gone out. -/
theorem Judged.snoc (h : Judged n killed fs) (hopen : ∀ f ∈ fs, f.killed = false → f.passed = true) {g : Offer α}
    (hroom : g.passed = true ↔ (recent second g.time (Offer.times fs)).length < n)
    (hon : g.passed = false → killed = true) : Judged n killed (fs ++ [g]) := by
  intro A f B hAB hk
  rcases List.eq_nil_or_concat B with rfl | ⟨B, b, rfl⟩
  · obtain ⟨rfl, hf⟩ := List.append_inj' hAB rfl
    obtain rfl := List.singleton_inj.1 hf
    exact ⟨hroom, fun hp => ⟨hon hp, List.forall_mem_nil _⟩⟩
  · have hsplit : fs ++ [g] = (A ++ f :: B) ++ [b] := by simpa using hAB
    obtain ⟨rfl, -⟩ := List.append_inj' hsplit rfl
    have hp : f.passed = true := hopen f (List.mem_append_right A (List.mem_cons_self ..)) hk
    refine ⟨(h A f B rfl hk).1, fun hnot => ?_⟩
    rw [hp] at hnot
    exact absurd hnot.symm Bool.false_ne_true

/-! ### The limiter before the switch -/

/-- An order comes into the log. -/
def offered (g : Offer α) (e : LiveEngine α W) : LiveEngine α W :=
  modify (fun x => { x with offers := x.offers ++ [g] }) e

/-- The queue without what is older than a second. -/
def purged (e : LiveEngine α W) : LiveEngine α W := modify ({ · with orderTimestamps := window e }) e

/-- What the log has of an order that comes to the wrapper now. -/
def entry (own : Option Nat) (o : Order α) (passed : Bool) (e : LiveEngine α W) : Offer α :=
  ⟨o, own, e.engine.killSwitchTriggered, e.engine.flattening, (window e).length, passed, e.engine.now⟩

omit [Arith α] in
theorem regs_raised (raised : Option Error) (e : LiveEngine α W) : (modify ({ · with raised }) e).regs = e.regs := rfl

omit [Arith α] in
/-- Before the switch an order goes out, or trips it. -/
theorem submitOrder_off (hlim : e.engine.limits.maxOrdersPerSecond = some n) (hk : e.engine.killSwitchTriggered = false)
    (own : Option Nat) (o : Order α) : submitOrder env trigger own o e =
      if n ≤ (window e).length then
        modify ({ · with raised := (trigger "order rate limit exceeded" (purged e)).2 })
          (offered (entry own o false e) (trigger "order rate limit exceeded" (purged e)).1)
      else
        modify ({ · with raised := none }) (env.call (.submitOrder o) (offered (entry own o true e)
          (modify (fun g => { g with orderTimestamps := window e ++ [g.now] }) (purged e)))) := by
  unfold LiveEngine.submitOrder checkOrderRate
  rw [hlim]
  dsimp only
  rw [if_neg (hk ▸ Bool.false_ne_true)]
  by_cases hfull : n ≤ (window e).length
  · rw [if_pos hfull, if_pos hfull]
    rfl
  · rw [if_neg hfull, if_neg hfull]
    rfl

/-- The limiter's queue serves the second, and it has decided by it. -/
structure Rated (n : Nat) (e : LiveEngine α W) : Prop where
  limit : e.engine.limits.maxOrdersPerSecond = some n
  serves : ∃ q, Serves second n e.engine.now (Offer.times e.engine.offers) q ∧
    (e.engine.killSwitchTriggered = false → e.engine.orderTimestamps = q)
  judged : Judged n e.engine.killSwitchTriggered e.engine.offers

namespace Rated

omit [Arith α] in
theorem regs (h : Rated n e) (hregs : e'.regs = e.regs) : Rated n e' := by
  obtain ⟨hlim, ⟨q, hq, hqueue⟩, hj⟩ := h
  unfold LiveEngine.regs at hregs
  simp only [Prod.mk.injEq] at hregs
  obtain ⟨hl, hk, hnow, hts, hoff, -⟩ := hregs
  refine ⟨hl ▸ hlim, ⟨q, ?_, ?_⟩, ?_⟩
  · rw [hnow, hoff]
    exact hq
  · rw [hk, hts]
    exact hqueue
  · rw [hk, hoff]
    exact hj

omit [Arith α] in
theorem times_shut {fs K : List (Offer α)} (hK : ∀ f ∈ K, f.killed = true) : Offer.times (fs ++ K) = Offer.times fs := by
  have hnone : K.filter Offer.forwarded = [] := List.filter_eq_nil_iff.2 fun f hf => by
    unfold Offer.forwarded
    rw [hK f hf]
    simp
  unfold Offer.times
  rw [List.filter_append, hnone, List.append_nil]

omit [Arith α] in
/-- The switch goes on, and stays on. -/
theorem shut (h : Rated n e) (hs : Shut e e') : Rated n e' := by
  obtain ⟨K, hK, hall⟩ := hs.offers
  obtain ⟨q, hq, -⟩ := h.serves
  refine ⟨hs.limits ▸ h.limit, ⟨q, ?_, fun hoff => ?_⟩, ?_⟩
  · rw [hK, times_shut hall]
    exact hq.later hs.clock
  · rw [hs.killed] at hoff
    exact absurd hoff.symm Bool.false_ne_true
  · rw [hs.killed, hK]
    exact h.judged.on.shut K hall

omit [Arith α] in
theorem tick (h : Rated n e) (d : Nat) : Rated n (modify (fun g => { g with now := g.now + d }) e) := by
  obtain ⟨q, hq, hqueue⟩ := h.serves
  exact ⟨h.limit, ⟨q, hq.later (by show _ ≤ _ + _; omega), hqueue⟩, h.judged⟩

omit [Arith α] in
theorem received (h : Rated n e) : Rated n (received e) := ⟨h.limit, h.serves, h.judged⟩

omit [Arith α] in
theorem window_length {q : List Int} (hq : Serves second n e.engine.now (Offer.times e.engine.offers) q)
    (hqueue : e.engine.orderTimestamps = q) :
    (window e).length = (recent second e.engine.now (Offer.times e.engine.offers)).length := by
  rw [← hq.count, ← hqueue]
  rfl

omit [Arith α] in
theorem times_snoc (fs : List (Offer α)) (g : Offer α) :
    Offer.times (fs ++ [g]) = Offer.times fs ++ if g.forwarded = true then [g.time] else [] := by
  unfold Offer.times
  rw [List.filter_append, List.map_append, List.filter_singleton]
  cases g.forwarded <;> rfl

omit [Arith α] in
/-- An order is refused, and has tripped the switch. -/
theorem refused (h : Rated n e) (hon : e.engine.killSwitchTriggered = true)
    (hopen : ∀ f ∈ e.engine.offers, f.killed = false → f.passed = true) {g : Offer α} (hg : g.passed = false)
    (hroom : ¬ (recent second g.time (Offer.times e.engine.offers)).length < n) : Rated n (offered g e) := by
  obtain ⟨q, hq, -⟩ := h.serves
  have hstay : g.forwarded = false := by
    unfold Offer.forwarded
    rw [hg]
    rfl
  refine ⟨h.limit, ⟨q, ?_, fun hoff => ?_⟩, ?_⟩
  · show Serves second n e.engine.now (Offer.times (e.engine.offers ++ [g])) q
    rw [times_snoc, hstay, if_neg Bool.false_ne_true, List.append_nil]
    exact hq
  · exact absurd (hon.symm.trans hoff).symm Bool.false_ne_true
  · refine h.judged.snoc hopen (iff_of_false (fun hp => ?_) hroom) fun _ => hon
    exact Bool.false_ne_true (hg.symm.trans hp)

omit [Arith α] in
/-- An order goes out. -/
theorem admitted (h : Rated n e) (hoff : e.engine.killSwitchTriggered = false) {g : Offer α} (hp : g.passed = true)
    (hk : g.killed = false) (htime : g.time = e.engine.now) (hroom : (window e).length < n) :
    Rated n (offered g (modify (fun x => { x with orderTimestamps := window e ++ [x.now] }) (purged e))) := by
  obtain ⟨q, hq, hqueue⟩ := h.serves
  have hlen := window_length hq (hqueue hoff)
  rw [hlen] at hroom
  have hgo : g.forwarded = true := by
    unfold Offer.forwarded
    rw [hp, hk]
    rfl
  refine ⟨h.limit, ⟨_, ?_, fun _ => rfl⟩, ?_⟩
  · show Serves second n e.engine.now (Offer.times (e.engine.offers ++ [g])) (window e ++ [e.engine.now])
    rw [times_snoc, if_pos hgo, htime]
    refine Serves.push ?_ hroom
    have hpurge : window e = purge second e.engine.now q := by
      rw [← hqueue hoff]
      rfl
    rw [hpurge]
    exact hq.purged
  · have hj := h.judged
    refine hj.snoc (hoff ▸ hj).passed (iff_of_true hp ?_) fun hnot => ?_
    · rw [htime]
      exact hroom
    · exact absurd (hnot.symm.trans hp) Bool.false_ne_true

theorem submitOrder (hcall : ∀ ev {e}, Rated n e → Rated n (env.call ev e))
    (hshut : ∀ b ev {e : LiveEngine α W}, Shut b e → Shut b (env.call ev e)) (own : Option Nat) (o : Order α)
    (h : Rated n e) : Rated n (submitOrder env (triggerKillSwitch env) own o e) := by
  by_cases hk : e.engine.killSwitchTriggered = true
  · exact h.shut ((Shut.refl hk).submitOrder (hshut e) own o)
  · rw [Bool.not_eq_true] at hk
    obtain ⟨q, hq, hqueue⟩ := h.serves
    have hlen := window_length hq (hqueue hk)
    have h1 : Rated n (purged e) := ⟨h.limit, ⟨_, hq.purged, fun _ => by rw [← hqueue hk]; rfl⟩, h.judged⟩
    rw [submitOrder_off h.limit hk]
    by_cases hfull : n ≤ (window e).length
    · -- The order comes into the log behind those with which the positions are closed.
      rw [if_pos hfull]
      have hs := triggerKillSwitch_shut hshut "order rate limit exceeded" (purged e)
      obtain ⟨K, hK, hall⟩ := hs.offers
      have h2 := h1.shut hs
      refine (h2.refused (g := entry own o false e) hs.killed ?_ rfl ?_).regs (regs_raised ..)
      · intro f hf hfk
        rw [hK] at hf
        rcases List.mem_append.1 hf with hf | hf
        · exact (hk ▸ h.judged : Judged n false _).passed f hf hfk
        · exact absurd (hfk.symm.trans (hall f hf)) Bool.false_ne_true
      · rw [hK, times_shut hall]
        exact hlen ▸ Nat.not_lt.2 hfull
    · rw [if_neg hfull]
      have hgone := h.admitted (g := entry own o true e) hk rfl hk rfl (Nat.lt_of_not_le hfull)
      exact (hcall (.submitOrder o) hgone).regs (regs_raised ..)

theorem steps (hcall : ∀ ev {e}, Rated n e → Rated n (env.call ev e))
    (hshut : ∀ b ev {e : LiveEngine α W}, Shut b e → Shut b (env.call ev e)) : EngineSteps env (Rated n) where
  toEngineFrames := .of_regs regs hcall
  submit own o _ h := h.submitOrder hcall hshut own o
  trigger reason e h := h.shut (triggerKillSwitch_shut hshut reason e)
  reconnect _ h := hcall _ ⟨h.limit, h.serves, h.judged⟩
  tick d _ h := h.tick d

end Rated

end LiveEngine

variable {α W : Type} [Arith α]

open LiveEngine

theorem EngineListener.react_shut (L : EngineListener α W) (n : Nat) (b : LiveEngine α W) (ev : EngineEvent α)
    {e : LiveEngine α W} (h : Shut b e) : Shut b (L.react n ev e) :=
  L.react_regs Shut.regs (fun _ hcall => Shut.steps hcall) (fun _ _ _ _ _ h => h.received) n ev h

theorem EngineListener.run_rated (L : EngineListener α W) (fuel : Nat) {n : Nat} {e : LiveEngine α W} (h : Rated n e)
    (cs : List (EngineCmd α)) : Rated n (run (L.env fuel) e cs) :=
  L.run_regs Rated.regs (fun n hcall => Rated.steps hcall (L.react_shut n)) Rated.received fuel h cs

/-- Among the orders that go to the connector before the switch, every closed second has at most as many as the limit
says. The first order for which the second before it has no room trips the switch, and does not go out. -/
theorem orders_per_second (L : EngineListener α W) (fuel : Nat) {e₀ : LiveEngine α W} (hstart : e₀.Unstarted)
    (hempty : e₀.engine.orderTimestamps = []) {n : Nat} (hlim : e₀.engine.limits.maxOrdersPerSecond = some n)
    (cs : List (EngineCmd α)) :
    let e := run (L.env fuel) e₀ cs
    (∀ s, (within second s (Offer.times e.engine.offers)).length ≤ n) ∧
    ∀ A f B, e.engine.offers = A ++ f :: B → f.killed = false →
      (f.passed = true ↔ (recent second f.time (Offer.times A)).length < n) ∧
      (f.passed = false → e.engine.killSwitchTriggered = true ∧ ∀ b ∈ B, b.killed = true) := by
  have h₀ : Rated n e₀ := by
    refine ⟨hlim, ⟨[], ?_, fun _ => hempty⟩, ?_⟩
    · rw [hstart.offers]
      exact .nil ..
    · rw [hstart.offers]
      intro A f B hAB
      exact absurd hAB.symm (List.append_ne_nil_of_right_ne_nil A (List.cons_ne_nil f B))
  obtain ⟨-, ⟨q, hq, -⟩, hj⟩ := L.run_rated fuel h₀ cs
  exact ⟨hq.limited, hj⟩

/-- One order a second: the order that comes a second after the first is refused, and so is all that follows. -/
theorem orders_per_second_one :
    let e := run (EngineListener.silent.env 1) (.funded (.rate (some 1))) [.subscribe "PRIMARY", .start,
      .broker (.buy 1 0 none .Market 0), .tick 1000000000, .broker (.buy 1 0 none .Market 0), .tick 1,
      .broker (.buy 1 0 none .Market 0)]
    e.engine.offers.map (fun f => (f.passed, f.killed, f.time)) =
      [(true, false, 0), (false, false, 1000000000), (false, true, 1000000001)] ∧
    (∀ s, (within second s (Offer.times e.engine.offers)).length ≤ 1) :=
  ⟨by decide +kernel, (orders_per_second .silent 1 (unstarted_funded _) rfl rfl _).1⟩

end StratForge
