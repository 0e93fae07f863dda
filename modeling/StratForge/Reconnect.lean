import StratForge.RateLimit

/-!
# How often the engine reconnects

`try_reconnect` and `handle_connector_state` call each other through the connector: `connect` may report before it
returns that the link is lost again. What ends this is the counter of attempts, which only a snapshot takes back.

In every run the counter is the number of attempts since the last snapshot (`Dialled`), and it never passes the limit.
So `handle_connector_state` goes no deeper than the attempts that are left (`Env.reporting`), and where none are left
a lost link trips the kill switch.
-/

namespace StratForge

/-! ### Attempts since the last snapshot -/

/-- How many attempts there have been since the last snapshot. -/
def Link.redials (ls : List Link) : Nat := (ls.reverse.takeWhile (· == .reconnect)).length

namespace Link

@[simp] theorem redials_nil : redials [] = 0 := rfl

@[simp] theorem redials_snapshot (ls : List Link) : redials (ls ++ [.snapshot]) = 0 := by
  unfold redials
  rw [List.reverse_concat]
  rfl

@[simp] theorem redials_reconnect (ls : List Link) : redials (ls ++ [.reconnect]) = redials ls + 1 := by
  unfold redials
  rw [List.reverse_concat]
  rfl

/-- Attempts between two snapshots are attempts since the first of them. -/
theorem count_le_redials (ls : List Link) : ∀ S : List Link, .snapshot ∉ S → S.count .reconnect ≤ redials (ls ++ S) := by
  intro S
  induction S using List.reverseRecOn with
  | nil => simp
  | append_singleton S l ih =>
    intro hno
    have hS : .snapshot ∉ S := fun h => hno (List.mem_append_left _ h)
    cases l with
    | snapshot => exact absurd (List.mem_append_right S (List.mem_singleton_self _)) hno
    | reconnect =>
      rw [← List.append_assoc, redials_reconnect, List.count_append]
      exact Nat.add_le_add_right (ih hS) 1

end Link

namespace LiveEngine
variable {α W : Type} [Arith α] {limits : LiveRiskLimits α} {env : Env α W} {b e e' : LiveEngine α W}

/-- The counter tells the attempts since the last snapshot, and there have never been more than the limit allows. -/
structure Dialled (limits : LiveRiskLimits α) (e : LiveEngine α W) : Prop where
  kept : e.engine.limits = limits
  count : Link.redials e.engine.links = e.engine.reconnectAttempts
  bounded : ∀ ls, ls <+: e.engine.links → Link.redials ls ≤ limits.maxReconnectAttempts

namespace Dialled

omit [Arith α] in
theorem contact (h : Dialled limits e) (hc : e'.contact = e.contact) : Dialled limits e' := by
  obtain ⟨hlim, hcount, hbound⟩ := h
  unfold LiveEngine.contact at hc
  simp only [Prod.mk.injEq] at hc
  obtain ⟨hl, ha, hls⟩ := hc
  exact ⟨hl.trans hlim, by rw [hls, ha, hcount], hls ▸ hbound⟩

omit [Arith α] in
theorem received (h : Dialled limits e) : Dialled limits (received e) := by
  refine ⟨h.kept, Link.redials_snapshot _, fun ls hls => ?_⟩
  rcases List.prefix_concat_iff.1 hls with rfl | hls
  · rw [Link.redials_snapshot]
    exact Nat.zero_le _
  · exact h.bounded ls hls

omit [Arith α] in
theorem redialled (h : Dialled limits e) (hleft : e.engine.reconnectAttempts < limits.maxReconnectAttempts) :
    Dialled limits (redialled e) := by
  have hnext : Link.redials (e.engine.links ++ [.reconnect]) = e.engine.reconnectAttempts + 1 := by
    rw [Link.redials_reconnect, h.count]
  refine ⟨h.kept, hnext, fun ls hls => ?_⟩
  rcases List.prefix_concat_iff.1 hls with rfl | hls
  · exact hnext.trans_le hleft
  · exact h.bounded ls hls

theorem steps (hcall : ∀ ev {e}, Dialled limits e → Dialled limits (env.call ev e)) : EngineSteps env (Dialled limits) := by
  refine (EngineFrames.of_regs (fun h hr => h.contact (contact_eq hr)) hcall).steps (fun h _ hc => h.contact hc) ?_
  intro e hleft h
  exact hcall _ (h.redialled (h.kept ▸ hleft))

end Dialled

end LiveEngine

/-! ### Surroundings that differ in `connect` -/

/-- The same surroundings but for what `connect` does. -/
structure Env.Alike {α W : Type} (env env' : Env α W) : Prop where
  call : ∀ ev, ev ≠ .connect → env'.call ev = env.call ev
  preOrderHook : env'.preOrderHook = env.preOrderHook
  minimumPeriod : env'.minimumPeriod = env.minimumPeriod
  spare : env'.spare = env.spare

namespace Env.Alike
open LiveEngine
variable {α W : Type} [Arith α] {env env' : Env α W} (h : env.Alike env')
include h

omit [Arith α] in
theorem hooksWith (submit : Order α → LiveEngine α W → LiveEngine α W) :
    hooksWith env' submit = hooksWith env submit := by
  have hord : ∀ o, env'.call (.order o) = env.call (.order o) := fun o => h.call _ nofun
  have htrade : ∀ t s, env'.call (.trade t s) = env.call (.trade t s) := fun t s => h.call _ nofun
  have hcancel : ∀ id, env'.call (.cancelOrder id) = env.call (.cancelOrder id) := fun id => h.call _ nofun
  unfold LiveEngine.hooksWith
  simp only [hord, htrade, hcancel, h.preOrderHook]

omit [Arith α] in
theorem submitOrder (trigger : Trigger α W) (own : Option Nat) :
    LiveEngine.submitOrder env' trigger own = LiveEngine.submitOrder env trigger own := by
  funext o e
  unfold LiveEngine.submitOrder
  rw [h.call (.submitOrder o) nofun]

theorem flattenPositions (trigger : Trigger α W) :
    LiveEngine.flattenPositions env' trigger = LiveEngine.flattenPositions env trigger := by
  funext e
  unfold LiveEngine.flattenPositions
  dsimp only
  rw [h.submitOrder, h.hooksWith, h.spare]

theorem triggerKillSwitch : LiveEngine.triggerKillSwitch env' = LiveEngine.triggerKillSwitch env := by
  funext reason e
  unfold LiveEngine.triggerKillSwitch
  rw [h.flattenPositions]

theorem hooks : LiveEngine.hooks env' = LiveEngine.hooks env := by
  unfold LiveEngine.hooks
  rw [h.triggerKillSwitch, h.submitOrder, h.hooksWith]

/-- Only the handler of the connection, `try_reconnect` and `start` call `connect`. -/
theorem exec {c : EngineCmd α} (hstate : ∀ s, c ≠ .connectorState s) (htry : c ≠ .tryReconnect) (hstart : c ≠ .start)
    (hsnap : ∀ s, c ≠ .marketData s) (e : LiveEngine α W) : LiveEngine.exec env' c e = LiveEngine.exec env c e := by
  have hstrat : ∀ x, env'.call (.strategy x) = env.call (.strategy x) := fun x => h.call _ nofun
  unfold LiveEngine.exec
  cases c with
  | marketData s => exact absurd rfl (hsnap s)
  | connectorState s => exact absurd rfl (hstate s)
  | tryReconnect => exact absurd rfl htry
  | start => exact absurd rfl hstart
  | broker c => simp only [h.hooks]
  | fill t => simp only [handleFill, evaluateRiskLimits, h.hooks, h.triggerKillSwitch]
  | subscribe symbol => simp only [LiveEngine.subscribe, h.call (.subscribe symbol) nofun]
  | stop => simp only [LiveEngine.stop, h.triggerKillSwitch, h.flattenPositions, hstrat, h.call .disconnect nofun]
  | replaceStrategy => simp only [LiveEngine.replaceStrategy, hstrat]
  | checkHeartbeat now => simp only [LiveEngine.checkHeartbeat, h.triggerKillSwitch]
  | tick d => rfl

omit [Arith α] in
theorem subscribeAll : LiveEngine.subscribeAll env' = LiveEngine.subscribeAll (α := α) env := by
  funext e
  unfold LiveEngine.subscribeAll
  have hsub : ∀ symbol, env'.call (.subscribe symbol) = env.call (.subscribe symbol) := fun symbol => h.call _ nofun
  simp only [hsub]

end Env.Alike

/-! ### A connector that reports before `connect` returns -/

/-- A call that is neither a snapshot nor `start`, which connects on its own account. -/
def EngineCmd.Between {α : Type} (c : EngineCmd α) : Prop := c ≠ .start ∧ ∀ s, c ≠ .marketData s

namespace Env
open LiveEngine
variable {α W : Type} [Arith α]

/-- The same surroundings with another `connect`. -/
def withConnect (env : Env α W) (connect : LiveEngine α W → LiveEngine α W) : Env α W :=
  { env with
    call := fun ev e =>
      match ev with
      | .connect => connect e
      | ev => env.call ev e }

/-- Surroundings in which `connect` goes on to make calls, each chosen in the state that it is made in. What it does
`n` calls deep is left open. -/
def reporting (env : Env α W) (reports : LiveEngine α W → List (LiveEngine α W → EngineCmd α))
    (bottom : LiveEngine α W → LiveEngine α W) : Nat → Env α W
  | 0 => env.withConnect bottom
  | n + 1 => env.withConnect fun e =>
    let e := env.call .connect e
    (reports e).foldl (fun e c => exec (env.reporting reports bottom n) (c e) e) e

/-- The limits stay, and no attempt is taken back. -/
structure Kept (b e : LiveEngine α W) : Prop where
  limits : e.engine.limits = b.engine.limits
  attempts : b.engine.reconnectAttempts ≤ e.engine.reconnectAttempts

/-- No attempt is taken back in these surroundings. -/
def Quiet (env : Env α W) : Prop := ∀ ev {b e : LiveEngine α W}, Kept b e → Kept b (env.call ev e)

/-- How many attempts are left. -/
def left (e : LiveEngine α W) : Nat := e.engine.limits.maxReconnectAttempts - e.engine.reconnectAttempts

variable {env : Env α W} {reports : LiveEngine α W → List (LiveEngine α W → EngineCmd α)}
  {bottom bottom' : LiveEngine α W → LiveEngine α W} {b e e' : LiveEngine α W} {n m : Nat}

omit [Arith α] in
theorem Kept.contact (h : Kept b e) (hc : e'.contact = e.contact) : Kept b e' := by
  unfold LiveEngine.contact at hc
  simp only [Prod.mk.injEq] at hc
  obtain ⟨hl, ha, -⟩ := hc
  exact ⟨hl.trans h.limits, ha ▸ h.attempts⟩

omit [Arith α] in
theorem Kept.refl (e : LiveEngine α W) : Kept e e := ⟨rfl, le_rfl⟩

omit [Arith α] in
theorem Kept.left_le (h : Kept b e) : left e ≤ left b := by
  unfold left
  rw [h.limits]
  exact Nat.sub_le_sub_left h.attempts _

omit [Arith α] in
theorem left_redialled (e : LiveEngine α W) : left (redialled e) = left e - 1 := (Nat.sub_sub ..).symm

theorem Kept.steps (hcall : ∀ ev {e}, ev ≠ .connect → Kept b e → Kept b (env.call ev e))
    (hredial : ∀ {e}, e.engine.reconnectAttempts < e.engine.limits.maxReconnectAttempts → Kept b e →
      Kept b (env.call .connect (redialled e))) : EngineSteps env (Kept b) := by
  have hframes : EngineFrames env (Kept b) :=
    ⟨fun _ hr h => h.contact (contact_eq hr), hcall, fun _ _ _ _ h => h.contact rfl⟩
  exact hframes.steps (fun h _ hc => h.contact hc) hredial

omit [Arith α] in
theorem alike_withConnect (env : Env α W) (connect : LiveEngine α W → LiveEngine α W) :
    env.Alike (env.withConnect connect) := by
  refine ⟨fun ev hev => ?_, rfl, rfl, rfl⟩
  cases ev with
  | connect => exact absurd rfl hev
  | _ => rfl

theorem alike_reporting (env : Env α W) (reports : LiveEngine α W → List (LiveEngine α W → EngineCmd α))
    (bottom : LiveEngine α W → LiveEngine α W) (n : Nat) : env.Alike (env.reporting reports bottom n) := by
  cases n with
  | zero => exact alike_withConnect ..
  | succ n => exact alike_withConnect ..

theorem reporting_connect (env : Env α W) (reports : LiveEngine α W → List (LiveEngine α W → EngineCmd α))
    (bottom : LiveEngine α W → LiveEngine α W) (n : Nat) (e : LiveEngine α W) :
    (env.reporting reports bottom (n + 1)).call .connect e = (reports (env.call .connect e)).foldl
      (fun e c => exec (env.reporting reports bottom n) (c e) e) (env.call .connect e) := rfl

section
variable (hquiet : env.Quiet) (hbetween : ∀ e, ∀ r ∈ reports e, ∀ e', (r e').Between)
include hquiet hbetween

/-- Where no more attempts are left than `n`, no attempt is taken back `n` calls deep either. -/
theorem reporting_steps : ∀ n b, left b ≤ n → EngineSteps (env.reporting reports bottom n) (Kept b) := by
  intro n
  induction n with
  | zero =>
    intro b hleft
    refine Kept.steps (fun ev e hev h => ?_) fun hlt h => ?_
    · rw [(alike_reporting env reports bottom 0).call ev hev]
      exact hquiet ev h
    · have hnone := h.left_le.trans hleft
      unfold left at hnone
      omega
  | succ n ih =>
    intro b hleft
    refine Kept.steps (fun ev e hev h => ?_) fun hlt h => ?_
    · rw [(alike_reporting env reports bottom (n + 1)).call ev hev]
      exact hquiet ev h
    · rename_i e
      have hfewer : left (redialled e) ≤ n := by
        rw [left_redialled]
        exact Nat.sub_le_of_le_add (h.left_le.trans hleft)
      have hall := Fold.foldl_ind (Kept (redialled e)) (reports (env.call .connect (redialled e)))
        (env.call .connect (redialled e)) (hquiet .connect (.refl _)) fun e' r hr h' =>
          (ih (redialled e) hfewer).exec_regs (fun h hr => h.contact (contact_eq hr)) (r e')
            (fun hc => absurd hc (hbetween _ r hr e').1) (fun s hc => absurd hc ((hbetween _ r hr e').2 s)) h'
      exact ⟨hall.limits.trans h.limits, (h.attempts.trans (Nat.le_succ _)).trans hall.attempts⟩

/-- What a call does does not depend on what is left open, as deep down as attempts are left. -/
def Settled (env : Env α W) (reports : LiveEngine α W → List (LiveEngine α W → EngineCmd α)) (n : Nat) : Prop :=
  ∀ b, left b ≤ n → ∀ c, c.Between → ∀ m, n ≤ m → ∀ bottom bottom',
    exec (env.reporting reports bottom' m) c b = exec (env.reporting reports bottom n) c b

/-- One level above, `connect` does not depend on it. -/
theorem connect_settled (hset : env.Settled reports n) (hleft : left b ≤ n) (hm : n ≤ m) :
    (env.reporting reports bottom' (m + 1)).call .connect b = (env.reporting reports bottom (n + 1)).call .connect b := by
  have hfold : ∀ (rs : List (LiveEngine α W → EngineCmd α)) e, (∀ r ∈ rs, ∀ e', (r e').Between) → Kept b e →
      rs.foldl (fun e c => exec (env.reporting reports bottom' m) (c e) e) e =
        rs.foldl (fun e c => exec (env.reporting reports bottom n) (c e) e) e := by
    intro rs
    induction rs with
    | nil =>
      intro e _ _
      rw [List.foldl_nil, List.foldl_nil]
    | cons r rs ih =>
      intro e hrs he
      have hr := hrs r (List.mem_cons_self ..) e
      have hstep : Kept b (exec (env.reporting reports bottom n) (r e) e) :=
        (reporting_steps hquiet hbetween n b hleft).exec_regs (fun h hc => h.contact (contact_eq hc)) (r e)
          (fun hc => absurd hc hr.1) (fun s hc => absurd hc (hr.2 s)) he
      rw [List.foldl_cons, List.foldl_cons, hset e (he.left_le.trans hleft) (r e) hr m hm bottom bottom']
      exact ih _ (fun r hr => hrs r (List.mem_cons_of_mem _ hr)) hstep
  rw [reporting_connect, reporting_connect]
  exact hfold _ _ (hbetween _) (hquiet .connect (.refl b))

/-- `try_reconnect` goes one level down, with an attempt less. -/
theorem tryReconnect_settled (hset : ∀ k, n = k + 1 → env.Settled reports k) (hleft : left b ≤ n) (hm : n ≤ m) :
    tryReconnect (env.reporting reports bottom' m) b = tryReconnect (env.reporting reports bottom n) b := by
  have halike := alike_reporting env reports bottom n
  have halike' := alike_reporting env reports bottom' m
  unfold tryReconnect
  rw [halike.triggerKillSwitch, halike'.triggerKillSwitch, halike.subscribeAll, halike'.subscribeAll]
  by_cases hoff : (!b.engine.started || !b.engine.limits.autoReconnect) = true
  · rw [if_pos hoff, if_pos hoff]
  · rw [if_neg hoff, if_neg hoff]
    by_cases hmax : b.engine.limits.maxReconnectAttempts ≤ b.engine.reconnectAttempts
    · rw [if_pos hmax, if_pos hmax]
    · rw [if_neg hmax, if_neg hmax]
      -- An attempt is left, so that there is a level below.
      have hpos : 0 < left b := Nat.sub_pos_of_lt (Nat.lt_of_not_le hmax)
      obtain ⟨k, rfl⟩ : ∃ k, n = k + 1 := Nat.exists_eq_succ_of_ne_zero (hpos.trans_le hleft).ne'
      obtain ⟨j, rfl⟩ : ∃ j, m = j + 1 := Nat.exists_eq_succ_of_ne_zero (Nat.lt_of_lt_of_le (Nat.succ_pos k) hm).ne'
      have hfewer : left (redialled b) ≤ k := by
        rw [left_redialled]
        exact Nat.sub_le_of_le_add hleft
      exact congrArg (LiveEngine.subscribeAll env)
        (connect_settled hquiet hbetween (hset k rfl) hfewer (Nat.le_of_succ_le_succ hm))

theorem handleConnectorState_settled (hset : ∀ k, n = k + 1 → env.Settled reports k) (hleft : left b ≤ n) (hm : n ≤ m)
    (s : ConnectorState) : handleConnectorState (env.reporting reports bottom' m) s b =
      handleConnectorState (env.reporting reports bottom n) s b := by
  have halike := alike_reporting env reports bottom n
  have halike' := alike_reporting env reports bottom' m
  have hcall : Kept b (env.call (.state s) b) := hquiet _ (.refl b)
  have htry : tryReconnect (env.reporting reports bottom' m) (env.call (.state s) b) =
      tryReconnect (env.reporting reports bottom n) (env.call (.state s) b) :=
    tryReconnect_settled hquiet hbetween hset (hcall.left_le.trans hleft) hm
  unfold handleConnectorState
  rw [halike.call (.state s) nofun, halike'.call (.state s) nofun, halike.triggerKillSwitch, halike'.triggerKillSwitch]
  dsimp only
  rw [htry]

/-- Whatever is left open is not reached: below a call there are as many levels as there are attempts left. -/
theorem settled (n : Nat) : env.Settled reports n := by
  have hstep : ∀ n, (∀ k, n = k + 1 → env.Settled reports k) → env.Settled reports n := by
    intro n hset b hleft c hc m hm bottom bottom'
    have halike := alike_reporting env reports bottom n
    have halike' := alike_reporting env reports bottom' m
    by_cases hstate : ∃ s, c = .connectorState s
    · obtain ⟨s, rfl⟩ := hstate
      unfold LiveEngine.exec
      dsimp only
      rw [handleConnectorState_settled hquiet hbetween hset hleft hm s]
    · by_cases htry : c = .tryReconnect
      · subst htry
        unfold LiveEngine.exec
        dsimp only
        rw [tryReconnect_settled hquiet hbetween hset hleft hm]
      · rw [halike.exec (fun s hs => hstate ⟨s, hs⟩) htry hc.1 hc.2, halike'.exec (fun s hs => hstate ⟨s, hs⟩) htry hc.1 hc.2]
  induction n with
  | zero => exact hstep 0 nofun
  | succ n ih =>
    refine hstep (n + 1) fun k hk => ?_
    rw [← Nat.succ.inj hk]
    exact ih

end

end Env

open LiveEngine

variable {α W : Type} [Arith α]

/-- Callbacks that handle no snapshot take no attempt back. -/
theorem EngineListener.quiet (L : EngineListener α W) (hno : ∀ ev e s, (L.act ev e).2 ≠ some (.marketData s))
    (fuel : Nat) : (L.env fuel).Quiet := by
  intro ev b e h
  refine L.react_regs (fun h hr => h.contact (contact_eq hr)) (fun n hcall => ?_)
    (fun ev e s hs => absurd hs (hno ev e s)) fuel ev h
  refine Env.Kept.steps (fun ev e _ h => hcall ev h) fun _ h => hcall .connect ?_
  exact ⟨h.limits, h.attempts.trans (Nat.le_succ _)⟩

theorem EngineListener.run_dialled (L : EngineListener α W) (fuel : Nat) {limits : LiveRiskLimits α} {e : LiveEngine α W}
    (h : Dialled limits e) (cs : List (EngineCmd α)) : Dialled limits (run (L.env fuel) e cs) :=
  L.run_regs (fun h hr => h.contact (contact_eq hr)) (fun _ hcall => Dialled.steps hcall) Dialled.received fuel h cs

/-- Where no attempt is left once the user has been told, a lost link trips the switch. -/
theorem lost_trips {env : Env α W} (hshut : ∀ b ev {e : LiveEngine α W}, Shut b e → Shut b (env.call ev e))
    {e : LiveEngine α W} (hrun : e.engine.aborted = false) (hactive : e.engine.active = true)
    (hstarted : (env.call (.state .Disconnected) e).engine.started = true)
    (hnone : (env.call (.state .Disconnected) e).engine.limits.maxReconnectAttempts ≤
      (env.call (.state .Disconnected) e).engine.reconnectAttempts) :
    (exec env (.connectorState .Disconnected) e).engine.killSwitchTriggered = true := by
  unfold exec
  rw [if_neg (hrun ▸ Bool.false_ne_true)]
  dsimp only
  rw [if_pos hactive]
  unfold handleConnectorState
  generalize env.call (.state .Disconnected) e = e1 at hstarted hnone
  dsimp only
  have htrip : ∀ reason, (triggerKillSwitch env reason e1).1.engine.killSwitchTriggered = true := fun reason =>
    (triggerKillSwitch_shut hshut reason e1).killed
  by_cases hk : e1.engine.killSwitchTriggered = true
  · rw [if_neg (by simp [hk])]
    exact hk
  · rw [if_pos (by simp [hk, hstarted])]
    by_cases hauto : e1.engine.limits.autoReconnect = true
    · rw [if_pos hauto]
      unfold tryReconnect
      rw [if_neg (by simp [hstarted, hauto]), if_pos hnone]
      exact htrip _
    · rw [if_neg hauto]
      exact htrip _

/-- Between two snapshots `try_reconnect` connects at most `max_reconnect_attempts` times, as its counter says. A
connector may report, or call anything else but the handler of snapshots and `start`, before `connect` returns: what it
would do deeper down than there are attempts left is never reached, so that the calls come to an end. Where none is
left, a lost link trips the switch. -/
theorem reconnection_bounded (L : EngineListener α W) (fuel : Nat) {e₀ : LiveEngine α W}
    (hzero : e₀.engine.reconnectAttempts = 0) (hlinks : e₀.engine.links = []) (cs : List (EngineCmd α)) :
    (∀ A S B, (run (L.env fuel) e₀ cs).engine.links = A ++ S ++ B → .snapshot ∉ S →
      S.count .reconnect ≤ e₀.engine.limits.maxReconnectAttempts) ∧
    Link.redials (run (L.env fuel) e₀ cs).engine.links = (run (L.env fuel) e₀ cs).engine.reconnectAttempts ∧
    ((∀ ev e s, (L.act ev e).2 ≠ some (.marketData s)) →
      ∀ reports : LiveEngine α W → List (LiveEngine α W → EngineCmd α), (∀ e, ∀ r ∈ reports e, ∀ e', (r e').Between) →
      ∀ c e n n', c.Between → Env.left e ≤ n → Env.left e ≤ n' → ∀ bottom bottom',
        exec ((L.env fuel).reporting reports bottom n) c e = exec ((L.env fuel).reporting reports bottom' n') c e) ∧
    ∀ n e, let e' := (L.env n).call (.state .Disconnected) e
      e.engine.aborted = false → e.engine.active = true → e'.engine.started = true →
      e'.engine.limits.maxReconnectAttempts ≤ e'.engine.reconnectAttempts →
      (exec (L.env n) (.connectorState .Disconnected) e).engine.killSwitchTriggered = true := by
  have h₀ : Dialled e₀.engine.limits e₀ := by
    refine ⟨rfl, by rw [hlinks, hzero, Link.redials_nil], fun ls hls => ?_⟩
    rw [hlinks, List.prefix_nil] at hls
    rw [hls, Link.redials_nil]
    exact Nat.zero_le _
  have h := L.run_dialled fuel h₀ cs
  refine ⟨fun A S B hlog hno => ?_, h.count, ?_, ?_⟩
  · have hprefix : A ++ S <+: (run (L.env fuel) e₀ cs).engine.links := ⟨B, hlog.symm⟩
    exact (Link.count_le_redials A S hno).trans (h.bounded _ hprefix)
  · intro hno reports hbetween c e n n' hc hn hn' bottom bottom'
    have hset := Env.settled (L.quiet hno fuel) hbetween (Env.left e)
    rw [hset e le_rfl c hc n hn bottom bottom, hset e le_rfl c hc n' hn' bottom bottom']
  · intro n e _ hrun hactive hstarted hnone
    exact lost_trips (L.react_shut n) hrun hactive hstarted hnone

/-- A connector that loses the link whenever it is asked to connect, until the switch is on. -/
def EngineListener.dropping : EngineListener ℚ Unit :=
  { silent with
    act := fun ev e =>
      match ev with
      | .connect => ((), if e.engine.started && !e.engine.killSwitchTriggered then some (.connectorState .Disconnected) else none)
      | _ => ((), none) }

/-- Two attempts, one inside the other, and then the switch. -/
theorem reconnection_bounded_dropping :
    let e := run (EngineListener.dropping.env 5) (.funded { LiveRiskLimits.rate none with
      autoReconnect := true, maxReconnectAttempts := 2 }) [.subscribe "PRIMARY", .start, .connectorState .Disconnected]
    e.engine.links = [.reconnect, .reconnect] ∧ e.engine.killSwitchTriggered = true ∧
    ∀ A S B, e.engine.links = A ++ S ++ B → .snapshot ∉ S → S.count .reconnect ≤ 2 :=
  ⟨by decide +kernel, by decide +kernel, (reconnection_bounded .dropping 5 rfl rfl _).1⟩

end StratForge
