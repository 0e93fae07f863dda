import StratForge.Lockstep
import StratForge.Delivery

/-!
# Two runs of the engine

Two runs whose feeds show the same on every bar up to one, for agents that tell the same apart, do the same
(`lockstep_hooks`). An agent may give the first run up, by what it captures, and then nothing is said any more.
-/

namespace StratForge

variable {α W : Type} [Arith α]

namespace BackBroker

/-! ### Where positions are open -/

/-- Positions that are not flat are on data indices of `D`. -/
def OpenOn (D : Nat → Prop) (b : BackBroker α W) : Prop := ∀ pos ∈ b.positions, pos.isFlat = false → D pos.dataIndex

theorem OpenOn.mono {D D' : Nat → Prop} {b : BackBroker α W} (h : b.OpenOn D) (hD : ∀ k, D k → D' k) : b.OpenOn D' :=
  fun pos hpos hopen => hD _ (h pos hpos hopen)

section
variable (hflat : Arith.abs (0 : α) < 1e-10) {D : Nat → Prop} {b b' : BackBroker α W}
include hflat

theorem open_ensure {ps : List (Position α)} (im : Nat → Option (Instrument α)) (k : Nat)
    (h : ∀ pos ∈ ps, pos.isFlat = false → D pos.dataIndex) :
    ∀ pos ∈ Position.ensure im ps k, pos.isFlat = false → D pos.dataIndex := by
  unfold Position.ensure
  split
  · exact h
  · intro pos hpos hopen
    rcases List.mem_append.1 hpos with hpos | hpos
    · exact h pos hpos hopen
    · obtain rfl := List.mem_singleton.1 hpos
      exact absurd hopen (by rw [show (Position.flat (im k) k).isFlat = true from decide_eq_true hflat]; simp)

theorem OpenOn.same (h : b.OpenOn D) (hs : SameBooks b b') : b'.OpenOn D := by
  obtain ⟨ks, hks⟩ := hs.positions
  unfold OpenOn
  rw [hks]
  exact Fold.foldl_ind (fun ps : List (Position α) => ∀ pos ∈ ps, pos.isFlat = false → D pos.dataIndex) ks b.positions h
    fun ps k _ hps => open_ensure hflat _ k hps

theorem OpenOn.update {k : Nat} (h : b.OpenOn D) (hk : D k) (s p : α) : ((b.ensurePosition k).updatePosition k s p).OpenOn D := by
  have hens := open_ensure hflat b.instrumentMap k h
  intro pos hpos hopen
  obtain ⟨j, hj, rfl⟩ := List.mem_iff_getElem.1 hpos
  have hj' : j < (b.ensurePosition k).positions.length := by
    have hlen : ((b.ensurePosition k).updatePosition k s p).positions.length = (b.ensurePosition k).positions.length :=
      List.length_modify ..
    rwa [hlen] at hj
  have hget : ((b.ensurePosition k).updatePosition k s p).positions[j] =
      if (b.ensurePosition k).positions.findIdx (·.dataIndex == k) = j then (b.ensurePosition k).positions[j].update s p
      else (b.ensurePosition k).positions[j] := List.getElem_modify ..
  rw [hget] at hopen ⊢
  split at hopen
  · rename_i heq
    have hfound := List.findIdx_getElem (p := fun pos : Position α => pos.dataIndex == k) (w := heq ▸ hj')
    simp only [heq, beq_iff_eq] at hfound
    rw [if_pos heq, Position.dataIndex_update, hfound]
    exact hk
  · rename_i hne
    rw [if_neg hne]
    exact hens _ (List.getElem_mem hj') hopen

end

/-! ### The callback within a fill -/

/-- A fill's trades are the same whatever the callback does, or up to one call of it; and whatever is captured. -/
theorem updateTrades_factor (b : BackBroker α W) (k : Nat) (old s p c : α) (bar : Nat) (dt : DateTime) (cand : Nat) :
    (∃ b2 : BackBroker α W, b2.world = b.world ∧ b2.positions = b.positions ∧ b2.closedTrades = b.closedTrades ∧
      ∀ h (w : W), (b.capture w).updateTrades h k old s p c bar dt cand = b2.capture w) ∨
    ∃ (t : Trade α) (orig : α) (b1 : BackBroker α W) (G : BackBroker α W → BackBroker α W), b1.world = b.world ∧
      b1.positions = b.positions ∧ b1.closedTrades = b.closedTrades ++ [(t, orig)] ∧
      (∀ x, (G x).world = x.world ∧ (G x).positions = x.positions ∧ (G x).closedTrades = x.closedTrades) ∧
      (∀ x w, G (x.capture w) = (G x).capture w) ∧
      ∀ (h : Hooks α W) (w : W), (b.capture w).updateTrades h k old s p c bar dt cand = G (h.tradeNotify t orig (b1.capture w)) := by
  unfold updateTrades
  dsimp only [capture]
  by_cases h0 : Arith.abs old < 1e-10
  · exact .inl ⟨b.openTrade k s p c bar dt cand, rfl, rfl, rfl, fun h w => by rw [if_pos h0]; rfl⟩
  by_cases hsame : (0 < old ∧ 0 < s) ∨ (old < 0 ∧ s < 0)
  · exact .inl ⟨{ b with openTrades := b.openTrades.modify (b.openTradeIdx k) fun x =>
      (x.1.update s p c bar dt, x.2 + s) }, rfl, rfl, rfl, fun h w => by rw [if_neg h0, if_pos hsame]; rfl⟩
  have hidx : ∀ w : W, openTradeIdx { b with world := w } k = b.openTradeIdx k := fun _ => rfl
  simp only [hidx]
  cases b.openTrades[b.openTradeIdx k]? with
  | none => exact .inl ⟨b, rfl, rfl, rfl, fun h w => by rw [if_neg h0, if_neg hsame]⟩
  | some x =>
    obtain ⟨t, orig⟩ := x
    dsimp only
    let told (t : Trade α) : BackBroker α W :=
      { b with openTrades := b.openTrades.set (b.openTradeIdx k) (t, orig), closedTrades := b.closedTrades ++ [(t, orig)] }
    let erased (x : BackBroker α W) : BackBroker α W := { x with openTrades := x.openTrades.eraseIdx (b.openTradeIdx k) }
    by_cases hflip : Arith.abs t.size < Arith.abs s
    · let closeComm := Arith.abs t.size / Arith.abs s * c
      let t' := t.update (-t.size) p closeComm bar dt
      exact .inr ⟨t', orig, told t', fun x => (erased x).openTrade k (s + t.size) p (c - closeComm) bar dt cand, rfl, rfl,
        rfl, fun x => ⟨rfl, rfl, rfl⟩, fun x w => rfl, fun h w => by rw [if_neg h0, if_neg hsame, if_pos hflip]; rfl⟩
    let t' := t.update s p c bar dt
    by_cases hclosed : t'.isClosed = true
    · exact .inr ⟨t', orig, told t', erased, rfl, rfl, rfl, fun x => ⟨rfl, rfl, rfl⟩, fun x w => rfl,
        fun h w => by rw [if_neg h0, if_neg hsame, if_neg hflip, if_pos hclosed]; rfl⟩
    · exact .inl ⟨{ b with openTrades := b.openTrades.set (b.openTradeIdx k) (t', orig) }, rfl, rfl, rfl,
        fun h w => by rw [if_neg h0, if_neg hsame, if_neg hflip, if_neg hclosed]⟩

/-- The positions after a fill. -/
def filled (b : BackBroker α W) (o : Order α) (price : α) : List (Position α) :=
  ((b.ensurePosition o.dataIndex).updatePosition o.dataIndex o.signedSize price).positions

/-- A fill is the same whatever the callback does, or up to one call of it; and whatever is captured. -/
theorem book_factor (feed : DataFeed α) (bar : Row α) (b : BackBroker α W) (i : Nat) (o : Order α) (price : α) :
    (∃ b2 : BackBroker α W, b2.world = b.world ∧ b2.positions = b.filled o price ∧ b2.closedTrades = b.closedTrades ∧
      ∀ h (feed' : DataFeed α) (w : W), feed'.index = feed.index → (b.capture w).book h feed' bar i o price = b2.capture w) ∨
    ∃ (t : Trade α) (orig : α) (b1 : BackBroker α W) (G : BackBroker α W → BackBroker α W), b1.world = b.world ∧
      b1.positions = b.filled o price ∧ b1.closedTrades = b.closedTrades ++ [(t, orig)] ∧
      (∀ x, (G x).world = x.world ∧ (G x).positions = x.positions ∧ (G x).closedTrades = x.closedTrades) ∧
      (∀ x w, G (x.capture w) = (G x).capture w) ∧
      ∀ (h : Hooks α W) (feed' : DataFeed α) (w : W), feed'.index = feed.index →
        (b.capture w).book h feed' bar i o price = G (h.tradeNotify t orig (b1.capture w)) := by
  have hsync : ∀ x : BackBroker α W, (x.sync i).world = x.world ∧ (x.sync i).positions = x.positions ∧
      (x.sync i).closedTrades = x.closedTrades := fun x => by
    unfold sync
    split <;> exact ⟨rfl, rfl, rfl⟩
  have hsyncw : ∀ (x : BackBroker α W) (w : W), (x.capture w).sync i = (x.sync i).capture w := fun x w => by
    unfold sync
    rw [show (x.capture w).pendingOrders = x.pendingOrders from rfl]
    split <;> rfl
  let executed := o.execute price o.size (b.fillCommission o price)
  let b3 : BackBroker α W := ((((b.edit i fun _ => executed).pay (b.settleCcy o.dataIndex)
    (o.signedSize * price + b.fillCommission o price)).ensurePosition o.dataIndex).updatePosition o.dataIndex o.signedSize price).note
      (.executed ⟨executed, price, o.signedSize, b.fillCommission o price, b.settleCcy o.dataIndex, b.dataBarIndex, feed.index⟩)
  have hbook : ∀ (h : Hooks α W) (feed' : DataFeed α) (w : W), feed'.index = feed.index → (b.capture w).book h feed' bar i o price =
      ((b3.capture w).updateTrades h o.dataIndex ((b.ensurePosition o.dataIndex).position o.dataIndex).size o.signedSize price
        (b.fillCommission o price) b3.dataBarIndex bar.datetime o.candidateId).sync i := fun h feed' w hf => by
    unfold book
    rw [hf]
    rfl
  rcases updateTrades_factor b3 o.dataIndex ((b.ensurePosition o.dataIndex).position o.dataIndex).size o.signedSize price
    (b.fillCommission o price) b3.dataBarIndex bar.datetime o.candidateId with
    ⟨b2, hw, hp, hc, h2⟩ | ⟨t, orig, b1, G, hw, hp, hc, hG, hGw, h1⟩
  · obtain ⟨hsw, hsp, hsc⟩ := hsync b2
    refine .inl ⟨b2.sync i, hsw.trans hw, hsp.trans hp, hsc.trans hc, fun h feed' w hf => ?_⟩
    rw [hbook h feed' w hf, h2, hsyncw]
  · refine .inr ⟨t, orig, b1, fun x => (G x).sync i, hw, hp, hc, fun x => ?_, fun x w => ?_, fun h feed' w hf => ?_⟩
    · obtain ⟨hsw, hsp, hsc⟩ := hsync (G x)
      obtain ⟨hGw, hGp, hGc⟩ := hG x
      exact ⟨hsw.trans hGw, hsp.trans hGp, hsc.trans hGc⟩
    · show (G (x.capture w)).sync i = ((G x).sync i).capture w
      rw [hGw, hsyncw]
    · rw [hbook h feed' w hf, h1]

/-! ### Listeners that agree -/

/-- The two brokers are one but for what they capture, which is in `S`, unless the first has been given up. -/
def Agreed (lost : W → Prop) (S : W → W → Prop) (D : Nat → Prop) (b b' : BackBroker α W) : Prop :=
  lost b.world ∨ b' = b.capture b'.world ∧ S b.world b'.world ∧ b.OpenOn D

end BackBroker

/-- What two listeners have in common: on brokers with open positions on `D` alone they do the same, unless the first
one gives the run up. -/
structure Listener.Agree (L L' : Listener α W) (lost : W → Prop) (S : W → W → Prop) (D : Nat → Prop) : Prop where
  act : ∀ ev (b : BackBroker α W) (w : W), ¬ lost b.world → S b.world w → b.OpenOn D →
    (L'.act ev (b.capture w)).2 = (L.act ev b).2 ∧ S (L.act ev b).1 (L'.act ev (b.capture w)).1
  hook : ∀ side size k (b : BackBroker α W) (w : W), ¬ lost b.world → S b.world w → b.OpenOn D →
    lost (L.preOrderHook side size k b).2 ∨ (L'.preOrderHook side size k (b.capture w)).1 = (L.preOrderHook side size k b).1 ∧
      S (L.preOrderHook side size k b).2 (L'.preOrderHook side size k (b.capture w)).2
  act_lost : ∀ ev (b : BackBroker α W), lost b.world → lost (L.act ev b).1
  hook_lost : ∀ side size k (b : BackBroker α W), lost b.world → lost (L.preOrderHook side size k b).2

namespace BackBroker
variable {L L' : Listener α W} {lost : W → Prop} {S : W → W → Prop} {D : Nat → Prop}

theorem stays_lost {h : Hooks α W} (horder : ∀ o (b : BackBroker α W), lost b.world → lost (h.orderNotify o b).world)
    (htrade : ∀ t s (b : BackBroker α W), lost b.world → lost (h.tradeNotify t s b).world)
    (hhook : ∀ side size k (b : BackBroker α W), lost b.world → lost (h.preOrderHook side size k b).2) :
    Stays h fun b : BackBroker α W => lost b.world where
  frame _ hw hl := by rw [hw]; exact hl
  order o b hl := horder o b hl
  hook side size k b hl := hhook side size k b hl
  book feed bar i o price b hl := by
    rcases book_factor feed bar b i o price with ⟨b2, hw, -, -, h2⟩ | ⟨t, orig, b1, G, hw, -, -, hG, -, h1⟩
    · rw [show b.book h feed bar i o price = b2.capture b.world from h2 h feed b.world rfl]
      exact hl
    · rw [show b.book h feed bar i o price = _ from h1 h feed b.world rfl, (hG _).1]
      exact htrade t orig (b1.capture b.world) hl

section
variable (hA : L.Agree L' lost S D)
include hA

/-- What is lost stays lost in every callback. -/
theorem react_lost : ∀ n ev (b : BackBroker α W), lost b.world → lost (L.react n ev b).world
  | 0, _, _, hl => hl
  | n + 1, ev, b, hl => by
    have hact := hA.act_lost ev b hl
    unfold Listener.react
    split
    · rename_i world heq
      rwa [heq] at hact
    · rename_i world c heq
      rw [heq] at hact
      have hS : Stays (L.hooksOf (L.react n)) fun b : BackBroker α W => lost b.world :=
        stays_lost (fun o b => react_lost n (.order o) b) (fun t s b => react_lost n (.trade t s) b) hA.hook_lost
      exact react_lost n ev _ (hS.exec c (b := { b with world }) hact)

theorem stays_hooks (n : Nat) : Stays (L.hooksOf (L.react n)) fun b : BackBroker α W => lost b.world :=
  stays_lost (fun o b => react_lost hA n (.order o) b) (fun t s b => react_lost hA n (.trade t s) b) hA.hook_lost

variable (hflat : Arith.abs (0 : α) < 1e-10)
include hflat

/-- Hooks whose callbacks agree keep two brokers together. -/
theorem lockstep_of_react {n : Nat}
    (hreact : ∀ ev {b b' : BackBroker α W}, Agreed lost S D b b' → Agreed lost S D (L.react n ev b) (L'.react n ev b')) :
    Lockstep (L.hooksOf (L.react n)) (L'.hooksOf (L'.react n)) D (fun b => lost b.world) (Agreed lost S D) where
  stays := stays_hooks hA n
  ofLost := .inl
  capture hR := hR.imp id And.left
  frame {b b' b1} hR hs hw := by
    rcases hR with hl | ⟨-, hS, hopen⟩
    · exact .inl (hw ▸ hl)
    · exact .inr ⟨rfl, hw ▸ hS, hopen.same hflat hs⟩
  order o b b' hR := hreact (.order o) hR
  indexed o b := react_indexed L n (.order o) b
  hook side size k b b' hR := by
    by_cases hl : lost b.world
    · exact ⟨.inl (hA.hook_lost side size k b hl), .inl (hA.hook_lost side size k b hl)⟩
    obtain ⟨heq, hS, hopen⟩ := hR.resolve_left hl
    rcases hA.hook side size k b b'.world hl hS hopen with hlost | ⟨hfst, hsnd⟩
    · exact ⟨.inl hlost, .inl hlost⟩
    · rw [← heq] at hfst hsnd
      refine ⟨.inr hfst, .inr ⟨?_, hsnd, hopen⟩⟩
      show b'.capture (L'.preOrderHook side size k b').2 = b.capture (L'.preOrderHook side size k b').2
      generalize (L'.preOrderHook side size k b').2 = w
      rw [heq]
      rfl
  book feed feed' bar i o price b b' hR hidx hD := by
    rcases hR with hl | ⟨heq, hS, hopen⟩
    · exact .inl ((stays_hooks hA n).book feed bar i o price hl)
    have hafter : ∀ x : BackBroker α W, x.positions = b.filled o price → x.OpenOn D := fun x hp => by
      unfold OpenOn
      rw [hp]
      exact hopen.update hflat hD _ _
    rcases book_factor feed bar b i o price with ⟨b2, hw, hp, -, h2⟩ | ⟨t, orig, b1, G, hw, hp, -, hG, hGw, h1⟩
    · rw [show b.book _ feed bar i o price = b2.capture b.world from h2 _ feed b.world rfl, heq, h2 _ feed' _ hidx]
      exact .inr ⟨rfl, hS, hafter b2 hp⟩
    · rw [show b.book _ feed bar i o price = _ from h1 _ feed b.world rfl, heq, h1 _ feed' _ hidx]
      have hR1 : Agreed lost S D (b1.capture b.world) (b1.capture b'.world) := .inr ⟨rfl, hS, hafter b1 hp⟩
      rcases hreact (.trade t orig) hR1 with hl | ⟨heq', hS', hopen'⟩
      · exact .inl (by rw [(hG _).1]; exact hl)
      · refine .inr ⟨(congrArg G heq').trans ((hGw _ _).trans ?_), ?_, ?_⟩
        · rw [(hG _).1]
          rfl
        · rw [(hG _).1, (hG _).1]
          exact hS'
        · unfold OpenOn
          rw [(hG _).2.1]
          exact hopen'

theorem react_agreed : ∀ n ev {b b' : BackBroker α W}, Agreed lost S D b b' →
    Agreed lost S D (L.react n ev b) (L'.react n ev b')
  | 0, _, _, _, hR => hR
  | n + 1, ev, b, b', hR => by
    by_cases hl : lost b.world
    · exact .inl (react_lost hA (n + 1) ev b hl)
    obtain ⟨heq, hS, hopen⟩ := hR.resolve_left hl
    rw [heq]
    obtain ⟨hcmd, hworld⟩ := hA.act ev b b'.world hl hS hopen
    have hL := lockstep_of_react hA hflat (n := n) fun ev _ _ => react_agreed n ev
    unfold Listener.react
    cases hact : L.act ev b with
    | mk world cmd =>
      cases hact' : L'.act ev (b.capture b'.world) with
      | mk world' cmd' =>
        rw [hact, hact'] at hcmd hworld
        obtain rfl : cmd' = cmd := hcmd
        cases cmd' with
        | none => exact .inr ⟨rfl, hworld, hopen⟩
        | some cmd =>
          have hR' : Agreed lost S D { b with world } { b with world := world' } := .inr ⟨rfl, hworld, hopen⟩
          exact react_agreed n ev (hL.exec hR' cmd)

/-- Listeners that agree keep two brokers together. -/
theorem lockstep_hooks (fuel : Nat) :
    Lockstep (L.hooks fuel) (L'.hooks fuel) D (fun b => lost b.world) (Agreed lost S D) :=
  lockstep_of_react hA hflat fun ev _ _ => react_agreed hA hflat fuel ev

end

end BackBroker

end StratForge
