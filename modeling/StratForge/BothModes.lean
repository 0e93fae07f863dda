import StratForge.LiveFill
import StratForge.TradeBook

/-!
# One account for both modes

The backtest fills an order against a bar (`try_fill_order`), the live broker on a report of its connector
(`record_live_fill`): two ways to a fill, each with its own writes to cash, positions and trades. An `Account` is what
they write to, as a maintainer thinks of it, and `Account.post` what one fill is to it. Both brokers refine it, with
callbacks that submit and cancel in the middle of a fill: the account of a run is its fills posted one by one
(`Posts.run`, `livePosts_liveRun`). So a connector that reports what a backtest fills leaves the books of the
backtest (`modes_agree`), but for the bars and times that the trades are stamped with.
-/

namespace StratForge

/-- A fill of either mode. -/
structure Posting (α : Type) where
  dataIndex : Nat
  size : α
  price : α
  commission : α
  candidateId : Nat
deriving DecidableEq

/-- What fills are booked on. -/
structure Account (α : Type) where
  cash : Currency → α
  holding : Nat → Position α
  nextTradeId : Nat
  openTrades : List (Trade α × α)
  closedTrades : List (Trade α × α)

variable {α W : Type}

/-- The trade without the bars and times of its fills. -/
def Trade.unstamped (t : Trade α) : Trade α := { t with entryBar := 0, exitBar := 0, barlen := 0, entryTime := 0, exitTime := 0 }

namespace Account
variable [Arith α]

def openTrade (a : Account α) (k : Nat) (size price comm : α) (candidateId : Nat) : Account α :=
  { a with openTrades := a.openTrades ++ [((Trade.fresh a.nextTradeId k candidateId).update size price comm 0 0, size)],
           nextTradeId := a.nextTradeId + 1 }

def retireTrade (a : Account α) (i : Nat) (t : Trade α) (orig : α) : Account α :=
  { a with openTrades := a.openTrades.eraseIdx i, closedTrades := a.closedTrades ++ [(t, orig)] }

/-- A fill on the trades of its data index, whose position was `old` before it. -/
def trade (a : Account α) (old : α) (x : Posting α) : Account α :=
  let i := a.openTrades.findIdx fun (t, _) => t.dataIndex == x.dataIndex && t.isOpen
  if Arith.abs old < 1e-10 then a.openTrade x.dataIndex x.size x.price x.commission x.candidateId
  else if (0 < old ∧ 0 < x.size) ∨ (old < 0 ∧ x.size < 0) then
    { a with openTrades := a.openTrades.modify i fun (t, orig) => (t.update x.size x.price x.commission 0 0, orig + x.size) }
  else
    match a.openTrades[i]? with
    | none => a
    | some (t, orig) =>
      if Arith.abs t.size < Arith.abs x.size then
        let closeComm := Arith.abs t.size / Arith.abs x.size * x.commission
        (a.retireTrade i (t.update (-t.size) x.price closeComm 0 0) orig).openTrade x.dataIndex (x.size + t.size) x.price
          (x.commission - closeComm) x.candidateId
      else
        let t := t.update x.size x.price x.commission 0 0
        if t.isClosed then a.retireTrade i t orig else { a with openTrades := a.openTrades.set i (t, orig) }

/-- A fill pays its value and its commission, moves the position of its data index and then the trades there. -/
def post (s : BrokerSettings α) (a : Account α) (x : Posting α) : Account α :=
  let settle := s.settleCcy x.dataIndex
  let paid := { a with
    cash := fun c => if c = settle then a.cash c - (x.size * x.price + x.commission) else a.cash c,
    holding := fun k => if k = x.dataIndex then (a.holding k).update x.size x.price else a.holding k }
  paid.trade (a.holding x.dataIndex).size x

def postAll (s : BrokerSettings α) (a : Account α) (xs : List (Posting α)) : Account α := xs.foldl (post s) a

end Account

/-- The trades without their stamps. -/
def unstampedAll (trades : List (Trade α × α)) : List (Trade α × α) := trades.map fun x => (x.1.unstamped, x.2)

namespace Trade

@[simp] theorem unstamped_isClosed (t : Trade α) : t.unstamped.isClosed = t.isClosed := rfl

@[simp] theorem unstamped_size (t : Trade α) : t.unstamped.size = t.size := rfl

section
variable [Arith α] (t : Trade α) (old s p c : α) (bar : Nat) (dt : DateTime)

@[simp] theorem unstamped_fresh (id k cand : Nat) : (Trade.fresh (α := α) id k cand).unstamped = .fresh id k cand := rfl

theorem unstamped_stampEntry : (t.stampEntry old bar dt).unstamped = t.unstamped.stampEntry old 0 0 := by
  unfold stampEntry
  dsimp only
  split_ifs <;> rfl

theorem unstamped_flag : (t.flag old bar).unstamped = t.unstamped.flag old 0 := rfl

theorem unstamped_reprice : (t.reprice old s p).unstamped = t.unstamped.reprice old s p := by
  unfold reprice
  rw [unstamped_size]
  split_ifs <;> rfl

theorem unstamped_enterAt : (t.enterAt p).unstamped = t.unstamped.enterAt p := by
  unfold enterAt
  rw [show t.unstamped.justopened = t.justopened from rfl]
  split_ifs <;> rfl

theorem unstamped_finish : (t.finish p bar dt).unstamped = t.unstamped.finish p 0 0 := by
  unfold finish
  rw [show t.unstamped.isclosed = t.isclosed from rfl]
  split_ifs <;> rfl

/-- Nothing that a fill does to a trade depends on when it is. -/
theorem unstamped_update : (t.update s p c bar dt).unstamped = t.unstamped.update s p c 0 0 := by
  by_cases hs : Arith.abs s < 1e-10
  · rw [update_negligible t s p c bar dt hs, update_negligible _ s p c 0 0 hs]
  · rw [update_eq t s p c bar dt hs, update_eq _ s p c 0 0 hs, unstamped_finish, unstamped_enterAt]
    rw [show ∀ t : Trade α, t.settle.unstamped = t.unstamped.settle from fun _ => rfl, unstamped_reprice, unstamped_flag,
      unstamped_stampEntry]
    rfl

end

end Trade

/-! ### The account of a broker -/

namespace BackBroker

/-- The broker but for its trades. -/
def withTrades (b : BackBroker α W) (openTrades closedTrades : List (Trade α × α)) : BackBroker α W :=
  { b with openTrades, closedTrades }

variable [Arith α]

def account (b : BackBroker α W) : Account α :=
  { cash := b.cash, holding := b.holding, nextTradeId := b.nextTradeId, openTrades := unstampedAll b.openTrades,
    closedTrades := unstampedAll b.closedTrades }

variable {b b' : BackBroker α W} {h : Hooks α W}

theorem SameBooks.account (hs : SameBooks b b') : b'.account = b.account := by
  unfold BackBroker.account
  rw [hs.cash, funext hs.holding, hs.nextTradeId, hs.openTrades, hs.closedTrades]

theorem Quiet.account (hq : Quiet b b') : b'.account = b.account := hq.books.account

theorem account_openTrade (b : BackBroker α W) (x : Posting α) (bar : Nat) (dt : DateTime) :
    (b.openTrade x.dataIndex x.size x.price x.commission bar dt x.candidateId).account =
      b.account.openTrade x.dataIndex x.size x.price x.commission x.candidateId := by
  unfold BackBroker.openTrade Account.openTrade account unstampedAll
  simp [Trade.unstamped_update]
  rfl

/-- The trade callback, which finds the trade in both lists, leaves the account alone. -/
theorem account_retireTrade (i : Nat) (t : Trade α) (orig : α)
    (hq : ∀ os cs, Quiet (b.withTrades os cs) (h.tradeNotify t orig (b.withTrades os cs))) :
    (b.retireTrade h i t orig).account = b.account.retireTrade i t.unstamped orig := by
  have hsame := (hq (b.openTrades.set i (t, orig)) (b.closedTrades ++ [(t, orig)])).books
  have hhold : ∀ k, (b.retireTrade h i t orig).holding k = b.holding k := hsame.holding
  show Account.mk _ _ _ (unstampedAll ((h.tradeNotify t orig (b.withTrades _ _)).openTrades.eraseIdx i)) _ = _
  unfold account Account.retireTrade
  rw [funext hhold, show (b.retireTrade h i t orig).cash = b.cash from hsame.cash,
    show (b.retireTrade h i t orig).nextTradeId = b.nextTradeId from hsame.nextTradeId,
    show (b.retireTrade h i t orig).closedTrades = b.closedTrades ++ [(t, orig)] from hsame.closedTrades,
    hsame.openTrades]
  show Account.mk _ _ _ (unstampedAll ((b.openTrades.set i (t, orig)).eraseIdx i)) _ = _
  rw [List.eraseIdx_set_eq]
  unfold unstampedAll
  rw [← List.eraseIdx_map, List.map_append]
  rfl

theorem openTradeIdx_account (b : BackBroker α W) (k : Nat) :
    (b.account.openTrades.findIdx fun (t, _) => t.dataIndex == k && t.isOpen) = b.openTradeIdx k := by
  unfold account unstampedAll openTradeIdx
  rw [List.findIdx_map]
  rfl

theorem account_modify (b : BackBroker α W) (i : Nat) (x : Posting α) (bar : Nat) (dt : DateTime) :
    (b.withTrades (b.openTrades.modify i fun y => (y.1.update x.size x.price x.commission bar dt, y.2 + x.size))
      b.closedTrades).account = { b.account with openTrades := b.account.openTrades.modify i fun y =>
        (y.1.update x.size x.price x.commission 0 0, y.2 + x.size) } := by
  have hmap : ∀ l : List (Trade α × α),
      unstampedAll (l.modify i fun y => (y.1.update x.size x.price x.commission bar dt, y.2 + x.size)) =
      (unstampedAll l).modify i fun y => (y.1.update x.size x.price x.commission 0 0, y.2 + x.size) := by
    intro l
    unfold unstampedAll
    refine List.ext_getElem? fun j => ?_
    rw [List.getElem?_map, List.getElem?_modify, List.getElem?_modify, List.getElem?_map,
      Option.map_eq_map, Option.map_eq_map, Option.map_map, Option.map_map]
    refine congrArg (Option.map · l[j]?) (funext fun y => ?_)
    simp only [Function.comp_apply]
    split_ifs
    · rw [Trade.unstamped_update]
    · rfl
  exact congrArg (fun os => { b.account with openTrades := os }) (hmap b.openTrades)

/-- Either mode moves the trades as `Account.trade` does. -/
theorem account_updateTrades (old : α) (x : Posting α) (bar : Nat) (dt : DateTime)
    (hq : ∀ t orig os cs, Quiet (b.withTrades os cs) (h.tradeNotify t orig (b.withTrades os cs))) :
    (b.updateTrades h x.dataIndex old x.size x.price x.commission bar dt x.candidateId).account =
      b.account.trade old x := by
  unfold updateTrades Account.trade
  rw [openTradeIdx_account]
  dsimp only
  split_ifs with hnew hside
  · exact account_openTrade b x bar dt
  · exact account_modify b _ x bar dt
  · have hget : b.account.openTrades[b.openTradeIdx x.dataIndex]? =
        b.openTrades[b.openTradeIdx x.dataIndex]?.map fun x => (x.1.unstamped, x.2) := List.getElem?_map
    rw [hget]
    cases ht : b.openTrades[b.openTradeIdx x.dataIndex]? with
    | none => rfl
    | some y =>
      obtain ⟨t, orig⟩ := y
      dsimp only [Option.map_some]
      rw [Trade.unstamped_size, ← Trade.unstamped_update t _ _ _ bar dt, ← Trade.unstamped_update t _ _ _ bar dt,
        Trade.unstamped_isClosed]
      split_ifs with hflip hclosed
      · refine (account_openTrade _ { x with size := x.size + t.size, commission := _ } bar dt).trans ?_
        rw [account_retireTrade _ _ _ (hq _ _)]
      · exact account_retireTrade _ _ _ (hq _ _)
      · show Account.mk _ _ _ (unstampedAll (b.openTrades.set _ _)) _ = _
        unfold unstampedAll
        rw [List.map_set]
        rfl

/-- The position and the cash that a fill leaves to the trades. -/
def moved (b : BackBroker α W) (x : Posting α) : BackBroker α W :=
  ((b.pay (b.settleCcy x.dataIndex) (x.size * x.price + x.commission)).ensurePosition x.dataIndex).updatePosition
    x.dataIndex x.size x.price

theorem account_moved (b : BackBroker α W) (x : Posting α) : (b.moved x).account =
    { b.account with
      cash := fun c => if c = b.settleCcy x.dataIndex then b.cash c - (x.size * x.price + x.commission) else b.cash c,
      holding := fun k => if k = x.dataIndex then (b.holding k).update x.size x.price else b.holding k } := by
  have hhold : (b.moved x).holding = fun k => if k = x.dataIndex then (b.holding k).update x.size x.price else b.holding k :=
    funext fun k => holding_updatePosition (b.pay _ _) x.dataIndex x.size x.price k
  unfold account
  rw [hhold]
  rfl

theorem size_paid (b : BackBroker α W) (c : Currency) (amount : α) (k : Nat) :
    (((b.pay c amount).ensurePosition k).position k).size = (b.holding k).size := by
  rw [position_size]
  exact congrArg Position.size ((Quiet.ensurePosition (b.pay c amount) k).books.holding k)

/-- A fill of either mode is posted: the moves of cash and position, and what `update_trades` does after them. -/
theorem account_fill (b : BackBroker α W) {b₁ : BackBroker α W} (x : Posting α) (bar : Nat) (dt : DateTime)
    (hmoved : b₁.account = (b.moved x).account)
    (hq : ∀ t orig os cs, Quiet (b₁.withTrades os cs) (h.tradeNotify t orig (b₁.withTrades os cs))) :
    (b₁.updateTrades h x.dataIndex (b.holding x.dataIndex).size x.size x.price x.commission bar dt x.candidateId).account =
      b.account.post b.toBrokerSettings x := by
  rw [account_updateTrades _ x bar dt hq, hmoved, account_moved]
  rfl

/-- The account is what fills have made of the one that `b₀` had. -/
structure Posts (b₀ b : BackBroker α W) (xs : List (Posting α)) : Prop where
  settings : b.toBrokerSettings = b₀.toBrokerSettings
  account : b.account = b₀.account.postAll b₀.toBrokerSettings xs

namespace Posts
variable {b₀ : BackBroker α W} {xs : List (Posting α)} {x : Posting α}

theorem refl (b : BackBroker α W) : Posts b b [] := ⟨rfl, rfl⟩

theorem quiet (hp : Posts b₀ b xs) (hq : Quiet b b') : Posts b₀ b' xs :=
  ⟨hq.settings.trans hp.settings, hq.account.trans hp.account⟩

theorem post (hp : Posts b₀ b xs) (hs : b'.toBrokerSettings = b.toBrokerSettings)
    (ha : b'.account = b.account.post b.toBrokerSettings x) : Posts b₀ b' (xs ++ [x]) := by
  refine ⟨hs.trans hp.settings, ?_⟩
  rw [ha, hp.account, hp.settings]
  unfold Account.postAll
  rw [List.foldl_append]
  rfl

end Posts

end BackBroker

/-! ### The backtest -/

/-- What a fill of the backtest posts. -/
def Execution.posting (x : Execution α) : Posting α :=
  ⟨x.order.dataIndex, x.size, x.price, x.commission, x.order.candidateId⟩

namespace BackBroker
variable [Arith α]

theorem account_enter (b : BackBroker α W) {x : Execution α} (dt : DateTime) (hx : Booked b x) :
    (b.enter x dt).account = b.account.post b.toBrokerSettings x.posting := by
  unfold enter
  dsimp only
  rw [hx.currency, size_paid]
  exact account_fill b x.posting _ dt rfl fun _ _ _ _ => .refl _

theorem kept_posts (b₀ : BackBroker α W) : Kept fun b => Posts b₀ b (b.executions.map Execution.posting) where
  same b b' hs hp := by
    rw [hs.executions]
    exact ⟨hs.settings.trans hp.settings, hs.account.trans hp.account⟩
  enter b x dt hx hp := by
    rw [enter_executions, List.map_append]
    exact hp.post (b.enter_settings x dt) (b.account_enter dt hx)

/-- The account of a backtest is its fills, posted one by one. -/
theorem posts_run (L : Listener α W) (fuel : Nat) {b : BackBroker α W} (hf : b.Fresh) (ops : List (Op α)) :
    Posts b (b.run (L.hooks fuel) ops) ((b.run (L.hooks fuel) ops).executions.map Execution.posting) := by
  refine (kept_posts b).run (tame_hooks L fuel) ops ?_
  rw [show b.executions = [] by rw [executions, hf.journal]; rfl]
  exact .refl b

end BackBroker

/-! ### The live broker -/

namespace BackBroker
variable [Arith α] {h : LiveHooks α W} {b : BackBroker α (Live α W)} {o : Order α} {t : Trade α}

/-- What a report posts for its order, on the broker that receives it. -/
def livePosting (b : BackBroker α (Live α W)) (o : Order α) (t : Trade α) : Posting α :=
  ⟨o.dataIndex, t.size - b.bookedSize t.id, liveFillPrice (b.world.snapshots t.id) t, t.commission - b.bookedCommission t.id,
    o.candidateId⟩

/-- What a step of a session posts: a report of a known order, unless it adds nothing. -/
def livePost? (b : BackBroker α (Live α W)) (op : LiveOp α) : Option (Posting α) :=
  match op with
  | .fill t => (b.findOrder t.id).bind fun o => if b.Repeats t then none else some (b.livePosting o t)
  | _ => none

/-- What the reports of a session post, in their order. -/
def livePostings (h : LiveHooks α W) (b : BackBroker α (Live α W)) : List (LiveOp α) → List (Posting α)
  | [] => []
  | op :: ops => (b.livePost? op).toList ++ livePostings h (b.liveStep h op) ops

theorem account_liveBooked (hh : LiveTame h) (hn : b.Numbered) (o : Order α) (t : Trade α) :
    (b.liveBooked h o t).account = b.account.post b.toBrokerSettings (b.livePosting o t) := by
  let b₀ := b.liveNote (.booking o (b.world.snapshots t.id) t)
  let b₁ := b₀.setBusy (o.id :: b₀.world.busy)
  show (b₁.bookLive h o _ _ _ t).account = b₁.account.post b₁.toBrokerSettings (b.livePosting o t)
  unfold bookLive
  dsimp only
  rw [size_paid]
  refine account_fill b₁ (b.livePosting o t) _ _ rfl fun t' orig os cs => ?_
  have hn₁ : ((b₁.moved (b.livePosting o t)).withTrades os cs).Numbered := ⟨hn.pos, hn.nodup, hn.lt⟩
  exact (hh.trade t' orig _ hn₁).quiet

theorem account_liveClosed (b : BackBroker α (Live α W)) (o : Order α) (t : Trade α) (id : Nat) :
    (b.liveClosed o t id).account = b.account := by
  unfold liveClosed
  split_ifs <;> rfl

/-- A report that is not a repetition is posted, whatever the callbacks do in the middle of it. -/
theorem account_recordLiveFill (hh : LiveTame h) (hn : b.Numbered) (hf : b.findOrder t.id = some o) (hr : ¬ b.Repeats t) :
    (b.recordLiveFill h t).account = b.account.post b.toBrokerSettings (b.livePosting o t) := by
  let b₀ := b.liveNote (.booking o (b.world.snapshots t.id) t)
  have hn₁ : (b₀.setBusy (o.id :: b₀.world.busy)).Numbered := ⟨hn.pos, hn.nodup, hn.lt⟩
  obtain ⟨hbook, -⟩ := bookLive_spec hh hn₁ o (t.size - b.bookedSize t.id) (liveFillPrice (b.world.snapshots t.id) t)
    (t.commission - b.bookedCommission t.id) t
  obtain ⟨r, hfound, -⟩ := hbook.record t.id o hf
  have hnumbered : ((b.liveBooked h o t).syncBoth (b.liveRecord o r t)).Numbered :=
    (Numbered.syncOrder ⟨hbook.numbered.pos, hbook.numbered.nodup, hbook.numbered.lt⟩ _).of_ids rfl rfl
  rw [recordLiveFill_eq hf hr hfound, account_liveClosed]
  calc (b.liveHeard h o r t).account = ((b.liveBooked h o t).syncBoth (b.liveRecord o r t)).account :=
        (hh.order _ _ hnumbered).quiet.account
    _ = (b.liveBooked h o t).account := rfl
    _ = b.account.post b.toBrokerSettings (b.livePosting o t) := account_liveBooked hh hn o t

theorem Posts.liveStep {b₀ : BackBroker α (Live α W)} {xs : List (Posting α)} (hp : Posts b₀ b xs) (hh : LiveTame h)
    (hn : b.Numbered) (op : LiveOp α) : Posts b₀ (b.liveStep h op) (xs ++ (b.livePost? op).toList) := by
  rcases liveStep_cases hh hn op with ⟨c, rfl, hc⟩ | ⟨t, o, rfl, hf, hr, hfilled⟩ | ⟨t, o, rfl, hf, hr, heq⟩ |
    ⟨t, rfl, hf, heq⟩ | ⟨i, rfl, heq⟩
  · rw [show b.livePost? (.cmd c) = none from rfl, Option.toList_none, List.append_nil]
    exact hp.quiet hc.quiet
  · have hpost : b.livePost? (.fill t) = some (b.livePosting o t) := by
      unfold livePost?
      dsimp only
      rw [hf, Option.bind_some, if_neg hr]
    rw [hpost]
    exact hp.post hfilled.settings (account_recordLiveFill hh hn hf hr)
  · have hpost : b.livePost? (.fill t) = none := by
      unfold livePost?
      dsimp only
      rw [hf, Option.bind_some, if_pos hr]
    rw [hpost, Option.toList_none, List.append_nil, heq]
    exact ⟨hp.settings, hp.account⟩
  · have hpost : b.livePost? (.fill t) = none := by
      unfold livePost?
      dsimp only
      rw [hf, Option.bind_none]
    rw [hpost, Option.toList_none, List.append_nil, heq]
    exact hp
  · rw [show b.livePost? (.setBarIndex i) = none from rfl, Option.toList_none, List.append_nil, heq]
    exact ⟨hp.settings, hp.account⟩

/-- The account of a live session is its reports, posted one by one. -/
theorem posts_liveRun (hh : LiveTame h) (ops : List (LiveOp α)) :
    ∀ {b₀ b : BackBroker α (Live α W)} {xs : List (Posting α)}, Posts b₀ b xs → b.Numbered →
      Posts b₀ (b.liveRun h ops) (xs ++ b.livePostings h ops) := by
  induction ops with
  | nil =>
    intro b₀ b xs hp hn
    rw [livePostings, List.append_nil]
    exact hp
  | cons op ops ih =>
    intro b₀ b xs hp hn
    rw [livePostings, ← List.append_assoc]
    exact ih (hp.liveStep hh hn op) (liveStep_numbered hh hn op)

end BackBroker

/-! ### The agreement -/

section
variable [Arith α] {W' : Type}

/-- A live broker whose connector reports the fills of a backtest, in their order and however the session goes
otherwise, has the cash, the positions and the trades of the backtest. -/
theorem modes_agree (L : Listener α W) (fuel : Nat) {b : BackBroker α W} (hf : b.Fresh) (ops : List (Op α))
    (L' : LiveListener α W') (fuel' : Nat) {b' : BackBroker α (Live α W')} (hf' : b'.FreshLive) (ops' : List (LiveOp α))
    (hsettings : b'.toBrokerSettings = b.toBrokerSettings) (hcash : b'.cash = b.cash) (hid : b'.nextTradeId = b.nextTradeId)
    (hfills : b'.livePostings (L'.hooks fuel') ops' = (b.run (L.hooks fuel) ops).executions.map Execution.posting) :
    let back := b.run (L.hooks fuel) ops
    let live := b'.liveRun (L'.hooks fuel') ops'
    live.cash = back.cash ∧ (∀ k, live.holding k = back.holding k) ∧
    unstampedAll live.openTrades = unstampedAll back.openTrades ∧
    unstampedAll live.closedTrades = unstampedAll back.closedTrades := by
  intro back live
  have hstart : b'.account = b.account := by
    unfold BackBroker.account BackBroker.holding BackBroker.findPosition
    rw [hcash, hid, hf'.positions, hf.positions, hf'.openTrades, hf.openTrades, hf'.closedTrades, hf.closedTrades, hsettings]
  have hback := BackBroker.posts_run L fuel hf ops
  have hlive := BackBroker.posts_liveRun (L'.tame_hooks fuel') ops' (.refl b') (.of_fresh hf'.toFresh)
  rw [List.nil_append, hfills] at hlive
  have hsame : live.account = back.account := by
    rw [hlive.account, hback.account, hstart, hsettings]
  exact ⟨congrArg Account.cash hsame, congrFun (congrArg Account.holding hsame), congrArg Account.openTrades hsame,
    congrArg Account.closedTrades hsame⟩

end

/-- A position that is opened and reversed. -/
theorem modes_agree_reversal :
    let back := BackBroker.funded.run (Listener.silent.hooks 0) [.cmd (.buy 5 0 none .Market 0),
      .processOrders [.ofBar 10 11 9 10], .cmd (.sell 8 0 none .Market 0), .processOrders [.ofBar 12 13 11 12]]
    let live := BackBroker.liveFunded.liveRun (LiveListener.silent.hooks 0) [.cmd (.buy 5 0 none .Market 0),
      .fill (.ofFill 1 5 10 0), .cmd (.sell 8 0 none .Market 0), .setBarIndex 1, .fill (.ofFill 2 (-8) 12 0)]
    live.cash = back.cash ∧ (∀ k, live.holding k = back.holding k) ∧
    unstampedAll live.openTrades = unstampedAll back.openTrades ∧
    unstampedAll live.closedTrades = unstampedAll back.closedTrades :=
  modes_agree Listener.silent 0 (BackBroker.fresh_init ..) _ LiveListener.silent 0 BackBroker.freshLive_liveFunded _ rfl rfl rfl
    (by decide +kernel)

end StratForge
