import StratForge.Marks
import StratForge.OneOutcome

/-!
# What becomes of a shadow (`corrective/shadow_ledger.hpp`)

The ledger keeps its entries in one list, which every tick splits. Over a list of calls an entry is known by the place at
which it has been added; `Open` and `Settles` say of the calls alone when it is still there and which call settles it.
`run_settles`: each call puts out the records of the entries that it settles, in the order of their places, and what is
left is what is open. The bars of a record are 32 bits wide.
-/

namespace StratForge
variable {α : Type} [Arith α]

namespace ShadowLedger

/-! ### The calls -/

inductive Call (α : Type)
  | addShadow (entry : ShadowEntry α)
  | tick (feeds : List (DataFeed α))
  | flushCensored (feeds : List (DataFeed α))

def step (openShadows : List (ShadowEntry α)) : Call α → Except Error (List (OutcomeRecord α) × List (ShadowEntry α))
  | .addShadow entry => .ok ([], openShadows ++ [entry])
  | .tick feeds => tick feeds openShadows
  | .flushCensored feeds => do return (← flushCensored feeds openShadows, [])

/-- What the calls have put out, one after the other, and what is open. -/
def record (s : List (List (OutcomeRecord α)) × List (ShadowEntry α)) (call : Call α) :
    Except Error (List (List (OutcomeRecord α)) × List (ShadowEntry α)) := do
  let (results, openShadows) ← step s.2 call
  return (s.1 ++ [results], openShadows)

def run (calls : List (Call α)) : Except Error (List (List (OutcomeRecord α)) × List (ShadowEntry α)) :=
  calls.foldlM record ([], [])

def openCount (openShadows : List (ShadowEntry α)) : Nat := openShadows.length

/-! ### What the calls say -/

namespace Call

def isTick : Call α → Bool
  | .tick _ => true
  | _ => false

def isFlush : Call α → Bool
  | .flushCensored _ => true
  | _ => false

def entries : Call α → List (ShadowEntry α)
  | .addShadow entry => [entry]
  | _ => []

/-- The feeds that are read have bars. -/
def Readable : Call α → Prop
  | .addShadow _ => True
  | .tick feeds => ∀ f ∈ feeds, f.lines.data ≠ []
  | .flushCensored feeds => ∀ f ∈ feeds, f.lines.data ≠ []

end Call

/-- The entries that have been added, each with its place. -/
def added (calls : List (Call α)) : List (Nat × ShadowEntry α) :=
  calls.zipIdx.flatMap fun (call, i) => call.entries.map (i, ·)

def ticks (calls : List (Call α)) : Nat := calls.countP Call.isTick

/-- No flush since, and fewer ticks than the horizon. -/
def Open (calls : List (Call α)) (x : Nat × ShadowEntry α) : Prop :=
  (∀ call ∈ calls.drop (x.1 + 1), call.isFlush = false) ∧
    (x.2.horizonBars = 0 ∨ ticks (calls.drop (x.1 + 1)) < x.2.horizonBars)

instance (calls : List (Call α)) : DecidablePred (Open calls) := fun _ => inferInstanceAs (Decidable (_ ∧ _))

/-- The call at `j` finds the entry open and is a flush, or the tick that is its horizon. -/
def Settles (calls : List (Call α)) (j : Nat) (x : Nat × ShadowEntry α) : Prop :=
  x.1 < j ∧ Open (calls.take j) x ∧ calls[j]?.any (fun call =>
    call.isFlush || call.isTick && x.2.horizonBars == ticks ((calls.take j).drop (x.1 + 1)) + 1) = true

instance (calls : List (Call α)) (j : Nat) : DecidablePred (Settles calls j) := fun _ => inferInstanceAs (Decidable (_ ∧ _))

/-- The record of an entry that the call at `j` settles. -/
structure Outcome (calls : List (Call α)) (j : Nat) (x : Nat × ShadowEntry α) (r : OutcomeRecord α) : Prop where
  candidateId : r.candidateId = x.2.candidateId
  outcomeType : r.outcomeType = if calls[j]?.any Call.isTick then .kShadow else .kCensored
  holding : r.holdingIntervalBars = toUint32 (ticks ((calls.take (j + 1)).drop (x.1 + 1)))

/-! ### One call -/

/-- What a record says of its entry. -/
structure Records (type : OutcomeType) (s : ShadowEntry α) (r : OutcomeRecord α) : Prop where
  candidateId : r.candidateId = s.candidateId
  outcomeType : r.outcomeType = type
  holding : r.holdingIntervalBars = toUint32 s.barsHeld

omit [Arith α] in
theorem datetime_returns {f : DataFeed α} (h : f.lines.data ≠ []) : ∃ dt, f.datetime.at' 0 = .ok dt := by
  have hsome : f.datetime.current? ≠ none := fun hnone =>
    h (List.map_eq_nil_iff.1 (Line.current?_eq_none.1 hnone))
  rw [Line.at'_zero]
  cases hdt : f.datetime.current? with
  | none => exact absurd hdt hsome
  | some dt => exact ⟨dt, rfl⟩

omit [Arith α] in
theorem closeAt_returns {feeds : List (DataFeed α)} (hfeeds : ∀ f ∈ feeds, f.lines.data ≠ []) (k : Nat) (otherwise : α) :
    ∃ px, closeAt feeds k otherwise = .ok px := by
  unfold closeAt
  cases hf : feeds[k]? with
  | none => exact ⟨_, rfl⟩
  | some feed => exact BackBroker.close_returns_iff.2 (hfeeds feed (List.mem_of_getElem? hf))

omit [Arith α] in
theorem timestampAt_returns {feeds : List (DataFeed α)} (hfeeds : ∀ f ∈ feeds, f.lines.data ≠ []) (k : Nat) :
    ∃ ts, timestampAt feeds k = .ok ts := by
  unfold timestampAt
  cases hf : feeds[k]? with
  | none => exact ⟨_, rfl⟩
  | some feed =>
    obtain ⟨dt, hdt⟩ := datetime_returns (hfeeds feed (List.mem_of_getElem? hf))
    dsimp only
    rw [hdt]
    exact ⟨_, rfl⟩

theorem settle_records {feeds : List (DataFeed α)} (hfeeds : ∀ f ∈ feeds, f.lines.data ≠ []) (type : OutcomeType)
    (status : CompletionStatus) (label : α → Int) (s : ShadowEntry α) :
    ∃ r, s.settle type status label feeds = .ok r ∧ Records type s r := by
  obtain ⟨exit, hexit⟩ : ∃ px, s.exitPriceAt feeds = .ok px := closeAt_returns hfeeds _ _
  obtain ⟨ts, hts⟩ : ∃ ts, s.barTimestampNs feeds = .ok ts := timestampAt_returns hfeeds _
  unfold ShadowEntry.settle
  rw [hexit, hts]
  exact ⟨_, rfl, rfl, rfl, rfl⟩

/-- One bar more. -/
def bump (s : ShadowEntry α) : ShadowEntry α := { s with barsHeld := s.barsHeld + 1 }

def due (s : ShadowEntry α) : Bool := decide (0 < s.horizonBars ∧ s.horizonBars ≤ s.barsHeld)

/-- One turn of the loop of `tick`. -/
def turn (feeds : List (DataFeed α)) (x : List (OutcomeRecord α) × List (ShadowEntry α)) (s : ShadowEntry α) :
    Except Error (List (OutcomeRecord α) × List (ShadowEntry α)) :=
  if 0 < (bump s).horizonBars ∧ (bump s).horizonBars ≤ (bump s).barsHeld then
    do return (x.1 ++ [← (bump s).closeShadow feeds], x.2)
  else .ok (x.1, x.2 ++ [bump s])

theorem foldlM_turn {feeds : List (DataFeed α)} (hfeeds : ∀ f ∈ feeds, f.lines.data ≠ []) (ledger : List (ShadowEntry α))
    (x : List (OutcomeRecord α) × List (ShadowEntry α)) :
    ∃ rs, ledger.foldlM (turn feeds) x = .ok (x.1 ++ rs, x.2 ++ (ledger.map bump).filter fun s => !due s) ∧
      List.Forall₂ (Records .kShadow) ((ledger.map bump).filter due) rs := by
  induction ledger generalizing x with
  | nil => exact ⟨[], by simp; rfl, .nil⟩
  | cons s ledger ih =>
    rw [List.foldlM_cons, List.map_cons]
    by_cases hdue : 0 < (bump s).horizonBars ∧ (bump s).horizonBars ≤ (bump s).barsHeld
    · obtain ⟨r, hr, hrec⟩ := settle_records hfeeds .kShadow .kComplete (fun net => if 0 < net then 1 else 0) (bump s)
      have hturn : turn feeds x s = .ok (x.1 ++ [r], x.2) := by
        unfold turn ShadowEntry.closeShadow
        rw [if_pos hdue, hr]
        rfl
      obtain ⟨rs, hrs, hall⟩ := ih (x.1 ++ [r], x.2)
      have hd : due (bump s) = true := decide_eq_true hdue
      refine ⟨r :: rs, ?_, ?_⟩
      · rw [hturn]
        show ledger.foldlM (turn feeds) (x.1 ++ [r], x.2) = _
        simpa [hd] using hrs
      · simpa [hd] using ⟨hrec, hall⟩
    · obtain ⟨rs, hrs, hall⟩ := ih (x.1, x.2 ++ [bump s])
      have hd : due (bump s) = false := decide_eq_false hdue
      refine ⟨rs, ?_, ?_⟩
      · rw [show turn feeds x s = .ok (x.1, x.2 ++ [bump s]) from if_neg hdue]
        show ledger.foldlM (turn feeds) (x.1, x.2 ++ [bump s]) = _
        simpa [hd] using hrs
      · simpa [hd] using hall

/-- A tick splits the ledger, and keeps its order on both sides. -/
theorem tick_splits {feeds : List (DataFeed α)} (hfeeds : ∀ f ∈ feeds, f.lines.data ≠ []) (ledger : List (ShadowEntry α)) :
    ∃ rs, tick feeds ledger = .ok (rs, (ledger.map bump).filter fun s => !due s) ∧
      List.Forall₂ (Records .kShadow) ((ledger.map bump).filter due) rs :=
  foldlM_turn hfeeds ledger ([], [])

theorem flush_all {feeds : List (DataFeed α)} (hfeeds : ∀ f ∈ feeds, f.lines.data ≠ []) (ledger : List (ShadowEntry α)) :
    ∃ rs, flushCensored feeds ledger = .ok rs ∧ List.Forall₂ (Records .kCensored) ledger rs := by
  have hsettle := settle_records hfeeds .kCensored .kCensored fun _ => -1
  obtain ⟨rs, hrs⟩ : ∃ rs, flushCensored feeds ledger = .ok rs :=
    Fold.mapM_returns fun s _ => (hsettle s).imp fun _ h => h.1
  refine ⟨rs, hrs, (Fold.mapM_ok hrs).imp fun s r hr => ?_⟩
  obtain ⟨r', hr', hrec⟩ := hsettle s
  rw [show s.censorShadow feeds = .ok r' from hr', Except.ok.injEq] at hr
  exact hr ▸ hrec

/-! ### A call more -/

section
variable {calls : List (Call α)} {call : Call α} {x : Nat × ShadowEntry α}

omit [Arith α] in
theorem added_concat : added (calls ++ [call]) = added calls ++ call.entries.map (calls.length, ·) := by
  unfold added
  rw [List.zipIdx_append, List.flatMap_append]
  simp

omit [Arith α] in
theorem lt_of_mem_added (h : x ∈ added calls) : x.1 < calls.length := by
  obtain ⟨⟨c, i⟩, hci, hx⟩ := List.mem_flatMap.1 h
  obtain ⟨e, -, rfl⟩ := List.mem_map.1 hx
  have hi := (List.mem_zipIdx hci).2.1
  simpa using hi

omit [Arith α] in
theorem ticks_concat : ticks (calls ++ [call]) = ticks calls + if call.isTick then 1 else 0 := by
  unfold ticks
  rw [List.countP_append, List.countP_singleton]

omit [Arith α] in
theorem since_concat (h : x.1 < calls.length) : (calls ++ [call]).drop (x.1 + 1) = calls.drop (x.1 + 1) ++ [call] :=
  List.drop_append_of_le_length h

omit [Arith α] in
theorem open_concat_iff (h : x.1 < calls.length) : Open (calls ++ [call]) x ↔
    Open calls x ∧ call.isFlush = false ∧
      (call.isTick = true → x.2.horizonBars ≠ ticks (calls.drop (x.1 + 1)) + 1) := by
  unfold Open
  rw [since_concat h, ticks_concat, List.forall_mem_append]
  cases call with
  | addShadow e => simp [Call.isFlush, Call.isTick]
  | tick feeds =>
    simp only [Call.isFlush, Call.isTick, List.forall_mem_singleton, if_true, and_true, true_and, forall_const]
    rw [and_assoc]
    refine and_congr_right fun _ => ?_
    omega
  | flushCensored feeds => simp [Call.isFlush]

omit [Arith α] in
/-- What has been added now is open. -/
theorem open_added (e : ShadowEntry α) : Open (calls ++ [call]) (calls.length, e) := by
  unfold Open
  rw [List.drop_of_length_le (by simp)]
  refine ⟨List.forall_mem_nil _, ?_⟩
  show _ ∨ 0 < _
  omega

omit [Arith α] in
theorem settles_concat_iff (h : x.1 < calls.length) {j : Nat} : Settles (calls ++ [call]) j x ↔
    Settles calls j x ∨ j = calls.length ∧ Open calls x ∧ ¬ Open (calls ++ [call]) x := by
  rw [open_concat_iff h]
  unfold Settles
  rcases lt_trichotomy j calls.length with hj | rfl | hj
  · rw [List.take_append_of_le_length hj.le, List.getElem?_append_left hj]
    simp [hj.ne]
  · have hlast : (calls ++ [call])[calls.length]? = some call := by simp
    rw [List.take_left, hlast, List.getElem?_eq_none le_rfl]
    simp only [Option.any_some, Option.any_none, Bool.false_eq_true, and_false, false_or, true_and, h]
    refine and_congr_right fun hopen => ?_
    cases call <;> simp [Call.isFlush, Call.isTick, hopen]
  · rw [List.getElem?_eq_none (by simp; omega), List.getElem?_eq_none hj.le]
    simp [hj.ne']

omit [Arith α] in
/-- What the new call settles. -/
theorem settled_now : (added (calls ++ [call])).filter (Settles (calls ++ [call]) calls.length) =
    (added calls).filter fun x => Open calls x ∧ ¬ Open (calls ++ [call]) x := by
  have hnew : (call.entries.map (calls.length, ·)).filter (Settles (calls ++ [call]) calls.length) = [] := by
    refine List.filter_eq_nil_iff.2 fun x hx => ?_
    obtain ⟨e, -, rfl⟩ := List.mem_map.1 hx
    simp [Settles]
  rw [added_concat, List.filter_append, hnew, List.append_nil]
  refine List.filter_congr fun x hx => decide_eq_decide.2 ?_
  have hnone : ¬ Settles calls calls.length x := by simp [Settles]
  rw [settles_concat_iff (lt_of_mem_added hx)]
  simp [hnone]

omit [Arith α] in
theorem settled_before {j : Nat} (hj : j < calls.length) :
    (added (calls ++ [call])).filter (Settles (calls ++ [call]) j) = (added calls).filter (Settles calls j) := by
  have hnew : (call.entries.map (calls.length, ·)).filter (Settles (calls ++ [call]) j) = [] := by
    refine List.filter_eq_nil_iff.2 fun x hx => ?_
    obtain ⟨e, -, rfl⟩ := List.mem_map.1 hx
    have hlate : ¬ Settles (calls ++ [call]) j (calls.length, e) := fun hs => absurd hs.1 hj.not_gt
    simpa using hlate
  rw [added_concat, List.filter_append, hnew, List.append_nil]
  refine List.filter_congr fun x hx => decide_eq_decide.2 ?_
  rw [settles_concat_iff (lt_of_mem_added hx)]
  simp [hj.ne]

omit [Arith α] in
theorem open_now : (added (calls ++ [call])).filter (Open (calls ++ [call])) =
    (added calls).filter (Open (calls ++ [call])) ++ call.entries.map (calls.length, ·) := by
  rw [added_concat, List.filter_append]
  congr 1
  refine List.filter_eq_self.2 fun x hx => ?_
  obtain ⟨e, -, rfl⟩ := List.mem_map.1 hx
  exact decide_eq_true (open_added e)

/-- An entry as the ledger has it. -/
def aged (calls : List (Call α)) (x : Nat × ShadowEntry α) : ShadowEntry α :=
  { x.2 with barsHeld := ticks (calls.drop (x.1 + 1)) }

omit [Arith α] in
theorem aged_concat (h : x.1 < calls.length) :
    aged (calls ++ [call]) x = if call.isTick then bump (aged calls x) else aged calls x := by
  unfold aged
  rw [since_concat h, ticks_concat]
  split_ifs <;> rfl

omit [Arith α] in
theorem Records.outcome {type : OutcomeType} {r : OutcomeRecord α} (h : Records type (aged (calls ++ [call]) x) r)
    (htype : type = if call.isTick then .kShadow else .kCensored) : Outcome (calls ++ [call]) calls.length x r := by
  have hlast : (calls ++ [call])[calls.length]? = some call := by simp
  refine ⟨h.candidateId, ?_, ?_⟩
  · rw [hlast, h.outcomeType, htype]
    rfl
  · rw [List.take_of_length_le (by simp), h.holding]
    rfl

/-! ### Every call -/

/-- What the calls so far have put out and left. -/
structure Follows (calls : List (Call α)) (outputs : List (List (OutcomeRecord α))) (ledger : List (ShadowEntry α)) :
    Prop where
  length : outputs.length = calls.length
  outcomes : ∀ (j : Nat) (rs : List (OutcomeRecord α)), outputs[j]? = some rs →
    List.Forall₂ (Outcome calls j) ((added calls).filter (Settles calls j)) rs
  ledger : ledger = ((added calls).filter (Open calls)).map (aged calls)

variable {outputs : List (List (OutcomeRecord α))} {ledger ledger' : List (ShadowEntry α)} {rs : List (OutcomeRecord α)}

omit [Arith α] in
/-- The new call is the only one to say anything new. -/
theorem Follows.concat (h : Follows calls outputs ledger)
    (hrs : List.Forall₂ (Outcome (calls ++ [call]) calls.length)
      ((added calls).filter fun x => Open calls x ∧ ¬ Open (calls ++ [call]) x) rs)
    (hledger : ledger' = ((added (calls ++ [call])).filter (Open (calls ++ [call]))).map (aged (calls ++ [call]))) :
    Follows (calls ++ [call]) (outputs ++ [rs]) ledger' := by
  refine ⟨by simp [h.length], fun j rs' hj => ?_, hledger⟩
  rcases lt_trichotomy j calls.length with hlt | rfl | hgt
  · rw [List.getElem?_append_left (h.length ▸ hlt)] at hj
    rw [settled_before hlt]
    refine (h.outcomes j rs' hj).imp fun x r hr => ⟨hr.candidateId, ?_, ?_⟩
    · rw [List.getElem?_append_left hlt]
      exact hr.outcomeType
    · rw [List.take_append_of_le_length hlt]
      exact hr.holding
  · rw [← h.length, List.getElem?_append_right le_rfl, Nat.sub_self] at hj
    cases hj
    rw [settled_now]
    exact hrs
  · rw [List.getElem?_eq_none (by simp [h.length]; omega)] at hj
    cases hj

theorem step_follows (h : Follows calls outputs ledger) (hfeeds : call.Readable)
    (hfresh : ∀ e ∈ call.entries, e.barsHeld = 0) :
    ∃ rs ledger', step ledger call = .ok (rs, ledger') ∧ Follows (calls ++ [call]) (outputs ++ [rs]) ledger' := by
  have hkept : ∀ x ∈ added calls, x.1 < calls.length := fun x hx => lt_of_mem_added hx
  cases call with
  | addShadow e =>
    refine ⟨[], ledger ++ [e], rfl, h.concat ?_ ?_⟩
    · have hnone : (added calls).filter (fun x => Open calls x ∧ ¬ Open (calls ++ [Call.addShadow e]) x) = [] := by
        refine List.filter_eq_nil_iff.2 fun x hx => ?_
        simp [open_concat_iff (hkept x hx), Call.isFlush, Call.isTick]
      rw [hnone]
      exact .nil
    · have hopen : (added calls).filter (Open (calls ++ [Call.addShadow e])) = (added calls).filter (Open calls) := by
        refine List.filter_congr fun x hx => decide_eq_decide.2 ?_
        rw [open_concat_iff (hkept x hx)]
        simp [Call.isFlush, Call.isTick]
      have hnew : aged (calls ++ [Call.addShadow e]) (calls.length, e) = e := by
        unfold aged
        rw [List.drop_of_length_le (by simp)]
        show { e with barsHeld := 0 } = e
        rw [← hfresh e (List.mem_singleton.2 rfl)]
      rw [open_now, hopen, List.map_append, h.ledger]
      refine congrArg₂ (· ++ ·) (List.map_congr_left fun x hx => ?_) (congrArg (fun s => [s]) hnew.symm)
      rw [aged_concat (hkept x (List.mem_filter.1 hx).1)]
      rfl
  | tick feeds =>
    obtain ⟨rs, htick, hall⟩ := tick_splits hfeeds ledger
    have hbump : ledger.map bump = ((added calls).filter (Open calls)).map (aged (calls ++ [Call.tick feeds])) := by
      rw [h.ledger, List.map_map]
      refine List.map_congr_left fun x hx => ?_
      rw [aged_concat (hkept x (List.mem_filter.1 hx).1)]
      rfl
    have hdue : ∀ x ∈ added calls, Open calls x →
        due (aged (calls ++ [Call.tick feeds]) x) = decide (¬ Open (calls ++ [Call.tick feeds]) x) := by
      intro x hx hopen
      refine decide_eq_decide.2 ?_
      rw [open_concat_iff (hkept x hx), aged_concat (hkept x hx)]
      have hhorizon := hopen.2
      simp [bump, aged, Call.isTick, Call.isFlush, hopen]
      omega
    refine ⟨rs, _, htick, h.concat ?_ ?_⟩
    · have hfilter : ((added calls).filter (Open calls)).filter (due ∘ aged (calls ++ [Call.tick feeds])) =
          (added calls).filter fun x => Open calls x ∧ ¬ Open (calls ++ [Call.tick feeds]) x := by
        rw [List.filter_filter]
        refine List.filter_congr fun x hx => ?_
        by_cases hopen : Open calls x
        · simp [hopen, hdue x hx hopen]
        · simp [hopen]
      rw [hbump, List.filter_map, hfilter, List.forall₂_map_left_iff] at hall
      exact hall.imp fun x r hr => hr.outcome rfl
    · have hfilter : ((added calls).filter (Open calls)).filter ((fun s => !due s) ∘ aged (calls ++ [Call.tick feeds])) =
          (added calls).filter (Open (calls ++ [Call.tick feeds])) := by
        rw [List.filter_filter]
        refine List.filter_congr fun x hx => ?_
        by_cases hopen : Open calls x
        · simp [hopen, hdue x hx hopen]
        · have hnow : ¬ Open (calls ++ [Call.tick feeds]) x := fun hnow =>
            hopen ((open_concat_iff (hkept x hx)).1 hnow).1
          simp [hopen, hnow]
      rw [open_now, hbump, List.filter_map, hfilter]
      exact congrArg _ (List.append_nil _).symm
  | flushCensored feeds =>
    obtain ⟨rs, hflush, hall⟩ := flush_all hfeeds ledger
    have hnone : ∀ x ∈ added calls, ¬ Open (calls ++ [Call.flushCensored feeds]) x := by
      intro x hx hopen
      exact absurd ((open_concat_iff (hkept x hx)).1 hopen).2.1 Bool.noConfusion
    refine ⟨rs, [], ?_, h.concat ?_ ?_⟩
    · show (do return (← flushCensored feeds ledger, []) : Except Error _) = _
      rw [hflush]
      rfl
    · have hfilter : (added calls).filter (Open calls) =
          (added calls).filter fun x => Open calls x ∧ ¬ Open (calls ++ [Call.flushCensored feeds]) x :=
        List.filter_congr fun x hx => decide_eq_decide.2 ⟨fun hopen => ⟨hopen, hnone x hx⟩, And.left⟩
      have hledger : ledger =
          ((added calls).filter (Open calls)).map (aged (calls ++ [Call.flushCensored feeds])) := by
        rw [h.ledger]
        refine List.map_congr_left fun x hx => ?_
        rw [aged_concat (hkept x (List.mem_filter.1 hx).1)]
        rfl
      rw [hledger, hfilter, List.forall₂_map_left_iff] at hall
      exact hall.imp fun x r hr => hr.outcome rfl
    · rw [open_now, List.filter_eq_nil_iff.2 fun x hx => by simpa using hnone x hx]
      rfl

/-- Every call is answered, and the ledger is what the calls say. -/
theorem run_follows (calls : List (Call α)) (hfeeds : ∀ call ∈ calls, call.Readable)
    (hfresh : ∀ call ∈ calls, ∀ e ∈ call.entries, e.barsHeld = 0) :
    ∃ outputs ledger, run calls = .ok (outputs, ledger) ∧ Follows calls outputs ledger := by
  induction calls using List.reverseRecOn with
  | nil => exact ⟨[], [], rfl, rfl, nofun, rfl⟩
  | append_singleton calls call ih =>
    obtain ⟨outputs, ledger, hrun, h⟩ := ih (fun c hc => hfeeds c (List.mem_append_left _ hc))
      fun c hc => hfresh c (List.mem_append_left _ hc)
    obtain ⟨rs, ledger', hstep, h'⟩ := step_follows h (hfeeds call (by simp)) (hfresh call (by simp))
    refine ⟨_, _, ?_, h'⟩
    unfold run at hrun ⊢
    have hlast : record (outputs, ledger) call = .ok (outputs ++ [rs], ledger') := by
      unfold record
      rw [hstep]
      rfl
    rw [List.foldlM_append, hrun]
    show [call].foldlM record (outputs, ledger) = _
    rw [List.foldlM_cons, hlast]
    rfl

omit [Arith α] in
/-- An entry that is no longer open has been settled by one call. -/
theorem settled_once (calls : List (Call α)) : ∀ x ∈ added calls,
    Open calls x ∧ (∀ j, ¬ Settles calls j x) ∨ ¬ Open calls x ∧ ∃! j, Settles calls j x := by
  induction calls using List.reverseRecOn with
  | nil => exact fun x hx => absurd hx List.not_mem_nil
  | append_singleton calls call ih =>
    intro x hx
    rw [added_concat] at hx
    rcases List.mem_append.1 hx with hx | hx
    · have hlt := lt_of_mem_added hx
      rcases ih x hx with ⟨hopen, hnone⟩ | ⟨hclosed, j, hj, hunique⟩
      · by_cases hnow : Open (calls ++ [call]) x
        · refine Or.inl ⟨hnow, fun j hs => ?_⟩
          rcases (settles_concat_iff hlt).1 hs with hs | ⟨-, -, hs⟩
          · exact hnone j hs
          · exact hs hnow
        · refine Or.inr ⟨hnow, calls.length, (settles_concat_iff hlt).2 (Or.inr ⟨rfl, hopen, hnow⟩), fun j hs => ?_⟩
          rcases (settles_concat_iff hlt).1 hs with hs | ⟨hj, -⟩
          · exact absurd hs (hnone j)
          · exact hj
      · refine Or.inr ⟨fun hnow => hclosed ((open_concat_iff hlt).1 hnow).1, j,
          (settles_concat_iff hlt).2 (Or.inl hj), fun j' hs => ?_⟩
        rcases (settles_concat_iff hlt).1 hs with hs | ⟨-, hopen, -⟩
        · exact hunique j' hs
        · exact absurd hopen hclosed
    · obtain ⟨e, -, rfl⟩ := List.mem_map.1 hx
      refine Or.inl ⟨open_added e, fun j hs => ?_⟩
      obtain ⟨hlt, -, hcall⟩ := hs
      have hnone : (calls ++ [call])[j]? = none := List.getElem?_eq_none (by simp; omega)
      rw [hnone] at hcall
      cases hcall

end

/-- Each entry is settled once, by the tick that is its horizon or by the flush that comes before, and the records of a
call come in the order in which their entries have been added. -/
theorem settled_on_time (calls : List (Call α)) (hfeeds : ∀ call ∈ calls, call.Readable)
    (hfresh : ∀ call ∈ calls, ∀ e ∈ call.entries, e.barsHeld = 0) :
    ∃ outputs ledger, run calls = .ok (outputs, ledger) ∧ outputs.length = calls.length ∧
      (∀ (j : Nat) (rs : List (OutcomeRecord α)), outputs[j]? = some rs →
        List.Forall₂ (Outcome calls j) ((added calls).filter (Settles calls j)) rs) ∧
      (∀ x ∈ added calls,
        Open calls x ∧ (∀ j, ¬ Settles calls j x) ∨ ¬ Open calls x ∧ ∃! j, Settles calls j x) ∧
      openCount ledger = ((added calls).filter (Open calls)).length := by
  obtain ⟨outputs, ledger, hrun, h⟩ := run_follows calls hfeeds hfresh
  refine ⟨outputs, ledger, hrun, h.length, h.outcomes, settled_once calls, ?_⟩
  unfold openCount
  rw [h.ledger, List.length_map]

/-- A shadow without limit, and a feed of one bar. -/
def unlimited : ShadowEntry ℚ :=
  { candidateId := 1, dataIndex := 0, entryPrice := 1, size := 1, entryTimestampNs := 0, commissionPerSide := 0
    horizonBars := 0 }

def oneBar : List (DataFeed ℚ) := [.timed ⟨.Minutes, 1⟩ [0]]

/-- One shadow lives for a tick, the other until the flush. -/
def twoShadows : List (Call ℚ) :=
  [.addShadow unlimited, .addShadow { unlimited with candidateId := 2, horizonBars := 1 }, .tick oneBar,
    .flushCensored oneBar]

theorem settled_on_time_two :
    (added twoShadows).filter (Settles twoShadows 2) = [(1, { unlimited with candidateId := 2, horizonBars := 1 })] ∧
      (added twoShadows).filter (Settles twoShadows 3) = [(0, unlimited)] ∧
      ∃ outputs ledger, run twoShadows = .ok (outputs, ledger) ∧ outputs.length = 4 ∧
        openCount ledger = ((added twoShadows).filter (Open twoShadows)).length := by
  obtain ⟨outputs, ledger, hrun, hlen, -, -, hopen⟩ := settled_on_time twoShadows
    (by simp [twoShadows, Call.Readable, oneBar, DataFeed.timed])
    (by simp [twoShadows, Call.entries, unlimited])
  exact ⟨by decide +kernel, by decide +kernel, outputs, ledger, hrun, hlen, hopen⟩

/-- It is added, lives for `n` ticks and is flushed. -/
def living (n : Nat) : List (Call ℚ) := .addShadow unlimited :: (List.replicate n (.tick oneBar) ++ [.flushCensored oneBar])

theorem ticks_living (n : Nat) : ticks ((living n).drop 1) = n ∧ (living n).length = n + 2 := by
  constructor
  · show ticks (List.replicate n (Call.tick oneBar) ++ [Call.flushCensored oneBar]) = n
    rw [ticks_concat]
    unfold ticks
    rw [List.countP_replicate]
    rfl
  · simp [living]

theorem settles_living (n : Nat) : Settles (living n) (n + 1) (0, unlimited) := by
  have htake : (living n).take (n + 1) = .addShadow unlimited :: List.replicate n (.tick oneBar) := by
    unfold living
    rw [List.take_succ_cons, List.take_append_of_le_length (by simp), List.take_of_length_le (by simp)]
  have hlast : (living n)[n + 1]? = some (.flushCensored oneBar) := by
    unfold living
    rw [List.getElem?_cons_succ, List.getElem?_append_right (by simp)]
    simp
  refine ⟨Nat.succ_pos n, ⟨?_, Or.inl rfl⟩, ?_⟩
  · rw [htake]
    intro call hcall
    obtain ⟨-, rfl⟩ := List.mem_replicate.1 hcall
    rfl
  · rw [hlast]
    rfl

theorem toUint32_ticks : toUint32 (2 ^ 32) ≠ 2 ^ 32 := by decide

/-- After so many ticks that they do not fit into the record. -/
theorem not_settled_on_time : ¬ ∀ (calls : List (Call ℚ)), (∀ call ∈ calls, call.Readable) →
    (∀ call ∈ calls, ∀ e ∈ call.entries, e.barsHeld = 0) → ∃ outputs ledger, run calls = .ok (outputs, ledger) ∧
      ∀ (j : Nat) (rs : List (OutcomeRecord ℚ)), outputs[j]? = some rs →
        List.Forall₂ (fun x r => r.candidateId = x.2.candidateId ∧
          r.holdingIntervalBars = ticks ((calls.take (j + 1)).drop (x.1 + 1))) ((added calls).filter (Settles calls j)) rs := by
  obtain ⟨n, hn⟩ : ∃ n, toUint32 n ≠ n := ⟨_, toUint32_ticks⟩
  intro h
  have hbars : ∀ f ∈ oneBar, f.lines.data ≠ [] := by simp [oneBar, DataFeed.timed]
  have hfeeds : ∀ call ∈ living n, call.Readable := by
    intro call hcall
    rcases List.mem_cons.1 hcall with rfl | hcall
    · trivial
    · rcases List.mem_append.1 hcall with hcall | hcall
      · obtain ⟨-, rfl⟩ := List.mem_replicate.1 hcall
        exact hbars
      · obtain rfl := List.mem_singleton.1 hcall
        exact hbars
  have hfresh : ∀ call ∈ living n, ∀ e ∈ call.entries, e.barsHeld = 0 := by
    intro call hcall e he
    rcases List.mem_cons.1 hcall with rfl | hcall
    · obtain rfl := List.mem_singleton.1 he
      rfl
    · rcases List.mem_append.1 hcall with hcall | hcall
      · obtain ⟨-, rfl⟩ := List.mem_replicate.1 hcall
        cases he
      · obtain rfl := List.mem_singleton.1 hcall
        cases he
  obtain ⟨hticks, hlen⟩ := ticks_living n
  obtain ⟨outputs, ledger, hrun, hf⟩ := run_follows (living n) hfeeds hfresh
  obtain ⟨outputs', ledger', hrun', hclaim⟩ := h (living n) hfeeds hfresh
  rw [hrun] at hrun'
  cases hrun'
  obtain ⟨rs, hrs⟩ : ∃ rs, outputs[n + 1]? = some rs :=
    ⟨_, List.getElem?_eq_getElem (by rw [hf.length, hlen]; exact Nat.lt_succ_self _)⟩
  have hmem : (0, unlimited) ∈ (added (living n)).filter (Settles (living n) (n + 1)) := by
    refine List.mem_filter.2 ⟨?_, decide_eq_true (settles_living n)⟩
    simp [added, living, Call.entries]
  obtain ⟨i, hi⟩ := List.mem_iff_getElem?.1 hmem
  obtain ⟨r, hr, hcode⟩ := Fold.forall₂_get? (hf.outcomes _ rs hrs) hi
  obtain ⟨r', hr', -, hlived⟩ := Fold.forall₂_get? (hclaim _ rs hrs) hi
  rw [hr, Option.some.injEq] at hr'
  subst hr'
  have hcode := hcode.holding
  rw [List.take_of_length_le hlen.le] at hcode hlived
  rw [hcode, hticks] at hlived
  exact hn hlived

end ShadowLedger
end StratForge
