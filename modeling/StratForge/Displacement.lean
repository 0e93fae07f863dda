import StratForge.DelayLine
import StratForge.Driven
import StratForge.InStep

/-!
# The displacements of Ichimoku (`indicators/ichimoku.hpp`)

The leading spans come out of ring buffers, which are delay lines (`DelayLine`). The lagging span is NaN on its own bar
and is written when the close that belongs there comes in. `ichimoku_displaced` says where every value ends up, whatever
the arithmetic.
-/

namespace StratForge
namespace Indicators
open Floating (nan isNaN)
open Access (readBack)
open DelayLine (delayed)

section
variable {α : Type} [Arith α] [Floating α]

namespace Ichimoku

/-- The indicator after the bars, from bar 0 on. -/
def overBars (m : Ichimoku α) (bars : List (Row α)) : Option (DataFeed α × Ichimoku α) :=
  Driven.run DataFeed.forwardRow (fun f m => m.next f.high f.low f.close) ({}, m) bars

/-- The value that a bar puts into the buffer of the span A. -/
def spanA (tenkanValue kijunValue : α) : α :=
  if !isNaN tenkanValue && !isNaN kijunValue then (tenkanValue + kijunValue) / 2.0 else nan

/-! ### Midpoints stay as they are -/

omit [Arith α] [Floating α] in
theorem readBack_append {v w : List α} {idx : Nat} (hidx : idx < v.length) : readBack (v ++ w) idx = readBack v idx := by
  funext i
  unfold readBack
  split_ifs with hi
  · exact List.getElem?_append_left (by omega)
  · rfl

variable {f : DataFeed α} {bar : Row α} {l : List α} {v : α} {i p : Nat}

omit [Arith α] [Floating α] in
theorem size_forwardRow : (f.forwardRow bar).size = f.size + 1 := by simp [DataFeed.forwardRow, Line.forward]

theorem midpointFrom_forwardRow (hi : i < f.size) :
    midpointFrom (f.forwardRow bar).high (f.forwardRow bar).low i p = midpointFrom f.high f.low i p := by
  rw [DataFeed.size_eq] at hi
  have hhigh : (f.forwardRow bar).high.data = f.high.data ++ [bar.high] := by
    simp [DataFeed.forwardRow, DataFeed.high, Line.forward, Line.map]
  have hlow : (f.forwardRow bar).low.data = f.low.data ++ [bar.low] := by
    simp [DataFeed.forwardRow, DataFeed.low, Line.forward, Line.map]
  have hlenHigh : i < f.high.data.length := by simpa [DataFeed.high, Line.map] using hi
  have hlenLow : i < f.low.data.length := by simpa [DataFeed.low, Line.map] using hi
  unfold midpointFrom midpoint
  rw [hhigh, hlow, List.getElem?_append_left hlenHigh, List.getElem?_append_left hlenLow, readBack_append hlenHigh,
    readBack_append hlenLow]

/-- The midpoints of all bars. -/
structure Computes (f : DataFeed α) (p : Nat) (l : List α) : Prop where
  length : l.length = f.size
  value : ∀ i < f.size, l[i]? = midpointFrom f.high f.low i p

theorem Computes.nil : Computes ({} : DataFeed α) p [] := ⟨rfl, fun _ h => absurd h (Nat.not_lt_zero _)⟩

theorem Computes.snoc (h : Computes f p l) (hv : midpointFrom (f.forwardRow bar).high (f.forwardRow bar).low f.size p = some v) :
    Computes (f.forwardRow bar) p (l ++ [v]) := by
  refine ⟨by rw [List.length_append, h.length, size_forwardRow]; rfl, fun i hi => ?_⟩
  rw [size_forwardRow] at hi
  rcases Nat.lt_succ_iff_lt_or_eq.1 hi with hlt | rfl
  · rw [List.getElem?_append_left (by rw [h.length]; exact hlt), midpointFrom_forwardRow hlt, h.value i hlt]
  · rw [hv, ← h.length, List.getElem?_concat_length]

/-! ### One bar -/

/-- After the bars of the feed. -/
structure Displaced (tenkan kijun senkou lead chikou : Nat) (f : DataFeed α) (m : Ichimoku α) : Prop where
  tenkanEq : m.tenkan = tenkan
  kijunEq : m.kijun = kijun
  senkouEq : m.senkou = senkou
  leadEq : m.senkouLead = lead
  chikouEq : m.chikou = chikou
  barCount : m.barCount = f.size
  saCursor : m.saCursor = f.size % lead
  sbCursor : m.sbCursor = f.size % lead
  line : Computes f tenkan m.line
  kijunSen : Computes f kijun m.kijunSen
  saBuf : DelayLine.Holds lead nan (List.zipWith spanA m.line m.kijunSen) m.senkouABuf
  senkouSpanA : m.senkouSpanA = (delayed lead nan (List.zipWith spanA m.line m.kijunSen)).take f.size
  sbBuf : ∃ mids, Computes f senkou mids ∧ DelayLine.Holds lead nan mids m.senkouBBuf ∧
    m.senkouSpanB = (delayed lead nan mids).take f.size
  chikouLength : m.chikouSpan.length = f.size
  chikouSpan : ∀ i < f.size, m.chikouSpan[i]? = if i + chikou < f.size then f.close.data[i + chikou]? else some nan

variable {m : Ichimoku α} {tenkan kijun senkou lead chikou : Nat}

theorem init_displaced : (init tenkan kijun senkou lead chikou : Ichimoku α).Displaced (if tenkan = 0 then 1 else tenkan)
    (if kijun = 0 then 1 else kijun) (if senkou = 0 then 1 else senkou) lead chikou {} where
  tenkanEq := rfl
  kijunEq := rfl
  senkouEq := rfl
  leadEq := rfl
  chikouEq := rfl
  barCount := rfl
  saCursor := (Nat.zero_mod lead).symm
  sbCursor := (Nat.zero_mod lead).symm
  line := .nil
  kijunSen := .nil
  saBuf := .start
  senkouSpanA := rfl
  sbBuf := ⟨[], .nil, .start, rfl⟩
  chikouLength := rfl
  chikouSpan := fun _ h => absurd h (Nat.not_lt_zero _)

omit [Arith α] [Floating α] in
theorem exchange_eq {buf : List α} {cursor : Nat} {pending y : α} (h : buf[cursor]? = some y) :
    exchange buf cursor pending = some (y, buf.set cursor pending) := by
  have hlt := (List.getElem?_eq_some_iff.1 h).1
  simp only [exchange, h, Access.write, if_pos hlt, Option.bind_eq_bind, Option.bind_some]
  rfl

/-- The close of the bar goes to its place, and the bar waits for a close itself. -/
theorem Displaced.shiftBack (h : m.Displaced tenkan kijun senkou lead chikou f) (hchikou : 0 < chikou) (bar : Row α) :
    ∃ span, m.shiftBack (f.forwardRow bar).close f.size = some span ∧ span.length = f.size + 1 ∧
      ∀ i < f.size + 1, span[i]? = if i + chikou < f.size + 1 then (f.forwardRow bar).close.data[i + chikou]? else some nan := by
  have hclose : (f.forwardRow bar).close.data = f.close.data ++ [bar.close] := by
    simp [DataFeed.forwardRow, DataFeed.close, Line.forward, Line.map]
  have hlen : f.close.data.length = f.size := rfl
  have hlast : (f.close.data ++ [bar.close])[f.size]? = some bar.close := by rw [← hlen, List.getElem?_concat_length]
  have hbefore : ∀ i, i + chikou < f.size → (f.close.data ++ [bar.close])[i + chikou]? = f.close.data[i + chikou]? := fun i hi =>
    List.getElem?_append_left (by rw [hlen]; exact hi)
  unfold Ichimoku.shiftBack
  rw [h.chikouEq, hclose]
  split_ifs with hearly
  · refine ⟨_, rfl, by rw [List.length_append, h.chikouLength]; rfl, fun i hi => ?_⟩
    rw [if_neg (show ¬ i + chikou < f.size + 1 by omega)]
    rcases Nat.lt_succ_iff_lt_or_eq.1 hi with hlt | rfl
    · rw [List.getElem?_append_left (by rw [h.chikouLength]; exact hlt), h.chikouSpan i hlt, if_neg (by omega)]
    · rw [← h.chikouLength, List.getElem?_concat_length]
  · have hwithin : f.size - chikou < m.chikouSpan.length := by
      rw [h.chikouLength]
      omega
    simp only [hlast, Access.write, if_pos hwithin, Option.bind_eq_bind, Option.bind_some]
    refine ⟨_, rfl, by rw [List.length_append, List.length_set, h.chikouLength]; rfl, fun i hi => ?_⟩
    rcases Nat.lt_succ_iff_lt_or_eq.1 hi with hlt | rfl
    · rw [List.getElem?_append_left (by rw [List.length_set, h.chikouLength]; exact hlt)]
      rcases Nat.lt_trichotomy (i + chikou) f.size with hin | hin | hin
      · rw [List.getElem?_set_ne (by omega), h.chikouSpan i hlt, if_pos hin, if_pos (by omega), hbefore i hin]
      · rw [if_pos (by omega), hin, hlast, show f.size - chikou = i by omega,
          List.getElem?_set_self (by rw [h.chikouLength]; exact hlt)]
      · rw [List.getElem?_set_ne (by omega), h.chikouSpan i hlt, if_neg (by omega), if_neg (by omega)]
    · rw [if_neg (by omega)]
      have hlength : (m.chikouSpan.set (f.size - chikou) bar.close).length = f.size := by rw [List.length_set, h.chikouLength]
      rw [List.getElem?_append_right hlength.le, hlength, Nat.sub_self]
      rfl

theorem Displaced.next (h : m.Displaced tenkan kijun senkou lead chikou f) (hlead : 0 < lead) (hchikou : 0 < chikou) (bar : Row α) :
    ∃ m', m.next (f.forwardRow bar).high (f.forwardRow bar).low (f.forwardRow bar).close = some m' ∧
      m'.Displaced tenkan kijun senkou lead chikou (f.forwardRow bar) := by
  have hmid : ∀ p, ∃ v, midpointFrom (f.forwardRow bar).high (f.forwardRow bar).low f.size p = some v := fun p =>
    Option.isSome_iff_exists.1 (midpointFrom_isSome.2 fun _ => by rw [size_forwardRow]; exact Nat.lt_succ_self _)
  obtain ⟨tenkanValue, ht⟩ := hmid tenkan
  obtain ⟨kijunValue, hk⟩ := hmid kijun
  obtain ⟨sbPending, hs⟩ := hmid senkou
  obtain ⟨mids, hmids, hsbBuf, hspanB⟩ := h.sbBuf
  have hlenA : (List.zipWith spanA m.line m.kijunSen).length = f.size := by
    rw [List.length_zipWith, h.line.length, h.kijunSen.length, Nat.min_self]
  have hzip : List.zipWith spanA (m.line ++ [tenkanValue]) (m.kijunSen ++ [kijunValue]) =
      List.zipWith spanA m.line m.kijunSen ++ [spanA tenkanValue kijunValue] :=
    List.zipWith_append (by rw [h.line.length, h.kijunSen.length])
  obtain ⟨sa, hsa, hsaOut, hsaBuf⟩ := h.saBuf.turn hlead (spanA tenkanValue kijunValue)
  obtain ⟨sb, hsb, hsbOut, hsbBuf'⟩ := hsbBuf.turn hlead sbPending
  obtain ⟨span, hspan, hspanLength, hspanValue⟩ := h.shiftBack hchikou bar
  have htakeA := DelayLine.take_succ (x := spanA tenkanValue kijunValue) hsaOut
  have htakeB := DelayLine.take_succ (x := sbPending) hsbOut
  rw [hlenA] at hsa hsaBuf htakeA
  rw [hmids.length] at hsb hsbBuf' htakeB
  have hsize : m.senkouLeadBufSize = lead := by
    rw [senkouLeadBufSize, h.leadEq, if_neg hlead.ne']
  have hcursor : (f.size % lead + 1) % lead = (f.forwardRow bar).size % lead := by
    rw [size_forwardRow]
    exact Nat.mod_add_mod f.size lead 1
  have hexchangeA : exchange m.senkouABuf (f.size % lead)
      (if !isNaN tenkanValue && !isNaN kijunValue then (tenkanValue + kijunValue) / 2.0 else nan) =
      some (sa, m.senkouABuf.set (f.size % lead) (spanA tenkanValue kijunValue)) := exchange_eq hsa
  unfold Ichimoku.next
  simp only [h.barCount, h.tenkanEq, h.kijunEq, h.senkouEq, h.saCursor, h.sbCursor, ht, hk, hs, hexchangeA, exchange_eq hsb, hspan,
    hsize, hcursor, Option.bind_eq_bind, Option.bind_some]
  refine ⟨_, rfl, { h with
    tenkanEq := rfl
    kijunEq := rfl
    senkouEq := rfl
    barCount := size_forwardRow.symm
    saCursor := rfl
    sbCursor := rfl
    line := h.line.snoc ht
    kijunSen := h.kijunSen.snoc hk
    saBuf := ?_
    senkouSpanA := ?_
    sbBuf := ⟨mids ++ [sbPending], hmids.snoc hs, hsbBuf', ?_⟩
    chikouLength := hspanLength.trans size_forwardRow.symm
    chikouSpan := ?_ }⟩
  · rw [hzip]
    exact hsaBuf
  · rw [hzip, size_forwardRow, htakeA, ← h.senkouSpanA]
  · rw [size_forwardRow, htakeB, ← hspanB]
  · rw [size_forwardRow]
    exact hspanValue

/-! ### All bars -/

theorem overBars_displaced (tenkan kijun senkou : Nat) (hlead : 0 < lead) (hchikou : 0 < chikou) (bars : List (Row α)) :
    ∃ f m, overBars (init tenkan kijun senkou lead chikou) bars = some (f, m) ∧ f.lines.data = bars ∧
      m.Displaced (if tenkan = 0 then 1 else tenkan) (if kijun = 0 then 1 else kijun) (if senkou = 0 then 1 else senkou) lead chikou
        f := by
  refine Driven.run_ind (P := fun done (f : DataFeed α) (m : Ichimoku α) => f.lines.data = done ∧
    m.Displaced (if tenkan = 0 then 1 else tenkan) (if kijun = 0 then 1 else kijun) (if senkou = 0 then 1 else senkou) lead chikou f)
    ⟨rfl, init_displaced⟩ ?_
  rintro done bar f m - ⟨hdata, hm⟩
  obtain ⟨m', hnext, hm'⟩ := hm.next hlead hchikou bar
  refine ⟨m', hnext, ?_, hm'⟩
  rw [← hdata]
  rfl

/-- What the line of the span A holds, in terms of the lines of its two parts. -/
theorem Displaced.getElem?_spanA (h : m.Displaced tenkan kijun senkou lead chikou f) {i : Nat} (hi : i < f.size) :
    m.senkouSpanA[i]? = if i < lead then some nan else do
      let tenkanValue ← m.line[i - lead]?
      let kijunValue ← m.kijunSen[i - lead]?
      return spanA tenkanValue kijunValue := by
  rw [h.senkouSpanA, List.getElem?_take_of_lt hi, DelayLine.getElem?_delayed]
  split_ifs with hlead
  · rfl
  · rw [List.getElem?_zipWith]
    cases m.line[i - lead]? with
    | none => rfl
    | some tenkanValue => cases m.kijunSen[i - lead]? <;> rfl

theorem Displaced.getElem?_spanB (h : m.Displaced tenkan kijun senkou lead chikou f) {i : Nat} (hi : i < f.size) :
    m.senkouSpanB[i]? = if i < lead then some nan else midpointFrom f.high f.low (i - lead) senkou := by
  obtain ⟨mids, hmids, -, hspan⟩ := h.sbBuf
  rw [hspan, List.getElem?_take_of_lt hi, DelayLine.getElem?_delayed]
  split_ifs with hlead
  · rfl
  · exact hmids.value (i - lead) (by omega)

/-- Where the values are after the bars. `midpointFrom` is NaN on a bar that is not ready, and so is the span A of one. -/
theorem ichimoku_displaced (tenkan kijun senkou : Nat) (hlead : 0 < lead) (hchikou : 0 < chikou) (bars : List (Row α)) :
    ∃ f m, overBars (init tenkan kijun senkou lead chikou) bars = some (f, m) ∧ f.lines.data = bars ∧ ∀ i < bars.length,
      m.line[i]? = midpointFrom f.high f.low i (if tenkan = 0 then 1 else tenkan) ∧
      m.kijunSen[i]? = midpointFrom f.high f.low i (if kijun = 0 then 1 else kijun) ∧
      (m.senkouSpanA[i]? = if i < lead then some nan else do
        let tenkanValue ← m.line[i - lead]?
        let kijunValue ← m.kijunSen[i - lead]?
        return spanA tenkanValue kijunValue) ∧
      (m.senkouSpanB[i]? = if i < lead then some nan else
        midpointFrom f.high f.low (i - lead) (if senkou = 0 then 1 else senkou)) ∧
      m.chikouSpan[i]? = if i + chikou < bars.length then (bars[i + chikou]?).map Row.close else some nan := by
  obtain ⟨f, m, hrun, hdata, hm⟩ := overBars_displaced tenkan kijun senkou hlead hchikou bars
  have hsize : f.size = bars.length := by rw [DataFeed.size_eq, hdata]
  have hclose : ∀ i : Nat, f.close.data[i]? = (bars[i]?).map Row.close := by
    intro i
    rw [← hdata]
    exact List.getElem?_map
  refine ⟨f, m, hrun, hdata, fun i hi => ?_⟩
  rw [← hsize] at hi
  have hspan := hm.chikouSpan i hi
  rw [hsize, hclose] at hspan
  exact ⟨hm.line.value i hi, hm.kijunSen.value i hi, hm.getElem?_spanA hi, hm.getElem?_spanB hi, hspan⟩

/-- A bar of which nothing is known. -/
def blankBar : Row OrNan := { datetime := 0, «open» := .nan, high := .nan, low := .nan, close := .nan, volume := .nan, openinterest := .nan }

theorem ichimoku_displaced_two : ∃ f m, overBars (init 1 1 1 1 1) [blankBar, { blankBar with close := .num 2 }] = some (f, m) ∧
    m.senkouSpanA[0]? = some .nan ∧ m.chikouSpan[0]? = some (.num 2) := by
  obtain ⟨f, m, hrun, -, h⟩ := ichimoku_displaced 1 1 1 Nat.one_pos Nat.one_pos [blankBar, { blankBar with close := .num 2 }]
  obtain ⟨-, -, hspanA, -, hchikou⟩ := h 0 (by simp)
  exact ⟨f, m, hrun, hspanA, hchikou⟩

end Ichimoku

end

end Indicators
end StratForge
