import StratForge.Driven
import StratForge.Exact
import StratForge.HistoryContract

/-!
# Series of bars

What the lines of a feed hold after a series of bars, and an indicator that is driven one `next()` a bar over them.
-/

namespace StratForge

/-- `low <= close <= high`. -/
structure Row.Closes (bar : Row ℚ) : Prop where
  low : bar.low ≤ bar.close
  high : bar.close ≤ bar.high

theorem Row.closes_iff {bar : Row ℚ} : bar.Closes ↔ bar.low ≤ bar.close ∧ bar.close ≤ bar.high :=
  ⟨fun h => ⟨h.low, h.high⟩, fun h => ⟨h.1, h.2⟩⟩

namespace Indicators
open Access (readBack)

/-- The lines of a feed that indicators read. -/
structure Quotes (α : Type) extends Prices α where
  volume : Line α := {}

def Quotes.forward (q : Quotes OrNan) (bar : Row ℚ) : Quotes OrNan :=
  { q.toPrices.forward bar with volume := q.volume.forward (.num bar.volume) }

/-- The indicator after the bars, from bar 0 on. -/
def driven {S : Type} (next : Quotes OrNan → S → Option S) (s : S) (bars : List (Row ℚ)) : Option (Quotes OrNan × S) :=
  Driven.run Quotes.forward next ({}, s) bars

/-- The line has this column of the bars, with the cursor on the last. -/
structure Shows (bars : List (Row ℚ)) (column : Row ℚ → ℚ) (l : Line OrNan) : Prop where
  data : l.data = bars.map fun bar => .num (column bar)
  cursor : l.idx = bars.length - 1

namespace Shows
variable {bars : List (Row ℚ)} {column : Row ℚ → ℚ} {l : Line OrNan} {i k : Nat}

theorem forward (h : Shows bars column l) (bar : Row ℚ) : Shows (bars ++ [bar]) column (l.forward (.num (column bar))) where
  data := by simp [Line.forward, h.data]
  cursor := by simp [Line.forward, h.data]

theorem read (h : Shows bars column l) (hi : i < bars.length) : l.data[i]? = some (.num (column bars[i])) := by
  simp [h.data, hi]

theorem readBack (h : Shows bars column l) {idx : Nat} (hk : k ≤ idx) (hidx : idx - k < bars.length) :
    readBack l.data idx k = some (.num (column bars[idx - k])) := by
  rw [Access.readBack, if_pos hk, h.read hidx]

section
variable {bar before : Row ℚ}

theorem idx (h : Shows (bars ++ [bar]) column l) : l.idx = bars.length := by simp [h.cursor]

theorem current (h : Shows (bars ++ [bar]) column l) : l.data[bars.length]? = some (.num (column bar)) := by simp [h.data]

theorem lastBefore (h : Shows (bars ++ [bar]) column l) (hbefore : bars.getLast? = some before) :
    l.data[bars.length - 1]? = some (.num (column before)) := by
  obtain ⟨older, rfl⟩ := List.getLast?_eq_some_iff.1 hbefore
  simp [h.data]

theorem previous (h : Shows (bars ++ [bar]) column l) (hbefore : bars.getLast? = some before) :
    Access.readBack l.data bars.length 1 = some (.num (column before)) := by
  obtain ⟨older, rfl⟩ := List.getLast?_eq_some_iff.1 hbefore
  simp [Access.readBack, h.data]

end

theorem numeric (h : Shows bars column l) (hne : bars ≠ []) : Numeric (bars.length - 1) l where
  cursor := h.cursor
  within := by
    rw [h.data, List.length_map]
    have := List.length_pos_iff.2 hne
    omega
  nums := by
    intro x hx
    rw [h.data] at hx
    obtain ⟨bar, -, rfl⟩ := List.mem_map.1 hx
    exact OrNan.isNum_num _

end Shows

/-- The lines after the bars. -/
structure Quotes.Of (bars : List (Row ℚ)) (q : Quotes OrNan) : Prop where
  «open» : Shows bars Row.open q.open
  high : Shows bars Row.high q.high
  low : Shows bars Row.low q.low
  close : Shows bars Row.close q.close
  volume : Shows bars Row.volume q.volume

namespace Quotes.Of
variable {bars : List (Row ℚ)} {q : Quotes OrNan}

theorem nil : Quotes.Of [] {} := by
  have h : ∀ column, Shows [] column {} := fun _ => ⟨rfl, rfl⟩
  exact ⟨h _, h _, h _, h _, h _⟩

theorem forward (h : q.Of bars) (bar : Row ℚ) : (q.forward bar).Of (bars ++ [bar]) :=
  ⟨h.open.forward bar, h.high.forward bar, h.low.forward bar, h.close.forward bar, h.volume.forward bar⟩

theorem numerics (h : q.Of bars) (hne : bars ≠ []) : Numerics (bars.length - 1) q.high q.low q.close :=
  ⟨h.high.numeric hne, h.low.numeric hne, h.close.numeric hne⟩

/-- On the bar that has come last. -/
theorem numericsLast {bar : Row ℚ} (h : q.Of (bars ++ [bar])) : Numerics bars.length q.high q.low q.close := by
  simpa using h.numerics (by simp)

end Quotes.Of

section
variable {S : Type} {next : Quotes OrNan → S → Option S} {s s' s'' : S} {bars : List (Row ℚ)} {bar : Row ℚ} {q : Quotes OrNan}

theorem driven_concat (h : driven next s bars = some (q, s')) (hnext : next (q.forward bar) s' = some s'') :
    driven next s (bars ++ [bar]) = some (q.forward bar, s'') := by
  have hrun : Driven.run Quotes.forward next ({}, s) bars = some (q, s') := h
  rw [driven, Driven.run_concat, hrun, Option.bind_some]
  exact Driven.step_eq_some.2 ⟨hnext, rfl⟩

theorem driven_of (h : driven next s bars = some (q, s')) : q.Of bars := by
  induction bars using List.reverseRecOn generalizing q s' with
  | nil =>
    obtain ⟨rfl, rfl⟩ := Prod.mk.inj (Option.some.inj h)
    exact .nil
  | append_singleton bars bar ih =>
    rw [driven, Driven.run_concat, Option.bind_eq_some_iff] at h
    obtain ⟨⟨q', t⟩, hbefore, hstep⟩ := h
    obtain ⟨-, rfl⟩ := Driven.step_eq_some.1 hstep
    exact (ih hbefore).forward bar

theorem driven_project {T : Type} {next' : Quotes OrNan → T → Option T} (part : S → T)
    (h : ∀ q s s', next q s = some s' → next' q (part s) = some (part s')) (hrun : driven next s bars = some (q, s')) :
    driven next' (part s) bars = some (q, part s') := Driven.run_project part h hrun

end

/-- What a step of the indicator keeps, of the bars so far, holds after all of them. -/
theorem driven_ind {S : Type} {next : Quotes OrNan → S → Option S} {s : S} {Ok : Row ℚ → Prop}
    (P : List (Row ℚ) → S → Prop) (h0 : P [] s)
    (hstep : ∀ bars bar q s, (∀ b ∈ bars ++ [bar], Ok b) → Quotes.Of (bars ++ [bar]) q → P bars s →
      ∃ s', next q s = some s' ∧ P (bars ++ [bar]) s')
    {bars : List (Row ℚ)} (hbars : ∀ b ∈ bars, Ok b) : ∃ q s', driven next s bars = some (q, s') ∧ P bars s' := by
  have hrun : ∃ q s', driven next s bars = some (q, s') ∧ (∀ b ∈ bars, Ok b) ∧ q.Of bars ∧ P bars s' := by
    refine Driven.run_ind (P := fun done q s => (∀ b ∈ done, Ok b) ∧ Quotes.Of done q ∧ P done s) ⟨nofun, .nil, h0⟩ ?_
    rintro done bar q s hbar ⟨hok, hq, hP⟩
    have hok' : ∀ b ∈ done ++ [bar], Ok b := by
      intro b hb
      rcases List.mem_append.1 hb with hb | hb
      · exact hok b hb
      · exact List.mem_singleton.1 hb ▸ hbars bar hbar
    obtain ⟨s', hnext, hP'⟩ := hstep done bar (q.forward bar) s hok' (hq.forward bar) hP
    exact ⟨s', hnext, hok', hq.forward bar, hP'⟩
  obtain ⟨q, s', hdriven, -, -, hP⟩ := hrun
  exact ⟨q, s', hdriven, hP⟩

/-! ### Over one line -/

/-- The indicator after the values of its source, from bar 0 on. -/
def overSource {α S : Type} (next : Line α → S → Option S) (s : S) (values : List α) : Option (Line α × S) :=
  Driven.run Line.forward next ({}, s) values

/-- The source after the values. -/
structure Sourced {α : Type} (values : List α) (l : Line α) : Prop where
  data : l.data = values
  cursor : l.idx = values.length - 1

section
variable {α S : Type} {values : List α} {x : α} {l : Line α} {next : Line α → S → Option S} {s s' s'' : S}

theorem Sourced.forward (h : Sourced values l) (x : α) : Sourced (values ++ [x]) (l.forward x) where
  data := by simp [Line.forward, h.data]
  cursor := by simp [Line.forward, h.data]

theorem Sourced.idx (h : Sourced (values ++ [x]) l) : l.idx = values.length := by simp [h.cursor]

theorem Sourced.current (h : Sourced (values ++ [x]) l) : l.data[values.length]? = some x := by simp [h.data]

/-- What a step keeps, of the values so far, holds after all of them. -/
theorem overSource_ind {Ok : α → Prop} (P : List α → S → Prop) (h0 : P [] s)
    (hstep : ∀ values x l s, (∀ y ∈ values ++ [x], Ok y) → Sourced (values ++ [x]) l → P values s →
      ∃ s', next l s = some s' ∧ P (values ++ [x]) s')
    {values : List α} (hvalues : ∀ y ∈ values, Ok y) : ∃ l s', overSource next s values = some (l, s') ∧ P values s' := by
  have hrun : ∃ l s', overSource next s values = some (l, s') ∧ (∀ y ∈ values, Ok y) ∧ Sourced values l ∧ P values s' := by
    refine Driven.run_ind (P := fun done l s => (∀ y ∈ done, Ok y) ∧ Sourced done l ∧ P done s) ⟨nofun, ⟨rfl, rfl⟩, h0⟩ ?_
    rintro done x l s hx ⟨hok, hl, hP⟩
    have hok' : ∀ y ∈ done ++ [x], Ok y := by
      intro y hy
      rcases List.mem_append.1 hy with hy | hy
      · exact hok y hy
      · exact List.mem_singleton.1 hy ▸ hvalues x hx
    obtain ⟨s', hnext, hP'⟩ := hstep done x (l.forward x) s hok' (hl.forward x) hP
    exact ⟨s', hnext, hok', hl.forward x, hP'⟩
  obtain ⟨l, s', hover, -, -, hP⟩ := hrun
  exact ⟨l, s', hover, hP⟩

/-- The same over numbers. -/
theorem overSource_nums {next : Line OrNan → S → Option S} (P : List ℚ → S → Prop) (h0 : P [] s)
    (hstep : ∀ qs q l s, Sourced ((qs ++ [q]).map OrNan.num) l → P qs s → ∃ s', next l s = some s' ∧ P (qs ++ [q]) s')
    (qs : List ℚ) : ∃ l s', overSource next s (qs.map .num) = some (l, s') ∧ P qs s' := by
  have hnums : ∀ y ∈ qs.map OrNan.num, OrNan.IsNum y := by
    intro y hy
    obtain ⟨q, -, rfl⟩ := List.mem_map.1 hy
    exact OrNan.isNum_num q
  have hstep' : ∀ values x l s, (∀ y ∈ values ++ [x], OrNan.IsNum y) → Sourced (values ++ [x]) l →
      (∃ qs : List ℚ, values = qs.map .num ∧ P qs s) →
      ∃ s', next l s = some s' ∧ ∃ qs : List ℚ, values ++ [x] = qs.map .num ∧ P qs s' := by
    rintro values x l s hok hl ⟨qs, hqs, hP⟩
    obtain ⟨q, rfl⟩ := OrNan.isNum_iff.1 (hok x (List.mem_append_right _ List.mem_cons_self))
    have hmap : values ++ [.num q] = (qs ++ [q]).map .num := by rw [List.map_append, hqs]; rfl
    obtain ⟨s', hnext, hP'⟩ := hstep qs q l s (hmap ▸ hl) hP
    exact ⟨s', hnext, qs ++ [q], hmap, hP'⟩
  obtain ⟨l, s', hover, qs', hqs', hP⟩ := overSource_ind (fun values s => ∃ qs : List ℚ, values = qs.map .num ∧ P qs s)
    ⟨[], rfl, h0⟩ hstep' hnums
  obtain rfl := List.map_injective_iff.2 OrNan.num_injective hqs'
  exact ⟨l, s', hover, hP⟩

theorem overSource_concat (h : overSource next s values = some (l, s')) (hnext : next (l.forward x) s' = some s'') :
    overSource next s (values ++ [x]) = some (l.forward x, s'') := by
  have hrun : Driven.run Line.forward next ({}, s) values = some (l, s') := h
  rw [overSource, Driven.run_concat, hrun, Option.bind_some]
  exact Driven.step_eq_some.2 ⟨hnext, rfl⟩

theorem overSource_sourced (h : overSource next s values = some (l, s')) : Sourced values l := by
  induction values using List.reverseRecOn generalizing l s' with
  | nil =>
    obtain ⟨rfl, rfl⟩ := Prod.mk.inj (Option.some.inj h)
    exact ⟨rfl, rfl⟩
  | append_singleton values x ih =>
    rw [overSource, Driven.run_concat, Option.bind_eq_some_iff] at h
    obtain ⟨⟨l', t⟩, hbefore, hstep⟩ := h
    obtain ⟨-, rfl⟩ := Driven.step_eq_some.1 hstep
    exact (ih hbefore).forward x

/-- The same over numbers that are as they are to be all along. -/
theorem overSource_prefixes {next : Line OrNan → S → Option S} {Ok : List ℚ → Prop} (P : List ℚ → S → Prop) (h0 : P [] s)
    (hbefore : ∀ qs q, Ok (qs ++ [q]) → Ok qs)
    (hstep : ∀ qs q l s, Ok (qs ++ [q]) → Sourced ((qs ++ [q]).map OrNan.num) l → P qs s →
      ∃ s', next l s = some s' ∧ P (qs ++ [q]) s') {qs : List ℚ} (hqs : Ok qs) :
    ∃ l s', overSource next s (qs.map .num) = some (l, s') ∧ P qs s' := by
  induction qs using List.reverseRecOn with
  | nil => exact ⟨_, s, rfl, h0⟩
  | append_singleton qs q ih =>
    obtain ⟨l, s', hover, hP⟩ := ih (hbefore qs q hqs)
    have hl : Sourced ((qs ++ [q]).map OrNan.num) (l.forward (.num q)) := by
      rw [List.map_append]
      exact (overSource_sourced hover).forward _
    obtain ⟨s'', hnext, hP'⟩ := hstep qs q _ s' hqs hl hP
    rw [List.map_append]
    exact ⟨_, s'', overSource_concat hover hnext, hP'⟩

end

end Indicators

end StratForge
