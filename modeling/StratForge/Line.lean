import StratForge.Arith
import StratForge.Interval

/-!
# Lines and data feeds (`core/line.hpp`, `data/data_feed.hpp`)

A `Line` is a vector with a cursor. Every writer of the repository appends to the seven lines of a
feed together and moves their cursors together, so a `DataFeed` keeps one line of rows and the seven
lines are its projections.
-/

namespace StratForge

theorem Line.start_le : 0 ≤ 0 := Nat.le_refl 0

/-- A vector with a cursor, which stands on a value unless the vector is empty. -/
structure Line (T : Type) where
  data : List T := []
  idx : Nat := 0
  idx_le : idx ≤ data.length - 1 := by first | exact Line.start_le | simp
deriving DecidableEq, Repr

namespace Line
variable {T U : Type} {l : Line T}

theorem ext_data_idx {l l' : Line T} (hd : l.data = l'.data) (hi : l.idx = l'.idx) : l = l' := by
  cases l; cases l'; cases hd; cases hi; rfl

def size (l : Line T) : Nat := l.data.length

/-- Number of valid bars from the current position to the end. -/
def buflen (l : Line T) : Nat := if l.data.isEmpty then 0 else l.data.length - l.idx

/-- Add a value and move the cursor onto it. -/
def forward (l : Line T) (value : T) : Line T :=
  { data := l.data ++ [value], idx := l.data.length, idx_le := by simp }

/-- `data().push_back(value)`: the cursor stays. -/
def pushBack (l : Line T) (value : T) : Line T :=
  { data := l.data ++ [value], idx := l.idx, idx_le := by have := l.idx_le; simp; omega }

/-- Advance the cursor without adding data; it stays on the last value. -/
def advance (l : Line T) : Line T :=
  if h : l.idx + 1 < l.data.length then { l with idx := l.idx + 1, idx_le := by omega } else l

def home (l : Line T) : Line T := { l with idx := 0, idx_le := by omega }

/-- `operator[]`: `0` is the current value, `-1` the one before. -/
def at' (l : Line T) (offset : Int) : Except Error T :=
  let pos := (l.idx : Int) + offset
  if pos < 0 then .error (.outOfRange "Line index out of range")
  else match l.data[pos.toNat]? with
    | some v => .ok v
    | none => .error (.outOfRange "Line index out of range")

/-- The value under the cursor; none for an empty line. -/
def current? (l : Line T) : Option T := l.data[l.idx]?

def map (f : T → U) (l : Line T) : Line U :=
  { data := l.data.map f, idx := l.idx, idx_le := by simpa using l.idx_le }

@[simp] theorem data_advance (l : Line T) : l.advance.data = l.data := by
  unfold advance; split <;> rfl

@[simp] theorem data_home (l : Line T) : l.home.data = l.data := rfl
@[simp] theorem idx_home (l : Line T) : l.home.idx = 0 := rfl
@[simp] theorem data_pushBack (l : Line T) (v : T) : (l.pushBack v).data = l.data ++ [v] := rfl
@[simp] theorem idx_pushBack (l : Line T) (v : T) : (l.pushBack v).idx = l.idx := rfl

theorem idx_advance (l : Line T) : l.advance.idx = min (l.idx + 1) (l.data.length - 1) := by
  have := l.idx_le
  unfold advance; split
  · show l.idx + 1 = _; omega
  · omega

theorem current?_eq_none : l.current? = none ↔ l.data = [] := by
  unfold current?
  rw [List.getElem?_eq_none_iff]
  have := l.idx_le
  constructor
  · intro h
    have : l.data.length = 0 := by omega
    exact List.eq_nil_of_length_eq_zero this
  · intro h; rw [h]; simp

/-- The emptiness test of the fill engine, `size() == 0 || buflen() == 0`. -/
theorem size_or_buflen_eq_zero : l.size = 0 ∨ l.buflen = 0 ↔ l.current? = none := by
  rw [current?_eq_none]
  have := l.idx_le
  unfold size buflen
  constructor
  · rintro (h | h)
    · exact List.eq_nil_of_length_eq_zero h
    · by_contra hne
      have hpos := List.length_pos_iff.2 hne
      simp [hne] at h; omega
  · intro h; simp [h]

theorem at'_zero : l.at' 0 = match l.current? with
    | some v => .ok v
    | none => .error (.outOfRange "Line index out of range") := by
  simp [at', current?, not_lt.2 (Int.natCast_nonneg l.idx)]

end Line

/-- One bar of a feed: a position of its seven lines. -/
structure Row (α : Type) where
  datetime : DateTime
  «open» : α
  high : α
  low : α
  close : α
  volume : α
  openinterest : α
deriving DecidableEq, Repr

structure DataFeed (α : Type) where
  lines : Line (Row α) := {}
  timeframe : TimeFrameCompression := {}
deriving DecidableEq, Repr

namespace DataFeed
variable {α : Type}

def datetime (f : DataFeed α) : Line DateTime := f.lines.map Row.datetime
def «open» (f : DataFeed α) : Line α := f.lines.map Row.open
def high (f : DataFeed α) : Line α := f.lines.map Row.high
def low (f : DataFeed α) : Line α := f.lines.map Row.low
def close (f : DataFeed α) : Line α := f.lines.map Row.close
def volume (f : DataFeed α) : Line α := f.lines.map Row.volume
def openinterest (f : DataFeed α) : Line α := f.lines.map Row.openinterest

def size (f : DataFeed α) : Nat := f.close.size
def index (f : DataFeed α) : Nat := f.close.idx
def buflen (f : DataFeed α) : Nat := f.close.buflen

/-- The bar under the cursor, as `line()[0]` reads it from each line. -/
def current? (f : DataFeed α) : Option (Row α) := f.lines.current?

def advance (f : DataFeed α) : DataFeed α := { f with lines := f.lines.advance }
def home (f : DataFeed α) : DataFeed α := { f with lines := f.lines.home }
def forwardRow (f : DataFeed α) (r : Row α) : DataFeed α := { f with lines := f.lines.forward r }
def pushRow (f : DataFeed α) (r : Row α) : DataFeed α := { f with lines := f.lines.pushBack r }

@[simp] theorem data_pushRow (f : DataFeed α) (r : Row α) :
    (f.pushRow r).lines.data = f.lines.data ++ [r] := rfl

@[simp] theorem data_home (f : DataFeed α) : f.home.lines.data = f.lines.data := rfl

@[simp] theorem size_eq (f : DataFeed α) : f.size = f.lines.data.length := by
  simp [size, close, Line.size, Line.map]

@[simp] theorem index_eq (f : DataFeed α) : f.index = f.lines.idx := rfl

/-- The seven lines determine the rows and the cursor. -/
theorem lines_eq_iff (f f' : DataFeed α) : f.lines = f'.lines ↔
    f.datetime = f'.datetime ∧ f.open = f'.open ∧ f.high = f'.high ∧ f.low = f'.low ∧
      f.close = f'.close ∧ f.volume = f'.volume ∧ f.openinterest = f'.openinterest := by
  constructor
  · intro h; simp only [datetime, «open», high, low, close, volume, openinterest, h, and_self]
  · rintro ⟨hd, ho, hh, hl, hc, hv, hi⟩
    have hidx : f.datetime.idx = f'.datetime.idx := by rw [hd]
    have hlen : f.lines.data.length = f'.lines.data.length := by
      simpa [datetime, Line.map] using congrArg (fun l => l.data.length) hd
    refine Line.ext_data_idx (List.ext_getElem hlen fun i h1 h2 => ?_) hidx
    have key : ∀ {U : Type} (p : Row α → U), f.lines.map p = f'.lines.map p →
        p f.lines.data[i] = p f'.lines.data[i] := by
      intro U p hp
      have hget := congrArg (fun l => l.data[i]?) hp
      simpa [Line.map, h1, h2] using hget
    have e1 := key Row.datetime hd
    have e2 := key Row.open ho
    have e3 := key Row.high hh
    have e4 := key Row.low hl
    have e5 := key Row.close hc
    have e6 := key Row.volume hv
    have e7 := key Row.openinterest hi
    generalize f.lines.data[i] = r at *
    generalize f'.lines.data[i] = r' at *
    cases r; cases r'
    simp_all

end DataFeed

end StratForge
