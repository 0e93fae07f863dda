import StratForge.Window

/-!
# CSV files (`data/csv_data.hpp`)

`CsvData::load_expected` reads a file line by line. A line is skipped as empty, truncated or outside the window, or each of
the seven lines of the feed gets a value of it. `loads_accounted` says that the diagnostics tell which lines of the file went
where, and that the seven lines never come out of step; `rows_window` that the window only drops rows. The file is a list
of bytes. What is called of the C library is a parameter.
-/

namespace StratForge
variable {α Tm : Type}

abbrev Bytes := List UInt8

structure CsvColumnMap where
  datetime : Int := 0
  /-- -1 means no separate time column. -/
  time : Int := -1
  «open» : Int := 1
  high : Int := 2
  low : Int := 3
  close : Int := 4
  volume : Int := 5
  openinterest : Int := 6

structure LoadDiagnostics where
  rowsParsed : Nat := 0
  rowsSkippedTruncated : Nat := 0
  rowsSkippedEmpty : Nat := 0
  rowsSkippedDatefilter : Nat := 0
  fieldsMalformedNumeric : Nat := 0
  fieldsMalformedDatetime : Nat := 0
  duplicateTimestamps : Nat := 0
  outOfOrderTimestamps : Nat := 0
deriving DecidableEq, Repr

/-- The reasons why there is no data (`core/error.hpp`). -/
inductive DataError
  | FileNotFound | EmptyFile | HeaderOnly | AlreadyLoaded | InvalidInterval
deriving DecidableEq, Repr

structure CsvParams where
  filename : String
  columns : CsvColumnMap := {}
  dateFormat : String := "%Y-%m-%d"
  timeFormat : String := "%H:%M:%S"
  separator : UInt8 := 0x2C
  hasHeaders : Bool := true
  fromdate : Option DateTime := none
  todate : Option DateTime := none

/-- What the reader calls of the C library. -/
structure CLib (α Tm : Type) where
  /-- `std::tm tm = {}`. -/
  tm : Tm
  /-- `get_time` of a format: the time it leaves, and whether it failed. -/
  getTime : String → Tm → Bytes → Tm × Bool
  mktime : Tm → Int
  /-- The number, and how many bytes were read for it. -/
  strtod : Bytes → α × Nat

structure CsvData (α : Type) where
  params : CsvParams
  diag : LoadDiagnostics := {}
  loaded : Bool := false
  datetime : Line DateTime := {}
  «open» : Line α := {}
  high : Line α := {}
  low : Line α := {}
  close : Line α := {}
  volume : Line α := {}
  openinterest : Line α := {}

/-! ### Lines and fields -/

/-- What `std::getline` makes of a file, one line after the other. -/
def getlines (content : Bytes) : List Bytes :=
  let lines := content.splitOn 0x0A
  if lines.getLast? = some [] then lines.dropLast else lines

theorem flatMap_append_intercalate (sep : Bytes) (lines : List Bytes) (h : lines ≠ []) :
    lines.flatMap (· ++ sep) = sep.intercalate lines ++ sep := by
  induction lines with
  | nil => exact absurd rfl h
  | cons line lines ih =>
    cases lines with
    | nil => simp
    | cons line' lines => rw [List.flatMap_cons, ih (by simp), List.intercalate_cons_cons]; simp

/-- The lines are the file: nothing of it is lost but a missing newline at the end. -/
theorem flatMap_getlines (content : Bytes) : (getlines content).flatMap (· ++ [0x0A]) = content ∨
    (getlines content).flatMap (· ++ [0x0A]) = content ++ [0x0A] := by
  have hjoin : [0x0A].intercalate (content.splitOn 0x0A) = content := List.intercalate_splitOn ..
  have hne : content.splitOn 0x0A ≠ [] := List.splitOn_ne_nil _ _
  have hall := flatMap_append_intercalate [0x0A] _ hne
  rw [hjoin] at hall
  unfold getlines
  dsimp only
  split_ifs with hlast
  · left
    obtain ⟨lines, hlines⟩ := List.getLast?_eq_some_iff.1 hlast
    rw [hlines] at hall ⊢
    rw [List.flatMap_append] at hall
    simpa using hall
  · exact .inr hall

/-- The lines of a file after the header. -/
def CsvParams.dataLines (p : CsvParams) (content : Bytes) : List Bytes :=
  if p.hasHeaders then (getlines content).tail else getlines content

/-- The UTF-8 byte order mark. -/
def bom : Bytes := [0xEF, 0xBB, 0xBF]

/-- A line without the byte order mark, if none was parsed before it, and without the `\r` at its end. -/
def strip (first : Bool) (line : Bytes) : Bytes :=
  let line := if first && bom.isPrefixOf line then line.drop 3 else line
  if line.getLast? = some 0x0D then line.dropLast else line

/-- The fields between the delimiters; an empty one at the end is kept. -/
def split (s : Bytes) (delim : UInt8) : List Bytes := s.splitOn delim

/-- `static_cast<std::size_t>` of an `int`. -/
def sizeT (c : Int) : Nat := if c < 0 then (c + 2 ^ 64).toNat else c.toNat

def isBlank (b : UInt8) : Bool := b == 0x20 || b == 0x09

namespace CsvColumnMap

def maxColumn (c : CsvColumnMap) : Int := max (max (max (max c.datetime c.open) c.high) c.low) c.close

/-- The columns that every row must have. -/
structure Required (c : CsvColumnMap) : Prop where
  datetime : 0 ≤ c.datetime
  «open» : 0 ≤ c.open
  high : 0 ≤ c.high
  low : 0 ≤ c.low
  close : 0 ≤ c.close

end CsvColumnMap

namespace CLib
variable [Zero α]

/-- The number in a field, and whether the field is malformed. `strtod` may read on past the blanks cut off at the end. -/
def parseDouble (lib : CLib α Tm) (s : Bytes) : α × Bool :=
  let s := s.dropWhile isBlank
  let field := s.rdropWhile fun b => b == 0x0D || isBlank b
  if field.isEmpty then (0, true)
  else
    let plus := if field.head? = some 0x2B then 1 else 0
    let s := s.drop plus
    let field := field.drop plus
    if field.isEmpty then (0, true)
    else
      let (val, read) := lib.strtod s
      if read = 0 then (0, true) else (val, (field.drop read).any fun b => !isBlank b)

omit [Zero α] in
/-- The time, and whether it is malformed. A date that is not one makes it the epoch; after a time that is not one it is what
`get_time` has left. -/
def parseDatetime (lib : CLib α Tm) (p : CsvParams) (dateStr timeStr : Bytes) : DateTime × Bool :=
  let (tm, failed) := lib.getTime p.dateFormat lib.tm dateStr
  if failed then (0, true)
  else
    let (tm, malformed) := if timeStr.isEmpty then (tm, false) else lib.getTime p.timeFormat tm timeStr
    (lib.mktime tm * nsPerSecond, malformed)

end CLib

/-! ### The load -/

namespace CsvData
variable [Zero α]

/-- A change of the diagnostics. -/
def count (c : CsvData α) (f : LoadDiagnostics → LoadDiagnostics) : CsvData α := { c with diag := f c.diag }

omit [Zero α] in
@[simp] theorem params_count (c : CsvData α) (f : LoadDiagnostics → LoadDiagnostics) : (c.count f).params = c.params := rfl

/-- `parse_double(fields[col])`. There is no such field where the access is undefined. -/
def number (lib : CLib α Tm) (fields : List Bytes) (col : Int) (d : LoadDiagnostics) : Option (α × LoadDiagnostics) := do
  let (val, malformed) := lib.parseDouble (← fields[sizeT col]?)
  return (val, if malformed then { d with fieldsMalformedNumeric := d.fieldsMalformedNumeric + 1 } else d)

/-- A column that a row need not have. -/
def optionalNumber (lib : CLib α Tm) (fields : List Bytes) (col : Int) (d : LoadDiagnostics) :
    Option (α × LoadDiagnostics) :=
  if 0 ≤ col ∧ sizeT col < fields.length then number lib fields col d else some (0, d)

/-- The `forward` calls of a line. -/
def forward (lib : CLib α Tm) (fields : List Bytes) (dt : DateTime) (c : CsvData α) : Option (CsvData α) := do
  let cols := c.params.columns
  let (o, diag) ← number lib fields cols.open c.diag
  let (h, diag) ← number lib fields cols.high diag
  let (l, diag) ← number lib fields cols.low diag
  let (cl, diag) ← number lib fields cols.close diag
  let (v, diag) ← optionalNumber lib fields cols.volume diag
  let (oi, diag) ← optionalNumber lib fields cols.openinterest diag
  return { c with
    diag
    datetime := c.datetime.forward dt
    «open» := c.open.forward o
    high := c.high.forward h
    low := c.low.forward l
    close := c.close.forward cl
    volume := c.volume.forward v
    openinterest := c.openinterest.forward oi }

omit [Zero α] in
/-- The time of a row, and whether it is malformed. -/
def readTime (lib : CLib α Tm) (p : CsvParams) (fields : List Bytes) : Option (DateTime × Bool) := do
  let date ← fields[sizeT p.columns.datetime]?
  if 0 ≤ p.columns.time ∧ sizeT p.columns.time < fields.length then
    return lib.parseDatetime p date (← fields[sizeT p.columns.time]?)
  else return lib.parseDatetime p date []

/-- The date filter. -/
def filterRow (lib : CLib α Tm) (fields : List Bytes) (dt : DateTime) (c : CsvData α) : Option (CsvData α) :=
  if c.params.fromdate.any (dt < ·) then
    some (c.count fun d => { d with rowsSkippedDatefilter := d.rowsSkippedDatefilter + 1 })
  else if c.params.todate.any (· < dt) then
    some (c.count fun d => { d with rowsSkippedDatefilter := d.rowsSkippedDatefilter + 1 })
  else c.forward lib fields dt

/-- What becomes of a line that has its fields. -/
def parseRow (lib : CLib α Tm) (fields : List Bytes) (c : CsvData α) : Option (CsvData α) := do
  let (dt, malformed) ← readTime lib c.params fields
  filterRow lib fields dt
    (if malformed then c.count fun d => { d with fieldsMalformedDatetime := d.fieldsMalformedDatetime + 1 } else c)

/-- One turn of the loop. -/
def parseLine (lib : CLib α Tm) (c : CsvData α) (line : Bytes) : Option (CsvData α) :=
  let fields := split (strip (c.diag.rowsParsed == 0) line) c.params.separator
  if fields = [] ∨ fields = [[]] then
    some (c.count fun d => { d with rowsSkippedEmpty := d.rowsSkippedEmpty + 1 })
  else
    let c := c.count fun d => { d with rowsParsed := d.rowsParsed + 1 }
    if fields.length ≤ sizeT c.params.columns.maxColumn then
      some (c.count fun d => { d with rowsSkippedTruncated := d.rowsSkippedTruncated + 1 })
    else c.parseRow lib fields

/-- A timestamp and the one before it. -/
def scanPair (d : LoadDiagnostics) (pair : DateTime × DateTime) : LoadDiagnostics :=
  if pair.2 = pair.1 then { d with duplicateTimestamps := d.duplicateTimestamps + 1 }
  else if pair.2 < pair.1 then { d with outOfOrderTimestamps := d.outOfOrderTimestamps + 1 }
  else d

def scanTimestamps (c : CsvData α) : CsvData α :=
  let ts := c.datetime.data
  c.count fun d => (ts.zip ts.tail).foldl scanPair d

def home (c : CsvData α) : CsvData α :=
  { c with datetime := c.datetime.home, «open» := c.open.home, high := c.high.home, low := c.low.home,
           close := c.close.home, volume := c.volume.home, openinterest := c.openinterest.home }

def size (c : CsvData α) : Nat := c.close.size

/-- `load_expected`, given what the name of the file stands for; none if it cannot be opened. -/
def loadExpected (lib : CLib α Tm) (c : CsvData α) (file : String → Option Bytes) :
    Option (Except DataError Unit × CsvData α) :=
  if c.loaded then some (.error .AlreadyLoaded, c)
  else
    let c := { c with diag := {} }
    match file c.params.filename with
    | none => some (.error .FileNotFound, c)
    | some content =>
      let c := { c with loaded := true }
      if c.params.hasHeaders ∧ getlines content = [] then some (.error .HeaderOnly, c)
      else do
        let c ← (c.params.dataLines content).foldlM (parseLine lib) c
        let c := c.scanTimestamps.home
        return (if c.size = 0 then
            if c.params.hasHeaders ∧ c.diag.rowsParsed = 0 then .error .HeaderOnly else .error .EmptyFile
          else .ok (), c)

/-- The loads of a feed, one after the other. -/
def loads (lib : CLib α Tm) (c : CsvData α) (files : List (String → Option Bytes)) : Option (CsvData α) :=
  files.foldlM (fun c file => (c.loadExpected lib file).map (·.2)) c

end CsvData

/-! ### The fate of a line -/

/-- What becomes of a line: with a row, whether its time is malformed and how many of its numbers are. -/
inductive Fate (α : Type)
  | empty
  | truncated
  | filtered (malformed : Bool)
  | loaded (row : Row α) (malformed : Bool) (malformedNumbers : Nat)

namespace Fate

def isEmpty : Fate α → Bool
  | .empty => true
  | _ => false

def isTruncated : Fate α → Bool
  | .truncated => true
  | _ => false

def isFiltered : Fate α → Bool
  | .filtered _ => true
  | _ => false

def row? : Fate α → Option (Row α)
  | .loaded row _ _ => some row
  | _ => none

def malformedTimes : Fate α → Nat
  | .filtered malformed => malformed.toNat
  | .loaded _ malformed _ => malformed.toNat
  | _ => 0

def malformedNumbers : Fate α → Nat
  | .loaded _ _ n => n
  | _ => 0

/-- A line has one fate. -/
theorem one_of_four (f : Fate α) :
    f.isEmpty.toNat + f.isTruncated.toNat + f.isFiltered.toNat + f.row?.isSome.toNat = 1 := by
  cases f <;> rfl

end Fate

/-- The rows among the fates. -/
def loadedRows (fates : List (Fate α)) : List (Row α) := fates.filterMap Fate.row?

theorem loadedRows_append (fates fates' : List (Fate α)) :
    loadedRows (fates ++ fates') = loadedRows fates ++ loadedRows fates' := List.filterMap_append ..

theorem count_fates (fates : List (Fate α)) : fates.countP Fate.isEmpty + fates.countP Fate.isTruncated +
    fates.countP Fate.isFiltered + (loadedRows fates).length = fates.length := by
  rw [loadedRows, List.length_filterMap_eq_countP]
  induction fates with
  | nil => rfl
  | cons f fates ih =>
    have hone := f.one_of_four
    have hite : ∀ b : Bool, (if b = true then 1 else 0) = b.toNat := by decide
    simp only [List.countP_cons, List.length_cons, hite]
    omega

/-! ### What the lines of a file add -/

/-- The diagnostics, with some lines counted in. -/
def LoadDiagnostics.after (d : LoadDiagnostics) (fates : List (Fate α)) : LoadDiagnostics :=
  { d with
    rowsParsed := d.rowsParsed + (fates.countP Fate.isTruncated + fates.countP Fate.isFiltered + (loadedRows fates).length)
    rowsSkippedTruncated := d.rowsSkippedTruncated + fates.countP Fate.isTruncated
    rowsSkippedEmpty := d.rowsSkippedEmpty + fates.countP Fate.isEmpty
    rowsSkippedDatefilter := d.rowsSkippedDatefilter + fates.countP Fate.isFiltered
    fieldsMalformedNumeric := d.fieldsMalformedNumeric + (fates.map Fate.malformedNumbers).sum
    fieldsMalformedDatetime := d.fieldsMalformedDatetime + (fates.map Fate.malformedTimes).sum }

theorem LoadDiagnostics.after_append (d : LoadDiagnostics) (fates fates' : List (Fate α)) :
    (d.after fates).after fates' = d.after (fates ++ fates') := by
  simp only [after, loadedRows_append, List.countP_append, List.map_append, List.sum_append, List.length_append]
  rw [LoadDiagnostics.mk.injEq]
  refine ⟨by omega, by omega, by omega, by omega, by omega, by omega, rfl, rfl⟩

namespace CsvData

/-- The seven lines have grown by the same rows. -/
structure Grown (rows : List (Row α)) (c c' : CsvData α) : Prop where
  datetime : c'.datetime.data = c.datetime.data ++ rows.map Row.datetime
  «open» : c'.open.data = c.open.data ++ rows.map Row.open
  high : c'.high.data = c.high.data ++ rows.map Row.high
  low : c'.low.data = c.low.data ++ rows.map Row.low
  close : c'.close.data = c.close.data ++ rows.map Row.close
  volume : c'.volume.data = c.volume.data ++ rows.map Row.volume
  openinterest : c'.openinterest.data = c.openinterest.data ++ rows.map Row.openinterest

variable {rows rows' : List (Row α)} {c c' c'' : CsvData α}

theorem Grown.trans (h : Grown rows c c') (h' : Grown rows' c' c'') : Grown (rows ++ rows') c c'' where
  datetime := by rw [h'.datetime, h.datetime, List.map_append, List.append_assoc]
  «open» := by rw [h'.open, h.open, List.map_append, List.append_assoc]
  high := by rw [h'.high, h.high, List.map_append, List.append_assoc]
  low := by rw [h'.low, h.low, List.map_append, List.append_assoc]
  close := by rw [h'.close, h.close, List.map_append, List.append_assoc]
  volume := by rw [h'.volume, h.volume, List.map_append, List.append_assoc]
  openinterest := by rw [h'.openinterest, h.openinterest, List.map_append, List.append_assoc]

theorem Grown.of_same (hd : c'.datetime = c.datetime) (ho : c'.open = c.open) (hh : c'.high = c.high) (hl : c'.low = c.low)
    (hc : c'.close = c.close) (hv : c'.volume = c.volume) (hi : c'.openinterest = c.openinterest) : Grown [] c c' := by
  constructor <;> simp [*]

theorem Grown.of_count [Zero α] {f : LoadDiagnostics → LoadDiagnostics} (h : Grown rows (c.count f) c') : Grown rows c c' :=
  ⟨h.datetime, h.open, h.high, h.low, h.close, h.volume, h.openinterest⟩

/-- Lines of these fates were read. -/
structure Read (fates : List (Fate α)) (c c' : CsvData α) : Prop where
  params : c'.params = c.params
  loaded : c'.loaded = c.loaded
  diag : c'.diag = c.diag.after fates
  grown : Grown (loadedRows fates) c c'

theorem Read.nil (c : CsvData α) : Read [] c c where
  params := rfl
  loaded := rfl
  diag := rfl
  grown := .of_same rfl rfl rfl rfl rfl rfl rfl

theorem Read.trans {fates fates' : List (Fate α)} (h : Read fates c c') (h' : Read fates' c' c'') :
    Read (fates ++ fates') c c'' where
  params := h'.params.trans h.params
  loaded := h'.loaded.trans h.loaded
  diag := by rw [h'.diag, h.diag, LoadDiagnostics.after_append]
  grown := by rw [loadedRows_append]; exact h.grown.trans h'.grown

end CsvData

/-! ### The fate that the parameters give a line -/

namespace CsvParams
variable [Zero α]

/-- `fields[col]`. -/
def cell (fields : List Bytes) (col : Int) : Bytes := (fields[sizeT col]?).getD []

omit [Zero α] in
theorem cell_eq {fields : List Bytes} {col : Int} (h : sizeT col < fields.length) :
    fields[sizeT col]? = some (cell fields col) := by
  rw [cell, List.getElem?_eq_getElem h, Option.getD_some]

def cellNumber (lib : CLib α Tm) (fields : List Bytes) (col : Int) : α × Bool := lib.parseDouble (cell fields col)

def optionalCell (lib : CLib α Tm) (fields : List Bytes) (col : Int) : α × Bool :=
  if 0 ≤ col ∧ sizeT col < fields.length then cellNumber lib fields col else (0, false)

/-- The time of a row, with whether it is malformed. -/
def cellTime (lib : CLib α Tm) (p : CsvParams) (fields : List Bytes) : DateTime × Bool :=
  lib.parseDatetime p (cell fields p.columns.datetime)
    (if 0 ≤ p.columns.time ∧ sizeT p.columns.time < fields.length then cell fields p.columns.time else [])

def row (lib : CLib α Tm) (p : CsvParams) (fields : List Bytes) : Row α where
  datetime := (p.cellTime lib fields).1
  «open» := (cellNumber lib fields p.columns.open).1
  high := (cellNumber lib fields p.columns.high).1
  low := (cellNumber lib fields p.columns.low).1
  close := (cellNumber lib fields p.columns.close).1
  volume := (optionalCell lib fields p.columns.volume).1
  openinterest := (optionalCell lib fields p.columns.openinterest).1

def malformedNumbers (lib : CLib α Tm) (p : CsvParams) (fields : List Bytes) : Nat :=
  (cellNumber lib fields p.columns.open).2.toNat + (cellNumber lib fields p.columns.high).2.toNat +
    (cellNumber lib fields p.columns.low).2.toNat + (cellNumber lib fields p.columns.close).2.toNat +
    (optionalCell lib fields p.columns.volume).2.toNat + (optionalCell lib fields p.columns.openinterest).2.toNat

/-- The window decides on a line that has its fields. -/
def rowFate (lib : CLib α Tm) (p : CsvParams) (fields : List Bytes) : Fate α :=
  if inWindow p.fromdate p.todate (p.cellTime lib fields).1 then
    .loaded (p.row lib fields) (p.cellTime lib fields).2 (p.malformedNumbers lib fields)
  else .filtered (p.cellTime lib fields).2

def fieldsFate (lib : CLib α Tm) (p : CsvParams) (fields : List Bytes) : Fate α :=
  if fields = [] ∨ fields = [[]] then .empty
  else if fields.length ≤ sizeT p.columns.maxColumn then .truncated
  else p.rowFate lib fields

/-- `first`: no line before it was parsed. -/
def fate (lib : CLib α Tm) (p : CsvParams) (first : Bool) (line : Bytes) : Fate α :=
  p.fieldsFate lib (split (strip first line) p.separator)

/-- The fates of lines, one after the other. -/
def fates (lib : CLib α Tm) (p : CsvParams) : Bool → List Bytes → List (Fate α)
  | _, [] => []
  | first, line :: lines =>
    let f := p.fate lib first line
    f :: fates lib p (first && f.isEmpty) lines

theorem length_fates (lib : CLib α Tm) (p : CsvParams) (first : Bool) (lines : List Bytes) :
    (p.fates lib first lines).length = lines.length := by
  induction lines generalizing first with
  | nil => rfl
  | cons line lines ih => exact congrArg (· + 1) (ih _)

end CsvParams

/-! ### The loop -/

theorem CsvColumnMap.Required.within {cols : CsvColumnMap} (h : cols.Required) {n : Nat} (hn : sizeT cols.maxColumn < n) :
    sizeT cols.datetime < n ∧ sizeT cols.open < n ∧ sizeT cols.high < n ∧ sizeT cols.low < n ∧ sizeT cols.close < n := by
  obtain ⟨hd, ho, hh, hl, hc⟩ := h
  have hmax : 0 ≤ cols.maxColumn := by unfold CsvColumnMap.maxColumn; omega
  unfold sizeT at *
  rw [if_neg (not_lt.2 hmax)] at hn
  simp only [if_neg (not_lt.2 hd), if_neg (not_lt.2 ho), if_neg (not_lt.2 hh), if_neg (not_lt.2 hl), if_neg (not_lt.2 hc)]
  unfold CsvColumnMap.maxColumn at hn
  omega

namespace CsvData
variable [Zero α] {lib : CLib α Tm} {c : CsvData α} {fields : List Bytes} {col : Int}

theorem number_eq (h : sizeT col < fields.length) (d : LoadDiagnostics) : number lib fields col d =
    some ((CsvParams.cellNumber lib fields col).1, { d with
      fieldsMalformedNumeric := d.fieldsMalformedNumeric + (CsvParams.cellNumber lib fields col).2.toNat }) := by
  unfold number CsvParams.cellNumber
  rw [CsvParams.cell_eq h]
  generalize hr : lib.parseDouble (CsvParams.cell fields col) = r
  obtain ⟨val, malformed⟩ := r
  cases malformed <;> simp [hr]

theorem optionalNumber_eq (d : LoadDiagnostics) : optionalNumber lib fields col d =
    some ((CsvParams.optionalCell lib fields col).1, { d with
      fieldsMalformedNumeric := d.fieldsMalformedNumeric + (CsvParams.optionalCell lib fields col).2.toNat }) := by
  unfold optionalNumber CsvParams.optionalCell
  split_ifs with h
  · exact number_eq h.2 d
  · rfl

/-- With every required field in place the seven lines get a value each. -/
theorem forward_read (hcols : c.params.columns.Required) (hlen : sizeT c.params.columns.maxColumn < fields.length) :
    ∃ c', forward lib fields (c.params.cellTime lib fields).1 c = some c' ∧
      c'.params = c.params ∧ c'.loaded = c.loaded ∧
      c'.diag = { c.diag with fieldsMalformedNumeric := c.diag.fieldsMalformedNumeric + c.params.malformedNumbers lib fields } ∧
      Grown [c.params.row lib fields] c c' := by
  obtain ⟨-, ho, hh, hl, hc⟩ := hcols.within hlen
  unfold forward
  simp only [number_eq ho, number_eq hh, number_eq hl, number_eq hc, optionalNumber_eq, Option.bind_eq_bind, Option.bind_some]
  refine ⟨_, rfl, rfl, rfl, ?_, ?_⟩
  · simp only [CsvParams.malformedNumbers, Nat.add_assoc]
  · constructor <;> rfl

omit [Zero α] in
theorem readTime_eq {p : CsvParams} (h : sizeT p.columns.datetime < fields.length) :
    readTime lib p fields = some (p.cellTime lib fields) := by
  unfold readTime CsvParams.cellTime
  rw [CsvParams.cell_eq h]
  split_ifs with htime
  · rw [CsvParams.cell_eq htime.2]
    rfl
  · rfl

omit [Zero α] in
theorem inWindow_eq (fromdate todate : Option DateTime) (dt : DateTime) :
    inWindow fromdate todate dt = (!fromdate.any (dt < ·) && !todate.any (· < dt)) := by
  cases fromdate <;> cases todate <;> rfl

/-- The window decides on a row. -/
theorem filterRow_read (hcols : c.params.columns.Required) (hlen : sizeT c.params.columns.maxColumn < fields.length) :
    ∃ c', filterRow lib fields (c.params.cellTime lib fields).1 c = some c' ∧ c'.params = c.params ∧ c'.loaded = c.loaded ∧
      c'.diag = { c.diag.after [c.params.rowFate lib fields] with
        rowsParsed := c.diag.rowsParsed, fieldsMalformedDatetime := c.diag.fieldsMalformedDatetime } ∧
      Grown (loadedRows [c.params.rowFate lib fields]) c c' := by
  unfold filterRow CsvParams.rowFate
  rw [inWindow_eq]
  by_cases hfrom : c.params.fromdate.any ((c.params.cellTime lib fields).1 < ·) = true
  · rw [if_pos hfrom, hfrom, Bool.not_true, Bool.false_and, if_neg Bool.false_ne_true]
    exact ⟨_, rfl, rfl, rfl, rfl, .of_same rfl rfl rfl rfl rfl rfl rfl⟩
  rw [if_neg hfrom]
  by_cases hto : c.params.todate.any (· < (c.params.cellTime lib fields).1) = true
  · rw [if_pos hto, hto, Bool.not_true, Bool.and_false, if_neg Bool.false_ne_true]
    exact ⟨_, rfl, rfl, rfl, rfl, .of_same rfl rfl rfl rfl rfl rfl rfl⟩
  rw [if_neg hto, Bool.eq_false_of_not_eq_true hfrom, Bool.eq_false_of_not_eq_true hto, Bool.not_false, Bool.and_true,
    if_pos rfl]
  obtain ⟨c', hc', hparams, hloaded, hdiag, hgrown⟩ := forward_read hcols hlen
  exact ⟨c', hc', hparams, hloaded, hdiag, hgrown⟩

/-- A line that has its fields; it was counted as parsed before. -/
theorem parseRow_read (hcols : c.params.columns.Required) (hlen : sizeT c.params.columns.maxColumn < fields.length) :
    ∃ c', parseRow lib fields c = some c' ∧ c'.params = c.params ∧ c'.loaded = c.loaded ∧
      c'.diag = { c.diag.after [c.params.rowFate lib fields] with rowsParsed := c.diag.rowsParsed } ∧
      Grown (loadedRows [c.params.rowFate lib fields]) c c' := by
  have htimes : (c.params.rowFate lib fields).malformedTimes = (c.params.cellTime lib fields).2.toNat := by
    unfold CsvParams.rowFate
    split_ifs <;> rfl
  rw [parseRow, readTime_eq (hcols.within hlen).1]
  show ∃ c', filterRow lib fields (c.params.cellTime lib fields).1 (if (c.params.cellTime lib fields).2 then _ else c) =
    some c' ∧ _
  cases hmalformed : (c.params.cellTime lib fields).2 with
  | false =>
    obtain ⟨c', hc', hparams, hloaded, hdiag, hgrown⟩ := @filterRow_read _ _ _ lib c fields hcols hlen
    refine ⟨c', hc', hparams, hloaded, hdiag.trans ?_, hgrown⟩
    simp [LoadDiagnostics.after, htimes, hmalformed]
  | true =>
    obtain ⟨c', hc', hparams, hloaded, hdiag, hgrown⟩ := @filterRow_read _ _ _ lib
      (c.count fun d => { d with fieldsMalformedDatetime := d.fieldsMalformedDatetime + 1 }) fields hcols hlen
    refine ⟨c', hc', hparams, hloaded, hdiag.trans ?_, hgrown.of_count⟩
    simp [LoadDiagnostics.after, htimes, hmalformed, count]

theorem parseLine_read (hcols : c.params.columns.Required) (line : Bytes) : ∃ c', parseLine lib c line = some c' ∧
    Read [c.params.fate lib (c.diag.rowsParsed == 0) line] c c' := by
  unfold parseLine CsvParams.fate CsvParams.fieldsFate
  dsimp only
  generalize split (strip (c.diag.rowsParsed == 0) line) c.params.separator = fields
  by_cases hempty : fields = [] ∨ fields = [[]]
  · rw [if_pos hempty, if_pos hempty]
    exact ⟨_, rfl, rfl, rfl, rfl, .of_same rfl rfl rfl rfl rfl rfl rfl⟩
  rw [if_neg hempty, if_neg hempty, params_count]
  by_cases hlen : fields.length ≤ sizeT c.params.columns.maxColumn
  · rw [if_pos hlen, if_pos hlen]
    exact ⟨_, rfl, rfl, rfl, rfl, .of_same rfl rfl rfl rfl rfl rfl rfl⟩
  rw [if_neg hlen, if_neg hlen]
  obtain ⟨c', hc', hparams, hloaded, hdiag, hgrown⟩ := @parseRow_read _ _ _ lib
    (c.count fun d => { d with rowsParsed := d.rowsParsed + 1 }) fields hcols (not_le.1 hlen)
  refine ⟨c', hc', hparams, hloaded, hdiag.trans ?_, hgrown.of_count⟩
  have hone : [c.params.rowFate lib fields].countP Fate.isTruncated + [c.params.rowFate lib fields].countP Fate.isFiltered +
      (loadedRows [c.params.rowFate lib fields]).length = 1 := by
    unfold CsvParams.rowFate
    split_ifs <;> rfl
  simp only [LoadDiagnostics.after, hone, count]

/-- The whole loop: every line has its fate. -/
theorem parseLines_read (lines : List Bytes) (hcols : c.params.columns.Required) :
    ∃ c', lines.foldlM (parseLine lib) c = some c' ∧ Read (c.params.fates lib (c.diag.rowsParsed == 0) lines) c c' := by
  induction lines generalizing c with
  | nil => exact ⟨c, rfl, .nil c⟩
  | cons line lines ih =>
    obtain ⟨c₁, hc₁, hread⟩ := @parseLine_read _ _ _ lib c hcols line
    obtain ⟨c', hc', hrest⟩ := ih (c := c₁) (by rw [hread.params]; exact hcols)
    refine ⟨c', by rw [List.foldlM_cons, hc₁]; exact hc', ?_⟩
    have hfirst : (c₁.diag.rowsParsed == 0) =
        ((c.diag.rowsParsed == 0) && (c.params.fate lib (c.diag.rowsParsed == 0) line).isEmpty) := by
      rw [hread.diag]
      cases c.params.fate lib (c.diag.rowsParsed == 0) line <;> simp [LoadDiagnostics.after, loadedRows, Fate.isEmpty,
        Fate.isTruncated, Fate.isFiltered, Fate.row?]
    rw [hread.params, hfirst] at hrest
    exact hread.trans hrest

theorem foldl_scanPair (pairs : List (DateTime × DateTime)) (d : LoadDiagnostics) : pairs.foldl scanPair d = { d with
    duplicateTimestamps := d.duplicateTimestamps + pairs.countP fun pair => pair.2 = pair.1
    outOfOrderTimestamps := d.outOfOrderTimestamps + pairs.countP fun pair => pair.2 < pair.1 } := by
  induction pairs generalizing d with
  | nil => rfl
  | cons pair pairs ih =>
    rw [List.foldl_cons, ih]
    unfold scanPair
    rcases lt_trichotomy pair.2 pair.1 with h | h | h
    · simp [h, h.ne, Nat.add_assoc, Nat.add_comm]
    · simp [h, Nat.add_assoc, Nat.add_comm]
    · simp [h.ne', not_lt.2 h.le]

/-- Adjacent timestamps that do not rise are equal or fall. -/
theorem count_adjacent (pairs : List (DateTime × DateTime)) :
    (pairs.countP fun pair => pair.2 = pair.1) + (pairs.countP fun pair => pair.2 < pair.1) =
      pairs.countP fun pair => !decide (pair.1 < pair.2) := by
  induction pairs with
  | nil => rfl
  | cons pair pairs ih =>
    simp only [List.countP_cons]
    rcases lt_trichotomy pair.2 pair.1 with h | h | h
    · simp only [h, h.ne, not_lt.2 h.le]
      simp; omega
    · simp [h]; omega
    · simp [h, h.ne', not_lt.2 h.le, ih]

end CsvData

/-! ### The load of a file -/

/-- The rows that are loaded of a file. -/
def CsvParams.rows [Zero α] (lib : CLib α Tm) (p : CsvParams) (content : Bytes) : List (Row α) :=
  loadedRows (p.fates lib true (p.dataLines content))

namespace CsvData
variable [Zero α] {lib : CLib α Tm} {p : CsvParams} {content : Bytes} {c : CsvData α}

omit [Zero α] in
/-- The seven lines are those of one feed, at its first row. -/
structure Holds (rows : List (Row α)) (c : CsvData α) : Prop where
  datetime : c.datetime = ({ lines := { data := rows } } : DataFeed α).datetime
  «open» : c.open = ({ lines := { data := rows } } : DataFeed α).open
  high : c.high = ({ lines := { data := rows } } : DataFeed α).high
  low : c.low = ({ lines := { data := rows } } : DataFeed α).low
  close : c.close = ({ lines := { data := rows } } : DataFeed α).close
  volume : c.volume = ({ lines := { data := rows } } : DataFeed α).volume
  openinterest : c.openinterest = ({ lines := { data := rows } } : DataFeed α).openinterest

omit [Zero α] in
/-- The scan and the return to the first row leave what the loop has read. -/
theorem Grown.holds {rows : List (Row α)} {loaded : Bool} (h : Grown rows { params := p, loaded } c) :
    c.scanTimestamps.home.Holds rows where
  datetime := Line.ext_data_idx h.datetime rfl
  «open» := Line.ext_data_idx h.open rfl
  high := Line.ext_data_idx h.high rfl
  low := Line.ext_data_idx h.low rfl
  close := Line.ext_data_idx h.close rfl
  volume := Line.ext_data_idx h.volume rfl
  openinterest := Line.ext_data_idx h.openinterest rfl

omit [Zero α] in
theorem Holds.sizes {rows : List (Row α)} (h : c.Holds rows) : ∀ n ∈ [c.datetime.size, c.open.size, c.high.size, c.low.size,
    c.close.size, c.volume.size, c.openinterest.size], n = rows.length := by
  intro n hn
  rw [h.datetime, h.open, h.high, h.low, h.close, h.volume, h.openinterest] at hn
  simpa [Line.size, DataFeed.datetime, DataFeed.open, DataFeed.high, DataFeed.low, DataFeed.close, DataFeed.volume,
    DataFeed.openinterest, Line.map] using hn

/-- Every line of the file is accounted for. -/
structure Accounted (lib : CLib α Tm) (p : CsvParams) (content : Bytes) (c : CsvData α) : Prop where
  loaded : c.loaded = true
  empty : c.diag.rowsSkippedEmpty = (p.fates lib true (p.dataLines content)).countP Fate.isEmpty
  truncated : c.diag.rowsSkippedTruncated = (p.fates lib true (p.dataLines content)).countP Fate.isTruncated
  filtered : c.diag.rowsSkippedDatefilter = (p.fates lib true (p.dataLines content)).countP Fate.isFiltered
  /-- Each line is counted once. -/
  once : c.diag.rowsSkippedEmpty + c.diag.rowsSkippedTruncated + c.diag.rowsSkippedDatefilter + (p.rows lib content).length =
    (p.dataLines content).length
  parsed : c.diag.rowsParsed = c.diag.rowsSkippedTruncated + c.diag.rowsSkippedDatefilter + (p.rows lib content).length
  /-- The lines hold the loaded rows, in the order of the file. -/
  holds : c.Holds (p.rows lib content)
  sizes : ∀ n ∈ [c.datetime.size, c.open.size, c.high.size, c.low.size, c.close.size, c.volume.size, c.openinterest.size],
    n = (p.rows lib content).length
  order : c.diag.duplicateTimestamps + c.diag.outOfOrderTimestamps =
    (c.datetime.data.zip c.datetime.data.tail).countP fun pair => !decide (pair.1 < pair.2)

theorem Read.accounted (h : Read (p.fates lib true (p.dataLines content)) { params := p, loaded := true } c) :
    Accounted lib p content c.scanTimestamps.home := by
  have hscan : c.scanTimestamps.home.diag =
      (c.datetime.data.zip c.datetime.data.tail).foldl scanPair (LoadDiagnostics.after {} (p.fates lib true (p.dataLines content))) := by
    rw [← h.diag]
    rfl
  rw [foldl_scanPair] at hscan
  have hcount := count_fates (p.fates lib true (p.dataLines content))
  rw [CsvParams.length_fates] at hcount
  refine ⟨h.loaded, ?_, ?_, ?_, ?_, ?_, h.grown.holds, h.grown.holds.sizes, ?_⟩
  · rw [hscan]
    exact Nat.zero_add _
  · rw [hscan]
    exact Nat.zero_add _
  · rw [hscan]
    exact Nat.zero_add _
  · rw [hscan, ← hcount]
    simp [LoadDiagnostics.after, CsvParams.rows]
  · rw [hscan]
    simp [LoadDiagnostics.after, CsvParams.rows]
  · rw [hscan]
    show 0 + _ + (0 + _) = _
    rw [Nat.zero_add, Nat.zero_add, count_adjacent]
    rfl

/-- A load that opens the file. -/
theorem loadExpected_accounted (hcols : p.columns.Required) {file : String → Option Bytes}
    (hfile : file p.filename = some content) : ∃ r c', loadExpected lib { params := p } file = some (r, c') ∧
      Accounted lib p content c' := by
  rw [loadExpected, if_neg Bool.false_ne_true]
  simp only [hfile]
  split_ifs with hheader
  · refine ⟨_, _, rfl, ?_⟩
    have hnone : p.fates lib true (p.dataLines content) = [] := by
      rw [CsvParams.dataLines, if_pos hheader.1, hheader.2]
      rfl
    exact Read.accounted (c := { params := p, loaded := true }) (by rw [hnone]; exact .nil _)
  · obtain ⟨c, hc, hread⟩ := @parseLines_read _ _ _ lib { params := p, loaded := true } (p.dataLines content) hcols
    rw [hc]
    exact ⟨_, _, rfl, Read.accounted hread⟩

theorem loads_loaded (hloaded : c.loaded = true) (files : List (String → Option Bytes)) : loads lib c files = some c := by
  induction files with
  | nil => rfl
  | cons file files ih =>
    rw [loads, List.foldlM_cons, loadExpected, if_pos hloaded]
    exact ih

/-- However often it is loaded, once the file has been opened its lines are accounted for. -/
theorem loads_accounted (lib : CLib α Tm) {p : CsvParams} (hcols : p.columns.Required) (files : List (String → Option Bytes)) :
    ∃ c, loads lib { params := p } files = some c ∧
      ∀ content, files.findSome? (· p.filename) = some content → Accounted lib p content c := by
  induction files with
  | nil => exact ⟨_, rfl, nofun⟩
  | cons file files ih =>
    rw [List.findSome?_cons, loads, List.foldlM_cons]
    cases hfile : file p.filename with
    | none =>
      rw [loadExpected, if_neg Bool.false_ne_true]
      simp only [hfile]
      exact ih
    | some content =>
      obtain ⟨r, c, hc, hacc⟩ := @loadExpected_accounted _ _ _ lib _ _ hcols _ hfile
      rw [hc]
      refine ⟨c, loads_loaded hacc.loaded files, fun content' hcontent => ?_⟩
      cases hcontent
      exact hacc

end CsvData

/-! ### The window of a file -/

namespace CsvParams
variable [Zero α] (lib : CLib α Tm) (p : CsvParams)

/-- The same parameters without a window. -/
def unfiltered : CsvParams := { p with fromdate := none, todate := none }

theorem fieldsFate_unfiltered (fields : List Bytes) :
    (p.unfiltered.fieldsFate lib fields).isEmpty = (p.fieldsFate lib fields).isEmpty ∧
      (p.fieldsFate lib fields).row? =
        (p.unfiltered.fieldsFate lib fields).row?.filter fun r => inWindow p.fromdate p.todate r.datetime := by
  unfold fieldsFate
  rw [show p.unfiltered.columns = p.columns from rfl, show p.unfiltered.rowFate lib fields =
    .loaded (p.row lib fields) (p.cellTime lib fields).2 (p.malformedNumbers lib fields) from rfl, rowFate]
  by_cases hempty : fields = [] ∨ fields = [[]]
  · rw [if_pos hempty, if_pos hempty]
    exact ⟨rfl, rfl⟩
  rw [if_neg hempty, if_neg hempty]
  by_cases hlen : fields.length ≤ sizeT p.columns.maxColumn
  · rw [if_pos hlen, if_pos hlen]
    exact ⟨rfl, rfl⟩
  rw [if_neg hlen, if_neg hlen]
  by_cases hin : inWindow p.fromdate p.todate (p.cellTime lib fields).1 = true
  · rw [if_pos hin]
    exact ⟨rfl, (if_pos hin).symm⟩
  · rw [if_neg hin]
    exact ⟨rfl, (if_neg hin).symm⟩

/-- The window only drops rows. -/
theorem rows_window (content : Bytes) : p.rows lib content =
    (p.unfiltered.rows lib content).filter fun r => inWindow p.fromdate p.todate r.datetime := by
  have hfates : ∀ (lines : List Bytes) (first : Bool), loadedRows (p.fates lib first lines) =
      (loadedRows (p.unfiltered.fates lib first lines)).filter fun r => inWindow p.fromdate p.todate r.datetime := by
    intro lines
    induction lines with
    | nil => exact fun _ => rfl
    | cons line lines ih =>
      intro first
      obtain ⟨hempty, hrow⟩ : (p.unfiltered.fate lib first line).isEmpty = (p.fate lib first line).isEmpty ∧
          (p.fate lib first line).row? =
            (p.unfiltered.fate lib first line).row?.filter fun r => inWindow p.fromdate p.todate r.datetime :=
        p.fieldsFate_unfiltered lib _
      have ih := ih (first && (p.fate lib first line).isEmpty)
      simp only [fates, loadedRows, List.filterMap_cons, hempty, hrow] at ih ⊢
      cases (p.unfiltered.fate lib first line).row? with
      | none => exact ih
      | some r =>
        by_cases hin : inWindow p.fromdate p.todate r.datetime = true
        · simp [Option.filter_some, hin, ih]
        · simp [Option.filter_some, hin, ih]
  exact hfates _ true

end CsvParams

/-- So a run on a window reads what `windowRows` says. -/
theorem windowRows_rows [Zero α] (lib : CLib α Tm) (params : String → CsvParams) (content : String → Bytes)
    (fromdate todate : Option DateTime) :
    windowRows fromdate todate (fun path => (params path).unfiltered.rows lib (content path)) =
      fun path => { params path with fromdate, todate }.rows lib (content path) := by
  funext path
  exact ({ params path with fromdate, todate }.rows_window lib (content path)).symm

/-! ### A small file -/

/-- As much of the C library as whole numbers and the days of January 1900 need (`%d`). -/
def wholeNumbers : CLib ℚ Nat where
  tm := 0
  getTime _ tm s :=
    let day := (decimal ((s.takeWhile isDigit).take 2))
    if 1 ≤ day ∧ day ≤ 31 then (day, false) else (tm, true)
  mktime day := (day - 1) * 86400 - 2208988800
  strtod s := (decimal (s.takeWhile isDigit), (s.takeWhile isDigit).length)
where
  isDigit (b : UInt8) : Bool := 0x30 ≤ b && b ≤ 0x39
  decimal (s : Bytes) : Nat := s.foldl (fun n b => 10 * n + (b.toNat - 0x30)) 0

def ascii (s : String) : Bytes := s.toList.map Char.toUInt8

def days : CsvParams := { filename := "days.csv", dateFormat := "%d", todate := some ((9 * 86400 - 2208988800) * nsPerSecond) }

def daysFile : Bytes := ascii "Day,Open,High,Low,Close\n1,10,12,9,11\n\n2,10\n1,10,12,9,x\r\n31,10,12,9,11\n"

example : (CsvData.loads wholeNumbers { params := days } [fun _ => none, fun _ => some daysFile]).map (·.diag) =
    some { rowsParsed := 4, rowsSkippedTruncated := 1, rowsSkippedEmpty := 1, rowsSkippedDatefilter := 1,
           fieldsMalformedNumeric := 1, duplicateTimestamps := 1 } := by
  decide +kernel

theorem CsvData.accounted_days : ∃ c, CsvData.loads wholeNumbers { params := days } [fun _ => none, fun _ => some daysFile] =
    some c ∧ CsvData.Accounted wholeNumbers days daysFile c := by
  obtain ⟨c, hc, h⟩ := CsvData.loads_accounted wholeNumbers (p := days) ⟨by decide, by decide, by decide, by decide, by decide⟩
    [fun _ => none, fun _ => some daysFile]
  exact ⟨c, hc, h daysFile rfl⟩

end StratForge
