import Mathlib.Data.Rat.Defs
import Mathlib.Data.List.Nodup
import Mathlib.Data.List.TakeWhile
import Mathlib.Algebra.Field.Rat
import Mathlib.Algebra.Order.Group.Unbundled.Int

/-!
# JSON as it is written

A document is a tree that keeps everything its text has: white space, the escapes of a string, the digits of a
number. `text` writes it, so a statement about every well-formed text is one about every tree. `decoded` and
`Number.value` are what a string and a number stand for.
-/

namespace Json

abbrev Text := List Char

def isSpace (c : Char) : Bool := c == ' ' || c == '\t' || c == '\r' || c == '\n'

/-- White space between tokens. -/
structure Space where
  text : Text := []
  ok : text.all isSpace = true := by exact Eq.refl true

/-! ### Strings -/

/-- The escapes of two characters. -/
inductive Escape
  | quotationMark | reverseSolidus | solidus | backspace | formFeed | lineFeed | carriageReturn | tab
deriving DecidableEq

namespace Escape

def letter : Escape → Char
  | quotationMark => '"' | reverseSolidus => '\\' | solidus => '/' | backspace => 'b'
  | formFeed => 'f' | lineFeed => 'n' | carriageReturn => 'r' | tab => 't'

def char : Escape → Char
  | quotationMark => '"' | reverseSolidus => '\\' | solidus => '/' | backspace => Char.ofNat 8
  | formFeed => Char.ofNat 12 | lineFeed => '\n' | carriageReturn => '\r' | tab => '\t'

end Escape

def isHex (c : Char) : Bool :=
  c.isDigit || decide ('a' ≤ c ∧ c ≤ 'f') || decide ('A' ≤ c ∧ c ≤ 'F')

def hexValue (c : Char) : Nat :=
  if c.isDigit then c.toNat - '0'.toNat
  else if 'a' ≤ c then c.toNat - 'a'.toNat + 10
  else c.toNat - 'A'.toNat + 10

/-- The four digits after `\u`. -/
structure Hex4 where
  digits : Text
  length : digits.length = 4
  ok : digits.all isHex = true

def Hex4.value (u : Hex4) : Nat := u.digits.foldl (fun n c => 16 * n + hexValue c) 0

/-- One character of a string. -/
inductive Item
  | plain (c : Char) (h : c ≠ '"' ∧ c ≠ '\\' ∧ 32 ≤ c.toNat)
  | escape (e : Escape)
  | unicode (u : Hex4) (h : u.value < 0xD800 ∨ 0xDFFF < u.value)
  /-- A surrogate pair. -/
  | pair (high low : Hex4) (hh : 0xD800 ≤ high.value ∧ high.value < 0xDC00) (hl : 0xDC00 ≤ low.value ∧ low.value ≤ 0xDFFF)

namespace Item

def raw : Item → Text
  | plain c _ => [c]
  | escape e => ['\\', e.letter]
  | unicode u _ => '\\' :: 'u' :: u.digits
  | pair high low _ _ => '\\' :: 'u' :: high.digits ++ '\\' :: 'u' :: low.digits

def decoded : Item → Char
  | plain c _ => c
  | escape e => e.char
  | unicode u _ => Char.ofNat u.value
  | pair high low _ _ => Char.ofNat (0x10000 + (high.value - 0xD800) * 0x400 + (low.value - 0xDC00))

def isPlain : Item → Bool
  | plain _ _ => true
  | _ => false

theorem raw_of_isPlain {i : Item} (h : i.isPlain = true) : i.raw = [i.decoded] := by
  cases i with
  | plain c _ => rfl
  | escape => cases h
  | unicode => cases h
  | pair => cases h

theorem length_raw (i : Item) : 1 ≤ i.raw.length ∧ (i.raw.length = 1 → i.isPlain = true) := by
  cases i <;> simp [raw, isPlain]

theorem ne_of_isHex {c : Char} (h : isHex c = true) : c ≠ '"' ∧ c ≠ '\\' := by
  constructor <;> rintro rfl <;> revert h <;> decide

/-- A quotation mark is written in one way only with a quotation mark. -/
theorem quote_mem_raw {i : Item} (h : '"' ∈ i.raw) : i.decoded = '"' := by
  have hhex : ∀ u : Hex4, '"' ∉ u.digits := fun u hu => (ne_of_isHex (List.all_eq_true.1 u.ok _ hu)).1 rfl
  cases i with
  | plain c hc => exact absurd (List.mem_singleton.1 h).symm hc.1
  | escape e =>
    cases e <;> first | rfl | exact absurd h (by decide)
  | unicode u _ => exact absurd h (by simpa [raw] using hhex u)
  | pair high low _ _ => exact absurd h (by simpa [raw] using ⟨hhex high, hhex low⟩)

end Item

abbrev Str := List Item

namespace Str

/-- What stands between the quotation marks. -/
def raw (s : Str) : Text := s.flatMap Item.raw

def decoded (s : Str) : Text := s.map Item.decoded

def text (s : Str) : Text := '"' :: raw s ++ ['"']

/-- A string of the characters of a text that need no escape. -/
def ofText (t : Text) : Str := t.filterMap fun c => if h : c ≠ '"' ∧ c ≠ '\\' ∧ 32 ≤ c.toNat then some (.plain c h) else none

/-- Without an escape. -/
def Plain (s : Str) : Prop := ∀ i ∈ s, i.isPlain = true

instance (s : Str) : Decidable (Plain s) := inferInstanceAs (Decidable (∀ i ∈ s, i.isPlain = true))

theorem raw_eq_decoded_of_plain {s : Str} (h : Plain s) : raw s = decoded s := by
  induction s with
  | nil => rfl
  | cons i s ih =>
    obtain ⟨hi, hs⟩ := List.forall_mem_cons.1 h
    show i.raw ++ raw s = i.decoded :: decoded s
    rw [Item.raw_of_isPlain hi, ih hs]
    rfl

theorem plain_of_not_mem {s : Str} (h : '\\' ∉ raw s) : Plain s := by
  intro i hi
  have hno : '\\' ∉ i.raw := fun hmem => h (List.mem_flatMap.2 ⟨i, hi, hmem⟩)
  cases i with
  | plain => rfl
  | escape e => exact absurd List.mem_cons_self hno
  | unicode u _ => exact absurd List.mem_cons_self hno
  | pair high low _ _ => exact absurd List.mem_cons_self hno

/-- An escape is longer than what it stands for. -/
theorem length_raw (s : Str) : s.length ≤ (raw s).length ∧ ((raw s).length = s.length → Plain s) := by
  induction s with
  | nil => exact ⟨le_rfl, fun _ _ h => absurd h List.not_mem_nil⟩
  | cons i s ih =>
    obtain ⟨hi, hplain⟩ := i.length_raw
    obtain ⟨hle, hrest⟩ := ih
    have hlen : (raw (i :: s)).length = i.raw.length + (raw s).length := List.length_append
    rw [List.length_cons, hlen]
    refine ⟨by omega, fun heq => List.forall_mem_cons.2 ⟨hplain (by omega), hrest (by omega)⟩⟩

theorem raw_eq_decoded_iff {s : Str} : raw s = decoded s ↔ Plain s := by
  refine ⟨fun h => (length_raw s).2 ?_, raw_eq_decoded_of_plain⟩
  rw [h]
  exact List.length_map _

theorem quote_mem_decoded {s : Str} (h : '"' ∈ raw s) : '"' ∈ decoded s := by
  obtain ⟨i, hi, hq⟩ := List.mem_flatMap.1 h
  exact List.mem_map.2 ⟨i, hi, Item.quote_mem_raw hq⟩

theorem Plain.quote_not_mem {s : Str} (h : Plain s) : '"' ∉ decoded s := by
  intro hq
  obtain ⟨i, hi, hdec⟩ := List.mem_map.1 hq
  cases i with
  | plain c hc => exact hc.1 hdec
  | escape => cases h _ hi
  | unicode => cases h _ hi
  | pair => cases h _ hi

/-- Up to the first quotation mark a string reads as what it stands for exactly if it has no escape. -/
theorem takeWhile_raw_eq_iff {s : Str} : (raw s).takeWhile (· != '"') = decoded s ↔ Plain s := by
  have hkeep : '"' ∉ decoded s → (raw s).takeWhile (· != '"') = raw s := fun h => by
    rw [List.takeWhile_eq_self_iff]
    intro c hc
    simpa using fun heq : c = '"' => h (quote_mem_decoded (heq ▸ hc))
  constructor
  · intro h
    have hnone : '"' ∉ decoded s := by
      intro hq
      rw [← h] at hq
      simpa using List.mem_takeWhile_imp hq
    rw [hkeep hnone] at h
    exact raw_eq_decoded_iff.1 h
  · intro h
    rw [hkeep h.quote_not_mem, raw_eq_decoded_of_plain h]

end Str

/-! ### Numbers -/

structure Digits where
  text : Text
  ne : text ≠ []
  ok : text.all Char.isDigit = true

/-- The value of a run of digits. -/
def ofDigits (t : Text) : Nat := t.foldl (fun n c => 10 * n + (c.toNat - '0'.toNat)) 0

/-- The value of a decimal with a point after `int` and an exponent. -/
def decimal (negative : Bool) (int frac : Text) (exp : Int) : Rat :=
  (if negative then -1 else 1) * (ofDigits (int ++ frac) : Rat) * (10 : Rat) ^ (exp - frac.length)

inductive Sign
  | none | plus | minus

def Sign.text : Sign → Text
  | none => []
  | plus => ['+']
  | minus => ['-']

structure Exponent where
  upper : Bool
  sign : Sign
  digits : Digits

namespace Exponent

def text (e : Exponent) : Text := (if e.upper then 'E' else 'e') :: e.sign.text ++ e.digits.text

def value (e : Exponent) : Int :=
  match e.sign with
  | .minus => -(ofDigits e.digits.text : Int)
  | _ => ofDigits e.digits.text

end Exponent

structure Number where
  negative : Bool
  int : Digits
  /-- No number begins with a zero it does not need. -/
  leading : int.text.head? = some '0' → int.text = ['0']
  frac : Option Digits
  exp : Option Exponent

namespace Number

def text (n : Number) : Text :=
  (if n.negative then ['-'] else []) ++ n.int.text ++ (n.frac.elim [] fun f => '.' :: f.text) ++
    n.exp.elim [] Exponent.text

def value (n : Number) : Rat :=
  decimal n.negative n.int.text (n.frac.elim [] Digits.text) (n.exp.elim 0 Exponent.value)

end Number

/-! ### Values -/

/-- A value with the white space around it. -/
structure Element (J : Type) where
  before : Space
  value : J
  after : Space

structure Member (J : Type) where
  before : Space
  key : Str
  middle : Space
  element : Element J

inductive Value
  | null
  | bool (b : Bool)
  | number (n : Number)
  | string (s : Str)
  | array (pad : Space) (items : List (Element Value))
  | object (pad : Space) (members : List (Member Value))

mutual

def Value.text : Value → Text
  | .null => ['n', 'u', 'l', 'l']
  | .bool true => ['t', 'r', 'u', 'e']
  | .bool false => ['f', 'a', 'l', 's', 'e']
  | .number n => n.text
  | .string s => Str.text s
  | .array pad items => '[' :: (if items.isEmpty then pad.text else elementsText items) ++ [']']
  | .object pad members => '{' :: (if members.isEmpty then pad.text else membersText members) ++ ['}']

def elementText : Element Value → Text
  | ⟨before, value, after⟩ => before.text ++ value.text ++ after.text

def memberText : Member Value → Text
  | ⟨before, key, middle, element⟩ => before.text ++ Str.text key ++ middle.text ++ ':' :: elementText element

def elementsText : List (Element Value) → Text
  | [] => []
  | [e] => elementText e
  | e :: e' :: es => elementText e ++ ',' :: elementsText (e' :: es)

def membersText : List (Member Value) → Text
  | [] => []
  | [m] => memberText m
  | m :: m' :: ms => memberText m ++ ',' :: membersText (m' :: ms)

end

end Json
