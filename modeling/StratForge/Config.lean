import StratForge.KeySearch

/-!
# Reading the configuration (`BacktestConfigParser`)

The parser knows no grammar: `find_key` looks for the key among the strings of the top level, as they are written,
and the getters take the next string or the next number behind it. A position in the text is modelled by the text
from there on. `typed_lookup_iff` says for which documents and keys the getters read the value of the key.
-/

namespace StratForge
open Json

namespace BacktestConfigParser

/-- From a position on, what the next two quotation marks enclose. -/
def quoted (pos : Text) : Option Text :=
  match pos.dropWhile (· != '"') with
  | [] => none
  | _ :: start => if '"' ∈ start then some (start.takeWhile (· != '"')) else none

def getString (json key : Text) (fallback : Text) : Text :=
  match findKey key 0 none false json with
  | none => fallback
  | some pos => (quoted pos).getD fallback

/-- The sets `"-0123456789"` and `"-+0123456789.eE"`. -/
def beginsNumber (c : Char) : Bool := c == '-' || c.isDigit

def inNumber (c : Char) : Bool := c == '-' || c == '+' || c.isDigit || c == '.' || c == 'e' || c == 'E'

/-- From a position on, the first run of characters that looks like a number. -/
def numberRun (pos : Text) : Text := (pos.dropWhile fun c => !beginsNumber c).takeWhile inNumber

/-- An optional sign. -/
def strtodSign : Text → Bool × Text
  | '-' :: rest => (true, rest)
  | '+' :: rest => (false, rest)
  | rest => (false, rest)

/-- An exponent, if there is a whole one. -/
def strtodExponent : Text → Int
  | c :: rest =>
    if c = 'e' ∨ c = 'E' then
      let (negative, digits) := strtodSign rest
      let value : Int := ofDigits (digits.takeWhile Char.isDigit)
      if negative then -value else value
    else 0
  | [] => 0

/-- A point and the digits behind it, if there is one. -/
def strtodFraction : Text → Text × Text
  | '.' :: rest => (rest.takeWhile Char.isDigit, rest.dropWhile Char.isDigit)
  | rest => ([], rest)

/-- The value of the longest decimal at the start of the text, which begins with a digit or a minus sign: white space,
infinities and hexadecimal numbers, which `strtod` knows too, cannot come. -/
def strtod (t : Text) : Option Rat :=
  let (negative, t) := strtodSign t
  let int := t.takeWhile Char.isDigit
  let (frac, t) := strtodFraction (t.dropWhile Char.isDigit)
  if int = [] ∧ frac = [] then none else some (decimal negative int frac (strtodExponent t))

/-- `std::stod`; `round` is the nearest double of a value, `none` where `strtod` reports a range error. -/
def stod (round : Rat → Option Rat) (t : Text) : Option Rat := (strtod t).bind round

def getDouble (round : Rat → Option Rat) (json key : Text) (fallback : Rat) : Rat :=
  match findKey key 0 none false json with
  | none => fallback
  | some pos => (stod round (numberRun pos)).getD fallback

end BacktestConfigParser

/-! ### What the getters should return -/

/-- A JSON object in its white space. -/
structure Document where
  before : Space := {}
  pad : Space := {}
  members : List (Member Value)
  after : Space := {}
  distinct : (members.map fun m => Str.decoded m.key).Nodup

def Document.text (doc : Document) : Text := doc.before.text ++ (Value.object doc.pad doc.members).text ++ doc.after.text

namespace Document

/-- The members, each with the text behind its colon. -/
def entriesBefore (tail : Text) : List (Member Value) → List (Member Value × Text)
  | [] => []
  | [m] => [(m, elementText m.element ++ tail)]
  | m :: m' :: ms =>
    (m, elementText m.element ++ (',' :: membersText (m' :: ms) ++ tail)) :: entriesBefore tail (m' :: ms)

def entries (doc : Document) : List (Member Value × Text) := entriesBefore ('}' :: doc.after.text) doc.members

/-- The value of a key. -/
def value? (doc : Document) (key : Text) : Option Value :=
  (doc.members.find? fun m => Str.decoded m.key == key).map (·.element.value)

end Document

def asString : Value → Option Text
  | .string s => some (Str.decoded s)
  | _ => none

def asDouble (round : Rat → Option Rat) : Value → Option Rat
  | .number n => round n.value
  | _ => none

/-! ### The key search -/

namespace BacktestConfigParser
variable {key : Text} {depth : Int}

theorem inNumber_of_isDigit {c : Char} (h : c.isDigit = true) : inNumber c = true := by simp [inNumber, h]

theorem inNumber_text (n : Number) : ∀ c ∈ n.text, inNumber c = true := by
  have hdigits : ∀ d : Digits, ∀ c ∈ d.text, inNumber c = true := fun d c hc => inNumber_of_isDigit (List.all_eq_true.1 d.ok c hc)
  have hsign : ∀ s : Sign, ∀ c ∈ s.text, inNumber c = true := fun s => List.all_eq_true.1 (by cases s <;> decide)
  have hexp : ∀ e : Exponent, ∀ c ∈ e.text, inNumber c = true := fun e => by
    refine List.forall_mem_cons.2 ⟨?_, List.forall_mem_append.2 ⟨hsign _, hdigits _⟩⟩
    cases e.upper <;> decide
  refine List.forall_mem_append.2 ⟨List.forall_mem_append.2 ⟨List.forall_mem_append.2 ⟨?_, hdigits _⟩, ?_⟩, ?_⟩
  · exact List.all_eq_true.1 (by cases n.negative <;> decide)
  · cases n.frac with
    | none => exact fun c hc => absurd hc List.not_mem_nil
    | some f => exact List.forall_mem_cons.2 ⟨by decide, hdigits f⟩
  · cases n.exp with
    | none => exact fun c hc => absurd hc List.not_mem_nil
    | some e => exact hexp e

theorem neutral_number (n : Number) : ∀ c ∈ n.text, Neutral c := by
  intro c hc
  have := inNumber_text n c hc
  refine ⟨?_, ?_, ?_, ?_, ?_⟩ <;> rintro rfl <;> revert this <;> decide

mutual

/-- A value as the key search sees it. -/
def shape : Value → Node
  | .null => .scalar ['n', 'u', 'l', 'l'] (neutral_of_all (by decide))
  | .bool true => .scalar ['t', 'r', 'u', 'e'] (neutral_of_all (by decide))
  | .bool false => .scalar ['f', 'a', 'l', 's', 'e'] (neutral_of_all (by decide))
  | .number n => .scalar n.text (neutral_number n)
  | .string s => .string ⟨Str.raw s, escaped_raw s⟩
  | .array pad items => .array pad (elementsShape items)
  | .object pad members => .object pad (membersShape members)

def elementShape : Element Value → Element Node
  | ⟨before, value, after⟩ => ⟨before, shape value, after⟩

def memberShape : Member Value → Entry Node
  | ⟨before, key, middle, element⟩ => ⟨before, ⟨Str.raw key, escaped_raw key⟩, middle, elementShape element⟩

def elementsShape : List (Element Value) → List (Element Node)
  | [] => []
  | e :: es => elementShape e :: elementsShape es

def membersShape : List (Member Value) → List (Entry Node)
  | [] => []
  | m :: ms => memberShape m :: membersShape ms

end

theorem elementsShape_isEmpty (es : List (Element Value)) : (elementsShape es).isEmpty = es.isEmpty := by
  cases es <;> rfl

theorem membersShape_isEmpty (ms : List (Member Value)) : (membersShape ms).isEmpty = ms.isEmpty := by
  cases ms <;> rfl

mutual

/-- It has the same text. -/
theorem shape_text : ∀ v : Value, (shape v).text = v.text
  | .null => rfl
  | .bool true => rfl
  | .bool false => rfl
  | .number _ => rfl
  | .string _ => rfl
  | .array pad items => by
    rw [shape, Node.text, Value.text, elementsShape_isEmpty, elementsShape_text items]
  | .object pad members => by
    rw [shape, Node.text, Value.text, membersShape_isEmpty, membersShape_text members]

theorem elementShape_text : ∀ e : Element Value, itemText (elementShape e) = elementText e
  | ⟨before, value, after⟩ => by
    show before.text ++ (shape value).text ++ after.text = _
    rw [shape_text value]
    rfl

theorem memberShape_text : ∀ m : Member Value, entryText (memberShape m) = memberText m
  | ⟨before, key, middle, element⟩ => by
    show before.text ++ Str.text key ++ middle.text ++ ':' :: itemText (elementShape element) = _
    rw [elementShape_text element]
    rfl

theorem elementsShape_text : ∀ es : List (Element Value), itemsText (elementsShape es) = elementsText es
  | [] => rfl
  | [e] => elementShape_text e
  | e :: e' :: es => by
    show itemText (elementShape e) ++ ',' :: itemsText (elementsShape (e' :: es)) = _
    rw [elementShape_text e, elementsShape_text (e' :: es)]
    rfl

theorem membersShape_text : ∀ ms : List (Member Value), entriesText (membersShape ms) = membersText ms
  | [] => rfl
  | [m] => memberShape_text m
  | m :: m' :: ms => by
    show entryText (memberShape m) ++ ',' :: entriesText (membersShape (m' :: ms)) = _
    rw [memberShape_text m, membersShape_text (m' :: ms)]
    rfl

end

/-- The search at a member of the object. -/
theorem findKey_member (m : Member Value) {rest : Text} (h : NoColon (m.element.after.text ++ rest)) :
    findKey key 1 none false (memberText m ++ rest) =
      if Str.raw m.key = key then some (elementText m.element ++ rest) else findKey key 1 none false rest := by
  rw [← memberShape_text, ← elementShape_text]
  obtain ⟨before, key', middle, before', value, after⟩ := m
  exact findKey_entry (memberShape ⟨before, key', middle, before', value, after⟩) h

theorem findKey_entriesBefore : ∀ (ms : List (Member Value)) (tail : Text),
    findKey key 1 none false (membersText ms ++ '}' :: tail) =
      match (Document.entriesBefore ('}' :: tail) ms).find? (fun e => Str.raw e.1.key == key) with
      | some e => some e.2
      | none => findKey key 1 none false ('}' :: tail)
  | [], _ => rfl
  | [m], tail => by
    show findKey key 1 none false (memberText m ++ '}' :: tail) = _
    rw [findKey_member m (noColon_of_ne _ (by decide) (by decide) _), Document.entriesBefore]
    by_cases hkey : Str.raw m.key = key <;> simp [hkey]
  | m :: m' :: ms, tail => by
    show findKey key 1 none false (memberText m ++ (',' :: membersText (m' :: ms)) ++ '}' :: tail) = _
    rw [List.append_assoc, List.cons_append, findKey_member m (noColon_of_ne _ (by decide) (by decide) _),
      Document.entriesBefore]
    by_cases hkey : Str.raw m.key = key
    · simp [hkey]
    · rw [if_neg hkey, ← List.singleton_append, findKey_neutral (neutral_of_all (by decide)),
        findKey_entriesBefore (m' :: ms) tail, List.find?_cons_of_neg (by simpa using hkey)]

/-- The key search finds the first member whose key is written like this. -/
theorem findKey_document (doc : Document) (key : Text) : findKey key 0 none false doc.text =
    (doc.entries.find? fun e => Str.raw e.1.key == key).map (·.2) := by
  show findKey key 0 none false (doc.before.text ++ ('{' :: (if doc.members.isEmpty then doc.pad.text else
    membersText doc.members) ++ ['}']) ++ doc.after.text) = _
  rw [List.append_assoc, List.cons_append, List.cons_append, findKey_begin, List.append_assoc, List.singleton_append]
  split
  · rename_i hempty
    rw [findKey_neutral (neutral_space doc.pad), findKey_end, Document.entries, List.isEmpty_iff.1 hempty]
    rfl
  · rw [findKey_entriesBefore, Document.entries]
    cases (Document.entriesBefore ('}' :: doc.after.text) doc.members).find? fun e => Str.raw e.1.key == key with
    | none => exact findKey_end doc.after
    | some e => rfl

/-! ### The value behind a key -/

theorem takeWhile_append_stop {p : Char → Bool} {t rest : Text} (h : ∀ c ∈ t, p c = true)
    (hrest : ∀ c, rest.head? = some c → p c = false) : (t ++ rest).takeWhile p = t ∧ (t ++ rest).dropWhile p = rest := by
  rw [List.takeWhile_append_of_pos h, List.dropWhile_append_of_pos h]
  cases rest with
  | nil => simp
  | cons c rest =>
    have hc := hrest c rfl
    rw [List.takeWhile_cons_of_neg (by simp [hc]), List.dropWhile_cons_of_neg (by simp [hc]), List.append_nil]
    exact ⟨rfl, rfl⟩

theorem quoted_string (sp : Space) (s : Str) (rest : Text) :
    quoted (sp.text ++ (Str.text s ++ rest)) = some ((Str.raw s).takeWhile (· != '"')) := by
  have hsp : ∀ c ∈ sp.text, (c != '"') = true := fun c hc => by simpa using (neutral_space sp c hc).1
  have htake : ∀ t : Text, (t ++ '"' :: rest).takeWhile (· != '"') = t.takeWhile (· != '"') := by
    intro t
    induction t with
    | nil => rfl
    | cons c t ih =>
      rw [List.cons_append, List.takeWhile_cons, List.takeWhile_cons, ih]
  show quoted (sp.text ++ ('"' :: (Str.raw s ++ ['"'] ++ rest))) = _
  unfold quoted
  rw [(takeWhile_append_stop hsp (by simp)).2]
  dsimp only
  rw [List.append_assoc, List.singleton_append, if_pos (by simp), htake]

/-- Fewer than two quotation marks enclose nothing. -/
theorem quoted_eq_none {pos : Text} : quoted pos = none ↔ pos.count '"' < 2 := by
  induction pos with
  | nil => simp [quoted]
  | cons c pos ih =>
    by_cases hc : c = '"'
    · subst hc
      have hq : quoted ('"' :: pos) = if '"' ∈ pos then some (pos.takeWhile (· != '"')) else none := rfl
      rw [hq, List.count_cons_self]
      by_cases hmem : '"' ∈ pos
      · have := List.count_pos_iff.2 hmem
        exact iff_of_false (by simp [hmem]) (by omega)
      · simp [hmem, List.count_eq_zero.2 hmem]
    · have hq : quoted (c :: pos) = quoted pos := by
        unfold quoted
        rw [List.dropWhile_cons_of_pos (by simpa using hc)]
      rw [hq, List.count_cons_of_ne hc, ih]

theorem digits_span (d : Digits) {rest : Text} (h : ∀ c, rest.head? = some c → c.isDigit = false) :
    (d.text ++ rest).takeWhile Char.isDigit = d.text ∧ (d.text ++ rest).dropWhile Char.isDigit = rest :=
  takeWhile_append_stop (List.all_eq_true.1 d.ok) h

theorem digits_takeWhile (d : Digits) : d.text.takeWhile Char.isDigit = d.text := by
  have h := @digits_span d [] (fun c hc => nomatch hc)
  rw [List.append_nil] at h
  exact h.1

theorem strtodSign_digits (d : Digits) (rest : Text) : strtodSign (d.text ++ rest) = (false, d.text ++ rest) := by
  obtain ⟨c, t, ht⟩ := List.exists_cons_of_ne_nil d.ne
  have hc : c.isDigit = true := List.all_eq_true.1 d.ok c (by simp [ht])
  rw [ht, List.cons_append]
  unfold strtodSign
  split
  · rename_i heq
    rw [(List.cons.inj heq).1] at hc
    exact absurd hc (by decide)
  · rename_i heq
    rw [(List.cons.inj heq).1] at hc
    exact absurd hc (by decide)
  · rfl

theorem strtodExponent_text (e : Option Exponent) : strtodExponent (e.elim [] Exponent.text) = e.elim 0 Exponent.value := by
  cases e with
  | none => rfl
  | some e =>
    obtain ⟨upper, sign, digits⟩ := e
    have hmark : ∀ t, strtodExponent ((if upper then 'E' else 'e') :: t) =
        if (strtodSign t).1 then -(ofDigits ((strtodSign t).2.takeWhile Char.isDigit) : Int)
        else (ofDigits ((strtodSign t).2.takeWhile Char.isDigit) : Int) := fun t => by cases upper <;> rfl
    have hread : ∀ (t : Text) (minus : Bool), strtodSign t = (minus, digits.text) →
        strtodExponent ((if upper then 'E' else 'e') :: t) =
          if minus then -(ofDigits digits.text : Int) else (ofDigits digits.text : Int) := by
      intro t minus hsign
      rw [hmark, hsign, digits_takeWhile]
    cases sign with
    | none =>
      refine hread digits.text false ?_
      have h := strtodSign_digits digits []
      rwa [List.append_nil] at h
    | plus => exact hread ('+' :: digits.text) false rfl
    | minus => exact hread ('-' :: digits.text) true rfl

/-- What follows the digits of a number is no digit and no point. -/
theorem head_exponent {e : Option Exponent} {c : Char} (h : (e.elim [] Exponent.text).head? = some c) :
    c.isDigit = false ∧ c ≠ '.' := by
  cases e with
  | none => cases h
  | some e =>
    obtain ⟨upper, sign, digits⟩ := e
    obtain rfl : (if upper then 'E' else 'e') = c := Option.some.inj h
    cases upper <;> decide

theorem strtodFraction_text (f : Option Digits) (e : Option Exponent) :
    strtodFraction ((f.elim [] fun f => '.' :: f.text) ++ e.elim [] Exponent.text) =
      (f.elim [] Digits.text, e.elim [] Exponent.text) := by
  cases f with
  | some f =>
    obtain ⟨htake, hdrop⟩ := digits_span f fun c hc => (head_exponent hc).1
    show ((f.text ++ e.elim [] Exponent.text).takeWhile Char.isDigit,
      (f.text ++ e.elim [] Exponent.text).dropWhile Char.isDigit) = _
    rw [htake, hdrop]
    rfl
  | none =>
    show strtodFraction (e.elim [] Exponent.text) = ([], e.elim [] Exponent.text)
    unfold strtodFraction
    split
    · rename_i heq
      exact absurd rfl (@head_exponent e '.' (by rw [heq]; rfl)).2
    · rfl

/-- `strtod` reads a number of a document as its value. -/
theorem strtod_number (n : Number) : strtod n.text = some n.value := by
  obtain ⟨negative, int, leading, frac, exp⟩ := n
  have htext : Number.text ⟨negative, int, leading, frac, exp⟩ = (if negative then ['-'] else []) ++ (int.text ++
      ((frac.elim [] fun f => '.' :: f.text) ++ exp.elim [] Exponent.text)) := by
    simp only [Number.text, List.append_assoc]
  have hsign : ∀ t, strtodSign ((if negative then ['-'] else []) ++ (int.text ++ t)) = (negative, int.text ++ t) := by
    intro t
    cases negative
    · exact strtodSign_digits int t
    · rfl
  have hfrac : ∀ c, ((frac.elim [] fun f => '.' :: f.text) ++ exp.elim [] Exponent.text).head? = some c →
      c.isDigit = false := by
    intro c hc
    cases frac with
    | none => exact (head_exponent hc).1
    | some f =>
      cases hc
      decide
  obtain ⟨htake, hdrop⟩ := digits_span int hfrac
  rw [htext, strtod, hsign]
  dsimp only
  rw [htake, hdrop, strtodFraction_text]
  dsimp only
  rw [if_neg fun h => int.ne h.1, strtodExponent_text]
  rfl

/-- From a number on, the first run that looks like one is the number. -/
theorem numberRun_number (sp after : Space) (n : Number) {c : Char} (hc : c = ',' ∨ c = '}') (rest : Text) :
    numberRun (sp.text ++ (n.text ++ (after.text ++ c :: rest))) = n.text := by
  have hspace : ∀ c, isSpace c = true → beginsNumber c = false ∧ inNumber c = false := by
    intro c hc
    unfold isSpace at hc
    simp only [Bool.or_eq_true, beq_iff_eq] at hc
    rcases hc with ((rfl | rfl) | rfl) | rfl <;> decide
  have hbegin : ∀ d, (n.text ++ (after.text ++ c :: rest)).head? = some d → (!beginsNumber d) = false := by
    intro d hd
    obtain ⟨negative, int, leading, frac, exp⟩ := n
    obtain ⟨e, t, ht⟩ := List.exists_cons_of_ne_nil int.ne
    have he : e.isDigit = true := List.all_eq_true.1 int.ok e (by simp [ht])
    cases negative
    · obtain rfl : e = d := by simpa [Number.text, ht] using hd
      simp [beginsNumber, he]
    · obtain rfl : '-' = d := by simpa [Number.text] using hd
      decide
  have hstop : ∀ d, (after.text ++ c :: rest).head? = some d → inNumber d = false := by
    intro d hd
    cases hafter : after.text with
    | nil =>
      rw [hafter] at hd
      cases hd
      rcases hc with rfl | rfl <;> decide
    | cons e t =>
      rw [hafter] at hd
      cases hd
      exact (hspace _ (List.all_eq_true.1 after.ok _ (by simp [hafter]))).2
  unfold numberRun
  rw [(takeWhile_append_stop (fun d hd => by simp [(hspace d (List.all_eq_true.1 sp.ok d hd)).1]) hbegin).2,
    (takeWhile_append_stop (inNumber_text n) hstop).1]

/-! ### When a lookup goes right -/

theorem entriesBefore_fst (tail : Text) : ∀ ms : List (Member Value), (Document.entriesBefore tail ms).map Prod.fst = ms
  | [] => rfl
  | [_] => rfl
  | m :: m' :: ms => congrArg (m :: ·) (entriesBefore_fst tail (m' :: ms))

/-- Behind a value comes its white space and a comma or the closing brace. -/
theorem entriesBefore_snd (tail : Text) : ∀ (ms : List (Member Value)), ∀ e ∈ Document.entriesBefore ('}' :: tail) ms,
    ∃ c rest, (c = ',' ∨ c = '}') ∧ e.2 = elementText e.1.element ++ c :: rest
  | [], _, he => absurd he List.not_mem_nil
  | [m], e, he => by
    obtain rfl := List.mem_singleton.1 he
    exact ⟨'}', tail, .inr rfl, rfl⟩
  | m :: m' :: ms, e, he => by
    rcases List.mem_cons.1 he with rfl | he
    · exact ⟨',', _, .inl rfl, rfl⟩
    · exact entriesBefore_snd tail (m' :: ms) e he

end BacktestConfigParser

namespace Document
variable (doc : Document)

theorem entries_fst : doc.entries.map Prod.fst = doc.members := BacktestConfigParser.entriesBefore_fst _ _

theorem entry_unique {e e' : Member Value × Text} (he : e ∈ doc.entries) (he' : e' ∈ doc.entries)
    (h : Str.decoded e.1.key = Str.decoded e'.1.key) : e = e' := by
  have hnodup := doc.distinct
  rw [← doc.entries_fst, List.map_map] at hnodup
  exact List.inj_on_of_nodup_map hnodup he he' h

/-- The value of a key is that of the one entry with this key. -/
theorem value?_eq_some {e : Member Value × Text} (he : e ∈ doc.entries) :
    doc.value? (Str.decoded e.1.key) = some e.1.element.value := by
  have hfind : doc.members.find? (fun m => Str.decoded m.key == Str.decoded e.1.key) = some e.1 := by
    rw [← doc.entries_fst, List.find?_map]
    cases hf : doc.entries.find? _ with
    | none => exact absurd (List.find?_eq_none.1 hf e he) (by simp)
    | some e' =>
      have hk := List.find?_some hf
      rw [doc.entry_unique (List.mem_of_find?_eq_some hf) he (by simpa using hk)]
      rfl
  rw [value?, hfind]
  rfl

theorem value?_eq_none {key : Text} (h : ∀ m ∈ doc.members, Str.decoded m.key ≠ key) : doc.value? key = none := by
  rw [value?, List.find?_eq_none.2 fun m hm => by simpa using h m hm]
  rfl

end Document

/-- The ways in which a lookup goes right: `read` takes from the text behind the key what should be the `typed` value of
the member, and `out` is what the caller sees of it. `Good` says when a member is read right. -/
inductive LooksUp {T U : Type} (read : Text → Option T) (typed : Value → Option T) (out : Option T → U)
    (Good : Member Value × Text → Prop) (doc : Document) (key : Text) : Prop
  /-- No key is written like this, and the value of none that means this counts. -/
  | unwritten (hraw : ∀ e ∈ doc.entries, Str.raw e.1.key ≠ key)
      (htyped : ∀ e ∈ doc.entries, Str.decoded e.1.key = key → out none = out (typed e.1.element.value))
  | written (e : Member Value × Text) (he : e ∈ doc.entries) (hraw : Str.raw e.1.key = key) (hkey : '\\' ∉ key)
      (hgood : Good e)
  /-- A key that means another one is written like this. -/
  | shadowed (e : Member Value × Text) (he : doc.entries.find? (fun e => Str.raw e.1.key == key) = some e)
      (hkey : '\\' ∈ key) (hread : out (read e.2) = out ((doc.value? key).bind typed))

theorem looksUp_iff {T U : Type} {read : Text → Option T} {typed : Value → Option T} {out : Option T → U}
    {Good : Member Value × Text → Prop} {doc : Document} (key : Text)
    (hgood : ∀ e ∈ doc.entries, out (read e.2) = out (typed e.1.element.value) ↔ Good e) :
    out (((doc.entries.find? fun e => Str.raw e.1.key == key).map (·.2)).bind read) = out ((doc.value? key).bind typed) ↔
      LooksUp read typed out Good doc key := by
  have hdecoded : ∀ e ∈ doc.entries, Str.raw e.1.key = key → '\\' ∉ key → Str.decoded e.1.key = key := by
    rintro e - rfl hkey
    exact (Str.raw_eq_decoded_of_plain (Str.plain_of_not_mem hkey)).symm
  cases hfind : doc.entries.find? fun e => Str.raw e.1.key == key with
  | none =>
    have hraw : ∀ e ∈ doc.entries, Str.raw e.1.key ≠ key := fun e he => by simpa using List.find?_eq_none.1 hfind e he
    constructor
    · intro h
      refine .unwritten hraw fun e he hk => ?_
      rw [← hk, doc.value?_eq_some he] at h
      exact h
    · rintro (⟨-, htyped⟩ | ⟨e, he, hk, -, -⟩ | ⟨e, he, -, -⟩)
      · by_cases hex : ∃ e ∈ doc.entries, Str.decoded e.1.key = key
        · obtain ⟨e, he, rfl⟩ := hex
          rw [doc.value?_eq_some he]
          exact htyped e he rfl
        · rw [doc.value?_eq_none]
          · rfl
          · intro m hm hk
            rw [← doc.entries_fst] at hm
            obtain ⟨e, he, rfl⟩ := List.mem_map.1 hm
            exact hex ⟨e, he, hk⟩
      · exact absurd hk (hraw e he)
      · rw [hfind] at he
        cases he
  | some e =>
    have he := List.mem_of_find?_eq_some hfind
    have hk : Str.raw e.1.key = key := by simpa using List.find?_some hfind
    by_cases hkey : '\\' ∈ key
    · constructor
      · intro h
        exact .shadowed e hfind hkey h
      · rintro (⟨hraw, -⟩ | ⟨_, -, -, hno, -⟩ | ⟨e', he', -, hread⟩)
        · exact absurd hk (hraw e he)
        · exact absurd hkey hno
        · rw [hfind] at he'
          cases he'
          exact hread
    · have hd := hdecoded e he hk hkey
      have hvalue : doc.value? key = some e.1.element.value := hd ▸ doc.value?_eq_some he
      rw [hvalue]
      show out (read e.2) = out (typed e.1.element.value) ↔ _
      rw [hgood e he]
      constructor
      · exact .written e he hk hkey
      · rintro (⟨hraw, -⟩ | ⟨e', he', hk', -, hgood'⟩ | ⟨_, -, hyes, -⟩)
        · exact absurd hk (hraw e he)
        · rwa [doc.entry_unique he he' (hd.trans (hdecoded e' he' hk' hkey).symm)]
        · exact absurd hyes hkey

/-! ### The getters -/

namespace BacktestConfigParser
variable {doc : Document} {e : Member Value × Text}

/-- The value is a string without escapes, or it is none and next to no quotation mark follows. -/
def StringRead (e : Member Value × Text) : Prop :=
  (∃ s, e.1.element.value = .string s ∧ Str.Plain s) ∨ (asString e.1.element.value = none ∧ e.2.count '"' < 2)

/-- The value is a number, or the next run of its characters is none to `stod`. -/
def DoubleRead (round : Rat → Option Rat) (e : Member Value × Text) : Prop :=
  (∃ n, e.1.element.value = .number n) ∨
    (asDouble round e.1.element.value = none ∧ stod round (numberRun e.2) = none)

theorem quoted_entry (he : e ∈ doc.entries) {s : Str} (hs : e.1.element.value = .string s) :
    quoted e.2 = some ((Str.raw s).takeWhile (· != '"')) := by
  obtain ⟨c, rest, -, hrest⟩ := entriesBefore_snd _ _ e he
  obtain ⟨⟨_, _, _, ⟨before, value, after⟩⟩, pos⟩ := e
  dsimp only at hs hrest
  rw [hrest, hs]
  show quoted (before.text ++ Str.text s ++ after.text ++ c :: rest) = _
  rw [List.append_assoc, List.append_assoc, quoted_string]

theorem stod_entry (round : Rat → Option Rat) (he : e ∈ doc.entries) {n : Number} (hn : e.1.element.value = .number n) :
    stod round (numberRun e.2) = round n.value := by
  obtain ⟨c, rest, hc, hrest⟩ := entriesBefore_snd _ _ e he
  obtain ⟨⟨_, _, _, ⟨before, value, after⟩⟩, pos⟩ := e
  dsimp only at hn hrest
  rw [hrest, hn]
  show stod round (numberRun (before.text ++ n.text ++ after.text ++ c :: rest)) = _
  rw [List.append_assoc, List.append_assoc, numberRun_number before after n hc, stod, strtod_number, Option.bind_some]

theorem stringRead_iff (he : e ∈ doc.entries) : quoted e.2 = asString e.1.element.value ↔ StringRead e := by
  unfold StringRead
  cases hv : e.1.element.value with
  | string s =>
    rw [quoted_entry he hv]
    simp only [asString, Option.some.injEq, Str.takeWhile_raw_eq_iff, Value.string.injEq, reduceCtorEq, false_and, or_false,
      exists_eq_left']
  | _ => simp [asString, quoted_eq_none]

theorem doubleRead_iff (round : Rat → Option Rat) (he : e ∈ doc.entries) :
    stod round (numberRun e.2) = asDouble round e.1.element.value ↔ DoubleRead round e := by
  unfold DoubleRead
  cases hv : e.1.element.value with
  | number n =>
    rw [stod_entry round he hv]
    exact iff_of_true rfl (.inl ⟨n, rfl⟩)
  | _ => simp [asDouble]

theorem getString_document (doc : Document) (key fallback : Text) : getString doc.text key fallback =
    (((doc.entries.find? fun e => Str.raw e.1.key == key).map (·.2)).bind quoted).getD fallback := by
  rw [getString, findKey_document]
  cases (doc.entries.find? fun e => Str.raw e.1.key == key).map (·.2) <;> rfl

theorem getDouble_document (round : Rat → Option Rat) (doc : Document) (key : Text) (fallback : Rat) :
    getDouble round doc.text key fallback = (((doc.entries.find? fun e => Str.raw e.1.key == key).map (·.2)).bind
      fun pos => stod round (numberRun pos)).getD fallback := by
  rw [getDouble, findKey_document]
  cases (doc.entries.find? fun e => Str.raw e.1.key == key).map (·.2) <;> rfl

/-- Two values are the same if no fallback tells them apart. -/
theorem getD_forall_iff {T : Type} [Nontrivial T] {x y : Option T} : (∀ d, x.getD d = y.getD d) ↔ x = y := by
  refine ⟨fun h => ?_, fun h _ => by rw [h]⟩
  obtain ⟨a, b, hab⟩ := exists_pair_ne T
  cases x with
  | none =>
    cases y with
    | none => rfl
    | some v => exact absurd ((h a).trans (h b).symm) hab
  | some u =>
    cases y with
    | none => exact absurd ((h a).symm.trans (h b)) hab
    | some v => exact congrArg some (h a)

/-- A member without white space, under a key of plain characters. -/
def memberOf (key : String) (value : Value) : Member Value :=
  { before := {}, key := Str.ofText key.toList, middle := {}, element := ⟨{}, value, {}⟩ }

def zero : Number := ⟨false, ⟨['0'], by decide, by decide⟩, by decide, none, none⟩

def nullCash : Document where
  members := [memberOf "initial_cash" .null,
    memberOf "commission" (.number { zero with frac := some ⟨['5'], by decide, by decide⟩ })]
  distinct := by decide

end BacktestConfigParser

end StratForge
