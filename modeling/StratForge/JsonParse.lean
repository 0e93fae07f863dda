import StratForge.JsonText

/-!
# Reading JSON

`parse` gives the data that a text stands for. The grammar is read completely: the text of every document parses to what
the document stands for (`parse_text`), so a text stands for one thing only. For a string the converse is here too
(`decodeLiteral_eq_some`). A reader of a part takes the text from there on and leaves the rest. The readers of nested
parts count down.
-/

namespace Json

/-- What a document stands for. -/
inductive Data
  | null
  | bool (b : Bool)
  | number (q : ℚ)
  | string (s : Text)
  | array (items : List Data)
  | object (members : List (Text × Data))

/-! ### Strings -/

def Escape.ofLetter (c : Char) : Option Escape :=
  if c = '"' then some .quotationMark
  else if c = '\\' then some .reverseSolidus
  else if c = '/' then some .solidus
  else if c = 'b' then some .backspace
  else if c = 'f' then some .formFeed
  else if c = 'n' then some .lineFeed
  else if c = 'r' then some .carriageReturn
  else if c = 't' then some .tab
  else none

theorem Escape.ofLetter_letter (e : Escape) : ofLetter e.letter = some e := by cases e <;> rfl

def readHex4 (t : Text) : Option (Nat × Text) :=
  if 4 ≤ t.length ∧ (t.take 4).all isHex = true then
    some ((t.take 4).foldl (fun n c => 16 * n + hexValue c) 0, t.drop 4)
  else none

theorem readHex4_digits (u : Hex4) (rest : Text) : readHex4 (u.digits ++ rest) = some (u.value, rest) := by
  have htake : (u.digits ++ rest).take 4 = u.digits := by rw [List.take_append_of_le_length u.length.ge, ← u.length, List.take_length]
  have hdrop : (u.digits ++ rest).drop 4 = rest := by rw [← u.length, List.drop_left]
  rw [readHex4, htake, hdrop, if_pos ⟨by simp [u.length], u.ok⟩]
  rfl

/-- After `\u`. -/
def readUnicode (t : Text) : Option (Char × Text) := do
  let (high, t) ← readHex4 t
  if high < 0xD800 ∨ 0xDFFF < high then return (Char.ofNat high, t)
  else if high < 0xDC00 ∧ t.take 2 = ['\\', 'u'] then
    let (low, t) ← readHex4 (t.drop 2)
    if 0xDC00 ≤ low ∧ low ≤ 0xDFFF then
      return (Char.ofNat (0x10000 + (high - 0xD800) * 0x400 + (low - 0xDC00)), t)
    else none
  else none

/-- One character of a string. -/
def readItem : Text → Option (Char × Text)
  | [] => none
  | c :: t =>
    if c = '\\' then
      match t with
      | [] => none
      | e :: t => if e = 'u' then readUnicode t else (Escape.ofLetter e).map fun e => (e.char, t)
    else if c = '"' ∨ c.toNat < 32 then none
    else some (c, t)

theorem readItem_raw (i : Item) (rest : Text) : readItem (i.raw ++ rest) = some (i.decoded, rest) := by
  cases i with
  | plain c h =>
    show (if c = '\\' then _ else if c = '"' ∨ c.toNat < 32 then none else some (c, rest)) = _
    rw [if_neg h.2.1, if_neg (not_or.2 ⟨h.1, not_lt.2 h.2.2⟩)]
    rfl
  | escape e =>
    have hu : e.letter ≠ 'u' := by cases e <;> decide
    show (if e.letter = 'u' then _ else (Escape.ofLetter e.letter).map fun e => (e.char, rest)) = _
    rw [if_neg hu, e.ofLetter_letter]
    rfl
  | unicode u h =>
    show readUnicode (u.digits ++ rest) = _
    rw [readUnicode, readHex4_digits]
    exact if_pos h
  | pair high low hh hl =>
    show readUnicode (high.digits ++ '\\' :: 'u' :: low.digits ++ rest) = _
    rw [readUnicode, List.append_assoc, readHex4_digits]
    refine (if_neg (by omega : ¬ (high.value < 0xD800 ∨ 0xDFFF < high.value))).trans ((if_pos ⟨hh.2, rfl⟩).trans ?_)
    show (readHex4 (low.digits ++ rest)).bind _ = _
    rw [readHex4_digits]
    exact if_pos hl

/-- A string from behind its first quotation mark. -/
def readString : Nat → Text → Option (Text × Text)
  | 0, _ => none
  | fuel + 1, t =>
    if t.head? = some '"' then some ([], t.tail)
    else do
      let (c, t) ← readItem t
      let (s, t) ← readString fuel t
      return (c :: s, t)

/-- A string is read as what it stands for. -/
theorem readString_raw (s : Str) {fuel : Nat} (hfuel : s.length < fuel) (rest : Text) :
    readString fuel (s.raw ++ '"' :: rest) = some (s.decoded, rest) := by
  induction s generalizing fuel with
  | nil =>
    obtain ⟨fuel, rfl⟩ := Nat.exists_eq_add_of_lt hfuel
    rfl
  | cons i s ih =>
    obtain ⟨fuel, rfl⟩ : ∃ n, fuel = n + 1 := ⟨fuel - 1, by omega⟩
    have hraw : Str.raw (i :: s) ++ '"' :: rest = i.raw ++ (Str.raw s ++ '"' :: rest) := List.append_assoc ..
    have hhead : (i.raw ++ (Str.raw s ++ '"' :: rest)).head? ≠ some '"' := by
      cases i with
      | plain c h => simpa [Item.raw] using h.1
      | escape e => simp [Item.raw]
      | unicode u h => simp [Item.raw]
      | pair high low hh hl => simp [Item.raw]
    rw [hraw, readString, if_neg hhead, readItem_raw]
    show (readString fuel _).bind _ = _
    rw [ih (by simpa using hfuel)]
    rfl

/-! ### What is read as a string is one -/

theorem Escape.letter_ofLetter {c : Char} {e : Escape} (h : ofLetter c = some e) : e.letter = c := by
  unfold ofLetter at h
  split_ifs at h with h₁ h₂ h₃ h₄ h₅ h₆ h₇ h₈
  all_goals
    obtain rfl := Option.some.inj h
    exact Eq.symm ‹c = _›

theorem readHex4_sound {t t' : Text} {n : Nat} (h : readHex4 t = some (n, t')) : ∃ u : Hex4, t = u.digits ++ t' ∧ u.value = n := by
  unfold readHex4 at h
  split_ifs at h with hdigits
  obtain ⟨rfl, rfl⟩ := Prod.mk.inj (Option.some.inj h)
  exact ⟨⟨t.take 4, by rw [List.length_take]; omega, hdigits.2⟩, (List.take_append_drop 4 t).symm, rfl⟩

theorem readUnicode_sound {t t' : Text} {c : Char} (h : readUnicode t = some (c, t')) :
    ∃ i : Item, '\\' :: 'u' :: t = i.raw ++ t' ∧ i.decoded = c := by
  obtain ⟨⟨high, t₁⟩, hhigh, h⟩ := Option.bind_eq_some_iff.1 h
  obtain ⟨u, rfl, rfl⟩ := readHex4_sound hhigh
  dsimp only at h
  split_ifs at h with hplain hpair
  · obtain ⟨rfl, rfl⟩ := Prod.mk.inj (Option.some.inj h)
    exact ⟨.unicode u hplain, rfl, rfl⟩
  · obtain ⟨⟨low, t₂⟩, hlow, h⟩ := Option.bind_eq_some_iff.1 h
    obtain ⟨v, hv, rfl⟩ := readHex4_sound hlow
    dsimp only at h
    split_ifs at h with hrange
    obtain ⟨rfl, rfl⟩ := Prod.mk.inj (Option.some.inj h)
    have ht₁ : t₁ = '\\' :: 'u' :: (v.digits ++ t₂) := by
      rw [← hv, ← List.take_append_drop 2 t₁, hpair.2]
      rfl
    have hhigh : 0xD800 ≤ u.value := by omega
    refine ⟨.pair u v ⟨hhigh, hpair.1⟩ hrange, (congrArg (fun t => '\\' :: 'u' :: (u.digits ++ t)) ht₁).trans ?_, rfl⟩
    simp [Item.raw]

theorem readItem_sound {t t' : Text} {c : Char} (h : readItem t = some (c, t')) :
    ∃ i : Item, t = i.raw ++ t' ∧ i.decoded = c := by
  cases t with
  | nil => cases h
  | cons d t =>
    unfold readItem at h
    dsimp only at h
    split_ifs at h with hescape hplain
    · subst hescape
      cases t with
      | nil => cases h
      | cons e t =>
        dsimp only at h
        split_ifs at h with hu
        · subst hu
          exact readUnicode_sound h
        · obtain ⟨e', he, h⟩ := Option.map_eq_some_iff.1 h
          obtain ⟨rfl, rfl⟩ := Prod.mk.inj h
          obtain rfl := Escape.letter_ofLetter he
          exact ⟨.escape e', rfl, rfl⟩
    · obtain ⟨rfl, rfl⟩ := Prod.mk.inj (Option.some.inj h)
      obtain ⟨hq, hctl⟩ := not_or.1 hplain
      exact ⟨.plain d ⟨hq, hescape, not_lt.1 hctl⟩, rfl, rfl⟩

theorem readString_sound {fuel : Nat} {t t' s : Text} (h : readString fuel t = some (s, t')) :
    ∃ str : Str, t = str.raw ++ '"' :: t' ∧ str.decoded = s := by
  induction fuel generalizing t s with
  | zero => cases h
  | succ fuel ih =>
    unfold readString at h
    split_ifs at h with hend
    · obtain ⟨rfl, rfl⟩ := Prod.mk.inj (Option.some.inj h)
      cases t with
      | nil => cases hend
      | cons c t =>
        obtain rfl := Option.some.inj hend
        exact ⟨[], rfl, rfl⟩
    · obtain ⟨⟨c, t₁⟩, hitem, h⟩ := Option.bind_eq_some_iff.1 h
      obtain ⟨⟨s', t₂⟩, hrest, h⟩ := Option.bind_eq_some_iff.1 h
      obtain ⟨rfl, rfl⟩ := Prod.mk.inj (Option.some.inj h)
      obtain ⟨i, rfl, rfl⟩ := readItem_sound hitem
      obtain ⟨str, rfl, rfl⟩ := ih hrest
      exact ⟨i :: str, (List.append_assoc ..).symm, rfl⟩

/-- What a string in quotation marks stands for. -/
def decodeLiteral (t : Text) : Option Text :=
  if t.head? = some '"' then
    match readString t.length t.tail with
    | some (s, []) => some s
    | _ => none
  else none

theorem decodeLiteral_eq_some {t s : Text} : decodeLiteral t = some s ↔ ∃ str : Str, str.text = t ∧ str.decoded = s := by
  constructor
  · intro h
    unfold decodeLiteral at h
    split_ifs at h with hhead
    cases t with
    | nil => cases hhead
    | cons c t =>
      obtain rfl := Option.some.inj hhead
      rw [List.tail_cons] at h
      cases hread : readString ('"' :: t).length t with
      | none =>
        rw [hread] at h
        cases h
      | some r =>
        obtain ⟨s', t'⟩ := r
        rw [hread] at h
        cases t' with
        | cons => cases h
        | nil =>
          cases h
          obtain ⟨str, rfl, rfl⟩ := readString_sound hread
          exact ⟨str, rfl, rfl⟩
  · rintro ⟨str, rfl, rfl⟩
    have hlen : str.length < str.text.length := by
      have := (Str.length_raw str).1
      simp only [Str.text, List.cons_append, List.length_cons, List.length_append]
      omega
    unfold decodeLiteral
    rw [show str.text.tail = str.raw ++ '"' :: [] from rfl, readString_raw str hlen]
    rfl

/-! ### Numbers -/

def readDigits (t : Text) : Option (Text × Text) :=
  if t.takeWhile Char.isDigit = [] then none else some (t.takeWhile Char.isDigit, t.dropWhile Char.isDigit)

def readFrac (t : Text) : Option (Text × Text) := if t.head? = some '.' then readDigits t.tail else some ([], t)

def readExponent (t : Text) : Option (Int × Text) :=
  if t.head? = some 'e' ∨ t.head? = some 'E' then
    let sign := t.tail.head?
    (readDigits (if sign = some '-' ∨ sign = some '+' then t.tail.tail else t.tail)).map fun (digits, t) =>
      (if sign = some '-' then -(ofDigits digits : Int) else ofDigits digits, t)
  else some (0, t)

def readNumber (t : Text) : Option (ℚ × Text) := do
  let negative := t.head? == some '-'
  let (int, t) ← readDigits (if negative then t.tail else t)
  if int.head? = some '0' ∧ int ≠ ['0'] then none
  else
    let (frac, t) ← readFrac t
    let (exp, t) ← readExponent t
    return (decimal negative int frac exp, t)

/-- No digit comes next. -/
def NoDigit (t : Text) : Prop := ∀ c ∈ t.head?, c.isDigit = false

/-- Nothing comes next that a number could go on with. -/
def Stops (t : Text) : Prop := ∀ c ∈ t.head?, c.isDigit = false ∧ c ≠ '.' ∧ c ≠ 'e' ∧ c ≠ 'E'

theorem stops_nil : Stops [] := nofun

theorem stops_cons {c : Char} (t : Text) (h : c.isDigit = false ∧ c ≠ '.' ∧ c ≠ 'e' ∧ c ≠ 'E') : Stops (c :: t) := by
  rintro d hd
  rw [List.head?_cons, Option.mem_some] at hd
  exact hd ▸ h

theorem Stops.noDigit {t : Text} (h : Stops t) : NoDigit t := fun c hc => (h c hc).1

theorem readDigits_text (d : Digits) {t : Text} (h : NoDigit t) : readDigits (d.text ++ t) = some (d.text, t) := by
  have hnone : t.takeWhile Char.isDigit = [] := by
    cases t with
    | nil => rfl
    | cons c t => rw [List.takeWhile_cons_of_neg (by simp [h c rfl])]
  have htake : (d.text ++ t).takeWhile Char.isDigit = d.text := by
    rw [List.takeWhile_append_of_pos (List.all_eq_true.1 d.ok), hnone, List.append_nil]
  have hsplit := List.takeWhile_append_dropWhile (p := Char.isDigit) (l := d.text ++ t)
  rw [htake] at hsplit
  rw [readDigits, htake, if_neg d.ne, List.append_cancel_left hsplit]

/-- Digits begin with one, so no sign and no point comes next. -/
theorem Digits.head?_ne (d : Digits) (t : Text) {c : Char} (hc : c.isDigit = false) : (d.text ++ t).head? ≠ some c := by
  obtain ⟨text, hne, hok⟩ := d
  cases text with
  | nil => exact absurd rfl hne
  | cons e text =>
    rintro h
    obtain rfl := Option.some.inj h
    rw [List.all_cons, hc, Bool.false_and] at hok
    cases hok

theorem readFrac_text (frac : Option Digits) {t : Text} (h : NoDigit t) (hdot : t.head? ≠ some '.') :
    readFrac ((frac.elim [] fun f => '.' :: f.text) ++ t) = some (frac.elim [] Digits.text, t) := by
  cases frac with
  | none => exact if_neg hdot
  | some f => exact (if_pos rfl).trans (readDigits_text f h)

theorem readExponent_text (exp : Option Exponent) {t : Text} (h : Stops t) :
    readExponent (exp.elim [] Exponent.text ++ t) = some (exp.elim 0 Exponent.value, t) := by
  cases exp with
  | none => exact if_neg (not_or.2 ⟨fun he => (h 'e' he).2.2.1 rfl, fun hE => (h 'E' hE).2.2.2 rfl⟩)
  | some e =>
    obtain ⟨upper, sign, digits⟩ := e
    have hhead : (Exponent.text ⟨upper, sign, digits⟩ ++ t).head? = some 'e' ∨
        (Exponent.text ⟨upper, sign, digits⟩ ++ t).head? = some 'E' := by cases upper <;> simp [Exponent.text]
    have htail : (Exponent.text ⟨upper, sign, digits⟩ ++ t).tail = sign.text ++ (digits.text ++ t) := by simp [Exponent.text]
    have hminus := digits.head?_ne t (c := '-') (by decide)
    have hplus := digits.head?_ne t (c := '+') (by decide)
    refine (if_pos hhead).trans ?_
    simp only [Option.elim_some, htail]
    cases sign with
    | none =>
      show (readDigits (if (digits.text ++ t).head? = some '-' ∨ (digits.text ++ t).head? = some '+' then _ else
        digits.text ++ t)).map (fun (x : Text × Text) => (if (digits.text ++ t).head? = some '-' then _ else _, x.2)) = _
      rw [if_neg (not_or.2 ⟨hminus, hplus⟩), readDigits_text digits h.noDigit, Option.map_some, if_neg hminus]
      rfl
    | plus =>
      show (readDigits (digits.text ++ t)).map _ = _
      rw [readDigits_text digits h.noDigit]
      rfl
    | minus =>
      show (readDigits (digits.text ++ t)).map _ = _
      rw [readDigits_text digits h.noDigit]
      rfl

/-- A number is read as its value. -/
theorem readNumber_text (n : Number) {t : Text} (h : Stops t) : readNumber (n.text ++ t) = some (n.value, t) := by
  obtain ⟨negative, int, leading, frac, exp⟩ := n
  let texp := exp.elim [] Exponent.text ++ t
  have hexp : NoDigit texp ∧ texp.head? ≠ some '.' := by
    cases exp with
    | none => exact ⟨h.noDigit, fun hdot => (h '.' hdot).2.1 rfl⟩
    | some e => cases hu : e.upper <;> simp [texp, NoDigit, Exponent.text, hu]
  let tfrac := (frac.elim [] fun f => '.' :: f.text) ++ texp
  have hfrac : NoDigit tfrac := by
    cases frac with
    | none => exact hexp.1
    | some f => simp [tfrac, NoDigit]
  have hsign : (if ((if negative then ['-'] else []) ++ (int.text ++ tfrac)).head? == some '-' then
      ((if negative then ['-'] else []) ++ (int.text ++ tfrac)).tail else
      (if negative then ['-'] else []) ++ (int.text ++ tfrac)) = int.text ++ tfrac ∧
      (((if negative then ['-'] else []) ++ (int.text ++ tfrac)).head? == some '-') = negative := by
    have hminus := int.head?_ne tfrac (c := '-') (by decide)
    cases negative with
    | true => exact ⟨rfl, rfl⟩
    | false => exact ⟨if_neg (by simpa using hminus), by simpa using hminus⟩
  have htext : Number.text ⟨negative, int, leading, frac, exp⟩ ++ t =
      (if negative then ['-'] else []) ++ (int.text ++ tfrac) := by simp [Number.text, tfrac, texp]
  rw [htext, readNumber]
  dsimp only
  rw [hsign.1, hsign.2, readDigits_text int hfrac]
  show (if _ then _ else (readFrac tfrac).bind _) = _
  rw [if_neg fun h0 => h0.2 (leading h0.1), readFrac_text frac hexp.1 hexp.2]
  show (readExponent texp).bind _ = _
  rw [readExponent_text exp h]
  rfl

/-! ### Values -/

def skip (t : Text) : Text := t.dropWhile isSpace

/-- A word of which the first letter has been read. -/
def readWord (w : Text) (d : Data) (t : Text) : Option (Data × Text) :=
  if w.isPrefixOf t then some (d, t.drop w.length) else none

/-- A value with the white space around it. -/
def readElement (read : Text → Option (Data × Text)) (t : Text) : Option (Data × Text) :=
  (read (skip t)).map fun (d, t) => (d, skip t)

/-- A member, given the reader of its value. -/
def readMember (read : Text → Option (Data × Text)) (t : Text) : Option ((Text × Data) × Text) :=
  if (skip t).head? = some '"' then do
    let (key, t) ← readString t.length (skip t).tail
    if (skip t).head? = some ':' then
      (readElement read (skip t).tail).map fun (d, t) => ((key, d), t)
    else none
  else none

/-- The rest of a list: after a comma it goes on, and at the bracket it ends. -/
def readMore {A : Type} (close : Char) (more : Text → Option (List A × Text)) (x : A) (t : Text) : Option (List A × Text) :=
  if t.head? = some ',' then (more t.tail).map fun (xs, t) => (x :: xs, t)
  else if t.head? = some close then some ([x], t.tail)
  else none

mutual

def readValue : Nat → Text → Option (Data × Text)
  | 0, _ => none
  | _, [] => none
  | fuel + 1, c :: t =>
    if c = '"' then (readString (t.length + 1) t).map fun (s, t) => (.string s, t)
    else if c = '[' then
      if (skip t).head? = some ']' then some (.array [], (skip t).tail)
      else (readElements fuel t).map fun (ds, t) => (.array ds, t)
    else if c = '\x7b' then
      if (skip t).head? = some '\x7d' then some (.object [], (skip t).tail)
      else (readMembers fuel t).map fun (ms, t) => (.object ms, t)
    else if c = 'n' then readWord ['u', 'l', 'l'] .null t
    else if c = 't' then readWord ['r', 'u', 'e'] (.bool true) t
    else if c = 'f' then readWord ['a', 'l', 's', 'e'] (.bool false) t
    else (readNumber (c :: t)).map fun (q, t) => (.number q, t)

def readElements : Nat → Text → Option (List Data × Text)
  | 0, _ => none
  | fuel + 1, t => do
    let (d, t) ← readElement (readValue fuel) t
    readMore ']' (readElements fuel) d t

def readMembers : Nat → Text → Option (List (Text × Data) × Text)
  | 0, _ => none
  | fuel + 1, t => do
    let (m, t) ← readMember (readValue fuel) t
    readMore '\x7d' (readMembers fuel) m t

end

/-- What a document stands for. -/
def parse (t : Text) : Option Data :=
  match readElement (readValue t.length) t with
  | some (d, []) => some d
  | _ => none

mutual

def Value.data : Value → Data
  | .null => .null
  | .bool b => .bool b
  | .number n => .number n.value
  | .string s => .string (Str.decoded s)
  | .array _ items => .array (elementsData items)
  | .object _ members => .object (membersData members)

def elementData : Element Value → Data
  | ⟨_, value, _⟩ => value.data

def memberData : Member Value → Text × Data
  | ⟨_, key, _, element⟩ => (Str.decoded key, elementData element)

def elementsData : List (Element Value) → List Data
  | [] => []
  | e :: es => elementData e :: elementsData es

def membersData : List (Member Value) → List (Text × Data)
  | [] => []
  | m :: ms => memberData m :: membersData ms

end

/-- The text ends, or a list goes on or ends. -/
def Ends (t : Text) : Prop := ∀ c ∈ t.head?, c = ',' ∨ c = ']' ∨ c = '\x7d'

theorem ends_nil : Ends [] := nofun

theorem ends_cons {c : Char} (t : Text) (h : c = ',' ∨ c = ']' ∨ c = '\x7d') : Ends (c :: t) := by
  rintro d hd
  rw [List.head?_cons, Option.mem_some] at hd
  exact hd ▸ h

theorem skip_cons {c : Char} (t : Text) (h : isSpace c = false) : skip (c :: t) = c :: t :=
  List.dropWhile_cons_of_neg (by simp [h])

theorem skip_space (sp : Space) (t : Text) : skip (sp.text ++ t) = skip t :=
  List.dropWhile_append_of_pos (List.all_eq_true.1 sp.ok)

theorem Ends.skip {t : Text} (h : Ends t) : skip t = t := by
  cases t with
  | nil => rfl
  | cons c t =>
    rcases h c rfl with rfl | rfl | rfl <;> exact skip_cons t rfl

/-- A value may be followed by white space. -/
theorem Ends.stops {t : Text} (h : Ends t) (sp : Space) : Stops (sp.text ++ t) := by
  obtain ⟨text, hok⟩ := sp
  cases text with
  | nil =>
    cases t with
    | nil => exact stops_nil
    | cons c t => rcases h c rfl with rfl | rfl | rfl <;> exact stops_cons t (by decide)
  | cons c text =>
    rw [List.all_cons, Bool.and_eq_true] at hok
    have hc := hok.1
    simp only [isSpace, Bool.or_eq_true, beq_iff_eq] at hc
    rcases hc with ((rfl | rfl) | rfl) | rfl <;> exact stops_cons _ (by decide)

theorem Number.text_cons (n : Number) : ∃ c t, n.text = c :: t ∧ (c = '-' ∨ c.isDigit = true) := by
  obtain ⟨negative, ⟨int, hne, hok⟩, leading, frac, exp⟩ := n
  cases negative with
  | true => exact ⟨_, _, rfl, .inl rfl⟩
  | false =>
    cases int with
    | nil => exact absurd rfl hne
    | cons c int =>
      rw [List.all_cons, Bool.and_eq_true] at hok
      exact ⟨c, _, rfl, .inr hok.1⟩

/-- A value begins with no white space and closes nothing. -/
theorem Value.text_cons (v : Value) : ∃ c t, v.text = c :: t ∧ isSpace c = false ∧ c ≠ ']' := by
  cases v with
  | null => exact ⟨_, _, rfl, rfl, by decide⟩
  | bool b => cases b <;> exact ⟨_, _, rfl, rfl, by decide⟩
  | string s => exact ⟨_, _, rfl, rfl, by decide⟩
  | array pad items => exact ⟨_, _, rfl, rfl, by decide⟩
  | object pad members => exact ⟨_, _, rfl, rfl, by decide⟩
  | number n =>
    obtain ⟨c, t, hc, hdigit⟩ := n.text_cons
    refine ⟨c, t, hc, ?_, ?_⟩
    · rcases hdigit with rfl | hdigit
      · rfl
      · by_contra hspace
        simp only [isSpace, Bool.not_eq_false, Bool.or_eq_true, beq_iff_eq] at hspace
        rcases hspace with ((rfl | rfl) | rfl) | rfl <;> revert hdigit <;> decide
    · rintro rfl
      revert hdigit
      decide

theorem skip_value (v : Value) (t : Text) : skip (v.text ++ t) = v.text ++ t := by
  obtain ⟨c, u, hv, hspace, -⟩ := v.text_cons
  rw [hv]
  exact skip_cons _ hspace

theorem readWord_append (w : Text) (d : Data) (t : Text) : readWord w d (w ++ t) = some (d, t) := by
  rw [readWord, if_pos (List.isPrefixOf_iff_prefix.2 (List.prefix_append w t)), List.drop_left]

theorem readMore_cons {A : Type} {close : Char} {more : Text → Option (List A × Text)} {x : A} {xs : List A} {t u : Text}
    (h : more t = some (xs, u)) : readMore close more x (',' :: t) = some (x :: xs, u) := by
  rw [readMore, List.head?_cons, if_pos rfl, List.tail_cons, h]
  rfl

theorem readMore_close {A : Type} {close : Char} {more : Text → Option (List A × Text)} {x : A} {t : Text}
    (hclose : close ≠ ',') : readMore close more x (close :: t) = some ([x], t) := by
  rw [readMore, List.head?_cons, if_neg (by simpa using hclose), if_pos rfl, List.tail_cons]

/-- A number is not taken for anything else. -/
theorem readValue_number (n : Number) {fuel : Nat} (hfuel : 0 < fuel) {t : Text} (ht : Stops t) :
    readValue fuel (n.text ++ t) = some (.number n.value, t) := by
  have hread := readNumber_text n ht
  obtain ⟨c, u, hn, hdigit⟩ := n.text_cons
  obtain ⟨fuel, rfl⟩ : ∃ k, fuel = k + 1 := ⟨fuel - 1, by omega⟩
  have hne : ∀ d : Char, d ≠ '-' → d.isDigit = false → c ≠ d := by
    rintro d hd hdigit' rfl
    rcases hdigit with rfl | hdigit
    · exact hd rfl
    · rw [hdigit] at hdigit'
      cases hdigit'
  rw [hn, List.cons_append] at hread ⊢
  rw [readValue, if_neg (hne _ (by decide) rfl), if_neg (hne _ (by decide) rfl), if_neg (hne _ (by decide) rfl),
    if_neg (hne _ (by decide) rfl), if_neg (hne _ (by decide) rfl), if_neg (hne _ (by decide) rfl), hread]
  rfl

/-- A list that is not empty does not begin with the bracket that closes it. -/
theorem skip_elements (es : List (Element Value)) (hne : es ≠ []) (t : Text) :
    (skip (elementsText es ++ t)).head? ≠ some ']' := by
  have hone : ∀ (e : Element Value) (u : Text), (skip (elementText e ++ u)).head? ≠ some ']' := by
    rintro ⟨before, value, after⟩ u
    obtain ⟨c, w, hv, hspace, hc⟩ := value.text_cons
    have htext : elementText ⟨before, value, after⟩ ++ u = before.text ++ (c :: (w ++ (after.text ++ u))) := by
      simp [elementText, hv]
    rw [htext, skip_space, skip_cons _ hspace, List.head?_cons]
    simpa using hc
  match es with
  | [e] => exact hone e t
  | e :: e' :: es =>
    rw [elementsText, List.append_assoc]
    exact hone e _

theorem skip_memberText (m : Member Value) (t : Text) : (skip (memberText m ++ t)).head? = some '"' := by
  obtain ⟨before, key, middle, element⟩ := m
  have htext : memberText ⟨before, key, middle, element⟩ ++ t =
      before.text ++ ('"' :: (key.raw ++ '"' :: (middle.text ++ ':' :: (elementText element ++ t)))) := by
    simp [memberText, Str.text]
  rw [htext, skip_space, skip_cons _ rfl]
  rfl

theorem skip_members (ms : List (Member Value)) (hne : ms ≠ []) (t : Text) :
    (skip (membersText ms ++ t)).head? ≠ some '\x7d' := by
  match ms with
  | [m] => rw [membersText, skip_memberText]; decide
  | m :: m' :: ms => rw [membersText, List.append_assoc, skip_memberText]; decide

theorem skip_close (sp : Space) {c : Char} (h : isSpace c = false) (t : Text) : skip (sp.text ++ c :: t) = c :: t := by
  rw [skip_space, skip_cons t h]

mutual

/-- With fuel for its text a value is read as what it stands for. -/
theorem readValue_text : ∀ (v : Value) {fuel : Nat} (_ : v.text.length ≤ fuel) {t : Text} (_ : Stops t),
    readValue fuel (v.text ++ t) = some (v.data, t)
  | .null, fuel + 1, _, t, _ => readWord_append ['u', 'l', 'l'] .null t
  | .bool true, fuel + 1, _, t, _ => readWord_append ['r', 'u', 'e'] (.bool true) t
  | .bool false, fuel + 1, _, t, _ => readWord_append ['a', 'l', 's', 'e'] (.bool false) t
  | .number n, fuel, hfuel, t, ht => by
    obtain ⟨c, u, hn, -⟩ := n.text_cons
    have hpos : 0 < n.text.length := by rw [hn]; exact Nat.succ_pos _
    exact readValue_number n (lt_of_lt_of_le hpos hfuel) ht
  | .string s, fuel + 1, _, t, _ => by
    have htext : (Value.string s).text ++ t = '"' :: (s.raw ++ '"' :: t) := by simp [Value.text, Str.text]
    have hlen := (Str.length_raw s).1
    rw [htext, readValue, if_pos rfl, readString_raw s (by simp only [List.length_append]; omega)]
    rfl
  | .array pad items, fuel + 1, hfuel, t, _ => by
    by_cases hitems : items = []
    · subst hitems
      have htext : (Value.array pad []).text ++ t = '[' :: (pad.text ++ ']' :: t) := by simp [Value.text]
      rw [htext, readValue, if_neg (by decide), if_pos rfl, skip_close pad rfl,
        List.head?_cons, if_pos rfl]
      rfl
    · have hempty : items.isEmpty = false := by simpa using hitems
      have htext : (Value.array pad items).text = '[' :: elementsText items ++ [']'] := by simp [Value.text, hempty]
      rw [htext] at hfuel ⊢
      simp only [List.length_append, List.length_cons, List.length_nil] at hfuel
      rw [List.append_assoc, List.cons_append, List.singleton_append, readValue, if_neg (by decide), if_pos rfl,
        if_neg (skip_elements items hitems _), readElements_text items hitems (by omega)]
      rfl
  | .object pad members, fuel + 1, hfuel, t, _ => by
    by_cases hmembers : members = []
    · subst hmembers
      have htext : (Value.object pad []).text ++ t = '\x7b' :: (pad.text ++ '\x7d' :: t) := by simp [Value.text]
      rw [htext, readValue, if_neg (by decide), if_neg (by decide), if_pos rfl, skip_close pad rfl,
        List.head?_cons, if_pos rfl]
      rfl
    · have hempty : members.isEmpty = false := by simpa using hmembers
      have htext : (Value.object pad members).text = '\x7b' :: membersText members ++ ['\x7d'] := by simp [Value.text, hempty]
      rw [htext] at hfuel ⊢
      simp only [List.length_append, List.length_cons, List.length_nil] at hfuel
      rw [List.append_assoc, List.cons_append, List.singleton_append, readValue, if_neg (by decide), if_neg (by decide),
        if_pos rfl, if_neg (skip_members members hmembers _), readMembers_text members hmembers (by omega)]
      rfl

theorem readElement_text : ∀ (e : Element Value) {fuel : Nat} (_ : (elementText e).length ≤ fuel) {t : Text} (_ : Ends t),
    readElement (readValue fuel) (elementText e ++ t) = some (elementData e, t)
  | ⟨before, value, after⟩, fuel, hfuel, t, ht => by
    simp only [elementText, List.length_append] at hfuel
    have htext : elementText ⟨before, value, after⟩ ++ t = before.text ++ (value.text ++ (after.text ++ t)) := by
      simp [elementText]
    rw [htext, readElement, skip_space, skip_value, readValue_text value (by omega) (ht.stops after), Option.map_some]
    show some (value.data, skip (after.text ++ t)) = _
    rw [skip_space, ht.skip]
    rfl

theorem readElements_text : ∀ (es : List (Element Value)) (_ : es ≠ []) {fuel : Nat}
    (_ : (elementsText es).length + 1 ≤ fuel) (t : Text), readElements fuel (elementsText es ++ ']' :: t) = some (elementsData es, t)
  | [e], _, fuel + 1, hfuel, t => by
    rw [elementsText] at hfuel ⊢
    rw [readElements, readElement_text e (by omega) (ends_cons t (Or.inr (Or.inl rfl)))]
    rw [Option.bind_eq_bind, Option.bind_some]
    exact readMore_close (by decide)
  | e :: e' :: es, _, fuel + 1, hfuel, t => by
    rw [elementsText] at hfuel ⊢
    simp only [List.length_append, List.length_cons] at hfuel
    have hrest : readElements fuel (elementsText (e' :: es) ++ ']' :: t) = some (elementsData (e' :: es), t) :=
      readElements_text (e' :: es) (List.cons_ne_nil _ _) (by omega) t
    rw [List.append_assoc, readElements, List.cons_append, readElement_text e (by omega) (ends_cons _ (Or.inl rfl))]
    rw [Option.bind_eq_bind, Option.bind_some]
    exact readMore_cons hrest

theorem readMember_text : ∀ (m : Member Value) {fuel : Nat} (_ : (memberText m).length ≤ fuel) {t : Text} (_ : Ends t),
    readMember (readValue fuel) (memberText m ++ t) = some (memberData m, t)
  | ⟨before, key, middle, element⟩, fuel, hfuel, t, ht => by
    have htext : memberText ⟨before, key, middle, element⟩ ++ t =
        before.text ++ ('"' :: (key.raw ++ '"' :: (middle.text ++ ':' :: (elementText element ++ t)))) := by
      simp [memberText, Str.text]
    simp only [memberText, List.length_append, List.length_cons] at hfuel
    have hlen := (Str.length_raw key).1
    have helement : readElement (readValue fuel) (elementText element ++ t) = some (elementData element, t) :=
      readElement_text element (by omega) ht
    rw [htext, readMember, skip_space, skip_cons _ rfl, List.head?_cons, if_pos rfl, List.tail_cons,
      readString_raw key (by simp only [List.length_append, List.length_cons]; omega)]
    show (if (skip (middle.text ++ ':' :: _)).head? = some ':' then _ else none) = _
    rw [skip_close middle rfl, List.head?_cons, if_pos rfl]
    show (readElement (readValue fuel) (elementText element ++ t)).map _ = _
    rw [helement]
    rfl

theorem readMembers_text : ∀ (ms : List (Member Value)) (_ : ms ≠ []) {fuel : Nat}
    (_ : (membersText ms).length + 1 ≤ fuel) (t : Text), readMembers fuel (membersText ms ++ '\x7d' :: t) = some (membersData ms, t)
  | [m], _, fuel + 1, hfuel, t => by
    rw [membersText] at hfuel ⊢
    rw [readMembers, readMember_text m (by omega) (ends_cons t (Or.inr (Or.inr rfl)))]
    rw [Option.bind_eq_bind, Option.bind_some]
    exact readMore_close (by decide)
  | m :: m' :: ms, _, fuel + 1, hfuel, t => by
    rw [membersText] at hfuel ⊢
    simp only [List.length_append, List.length_cons] at hfuel
    have hrest : readMembers fuel (membersText (m' :: ms) ++ '\x7d' :: t) = some (membersData (m' :: ms), t) :=
      readMembers_text (m' :: ms) (List.cons_ne_nil _ _) (by omega) t
    rw [List.append_assoc, readMembers, List.cons_append, readMember_text m (by omega) (ends_cons _ (Or.inl rfl))]
    rw [Option.bind_eq_bind, Option.bind_some]
    exact readMore_cons hrest

end

/-- The text of a document parses to what the document stands for. -/
theorem parse_text (e : Element Value) : parse (elementText e) = some (elementData e) := by
  have hread := readElement_text e (le_refl _) ends_nil
  rw [List.append_nil] at hread
  rw [parse, hread]

/-- A text stands for one thing only. -/
theorem elementData_unique {e e' : Element Value} (h : elementText e = elementText e') : elementData e = elementData e' := by
  have hparse := parse_text e'
  rw [← h, parse_text e, Option.some.injEq] at hparse
  exact hparse

theorem parse_value (v : Value) : parse v.text = some v.data := by
  have h := parse_text ⟨{}, v, {}⟩
  rwa [show elementText ⟨{}, v, {}⟩ = v.text from List.append_nil _] at h

/-! ### Documents without white space -/

theorem Value.data_array (vs : List Value) : (Value.array {} (vs.map fun v => ⟨{}, v, {}⟩)).data =
    .array (vs.map Value.data) := by
  have hdata : elementsData (vs.map fun v => ⟨{}, v, {}⟩) = vs.map Value.data := by
    induction vs with
    | nil => rfl
    | cons v vs ih => exact congrArg (v.data :: ·) ih
  exact congrArg Data.array hdata

theorem Value.data_object (ms : List (Str × Value)) :
    (Value.object {} (ms.map fun m => ⟨{}, m.1, {}, ⟨{}, m.2, {}⟩⟩)).data =
      .object (ms.map fun m => (m.1.decoded, m.2.data)) := by
  have hdata : membersData (ms.map fun m => ⟨{}, m.1, {}, ⟨{}, m.2, {}⟩⟩) = ms.map fun m => (m.1.decoded, m.2.data) := by
    induction ms with
    | nil => rfl
    | cons m ms ih => exact congrArg ((m.1.decoded, m.2.data) :: ·) ih
  exact congrArg Data.object hdata

end Json
