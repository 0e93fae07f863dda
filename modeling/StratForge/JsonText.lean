import StratForge.Json

/-!
# Well-formed texts

`array` and `object` put texts together as a writer does; what they make of well-formed texts is well formed. `scan`
reads a text character by character: outside of strings it lets `n` stand before `u` only and no `i` anywhere, inside
it lets no control character stand. Every well-formed text passes it (`passes_element`), so a text that it refuses
is not one. `Settled t p`: `t` is well formed under `p` and refused otherwise.
-/

namespace Json

/-- The text of a value. -/
def IsJson (t : Text) : Prop := ∃ v : Value, v.text = t

/-- A document: a value with white space around it. -/
def WellFormed (t : Text) : Prop := ∃ e : Element Value, elementText e = t

theorem IsJson.wellFormed {t : Text} (h : IsJson t) : WellFormed t := by
  obtain ⟨v, rfl⟩ := h
  exact ⟨⟨{}, v, {}⟩, List.append_nil _⟩

/-! ### Putting texts together -/

def joined : List Text → Text
  | [] => []
  | [t] => t
  | t :: t' :: ts => t ++ ',' :: joined (t' :: ts)

def array (ts : List Text) : Text := '[' :: joined ts ++ [']']

def member (key t : Text) : Text := '"' :: key ++ '"' :: ':' :: t

def object (ms : List (Text × Text)) : Text := '{' :: joined (ms.map fun m => member m.1 m.2) ++ ['}']

/-- The members, each after the one before, and what follows them. -/
def membersThen : List (Text × Text) → Text → Text
  | [], rest => rest
  | [m], rest => '"' :: (m.1 ++ '"' :: ':' :: (m.2 ++ rest))
  | m :: m' :: ms, rest => '"' :: (m.1 ++ '"' :: ':' :: (m.2 ++ ',' :: membersThen (m' :: ms) rest))

theorem joined_members (ms : List (Text × Text)) (rest : Text) :
    joined (ms.map fun m => member m.1 m.2) ++ rest = membersThen ms rest := by
  induction ms with
  | nil => rfl
  | cons m ms ih =>
    cases ms with
    | nil => simp [joined, member, membersThen]
    | cons m' ms =>
      have hhead : joined ((m :: m' :: ms).map fun m => member m.1 m.2) =
        member m.1 m.2 ++ ',' :: joined ((m' :: ms).map fun m => member m.1 m.2) := rfl
      rw [hhead, List.append_assoc, List.cons_append, ih, membersThen, member]
      simp

theorem object_eq (ms : List (Text × Text)) : object ms = '{' :: membersThen ms ['}'] :=
  congrArg ('{' :: ·) (joined_members ms ['}'])

def quoted (t : Text) : Text := '"' :: (t ++ ['"'])

theorem quoted_append (t rest : Text) : quoted t ++ rest = '"' :: (t ++ '"' :: rest) := by simp [quoted]

theorem array_append (ts : List Text) (rest : Text) : array ts ++ rest = '[' :: (joined ts ++ ']' :: rest) := by simp [array]

/-- A text that a string can have between its quotation marks as it is. -/
def IsKey (t : Text) : Prop := ∀ c ∈ t, c ≠ '"' ∧ c ≠ '\\' ∧ 32 ≤ c.toNat

instance (t : Text) : Decidable (IsKey t) := List.decidableBAll (fun c : Char => c ≠ '"' ∧ c ≠ '\\' ∧ 32 ≤ c.toNat) t

/-- The string with the characters of a text as they are. -/
theorem IsKey.exists_str {t : Text} (h : IsKey t) : ∃ s : Str, Str.raw s = t := by
  induction t with
  | nil => exact ⟨[], rfl⟩
  | cons c t ih =>
    obtain ⟨hc, ht⟩ := List.forall_mem_cons.1 h
    obtain ⟨s, rfl⟩ := ih ht
    exact ⟨.plain c hc :: s, rfl⟩

theorem exists_values {ts : List Text} (h : ∀ t ∈ ts, IsJson t) : ∃ vs : List Value, vs.map Value.text = ts := by
  induction ts with
  | nil => exact ⟨[], rfl⟩
  | cons t ts ih =>
    obtain ⟨⟨v, rfl⟩, hts⟩ := List.forall_mem_cons.1 h
    obtain ⟨vs, rfl⟩ := ih hts
    exact ⟨v :: vs, rfl⟩

theorem elementsText_eq (es : List (Element Value)) : elementsText es = joined (es.map elementText) := by
  induction es with
  | nil => rfl
  | cons e es ih =>
    cases es with
    | nil => rfl
    | cons e' es => exact congrArg (elementText e ++ ',' :: ·) ih

theorem membersText_eq (ms : List (Member Value)) : membersText ms = joined (ms.map memberText) := by
  induction ms with
  | nil => rfl
  | cons m ms ih =>
    cases ms with
    | nil => rfl
    | cons m' ms => exact congrArg (memberText m ++ ',' :: ·) ih

theorem text_array (vs : List Value) : (Value.array {} (vs.map fun v => ⟨{}, v, {}⟩)).text = array (vs.map Value.text) := by
  have helem : ∀ v : Value, elementText ⟨{}, v, {}⟩ = v.text := fun v => List.append_nil _
  show '[' :: (if _ then _ else _) ++ [']'] = '[' :: joined _ ++ [']']
  rw [elementsText_eq, List.map_map, show elementText ∘ (fun v => ⟨{}, v, {}⟩) = Value.text from funext helem]
  cases vs <;> rfl

theorem IsJson.array {ts : List Text} (h : ∀ t ∈ ts, IsJson t) : IsJson (array ts) := by
  obtain ⟨vs, rfl⟩ := exists_values h
  exact ⟨_, text_array vs⟩

theorem text_object (ms : List (Str × Value)) : (Value.object {} (ms.map fun m => ⟨{}, m.1, {}, ⟨{}, m.2, {}⟩⟩)).text =
    object (ms.map fun m => (m.1.raw, m.2.text)) := by
  have hmember : ∀ m : Str × Value, memberText ⟨{}, m.1, {}, ⟨{}, m.2, {}⟩⟩ = member m.1.raw m.2.text := by
    intro m
    show [] ++ ('"' :: Str.raw m.1 ++ ['"']) ++ [] ++ ':' :: ([] ++ m.2.text ++ []) = _
    simp [member]
  show '{' :: (if _ then _ else _) ++ ['}'] = '{' :: joined _ ++ ['}']
  rw [membersText_eq, List.map_map, List.map_map, show memberText ∘ (fun m : Str × Value => ⟨{}, m.1, {}, ⟨{}, m.2, {}⟩⟩) =
    (fun m => member m.1 m.2) ∘ (fun m => (m.1.raw, m.2.text)) from funext hmember]
  cases ms <;> rfl

theorem exists_members {ms : List (Text × Text)} (h : ∀ m ∈ ms, IsKey m.1 ∧ IsJson m.2) :
    ∃ vs : List (Str × Value), (vs.map fun m => (m.1.raw, m.2.text)) = ms := by
  induction ms with
  | nil => exact ⟨[], rfl⟩
  | cons m ms ih =>
    obtain ⟨⟨hkey, v, hv⟩, hms⟩ := List.forall_mem_cons.1 h
    obtain ⟨vs, rfl⟩ := ih hms
    obtain ⟨s, hs⟩ := hkey.exists_str
    exact ⟨(s, v) :: vs, by rw [List.map_cons, hs, hv]⟩

theorem IsJson.object {ms : List (Text × Text)} (h : ∀ m ∈ ms, IsKey m.1 ∧ IsJson m.2) : IsJson (object ms) := by
  obtain ⟨vs, rfl⟩ := exists_members h
  exact ⟨_, text_object vs⟩

theorem IsJson.string (s : Str) : IsJson (Str.text s) := ⟨.string s, rfl⟩

theorem IsJson.number (n : Number) : IsJson n.text := ⟨.number n, rfl⟩

theorem isJson_null : IsJson ['n', 'u', 'l', 'l'] := ⟨.null, rfl⟩

theorem isJson_bool (b : Bool) : IsJson (if b then ['t', 'r', 'u', 'e'] else ['f', 'a', 'l', 's', 'e']) :=
  ⟨.bool b, by cases b <;> rfl⟩

/-! ### The scanner -/

inductive Lex
  | outside | afterN | string | escape
deriving DecidableEq

def Lex.step : Lex → Char → Option Lex
  | .outside, c => if c = '"' then some .string else if c = 'n' then some .afterN else if c = 'i' then none else some .outside
  | .afterN, c => if c = 'u' then some .outside else none
  | .string, c =>
    if c = '"' then some .outside else if c = '\\' then some .escape else if c.toNat < 32 then none else some .string
  | .escape, _ => some .string

def scan : Lex → Text → Option Lex
  | l, [] => some l
  | l, c :: t => (l.step c).bind (scan · t)

def Passes (t : Text) : Prop := scan .outside t = some .outside

def Refused (t : Text) : Prop := scan .outside t = none

theorem scan_append (l : Lex) (t u : Text) : scan l (t ++ u) = (scan l t).bind (scan · u) := by
  induction t generalizing l with
  | nil => rfl
  | cons c t ih =>
    show (l.step c).bind _ = ((l.step c).bind _).bind _
    cases l.step c with
    | none => rfl
    | some l' => exact ih l'

theorem scan_of_some {l l' : Lex} {t : Text} (h : scan l t = some l') (u : Text) : scan l (t ++ u) = scan l' u := by
  rw [scan_append, h]
  rfl

theorem scan_of_none {l : Lex} {t : Text} (h : scan l t = none) (u : Text) : scan l (t ++ u) = none := by
  rw [scan_append, h]
  rfl

/-- A stretch in which the scanner stays where it is. -/
theorem scan_stays {l : Lex} {t : Text} (h : ∀ c ∈ t, l.step c = some l) : scan l t = some l := by
  induction t with
  | nil => rfl
  | cons c t ih =>
    obtain ⟨hc, ht⟩ := List.forall_mem_cons.1 h
    show (l.step c).bind _ = _
    rw [hc]
    exact ih ht

namespace Passes
variable {t u : Text}

theorem append (ht : Passes t) (hu : Passes u) : Passes (t ++ u) := (scan_of_some ht u).trans hu

theorem refused (ht : Passes t) (hu : Refused u) : Refused (t ++ u) := (scan_of_some ht u).trans hu

theorem of_all (h : (t.all fun c => decide (c ≠ '"' ∧ c ≠ 'n' ∧ c ≠ 'i')) = true) : Passes t := by
  refine scan_stays fun c hc => ?_
  obtain ⟨hq, hn, hi⟩ := of_decide_eq_true (List.all_eq_true.1 h c hc)
  exact (if_neg hq).trans ((if_neg hn).trans (if_neg hi))

end Passes

theorem Refused.append {t : Text} (h : Refused t) (u : Text) : Refused (t ++ u) := scan_of_none h u

theorem Hex4.scan_digits (u : Hex4) : scan .string u.digits = some .string := by
  refine scan_stays fun c hc => ?_
  have hhex := List.all_eq_true.1 u.ok c hc
  obtain ⟨hq, hb⟩ := Item.ne_of_isHex hhex
  have h32 : ¬ c.toNat < 32 := by
    intro h
    have hlow : ∀ n : Fin 32, isHex (Char.ofNat n) = false := by decide
    have := hlow ⟨c.toNat, h⟩
    rw [show Char.ofNat (⟨c.toNat, h⟩ : Fin 32) = c from Char.ofNat_toNat c, hhex] at this
    cases this
  exact (if_neg hq).trans ((if_neg hb).trans (if_neg h32))

theorem Item.scan_raw (i : Item) : scan .string i.raw = some .string := by
  have hunicode : ∀ u : Hex4, scan .string ('\\' :: 'u' :: u.digits) = some .string := fun u => u.scan_digits
  cases i with
  | plain c h =>
    show (Lex.string.step c).bind _ = _
    rw [show Lex.string.step c = some .string from
      (if_neg h.1).trans ((if_neg h.2.1).trans (if_neg (not_lt.2 h.2.2)))]
    rfl
  | escape e => rfl
  | unicode u _ => exact hunicode u
  | pair high low _ _ =>
    show scan .string (('\\' :: 'u' :: high.digits) ++ ('\\' :: 'u' :: low.digits)) = _
    rw [scan_of_some (hunicode high)]
    exact hunicode low

theorem Str.scan_raw (s : Str) : scan .string (Str.raw s) = some .string := by
  induction s with
  | nil => rfl
  | cons i s ih =>
    show scan .string (i.raw ++ Str.raw s) = _
    rw [scan_of_some i.scan_raw]
    exact ih

theorem passes_str (s : Str) : Passes (Str.text s) := by
  show scan .string (Str.raw s ++ ['"']) = _
  rw [scan_of_some (Str.scan_raw s)]
  rfl

theorem passes_space (sp : Space) : Passes sp.text := by
  refine Passes.of_all (List.all_eq_true.2 fun c hc => ?_)
  have hs : isSpace c = true := List.all_eq_true.1 sp.ok c hc
  rw [decide_eq_true_eq]
  refine ⟨?_, ?_, ?_⟩ <;> rintro rfl <;> revert hs <;> decide

theorem passes_digits (d : Digits) : Passes d.text := by
  refine Passes.of_all (List.all_eq_true.2 fun c hc => ?_)
  have hd : c.isDigit = true := List.all_eq_true.1 d.ok c hc
  rw [decide_eq_true_eq]
  refine ⟨?_, ?_, ?_⟩ <;> rintro rfl <;> revert hd <;> decide

theorem passes_number (n : Number) : Passes n.text := by
  have hfrac : Passes (n.frac.elim [] fun f => '.' :: f.text) := by
    cases n.frac with
    | none => rfl
    | some f => exact Passes.append (t := ['.']) rfl (passes_digits f)
  have hexp : Passes (n.exp.elim [] Exponent.text) := by
    cases n.exp with
    | none => rfl
    | some e =>
      have hhead : Passes ((if e.upper then 'E' else 'e') :: e.sign.text) := by
        cases e.upper <;> cases e.sign <;> rfl
      exact hhead.append (passes_digits e.digits)
  have hneg : Passes (if n.negative then ['-'] else []) := by cases n.negative <;> rfl
  exact ((hneg.append (passes_digits n.int)).append hfrac).append hexp

mutual

theorem passes_value : ∀ v : Value, Passes v.text
  | .null => rfl
  | .bool true => rfl
  | .bool false => rfl
  | .number n => passes_number n
  | .string s => passes_str s
  | .array pad items => by
    refine Passes.append (t := '[' :: _) ?_ rfl
    show Passes _
    split
    · exact passes_space pad
    · exact passes_elements items
  | .object pad members => by
    refine Passes.append (t := '{' :: _) ?_ rfl
    show Passes _
    split
    · exact passes_space pad
    · exact passes_members members

/-- A well-formed text passes. -/
theorem passes_element : ∀ e : Element Value, Passes (elementText e)
  | ⟨before, value, after⟩ => ((passes_space before).append (passes_value value)).append (passes_space after)

theorem passes_elements : ∀ es : List (Element Value), Passes (elementsText es)
  | [] => rfl
  | [e] => passes_element e
  | e :: e' :: es => (passes_element e).append (Passes.append (t := [',']) rfl (passes_elements (e' :: es)))

theorem passes_member : ∀ m : Member Value, Passes (memberText m)
  | ⟨before, key, middle, element⟩ =>
    (((passes_space before).append (passes_str key)).append (passes_space middle)).append
      (Passes.append (t := [':']) rfl (passes_element element))

theorem passes_members : ∀ ms : List (Member Value), Passes (membersText ms)
  | [] => rfl
  | [m] => passes_member m
  | m :: m' :: ms => (passes_member m).append (Passes.append (t := [',']) rfl (passes_members (m' :: ms)))

end

theorem IsJson.passes {t : Text} (h : IsJson t) : Passes t := by
  obtain ⟨v, rfl⟩ := h
  exact passes_value v

theorem Refused.not_wellFormed {t : Text} (h : Refused t) : ¬ WellFormed t := by
  rintro ⟨e, rfl⟩
  have := passes_element e
  rw [Passes, h] at this
  cases this

/-! ### Texts that are well formed under a condition -/

/-- Well formed under `p`, and refused otherwise. -/
structure Settled (t : Text) (p : Prop) : Prop where
  json : p → IsJson t
  refused : ¬ p → Refused t

namespace Settled
variable {t : Text} {p q : Prop}

theorem of_isJson (h : IsJson t) : Settled t True := ⟨fun _ => h, fun hn => absurd trivial hn⟩

theorem wellFormed_iff (h : Settled t p) : WellFormed t ↔ p := by
  constructor
  · intro hw
    by_contra hp
    exact (h.refused hp).not_wellFormed hw
  · exact fun hp => (h.json hp).wellFormed

theorem passes_or_refused (h : Settled t p) : Passes t ∨ Refused t := by
  by_cases hp : p
  · exact .inl (h.json hp).passes
  · exact .inr (h.refused hp)

theorem congr (h : Settled t p) (hpq : p ↔ q) : Settled t q := ⟨fun hq => h.json (hpq.2 hq), fun hq => h.refused (hpq.not.2 hq)⟩

end Settled

theorem joined_refused {ts : List Text} (h : ∀ t ∈ ts, Passes t ∨ Refused t) (hr : ∃ t ∈ ts, Refused t) : Refused (joined ts) := by
  induction ts with
  | nil =>
    obtain ⟨_, hmem, -⟩ := hr
    cases hmem
  | cons t ts ih =>
    obtain ⟨ht, hts⟩ := List.forall_mem_cons.1 h
    cases ts with
    | nil =>
      obtain ⟨_, hmem, hr⟩ := hr
      exact List.mem_singleton.1 hmem ▸ hr
    | cons t' ts =>
      show Refused (t ++ ',' :: joined (t' :: ts))
      rcases ht with ht | ht
      · -- the one that is refused comes later
        refine ht.refused ?_
        obtain ⟨u, hmem, hu⟩ := hr
        rcases List.mem_cons.1 hmem with rfl | hmem
        · rw [Passes, hu] at ht
          cases ht
        · exact ih hts ⟨u, hmem, hu⟩
      · exact ht.append _

theorem Settled.array {A : Type*} {xs : List A} {f : A → Text} {p : A → Prop} (h : ∀ x ∈ xs, Settled (f x) (p x)) :
    Settled (array (xs.map f)) (∀ x ∈ xs, p x) where
  json hp := .array fun t ht => by
    obtain ⟨x, hx, rfl⟩ := List.mem_map.1 ht
    exact (h x hx).json (hp x hx)
  refused hn := by
    have hr : Refused (joined (xs.map f)) := by
      refine joined_refused (fun t ht => ?_) ?_
      · obtain ⟨x, hx, rfl⟩ := List.mem_map.1 ht
        exact (h x hx).passes_or_refused
      · push Not at hn
        obtain ⟨x, hx, hpx⟩ := hn
        exact ⟨f x, List.mem_map_of_mem hx, (h x hx).refused hpx⟩
    exact Passes.refused (t := ['[']) rfl (hr.append [']'])

/-- The members of an object. -/
structure SettledMembers (ms : List (Text × Text)) (p : Prop) : Prop where
  keys : ∀ m ∈ ms, IsKey m.1
  each : ∀ m ∈ ms, Passes m.2 ∨ Refused m.2
  json : p → ∀ m ∈ ms, IsJson m.2
  refused : ¬ p → ∃ m ∈ ms, Refused m.2

namespace SettledMembers
variable {ms : List (Text × Text)} {key t : Text} {p q : Prop}

theorem nil : SettledMembers [] True :=
  ⟨fun _ h => (nomatch h), fun _ h => (nomatch h), fun _ _ h => (nomatch h), fun h => absurd trivial h⟩

theorem cons (hkey : IsKey key) (ht : Settled t q) (h : SettledMembers ms p) : SettledMembers ((key, t) :: ms) (q ∧ p) where
  keys := List.forall_mem_cons.2 ⟨hkey, h.keys⟩
  each := List.forall_mem_cons.2 ⟨ht.passes_or_refused, h.each⟩
  json hp := List.forall_mem_cons.2 ⟨ht.json hp.1, h.json hp.2⟩
  refused hn := by
    by_cases hq : q
    · obtain ⟨m, hm, hr⟩ := h.refused fun hp => hn ⟨hq, hp⟩
      exact ⟨m, List.mem_cons_of_mem _ hm, hr⟩
    · exact ⟨_, List.mem_cons_self, ht.refused hq⟩

/-- A member whose value is always well formed. -/
theorem cons_json (hkey : IsKey key) (ht : IsJson t) (h : SettledMembers ms p) : SettledMembers ((key, t) :: ms) p where
  keys := List.forall_mem_cons.2 ⟨hkey, h.keys⟩
  each := List.forall_mem_cons.2 ⟨.inl ht.passes, h.each⟩
  json hp := List.forall_mem_cons.2 ⟨ht, h.json hp⟩
  refused hn := by
    obtain ⟨m, hm, hr⟩ := h.refused hn
    exact ⟨m, List.mem_cons_of_mem _ hm, hr⟩

end SettledMembers

theorem IsKey.passes {key : Text} (h : IsKey key) : Passes ('"' :: key ++ ['"', ':']) := by
  obtain ⟨s, rfl⟩ := h.exists_str
  show scan .string (Str.raw s ++ ['"', ':']) = _
  rw [scan_of_some (Str.scan_raw s)]
  rfl

theorem member_eq (key t : Text) : member key t = ('"' :: key ++ ['"', ':']) ++ t := by simp [member]

theorem Settled.object {ms : List (Text × Text)} {p : Prop} (h : SettledMembers ms p) : Settled (object ms) p where
  json hp := .object fun m hm => ⟨h.keys m hm, h.json hp m hm⟩
  refused hn := by
    have hr : Refused (joined (ms.map fun m => member m.1 m.2)) := by
      refine joined_refused (fun t ht => ?_) ?_
      · obtain ⟨m, hm, rfl⟩ := List.mem_map.1 ht
        rw [member_eq]
        rcases h.each m hm with hp | hp
        · exact .inl ((h.keys m hm).passes.append hp)
        · exact .inr ((h.keys m hm).passes.refused hp)
      · obtain ⟨m, hm, hr⟩ := h.refused hn
        refine ⟨member m.1 m.2, List.mem_map.2 ⟨m, hm, rfl⟩, ?_⟩
        rw [member_eq]
        exact (h.keys m hm).passes.refused hr
    exact Passes.refused (t := ['{']) rfl (hr.append ['}'])

end Json
