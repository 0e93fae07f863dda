import StratForge.Json

/-!
# The key search (`BacktestConfigParser::find_key`)

The search knows brackets, strings and the character behind a backslash, and nothing else of the grammar. So it is stated
over texts of that shape (`Node`): what is no string and no bracket is any run of other characters, and a string is any
text whose quotation marks and backslashes are escaped. Every JSON value is one (`shape_text`). A position in the text is
modelled by the text from there on, and counted in `findKeyIndex`.
-/

namespace StratForge
open Json

namespace BacktestConfigParser

/-- `find_key`. Inside a string `token` holds what has been read of it; the result is the text behind the colon. -/
def findKey (key : Text) (depth : Int) : Option Text → Bool → Text → Option Text
  | _, _, [] => none
  | some token, true, c :: rest => findKey key depth (some (token ++ [c])) false rest
  | some token, false, c :: rest =>
    if c = '\\' then findKey key depth (some (token ++ [c])) true rest
    else if c = '"' then
      match rest.dropWhile isSpace with
      | ':' :: after => if depth = 1 ∧ token = key then some after else findKey key depth none false rest
      | _ => findKey key depth none false rest
    else findKey key depth (some (token ++ [c])) false rest
  | none, escape, c :: rest =>
    if c = '"' then findKey key depth (some []) escape rest
    else if c = '{' ∨ c = '[' then findKey key (depth + 1) none escape rest
    else if c = '}' ∨ c = ']' then findKey key (depth - 1) none escape rest
    else findKey key depth none escape rest

/-- The index `find_key` returns, none for `npos`. -/
def findKeyIndex (json key : Text) : Option Nat := (findKey key 0 none false json).map fun pos => json.length - pos.length

/-! ### Texts of brackets and strings -/

/-- A character that neither opens nor closes anything. -/
def Neutral (c : Char) : Prop := c ≠ '"' ∧ c ≠ '{' ∧ c ≠ '[' ∧ c ≠ '}' ∧ c ≠ ']'

instance (c : Char) : Decidable (Neutral c) := inferInstanceAs (Decidable (_ ∧ _))

/-- A backslash takes the character behind it along, and no other character is a quotation mark. -/
inductive Escaped : Text → Prop
  | nil : Escaped []
  | plain {c : Char} {t : Text} (hquote : c ≠ '"') (hslash : c ≠ '\\') (ht : Escaped t) : Escaped (c :: t)
  | escape (c : Char) {t : Text} (ht : Escaped t) : Escaped ('\\' :: c :: t)

/-- What stands between two quotation marks. -/
structure Quoted where
  raw : Text
  ok : Escaped raw

def Quoted.text (s : Quoted) : Text := '"' :: s.raw ++ ['"']

structure Entry (J : Type) where
  before : Space
  key : Quoted
  middle : Space
  element : Element J

inductive Node
  | scalar (t : Text) (h : ∀ c ∈ t, Neutral c)
  | string (s : Quoted)
  | array (pad : Space) (items : List (Element Node))
  | object (pad : Space) (entries : List (Entry Node))

mutual

def Node.text : Node → Text
  | .scalar t _ => t
  | .string s => s.text
  | .array pad items => '[' :: (if items.isEmpty then pad.text else itemsText items) ++ [']']
  | .object pad entries => '{' :: (if entries.isEmpty then pad.text else entriesText entries) ++ ['}']

def itemText : Element Node → Text
  | ⟨before, node, after⟩ => before.text ++ node.text ++ after.text

def entryText : Entry Node → Text
  | ⟨before, key, middle, element⟩ => before.text ++ key.text ++ middle.text ++ ':' :: itemText element

def itemsText : List (Element Node) → Text
  | [] => []
  | [e] => itemText e
  | e :: e' :: es => itemText e ++ ',' :: itemsText (e' :: es)

def entriesText : List (Entry Node) → Text
  | [] => []
  | [m] => entryText m
  | m :: m' :: ms => entryText m ++ ',' :: entriesText (m' :: ms)

end

/-! ### The search passes over values -/

section
variable {key : Text} {depth : Int}

theorem neutral_of_all {t : Text} (h : (t.all fun c => decide (Neutral c)) = true) : ∀ c ∈ t, Neutral c := fun c hc =>
  of_decide_eq_true (List.all_eq_true.1 h c hc)

theorem findKey_neutral {t : Text} (h : ∀ c ∈ t, Neutral c) (rest : Text) :
    findKey key depth none false (t ++ rest) = findKey key depth none false rest := by
  induction t with
  | nil => rfl
  | cons c t ih =>
    obtain ⟨⟨h₁, h₂, h₃, h₄, h₅⟩, ht⟩ := List.forall_mem_cons.1 h
    rw [List.cons_append, findKey, if_neg h₁, if_neg (by simp [h₂, h₃]), if_neg (by simp [h₄, h₅]), ih ht]

/-- A string is read to its end. -/
theorem findKey_inside {t : Text} (h : Escaped t) (token rest : Text) :
    findKey key depth (some token) false (t ++ rest) = findKey key depth (some (token ++ t)) false rest := by
  induction h generalizing token with
  | nil => rw [List.nil_append, List.append_nil]
  | plain hquote hslash _ ih => rw [List.cons_append, findKey, if_neg hslash, if_neg hquote, ih, List.append_assoc, List.singleton_append]
  | escape c _ ih =>
    rw [List.cons_append, List.cons_append, findKey, if_pos rfl, findKey, ih, List.append_assoc, List.append_assoc]
    rfl

/-- The search at a string: it ends here if this is the key. -/
theorem findKey_quoted (s : Quoted) (rest : Text) : findKey key depth none false (s.text ++ rest) =
    match rest.dropWhile isSpace with
    | ':' :: after => if depth = 1 ∧ s.raw = key then some after else findKey key depth none false rest
    | _ => findKey key depth none false rest := by
  show findKey key depth none false ('"' :: (s.raw ++ ['"'] ++ rest)) = _
  rw [findKey, if_pos rfl, List.append_assoc, findKey_inside s.ok, List.nil_append, List.singleton_append, findKey,
    if_neg (by decide), if_pos rfl]

/-- No colon comes next. -/
def NoColon (rest : Text) : Prop := ∀ after, rest.dropWhile isSpace ≠ ':' :: after

theorem findKey_quoted_skip (s : Quoted) {rest : Text} (h : depth = 1 → NoColon rest) :
    findKey key depth none false (s.text ++ rest) = findKey key depth none false rest := by
  rw [findKey_quoted]
  split
  · rename_i after hafter
    rw [if_neg fun hdepth => h hdepth.1 after hafter]
  · rfl

theorem neutral_space (sp : Space) : ∀ c ∈ sp.text, Neutral c := by
  intro c hc
  have := List.all_eq_true.1 sp.ok c hc
  unfold Neutral
  refine ⟨?_, ?_, ?_, ?_, ?_⟩ <;> rintro rfl <;> revert this <;> decide

/-- What stands in brackets is passed over if it is passed over one level deeper. -/
theorem findKey_enclosed {opening closing : Char} (hb : opening = '[' ∧ closing = ']' ∨ opening = '{' ∧ closing = '}') {inner rest : Text}
    (h : findKey key (depth + 1) none false (inner ++ closing :: rest) = findKey key (depth + 1) none false (closing :: rest)) :
    findKey key depth none false (opening :: inner ++ [closing] ++ rest) = findKey key depth none false rest := by
  rw [List.append_assoc, List.cons_append, List.singleton_append]
  rcases hb with ⟨rfl, rfl⟩ | ⟨rfl, rfl⟩
  all_goals
    rw [findKey, if_neg (by decide), if_pos (by decide), h, findKey, if_neg (by decide), if_neg (by decide), if_pos (by decide),
      add_sub_cancel_right]

mutual

/-- A value of an object is passed over. -/
theorem findKey_node : ∀ (v : Node) {depth : Int} {rest : Text}, 1 ≤ depth → (depth = 1 → NoColon rest) →
    findKey key depth none false (v.text ++ rest) = findKey key depth none false rest
  | .scalar t h, _, _, _, _ => findKey_neutral h _
  | .string s, _, _, _, h => findKey_quoted_skip s h
  | .array pad items, depth, rest, hd, _ => by
    refine findKey_enclosed (by simp) ?_
    split
    · exact findKey_neutral (neutral_space pad) _
    · exact findKey_items items (by omega)
  | .object pad entries, depth, rest, hd, _ => by
    refine findKey_enclosed (by simp) ?_
    split
    · exact findKey_neutral (neutral_space pad) _
    · exact findKey_entriesDeep entries (by omega)

theorem findKey_item : ∀ (e : Element Node) {depth : Int} {rest : Text}, 1 ≤ depth →
    (depth = 1 → NoColon (e.after.text ++ rest)) →
    findKey key depth none false (itemText e ++ rest) = findKey key depth none false rest
  | ⟨before, node, after⟩, depth, rest, hd, h => by
    show findKey key depth none false (before.text ++ node.text ++ after.text ++ rest) = _
    rw [List.append_assoc, List.append_assoc, findKey_neutral (neutral_space before), findKey_node node hd h,
      findKey_neutral (neutral_space after)]

theorem findKey_items : ∀ (es : List (Element Node)) {depth : Int} {rest : Text}, 2 ≤ depth →
    findKey key depth none false (itemsText es ++ rest) = findKey key depth none false rest
  | [], _, _, _ => rfl
  | [e], _, _, hd => findKey_item e (by omega) (by omega)
  | e :: e' :: es, depth, rest, hd => by
    show findKey key depth none false (itemText e ++ ([','] ++ itemsText (e' :: es)) ++ rest) = _
    rw [List.append_assoc, List.append_assoc, findKey_item e (by omega) (by omega),
      findKey_neutral (neutral_of_all (by decide)), findKey_items (e' :: es) hd]

theorem findKey_entryDeep : ∀ (m : Entry Node) {depth : Int} {rest : Text}, 2 ≤ depth →
    findKey key depth none false (entryText m ++ rest) = findKey key depth none false rest
  | ⟨before, key', middle, element⟩, depth, rest, hd => by
    show findKey key depth none false (before.text ++ key'.text ++ middle.text ++ ([':'] ++ itemText element) ++ rest) = _
    simp only [List.append_assoc]
    rw [findKey_neutral (neutral_space before), findKey_quoted_skip key' (by omega), findKey_neutral (neutral_space middle),
      findKey_neutral (neutral_of_all (by decide)), findKey_item element (by omega) (by omega)]

theorem findKey_entriesDeep : ∀ (ms : List (Entry Node)) {depth : Int} {rest : Text}, 2 ≤ depth →
    findKey key depth none false (entriesText ms ++ rest) = findKey key depth none false rest
  | [], _, _, _ => rfl
  | [m], _, _, hd => findKey_entryDeep m hd
  | m :: m' :: ms, depth, rest, hd => by
    show findKey key depth none false (entryText m ++ ([','] ++ entriesText (m' :: ms)) ++ rest) = _
    rw [List.append_assoc, List.append_assoc, findKey_entryDeep m hd, findKey_neutral (neutral_of_all (by decide)),
      findKey_entriesDeep (m' :: ms) hd]

end

theorem dropWhile_space (sp : Space) {c : Char} (hc : isSpace c = false) (rest : Text) :
    (sp.text ++ c :: rest).dropWhile isSpace = c :: rest := by
  rw [List.dropWhile_append_of_pos (List.all_eq_true.1 sp.ok), List.dropWhile_cons_of_neg (by simp [hc])]

theorem noColon_of_ne (sp : Space) {c : Char} (hc : isSpace c = false) (hne : c ≠ ':') (rest : Text) :
    NoColon (sp.text ++ c :: rest) := by
  intro after h
  rw [dropWhile_space sp hc] at h
  exact hne (List.cons.inj h).1

/-- The search at a member of the object. -/
theorem findKey_entry (m : Entry Node) {rest : Text} (h : NoColon (m.element.after.text ++ rest)) :
    findKey key 1 none false (entryText m ++ rest) =
      if m.key.raw = key then some (itemText m.element ++ rest) else findKey key 1 none false rest := by
  obtain ⟨before, key', middle, element⟩ := m
  show findKey key 1 none false (before.text ++ key'.text ++ middle.text ++ ':' :: itemText element ++ rest) = _
  rw [List.append_assoc, List.append_assoc, List.append_assoc, findKey_neutral (neutral_space before), findKey_quoted,
    List.cons_append, dropWhile_space middle (by decide)]
  show (if (1 : Int) = 1 ∧ key'.raw = key then some (itemText element ++ rest)
    else findKey key 1 none false (middle.text ++ ':' :: (itemText element ++ rest))) = _
  by_cases hkey : key'.raw = key
  · rw [if_pos ⟨rfl, hkey⟩, if_pos hkey]
  · rw [if_neg fun h => hkey h.2, if_neg hkey, findKey_neutral (neutral_space middle), ← List.singleton_append,
      findKey_neutral (neutral_of_all (by decide)), findKey_item element le_rfl fun _ => h]

/-- Behind the last member nothing is found. -/
theorem findKey_end (after : Space) : findKey key 1 none false ('}' :: after.text) = none := by
  rw [findKey, if_neg (by decide), if_neg (by decide), if_pos (by decide), ← List.append_nil after.text,
    findKey_neutral (neutral_space after)]
  rfl

/-- The search enters the object. -/
theorem findKey_begin (before : Space) (inner : Text) :
    findKey key 0 none false (before.text ++ '{' :: inner) = findKey key 1 none false inner := by
  rw [findKey_neutral (neutral_space before), findKey, if_neg (by decide), if_pos (by decide), zero_add]

/-! ### The first member of the key -/

/-- What a member that is not the last leaves for the next. -/
theorem entriesText_cons {m : Entry Node} {ms : List (Entry Node)} (h : ms ≠ []) :
    entriesText (m :: ms) = entryText m ++ ',' :: entriesText ms := by
  cases ms with
  | nil => exact absurd rfl h
  | cons m' ms => rfl

theorem findKey_entries_cons {m : Entry Node} (ms : List (Entry Node)) (hkey : m.key.raw ≠ key) (tail : Text) :
    findKey key 1 none false (entriesText (m :: ms) ++ '}' :: tail) = findKey key 1 none false (entriesText ms ++ '}' :: tail) := by
  cases ms with
  | nil =>
    show findKey key 1 none false (entryText m ++ '}' :: tail) = _
    rw [findKey_entry m (noColon_of_ne _ (by decide) (by decide) _), if_neg hkey]
    rfl
  | cons m' ms =>
    rw [entriesText_cons (List.cons_ne_nil m' ms), List.append_assoc, List.cons_append,
      findKey_entry m (noColon_of_ne _ (by decide) (by decide) _), if_neg hkey, ← List.singleton_append,
      findKey_neutral (neutral_of_all (by decide))]

theorem findKey_entries_none {ms : List (Entry Node)} (h : ∀ m ∈ ms, m.key.raw ≠ key) (tail : Text) :
    findKey key 1 none false (entriesText ms ++ '}' :: tail) = findKey key 1 none false ('}' :: tail) := by
  induction ms with
  | nil => rfl
  | cons m ms ih =>
    obtain ⟨hm, hms⟩ := List.forall_mem_cons.1 h
    rw [findKey_entries_cons ms hm, ih hms]

/-- The text behind the colon of a member with others behind it. -/
def behind (m : Entry Node) (ms : List (Entry Node)) (tail : Text) : Text :=
  itemText m.element ++ (ms.flatMap fun m' => ',' :: entryText m') ++ '}' :: tail

/-- The text of the members before one, and of that one up to its colon. -/
def upTo (ms : List (Entry Node)) (m : Entry Node) : Text :=
  (ms.flatMap fun m' => entryText m' ++ [',']) ++ m.before.text ++ m.key.text ++ m.middle.text

theorem entriesText_first (m : Entry Node) (ms : List (Entry Node)) :
    entriesText (m :: ms) = entryText m ++ ms.flatMap fun m' => ',' :: entryText m' := by
  induction ms generalizing m with
  | nil => exact (List.append_nil _).symm
  | cons m' ms ih => rw [entriesText_cons (List.cons_ne_nil m' ms), ih, List.flatMap_cons, List.cons_append]

theorem entriesText_split (ms₁ : List (Entry Node)) (m : Entry Node) (ms₂ : List (Entry Node)) (tail : Text) :
    entriesText (ms₁ ++ m :: ms₂) ++ '}' :: tail = upTo ms₁ m ++ ':' :: behind m ms₂ tail := by
  induction ms₁ with
  | nil =>
    rw [List.nil_append, entriesText_first, upTo, behind]
    obtain ⟨before, key', middle, element⟩ := m
    simp [entryText]
  | cons m' ms₁ ih =>
    rw [List.cons_append, entriesText_cons (by simp), List.append_assoc, List.cons_append, ih]
    simp [upTo]

theorem findKey_entries_first {ms₁ : List (Entry Node)} {m : Entry Node} (ms₂ : List (Entry Node)) (hm : m.key.raw = key)
    (h : ∀ m' ∈ ms₁, m'.key.raw ≠ key) (tail : Text) :
    findKey key 1 none false (entriesText (ms₁ ++ m :: ms₂) ++ '}' :: tail) = some (behind m ms₂ tail) := by
  induction ms₁ with
  | nil =>
    have hcolon : NoColon (m.element.after.text ++ ((ms₂.flatMap fun m' => ',' :: entryText m') ++ '}' :: tail)) := by
      cases ms₂ <;> exact noColon_of_ne _ (by decide) (by decide) _
    rw [List.nil_append, entriesText_first, List.append_assoc, findKey_entry m hcolon, if_pos hm, behind, List.append_assoc]
  | cons m' ms₁ ih =>
    obtain ⟨hm', hms⟩ := List.forall_mem_cons.1 h
    rw [List.cons_append, findKey_entries_cons _ hm', ih hms]

end

/-- The text of an object in its white space. -/
structure ObjectText where
  before : Space
  pad : Space
  entries : List (Entry Node)
  after : Space

def ObjectText.text (obj : ObjectText) : Text := obj.before.text ++ (Node.object obj.pad obj.entries).text ++ obj.after.text

theorem ObjectText.text_eq {obj : ObjectText} (h : obj.entries ≠ []) :
    obj.text = obj.before.text ++ '{' :: (entriesText obj.entries ++ '}' :: obj.after.text) := by
  show obj.before.text ++ ('{' :: (if obj.entries.isEmpty then obj.pad.text else entriesText obj.entries) ++ ['}']) ++ obj.after.text = _
  rw [if_neg (by rwa [List.isEmpty_iff]), List.append_assoc, List.append_assoc, List.cons_append, List.singleton_append]

theorem findKey_object_none {obj : ObjectText} {key : Text} (h : ∀ m ∈ obj.entries, m.key.raw ≠ key) :
    findKey key 0 none false obj.text = none := by
  by_cases hne : obj.entries = []
  · show findKey key 0 none false (obj.before.text ++ ('{' :: (if obj.entries.isEmpty then obj.pad.text else entriesText obj.entries) ++
      ['}']) ++ obj.after.text) = _
    rw [if_pos (by rw [hne]; rfl), List.append_assoc, List.append_assoc, List.cons_append, findKey_begin, List.singleton_append,
      findKey_neutral (neutral_space obj.pad), findKey_end]
  · rw [ObjectText.text_eq hne, findKey_begin, findKey_entries_none h, findKey_end]

theorem findKey_object_first {obj : ObjectText} {key : Text} {ms₁ ms₂ : List (Entry Node)} {m : Entry Node}
    (hobj : obj.entries = ms₁ ++ m :: ms₂) (hm : m.key.raw = key) (h : ∀ m' ∈ ms₁, m'.key.raw ≠ key) :
    findKey key 0 none false obj.text = some (behind m ms₂ obj.after.text) := by
  rw [ObjectText.text_eq (by simp [hobj]), findKey_begin, hobj, findKey_entries_first ms₂ hm h]

/-- For every object text and key: where members have the key, what is returned is the index behind the colon of the first
one, and `npos` where none has. -/
theorem find_key_exact (obj : ObjectText) (key : Text) :
    (∀ ms₁ m ms₂, obj.entries = ms₁ ++ m :: ms₂ → m.key.raw = key → (∀ m' ∈ ms₁, m'.key.raw ≠ key) →
      obj.text = obj.before.text ++ '{' :: upTo ms₁ m ++ ':' :: behind m ms₂ obj.after.text ∧
      findKeyIndex obj.text key = some ((obj.before.text ++ '{' :: upTo ms₁ m).length + 1)) ∧
    ((∀ m ∈ obj.entries, m.key.raw ≠ key) → findKeyIndex obj.text key = none) := by
  refine ⟨fun ms₁ m ms₂ hobj hm h => ?_, fun h => ?_⟩
  · have htext : obj.text = obj.before.text ++ '{' :: upTo ms₁ m ++ ':' :: behind m ms₂ obj.after.text := by
      rw [ObjectText.text_eq (by simp [hobj]), hobj, entriesText_split, List.append_assoc, List.cons_append]
    refine ⟨htext, ?_⟩
    rw [findKeyIndex, findKey_object_first hobj hm h, Option.map_some, htext, List.length_append, List.length_cons]
    congr 1
    omega
  · rw [findKeyIndex, findKey_object_none h, Option.map_none]

/-! ### The strings of JSON are escaped -/

theorem escaped_of_all {t rest : Text} (h : ∀ c ∈ t, c ≠ '"' ∧ c ≠ '\\') (hrest : Escaped rest) : Escaped (t ++ rest) := by
  induction t with
  | nil => exact hrest
  | cons c t ih =>
    obtain ⟨⟨hquote, hslash⟩, ht⟩ := List.forall_mem_cons.1 h
    exact .plain hquote hslash (ih ht)

theorem escaped_raw (s : Str) : Escaped (Str.raw s) := by
  have hhex : ∀ u : Hex4, ∀ c ∈ u.digits, c ≠ '"' ∧ c ≠ '\\' := fun u c hc => Item.ne_of_isHex (List.all_eq_true.1 u.ok c hc)
  induction s with
  | nil => exact .nil
  | cons i s ih =>
    show Escaped (i.raw ++ Str.raw s)
    cases i with
    | plain c hc => exact .plain hc.1 hc.2.1 ih
    | escape e => exact .escape e.letter ih
    | unicode u hu => exact .escape 'u' (escaped_of_all (hhex u) ih)
    | pair high low hh hl =>
      show Escaped ('\\' :: 'u' :: (high.digits ++ '\\' :: 'u' :: low.digits ++ Str.raw s))
      rw [List.append_assoc]
      exact .escape 'u' (escaped_of_all (hhex high) (.escape 'u' (escaped_of_all (hhex low) ih)))

end BacktestConfigParser

end StratForge
