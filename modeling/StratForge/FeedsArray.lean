import StratForge.Config
import StratForge.Nesting
import StratForge.Resample

/-!
# The feed plan of the configuration (`parse_feeds`)

The array is found by counting square brackets behind the key, its elements by counting braces, and both counts take
the brackets inside strings for brackets of the document; each element is then read by a parser of its own. Where the
counts hold, `parse_feeds_iff` says which plans are read as they are written.
-/

namespace StratForge
open Json Nesting

namespace BacktestConfigParser

/-- What the loop over the array cuts out of it, in `n` turns. -/
def objects : Nat → Text → List Text
  | 0, _ => []
  | n + 1, t =>
    match t.dropWhile (· != '{') with
    | [] => []
    | _ :: t =>
      match closing '{' '}' 1 t with
      | none => []
      | some (body, rest) => ('{' :: body ++ ['}']) :: objects n rest

/-- `static_cast<int>` of a double. -/
def castInt (q : Rat) : Int := q.num.tdiv q.den

def parseFeed (round : Rat → Option Rat) (obj : Text) : FeedSpec where
  index := castInt (getDouble round obj "index".toList 0)
  interval := .ofList (getString obj "interval".toList [])
  role := .ofList (getString obj "role".toList [])
  source := .ofList (getString obj "source".toList [])
  dataPath := .ofList (getString obj "dataPath".toList [])
  base := .ofList (getString obj "base".toList [])

def parseFeeds (round : Rat → Option Rat) (json : Text) : List FeedSpec :=
  match findKey "feeds".toList 0 none false json with
  | none => []
  | some pos =>
    match pos.dropWhile (· != '[') with
    | [] => []
    | _ :: t =>
      match closing '[' ']' 1 t with
      | none => []
      | some (inside, _) => (objects inside.length inside).map (parseFeed round)

end BacktestConfigParser

/-! ### What it should return -/

namespace Document

/-- What stands between the braces. -/
def body (doc : Document) : Text := if doc.members.isEmpty then doc.pad.text else membersText doc.members

/-- The object as an element of an array. -/
def element (doc : Document) : Element Value := ⟨doc.before, .object doc.pad doc.members, doc.after⟩

/-- The object without the white space around it. -/
def bare (doc : Document) : Document := { doc with before := {}, after := {} }

/-- The feed that an object describes. -/
def feedSpec (round : Rat → Option Rat) (doc : Document) : FeedSpec where
  index := BacktestConfigParser.castInt (((doc.value? "index".toList).bind (asDouble round)).getD 0)
  interval := .ofList (((doc.value? "interval".toList).bind asString).getD [])
  role := .ofList (((doc.value? "role".toList).bind asString).getD [])
  source := .ofList (((doc.value? "source".toList).bind asString).getD [])
  dataPath := .ofList (((doc.value? "dataPath".toList).bind asString).getD [])
  base := .ofList (((doc.value? "base".toList).bind asString).getD [])

theorem bare_text (doc : Document) : doc.bare.text = '{' :: doc.body ++ ['}'] := by
  show [] ++ ('{' :: doc.body ++ ['}']) ++ [] = _
  rw [List.nil_append, List.append_nil]

end Document

/-- What stands between the brackets of an array of objects. -/
def arrayBody (pad : Space) (objs : List Document) : Text :=
  if (objs.map Document.element).isEmpty then pad.text else elementsText (objs.map Document.element)

/-- Counted without regard to strings, the brackets balance in the array and the braces in each of its objects. -/
def CountsHold (pad : Space) (objs : List Document) : Prop :=
  Balanced '[' ']' (arrayBody pad objs) ∧ ∀ obj ∈ objs, Balanced '{' '}' obj.body

/-- Whatever is taken for an array behind a position has nothing in it that is taken for an object. -/
def NoFeedAhead (pos : Text) : Prop :=
  ∀ a inside b, pos = a ++ '[' :: inside ++ ']' :: b → '[' ∉ a → Balanced '[' ']' inside →
    ∀ p body q, inside = p ++ '{' :: body ++ '}' :: q → '{' ∉ p → ¬ Balanced '{' '}' body

namespace BacktestConfigParser

/-- The value is a string without escapes, or it is none and what the next quotation marks enclose is empty. -/
def FieldRead (e : Member Value × Text) : Prop :=
  (∃ s, e.1.element.value = .string s ∧ Str.Plain s) ∨
    (asString e.1.element.value = none ∧ (quoted e.2).getD [] = [])

/-- The value is a number, or the next number behind it is cut to 0. -/
def IndexRead (round : Rat → Option Rat) (e : Member Value × Text) : Prop :=
  (∃ n, e.1.element.value = .number n) ∨
    (asDouble round e.1.element.value = none ∧ castInt ((stod round (numberRun e.2)).getD 0) = 0)

def feedFields : List String := ["interval", "role", "source", "dataPath", "base"]

/-- The six lookups in an object of the plan go right. -/
structure FeedRead (round : Rat → Option Rat) (obj : Document) : Prop where
  index : LooksUp (fun pos => stod round (numberRun pos)) (asDouble round) (fun v => castInt (v.getD 0)) (IndexRead round)
    obj.bare "index".toList
  fields : ∀ key ∈ feedFields, LooksUp quoted asString (fun v => v.getD []) FieldRead obj.bare key.toList

/-! ### Reading an object -/

theorem fieldRead_iff {doc : Document} {e : Member Value × Text} (he : e ∈ doc.entries) :
    (quoted e.2).getD [] = (asString e.1.element.value).getD [] ↔ FieldRead e := by
  unfold FieldRead
  cases hv : e.1.element.value with
  | string s =>
    rw [quoted_entry he hv]
    simp only [asString, Option.getD_some, Str.takeWhile_raw_eq_iff, Value.string.injEq, reduceCtorEq, false_and, or_false,
      exists_eq_left']
  | _ => simp [asString]

theorem indexRead_iff (round : Rat → Option Rat) {doc : Document} {e : Member Value × Text} (he : e ∈ doc.entries) :
    castInt ((stod round (numberRun e.2)).getD 0) = castInt ((asDouble round e.1.element.value).getD 0) ↔
      IndexRead round e := by
  have hzero : castInt 0 = 0 := rfl
  unfold IndexRead
  cases hv : e.1.element.value with
  | number n =>
    rw [stod_entry round he hv]
    exact iff_of_true rfl (.inl ⟨n, rfl⟩)
  | _ => simp [asDouble, hzero]

theorem getString_iff (obj : Document) (key : String) :
    getString obj.bare.text key.toList [] = ((obj.value? key.toList).bind asString).getD [] ↔
      LooksUp quoted asString (fun v => v.getD []) FieldRead obj.bare key.toList := by
  rw [getString_document]
  exact @looksUp_iff _ _ quoted asString (fun v => v.getD []) FieldRead obj.bare key.toList fun e he => fieldRead_iff he

theorem getIndex_iff (round : Rat → Option Rat) (obj : Document) (key : String) :
    castInt (getDouble round obj.bare.text key.toList 0) =
        castInt (((obj.value? key.toList).bind (asDouble round)).getD 0) ↔
      LooksUp (fun pos => stod round (numberRun pos)) (asDouble round) (fun v => castInt (v.getD 0)) (IndexRead round)
        obj.bare key.toList := by
  rw [getDouble_document]
  exact @looksUp_iff _ _ (fun pos => stod round (numberRun pos)) (asDouble round) (fun v => castInt (v.getD 0))
    (IndexRead round) obj.bare key.toList fun e he => indexRead_iff round he

theorem parseFeed_iff (round : Rat → Option Rat) (obj : Document) :
    parseFeed round obj.bare.text = obj.feedSpec round ↔ FeedRead round obj := by
  unfold parseFeed Document.feedSpec
  simp only [FeedSpec.mk.injEq, String.ofList_inj]
  rw [getIndex_iff, getString_iff, getString_iff, getString_iff, getString_iff, getString_iff]
  constructor
  · rintro ⟨h, h₁, h₂, h₃, h₄, h₅⟩
    exact ⟨h, by simp only [feedFields, List.forall_mem_cons]; exact ⟨h₁, h₂, h₃, h₄, h₅, fun _ h => nomatch h⟩⟩
  · rintro ⟨h, hfields⟩
    simp only [feedFields, List.forall_mem_cons] at hfields
    obtain ⟨h₁, h₂, h₃, h₄, h₅, -⟩ := hfields
    exact ⟨h, h₁, h₂, h₃, h₄, h₅⟩

/-! ### Cutting the array -/

theorem dropWhile_to {b : Char} {t : Text} (h : b ∉ t) (rest : Text) : (t ++ b :: rest).dropWhile (· != b) = b :: rest := by
  refine (takeWhile_append_stop (fun c hc => ?_) fun c hc => ?_).2
  · simpa using fun heq : c = b => h (heq ▸ hc)
  · obtain rfl := Option.some.inj hc
    simp

theorem objects_skip {t : Text} (h : '{' ∉ t) (n : Nat) (rest : Text) : objects n (t ++ rest) = objects n rest := by
  cases n with
  | zero => rfl
  | succ n =>
    have hdrop : (t ++ rest).dropWhile (· != '{') = rest.dropWhile (· != '{') :=
      List.dropWhile_append_of_pos fun c hc => by simpa using fun heq : c = '{' => h (heq ▸ hc)
    rw [objects, objects, hdrop]

theorem not_mem_space (sp : Space) {c : Char} (h : isSpace c = false) : c ∉ sp.text := fun hc => by
  rw [List.all_eq_true.1 sp.ok c hc] at h
  cases h

theorem objects_element {obj : Document} (h : Balanced '{' '}' obj.body) (n : Nat) (rest : Text) :
    objects (n + 1) (elementText obj.element ++ rest) = obj.bare.text :: objects n rest := by
  show objects (n + 1) (obj.before.text ++ ('{' :: obj.body ++ ['}']) ++ obj.after.text ++ rest) = _
  rw [List.append_assoc, List.append_assoc, objects_skip (not_mem_space _ (by decide)), List.cons_append, List.cons_append,
    objects, List.dropWhile_cons_of_neg (by decide)]
  dsimp only
  rw [List.append_assoc, List.singleton_append, (closing_eq_some_iff (by decide)).2 ⟨rfl, h⟩, obj.bare_text]
  dsimp only
  rw [objects_skip (not_mem_space _ (by decide))]

/-- Where the braces balance the loop cuts out the objects. -/
theorem objects_elements : ∀ {objs : List Document}, (∀ obj ∈ objs, Balanced '{' '}' obj.body) → ∀ {n : Nat}, objs.length ≤ n →
    objects n (elementsText (objs.map Document.element)) = objs.map fun obj => obj.bare.text
  | [], _, 0, _ => rfl
  | [], _, n + 1, _ => rfl
  | [obj], h, n + 1, _ => by
    have := objects_element (h obj List.mem_cons_self) n []
    rw [List.append_nil] at this
    refine this.trans ?_
    cases n <;> rfl
  | obj :: obj' :: objs, h, n + 1, hn => by
    obtain ⟨hobj, hrest⟩ := List.forall_mem_cons.1 h
    show objects (n + 1) (elementText obj.element ++ ([','] ++ elementsText (obj'.element :: objs.map Document.element))) = _
    rw [objects_element hobj, objects_skip (by decide)]
    exact congrArg _ (objects_elements hrest (Nat.le_of_succ_le_succ hn))

theorem length_elementsText : ∀ objs : List Document, objs.length ≤ (elementsText (objs.map Document.element)).length
  | [] => le_rfl
  | [obj] => by
    show 1 ≤ (obj.before.text ++ ('{' :: obj.body ++ ['}']) ++ obj.after.text).length
    simp
    omega
  | obj :: obj' :: objs => by
    have := length_elementsText (obj' :: objs)
    show objs.length + 1 + 1 ≤ (elementText obj.element ++ ',' :: elementsText ((obj' :: objs).map Document.element)).length
    rw [List.length_append, List.length_cons]
    simp only [List.length_cons] at this
    omega

/-- The objects cut out behind a position. -/
def objectsBehind (pos : Text) : List Text :=
  match pos.dropWhile (· != '[') with
  | [] => []
  | _ :: t =>
    match closing '[' ']' 1 t with
    | none => []
    | some (inside, _) => objects inside.length inside

theorem parseFeeds_document (round : Rat → Option Rat) (doc : Document) : parseFeeds round doc.text =
    match doc.entries.find? fun e => Str.raw e.1.key == "feeds".toList with
    | none => []
    | some e => (objectsBehind e.2).map (parseFeed round) := by
  rw [parseFeeds, findKey_document]
  cases doc.entries.find? fun e => Str.raw e.1.key == "feeds".toList with
  | none => rfl
  | some e =>
    show (match e.2.dropWhile (· != '[') with
      | [] => []
      | _ :: t => match closing '[' ']' 1 t with
        | none => []
        | some (inside, _) => (objects inside.length inside).map (parseFeed round)) = _
    dsimp only [objectsBehind]
    split
    · rfl
    · split <;> rfl

theorem objects_eq_nil_iff {t : Text} : objects t.length t = [] ↔
    ∀ p body q, t = p ++ '{' :: body ++ '}' :: q → '{' ∉ p → ¬ Balanced '{' '}' body := by
  constructor
  · rintro h p body q rfl hp hbody
    have hlen : (p ++ '{' :: body ++ '}' :: q).length = p.length + body.length + q.length + 1 + 1 := by
      simp
      omega
    rw [hlen, List.append_assoc, objects_skip hp, List.cons_append, objects, List.dropWhile_cons_of_neg (by decide)] at h
    dsimp only at h
    rw [(closing_eq_some_iff (by decide)).2 ⟨rfl, hbody⟩] at h
    cases h
  · intro h
    by_cases hmem : '{' ∈ t
    · obtain ⟨p, t, rfl, hp⟩ := List.eq_append_cons_of_mem hmem
      have hlen : (p ++ '{' :: t).length = p.length + t.length + 1 := by
        simp
        omega
      rw [hlen, objects_skip hp, objects, List.dropWhile_cons_of_neg (by decide)]
      dsimp only
      cases hc : closing '{' '}' 1 t with
      | none => rfl
      | some q =>
        obtain ⟨rfl, hbody⟩ := (closing_eq_some_iff (by decide)).1 hc
        exact absurd hbody (h p q.1 q.2 (by simp) hp)
    · have := objects_skip hmem t.length []
      rw [List.append_nil] at this
      rw [this]
      cases t.length <;> rfl

/-- Where the brackets balance the array is found. -/
theorem objectsBehind_append {a inside : Text} (ha : '[' ∉ a) (h : Balanced '[' ']' inside) (b : Text) :
    objectsBehind (a ++ ('[' :: inside ++ ']' :: b)) = objects inside.length inside := by
  rw [List.cons_append, objectsBehind, dropWhile_to ha]
  dsimp only
  rw [(closing_eq_some_iff (by decide)).2 ⟨rfl, h⟩]

theorem objectsBehind_eq_nil_iff {pos : Text} : objectsBehind pos = [] ↔ NoFeedAhead pos := by
  constructor
  · rintro h a inside b rfl ha hinside
    rw [List.append_assoc, objectsBehind_append ha hinside] at h
    exact objects_eq_nil_iff.1 h
  · intro h
    by_cases hmem : '[' ∈ pos
    · obtain ⟨a, t, rfl, ha⟩ := List.eq_append_cons_of_mem hmem
      rw [objectsBehind, dropWhile_to ha]
      dsimp only
      cases hc : closing '[' ']' 1 t with
      | none => rfl
      | some q =>
        obtain ⟨inside, b⟩ := q
        obtain ⟨rfl, hinside⟩ := (closing_eq_some_iff (by decide)).1 hc
        exact objects_eq_nil_iff.2 (h a inside b (by simp) ha hinside)
    · rw [objectsBehind, List.dropWhile_eq_nil_iff.2 fun c hc => by simpa using fun heq : c = '[' => hmem (heq ▸ hc)]

/-! ### Which plans are read -/

/-- Behind the key of an array of objects stand their texts, if the counts hold. -/
theorem objectsBehind_array {doc : Document} {e : Member Value × Text} (he : e ∈ doc.entries) {pad : Space}
    {objs : List Document} (hv : e.1.element.value = .array pad (objs.map Document.element)) (h : CountsHold pad objs) :
    objectsBehind e.2 = objs.map fun obj => obj.bare.text := by
  obtain ⟨c, rest, -, hrest⟩ := entriesBefore_snd _ _ e he
  obtain ⟨⟨_, _, _, ⟨before, value, after⟩⟩, pos⟩ := e
  dsimp only at hv hrest
  rw [hrest, hv]
  show objectsBehind (before.text ++ ('[' :: arrayBody pad objs ++ [']']) ++ after.text ++ c :: rest) = _
  have hassoc : before.text ++ ('[' :: arrayBody pad objs ++ [']']) ++ after.text ++ c :: rest =
      before.text ++ ('[' :: arrayBody pad objs ++ ']' :: (after.text ++ c :: rest)) := by simp
  rw [hassoc, objectsBehind_append (not_mem_space _ (by decide)) h.1, arrayBody]
  split
  · rename_i hempty
    rw [List.map_eq_nil_iff.1 (List.isEmpty_iff.1 hempty)]
    have := objects_skip (not_mem_space pad (by decide)) pad.text.length []
    rw [List.append_nil] at this
    rw [this]
    cases pad.text.length <;> rfl
  · exact objects_elements h.2 (length_elementsText objs)

theorem value?_of_raw {doc : Document} {e : Member Value × Text} (he : e ∈ doc.entries) {key : Text} (hraw : Str.raw e.1.key = key)
    (hkey : '\\' ∉ key) : doc.value? key = some e.1.element.value := by
  subst hraw
  have h := doc.value?_eq_some he
  rwa [← Str.raw_eq_decoded_of_plain (Str.plain_of_not_mem hkey)] at h

/-- Without feeds `parse_feeds` returns none. With feeds that are no array it does exactly if nothing behind the key is
taken for an object in an array. And of an array of objects in which the counts of brackets and braces hold it returns
what the objects describe exactly if there is none, or the key is written without escapes and the lookups of all fields in
all objects go right. -/
theorem parse_feeds_iff (round : Rat → Option Rat) (doc : Document) :
    (doc.value? "feeds".toList = none → parseFeeds round doc.text = []) ∧
    (∀ v, doc.value? "feeds".toList = some v → (∀ pad items, v ≠ .array pad items) →
      (parseFeeds round doc.text = [] ↔ ∀ e ∈ doc.entries, Str.raw e.1.key = "feeds".toList → NoFeedAhead e.2)) ∧
    ∀ pad (objs : List Document), doc.value? "feeds".toList = some (.array pad (objs.map Document.element)) →
      CountsHold pad objs → (parseFeeds round doc.text = objs.map (Document.feedSpec round) ↔
        objs = [] ∨ (∃ e ∈ doc.entries, Str.raw e.1.key = "feeds".toList) ∧ ∀ obj ∈ objs, FeedRead round obj) := by
  have hplain : '\\' ∉ "feeds".toList := by decide
  rw [parseFeeds_document]
  cases hfind : doc.entries.find? fun e => Str.raw e.1.key == "feeds".toList with
  | none =>
    have hraw : ∀ e ∈ doc.entries, Str.raw e.1.key ≠ "feeds".toList := fun e he => by
      simpa using List.find?_eq_none.1 hfind e he
    refine ⟨fun _ => rfl, fun v _ _ => iff_of_true rfl fun e he hk => absurd hk (hraw e he), fun pad objs _ _ => ?_⟩
    constructor
    · intro h
      exact .inl (List.map_eq_nil_iff.1 h.symm)
    · rintro (rfl | ⟨⟨e, he, hk⟩, -⟩)
      · rfl
      · exact absurd hk (hraw e he)
  | some e =>
    have he := List.mem_of_find?_eq_some hfind
    have hk : Str.raw e.1.key = "feeds".toList := by simpa using List.find?_some hfind
    have hvalue := value?_of_raw he hk hplain
    rw [hvalue]
    refine ⟨fun h => absurd h (Option.some_ne_none _), fun v _ _ => ?_, fun pad objs hv hcount => ?_⟩
    · rw [List.map_eq_nil_iff, objectsBehind_eq_nil_iff]
      constructor
      · intro h e' he' hk'
        have heq : e' = e := doc.entry_unique he' he (by
          rw [← Str.raw_eq_decoded_of_plain (Str.plain_of_not_mem (hk' ▸ hplain)),
            ← Str.raw_eq_decoded_of_plain (Str.plain_of_not_mem (hk ▸ hplain)), hk, hk'])
        rwa [heq]
      · intro h
        exact h e he hk
    · dsimp only
      rw [objectsBehind_array he (Option.some.inj hv) hcount, List.map_map, List.map_inj_left]
      constructor
      · intro h
        exact .inr ⟨⟨e, he, hk⟩, fun obj hobj => (parseFeed_iff round obj).1 (h obj hobj)⟩
      · rintro (rfl | ⟨-, h⟩)
        · exact fun obj hobj => absurd hobj List.not_mem_nil
        · exact fun obj hobj => (parseFeed_iff round obj).2 (h obj hobj)

/-! A plan of one minute feed, read from a path. -/

def minuteFeed (path : String) : Document where
  members := [memberOf "index" (.number zero),
    memberOf "interval" (.string (Str.ofText "1m".toList)), memberOf "role" (.string (Str.ofText "execution".toList)),
    memberOf "source" (.string (Str.ofText "parquet".toList)), memberOf "dataPath" (.string (Str.ofText path.toList))]
  distinct := by
    show (["index", "interval", "role", "source", "dataPath"].map fun key => Str.decoded (Str.ofText key.toList)).Nodup
    decide

def minutePlan (path : String) : Document where
  members := [memberOf "feeds" (.array {} [(minuteFeed path).element])]
  distinct := List.nodup_singleton _

theorem parse_feeds_iff_minutes : parseFeeds some (minutePlan "m[1].csv").text =
      [{ interval := "1m", role := "execution", source := "parquet", dataPath := "m[1].csv" }] ∧
    FeedRead some (minuteFeed "m[1].csv") := by
  have hiff := (parse_feeds_iff some (minutePlan "m[1].csv")).2.2 {} [minuteFeed "m[1].csv"] rfl
    ⟨by decide +kernel, by decide +kernel⟩
  have hparse : parseFeeds some (minutePlan "m[1].csv").text = [(minuteFeed "m[1].csv").feedSpec some] := by decide +kernel
  refine ⟨by decide +kernel, ?_⟩
  rcases hiff.1 hparse with h | ⟨-, h⟩
  · cases h
  · exact h _ (List.mem_singleton_self _)

/-- A bracket in the path closes the array inside its only object. -/
theorem minutePlan_loses_its_feed : ∃ (pad : Space) (objs : List Document),
    (minutePlan "m].csv").value? "feeds".toList = some (.array pad (objs.map Document.element)) ∧
    objs.map (Document.feedSpec some) =
      [{ interval := "1m", role := "execution", source := "parquet", dataPath := "m].csv" }] ∧
    parseFeeds some (minutePlan "m].csv").text = [] :=
  ⟨{}, [minuteFeed "m].csv"], rfl, by decide +kernel, by decide +kernel⟩

end BacktestConfigParser

end StratForge
