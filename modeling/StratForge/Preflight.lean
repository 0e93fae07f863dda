import StratForge.Contracts
import StratForge.FeedsArray

/-!
# The corrective configuration

`parse_corrective_config` and `parse_artifact_manifest` take their values out of the same text as
`BacktestConfigParser`, by getters of their own: the first place where the key stands between quotation marks, the
colon behind it, and then the next string or the next number. `Found` is the place that they come to.
`preflight_lookup_iff` says when this is the place that `find_key` gives, and when what is read is the value of the key.
-/

namespace StratForge
open Json BacktestConfigParser

/-! ### The getters -/

namespace Preflight

/-- `find`, for a needle that is not empty: the text behind its first occurrence. -/
def behind (needle : Text) : Text → Option Text
  | [] => none
  | c :: t => if needle <+: c :: t then some ((c :: t).drop needle.length) else behind needle t

def needle (key : Text) : Text := '"' :: (key ++ ['"'])

/-- Behind the first colon that follows the first occurrence of the key. -/
def locate (json key : Text) : Option Text := (behind (needle key) json).bind (behind [':'])

def jsonGetString (json key fallback : Text) : Text :=
  match locate json key with
  | none => fallback
  | some pos => (BacktestConfigParser.quoted pos).getD fallback

def jsonGetDouble (round : Rat → Option Rat) (json key : Text) (fallback : Rat) : Rat :=
  match locate json key with
  | none => fallback
  | some pos => (stod round (numberRun pos)).getD fallback

end Preflight

/-! ### The two configurations -/

structure CalibrationBreakpoint (α : Type) where
  x : α
  y : α
deriving DecidableEq, Repr

inductive CalibrationMethod
  | kIsotonic | kPlatt
deriving DecidableEq, Repr

structure GoldenVector (α : Type) where
  inputFeatures : Vector α kPopFeatureCountV1
  expectedProbability : α
  expectedVerdict : GateVerdict
deriving DecidableEq, Repr

structure ArtifactManifest (α : Type) where
  modelPath : Text
  contentHash : Text
  schemaVersion : Nat
  featureSchemaHash : Nat
  featureCount : Nat
  calibrationMethod : CalibrationMethod
  isotonicBreakpoints : List (CalibrationBreakpoint α)
  plattA : α
  plattB : α
  goldenVector : GoldenVector α

namespace Preflight

/-- What is read for a key, as a string and as a number, with a fallback. -/
structure Lookup where
  string : String → String → Text
  double : String → Rat → Rat

/-- What the functions take from the library: the nearest `double`, the nearest `float`, and `std::stof`. -/
structure Floats (α : Type) where
  round : Rat → Option Rat
  narrow : Rat → α
  stof : Text → Option α

/-- `static_cast` to an unsigned integer. -/
def castUint (q : Rat) : Nat := (castInt q).toNat

section
variable {α : Type} [Zero α] (fl : Floats α)

/-- The pieces between the commas; behind the last comma there is none if the text ends there. -/
def csvPieces : Text → Text → List Text
  | piece, [] => if piece.isEmpty then [] else [piece]
  | piece, c :: t => if c = ',' then piece :: csvPieces [] t else csvPieces (piece ++ [c]) t

def parseFloatCsv (csv : Text) : List α := (csvPieces [] csv).map fun piece => (fl.stof piece).getD 0

def parseBreakpoints (xCsv yCsv : Text) : List (CalibrationBreakpoint α) :=
  (parseFloatCsv fl xCsv).zipWith CalibrationBreakpoint.mk (parseFloatCsv fl yCsv)

/-- `parse_corrective_config` over its lookups. -/
def correctiveConfig (l : Lookup) : CorrectiveRuntimeConfig α :=
  let state := l.string "corrective_state" "disabled"
  let mode := l.string "corrective_mode" "gate"
  { state :=
      if state = "collect_only".toList then .kCollectOnly
      else if state = "enabled".toList then .kPass
      else .kDisabled
    mode :=
      if mode = "sizing".toList then .kSizing
      else if mode = "hybrid".toList then .kHybrid
      else .kGate
    threshold := fl.narrow (l.double "corrective_threshold" 0.5)
    sizingExponent := fl.narrow (l.double "corrective_sizing_exponent" 1)
    shadowHorizonBars := castUint (l.double "corrective_shadow_horizon_bars" 50) }

/-- `parse_artifact_manifest` over its lookups. -/
def artifactManifest (l : Lookup) : ArtifactManifest α :=
  let platt := l.string "corrective_calibration_method" "isotonic" = "platt".toList
  let bpX := l.string "corrective_bp_x" ""
  let bpY := l.string "corrective_bp_y" ""
  -- an empty text has no values
  let features := parseFloatCsv fl (l.string "corrective_gv_features" "")
  { modelPath := l.string "corrective_model_path" ""
    contentHash := l.string "corrective_content_hash" ""
    schemaVersion := castUint (l.double "corrective_schema_version" 1)
    featureSchemaHash := castUint (l.double "corrective_feature_schema_hash" 0)
    featureCount := castUint (l.double "corrective_feature_count" kPopFeatureCountV1)
    calibrationMethod := if platt then .kPlatt else .kIsotonic
    isotonicBreakpoints := if platt ∨ bpX.isEmpty ∨ bpY.isEmpty then [] else parseBreakpoints fl bpX bpY
    plattA := if platt then fl.narrow (l.double "corrective_platt_a" 0) else 0
    plattB := if platt then fl.narrow (l.double "corrective_platt_b" 0) else 0
    goldenVector :=
      { inputFeatures := Vector.ofFn fun i => features[i]?.getD 0
        expectedProbability := fl.narrow (l.double "corrective_gv_expected_prob" 0)
        expectedVerdict := if l.string "corrective_gv_expected_verdict" "pass" = "reject".toList then .kReject else .kPass } }

/-- The lookups in a text. -/
def textLookup (json : Text) : Lookup where
  string key fallback := jsonGetString json key.toList fallback.toList
  double key fallback := jsonGetDouble fl.round json key.toList fallback

def parseCorrectiveConfig (json : Text) : CorrectiveRuntimeConfig α := correctiveConfig fl (textLookup fl json)

def parseArtifactManifest (json : Text) : ArtifactManifest α := artifactManifest fl (textLookup fl json)

/-- The lookups of `BacktestConfigParser`. -/
def parserLookup (json : Text) : Lookup where
  string key fallback := getString json key.toList fallback.toList
  double key fallback := getDouble fl.round json key.toList fallback

/-- The values of the object. -/
def valueLookup (doc : Document) : Lookup where
  string key fallback := ((doc.value? key.toList).bind asString).getD fallback.toList
  double key fallback := ((doc.value? key.toList).bind (asDouble fl.round)).getD fallback

end

/-! ### Where the getters come to -/

/-- `u` follows the first occurrence of the needle. -/
def FirstBehind (needle t u : Text) : Prop :=
  ∃ a, t = a ++ needle ++ u ∧ ∀ a' u', t = a' ++ needle ++ u' → a.length ≤ a'.length

theorem behind_eq_some_iff {needle t u : Text} (hne : needle ≠ []) : behind needle t = some u ↔ FirstBehind needle t u := by
  induction t generalizing u with
  | nil =>
    refine iff_of_false (fun h => nomatch h) ?_
    rintro ⟨a, h, -⟩
    simp [hne] at h
  | cons c t ih =>
    rw [behind]
    split_ifs with hpre
    · obtain ⟨v, hv⟩ := hpre
      rw [← hv, List.drop_left, Option.some.injEq]
      constructor
      · rintro rfl
        exact ⟨[], rfl, fun _ _ _ => Nat.zero_le _⟩
      · rintro ⟨a, ha, hfirst⟩
        have hnil : a = [] := List.length_eq_zero_iff.1 (Nat.le_zero.1 (hfirst [] v rfl))
        subst hnil
        exact List.append_cancel_left ha
    · rw [ih]
      have hcons : ∀ {a u' : Text}, c :: t = a ++ needle ++ u' → ∃ a', a = c :: a' ∧ t = a' ++ needle ++ u' := by
        intro a u' h
        cases a with
        | nil => exact absurd ⟨u', h.symm⟩ hpre
        | cons d a =>
          have hinj := List.cons.inj h
          exact ⟨a, by rw [hinj.1], hinj.2⟩
      constructor
      · rintro ⟨a, ha, hfirst⟩
        refine ⟨c :: a, congrArg (c :: ·) ha, fun a' u' h => ?_⟩
        obtain ⟨a', rfl, h'⟩ := hcons h
        exact Nat.succ_le_succ (hfirst a' u' h')
      · rintro ⟨a, ha, hfirst⟩
        obtain ⟨a, rfl, ha'⟩ := hcons ha
        refine ⟨a, ha', fun a' u' h => ?_⟩
        exact Nat.le_of_succ_le_succ (hfirst (c :: a') u' (congrArg (c :: ·) h))

/-- The first colon behind the first place where the key stands in quotation marks, and what follows it. -/
def Found (json key pos : Text) : Prop := ∃ u, FirstBehind (needle key) json u ∧ FirstBehind [':'] u pos

theorem locate_eq_some_iff {json key pos : Text} : locate json key = some pos ↔ Found json key pos := by
  rw [locate, Option.bind_eq_some_iff]
  refine exists_congr fun u => ?_
  rw [behind_eq_some_iff (by simp [needle]), behind_eq_some_iff (by simp)]

theorem locate_eq_none_iff {json key : Text} : locate json key = none ↔ ∀ pos, ¬ Found json key pos := by
  rw [Option.eq_none_iff_forall_ne_some]
  exact forall_congr' fun pos => not_congr locate_eq_some_iff

/-! ### When a lookup goes right -/

/-- The value is a string without escapes, or it is none and behind it comes no string but the fallback. -/
def StringOr (fallback : Text) (e : Member Value × Text) : Prop :=
  (∃ s, e.1.element.value = .string s ∧ Str.Plain s) ∨
    (asString e.1.element.value = none ∧ (BacktestConfigParser.quoted e.2).getD fallback = fallback)

/-- The value is a number, or it is none and behind it comes no number but the fallback. -/
def DoubleOr (round : Rat → Option Rat) (fallback : Rat) (e : Member Value × Text) : Prop :=
  (∃ n, e.1.element.value = .number n) ∨
    (asDouble round e.1.element.value = none ∧ (stod round (numberRun e.2)).getD fallback = fallback)

/-- The ways in which a lookup goes right; the parameters are those of `LooksUp`. -/
inductive Reads {T U : Type} (read : Text → Option T) (typed : Value → Option T) (out : Option T → U)
    (Good : Member Value × Text → Prop) (doc : Document) (key : Text) : Prop
  /-- No colon follows the key in quotation marks, and the value of the member that means it does not count. -/
  | nowhere (hfound : ∀ pos, ¬ Found doc.text key pos)
      (htyped : ∀ e ∈ doc.entries, Str.decoded e.1.key = key → out none = out (typed e.1.element.value))
  /-- The colon is that of the member. -/
  | member (e : Member Value × Text) (he : e ∈ doc.entries) (hkey : Str.decoded e.1.key = key)
      (hfound : Found doc.text key e.2) (hgood : Good e)
  /-- It is another one, and what stands behind it is as good. -/
  | elsewhere (pos : Text) (hfound : Found doc.text key pos)
      (hother : ∀ e ∈ doc.entries, Str.decoded e.1.key = key → e.2 ≠ pos) (hread : out (read pos) = out ((doc.value? key).bind typed))

theorem value?_of_decoded {doc : Document} {e : Member Value × Text} (he : e ∈ doc.entries) {key : Text}
    (hkey : Str.decoded e.1.key = key) : doc.value? key = some e.1.element.value := hkey ▸ doc.value?_eq_some he

/-- What is read of the member that means a key, when there is none or its value does not count. -/
theorem out_value? {T U : Type} {typed : Value → Option T} {out : Option T → U} {doc : Document} {key : Text} :
    out none = out ((doc.value? key).bind typed) ↔
      ∀ e ∈ doc.entries, Str.decoded e.1.key = key → out none = out (typed e.1.element.value) := by
  constructor
  · intro h e he hkey
    rw [value?_of_decoded he hkey] at h
    exact h
  · intro h
    by_cases hex : ∃ e ∈ doc.entries, Str.decoded e.1.key = key
    · obtain ⟨e, he, hkey⟩ := hex
      rw [value?_of_decoded he hkey]
      exact h e he hkey
    · rw [doc.value?_eq_none]
      · rfl
      · intro m hm hkey
        rw [← doc.entries_fst] at hm
        obtain ⟨e, he, rfl⟩ := List.mem_map.1 hm
        exact hex ⟨e, he, hkey⟩

theorem reads_iff {T U : Type} {read : Text → Option T} {typed : Value → Option T} {out : Option T → U}
    {Good : Member Value × Text → Prop} {doc : Document} {key : Text}
    (hgood : ∀ e ∈ doc.entries, out (read e.2) = out (typed e.1.element.value) ↔ Good e) :
    out ((locate doc.text key).bind read) = out ((doc.value? key).bind typed) ↔ Reads read typed out Good doc key := by
  cases hloc : locate doc.text key with
  | none =>
    have hnone := locate_eq_none_iff.1 hloc
    constructor
    · exact fun h => .nowhere hnone (out_value?.1 h)
    · rintro (⟨-, htyped⟩ | ⟨e, -, -, hfound, -⟩ | ⟨pos, hfound, -, -⟩)
      · exact out_value?.2 htyped
      · exact absurd hfound (hnone _)
      · exact absurd hfound (hnone _)
  | some pos =>
    have hpos := locate_eq_some_iff.1 hloc
    -- the place is unique
    have huniq : ∀ pos', Found doc.text key pos' → pos' = pos := fun pos' h =>
      Option.some.inj ((locate_eq_some_iff.2 h).symm.trans hloc)
    show out (read pos) = _ ↔ _
    by_cases hex : ∃ e ∈ doc.entries, Str.decoded e.1.key = key ∧ e.2 = pos
    · obtain ⟨e, he, hkey, rfl⟩ := hex
      rw [value?_of_decoded he hkey]
      show out (read e.2) = out (typed e.1.element.value) ↔ _
      rw [hgood e he]
      constructor
      · exact .member e he hkey hpos
      · rintro (⟨hno, -⟩ | ⟨e', he', hkey', -, hgood'⟩ | ⟨pos', hfound, hother, -⟩)
        · exact absurd hpos (hno _)
        · rwa [doc.entry_unique he he' (hkey.trans hkey'.symm)]
        · exact absurd (huniq pos' hfound).symm (hother e he hkey)
    · have hother : ∀ e ∈ doc.entries, Str.decoded e.1.key = key → e.2 ≠ pos := fun e he hkey hp => hex ⟨e, he, hkey, hp⟩
      constructor
      · exact .elsewhere pos hpos hother
      · rintro (⟨hno, -⟩ | ⟨e, he, hkey, hfound, -⟩ | ⟨pos', hfound, -, hread⟩)
        · exact absurd hpos (hno _)
        · exact absurd (huniq e.2 hfound) (hother e he hkey)
        · rwa [huniq pos' hfound] at hread

variable {doc : Document} {e : Member Value × Text}

theorem stringOr_iff (fallback : Text) (he : e ∈ doc.entries) :
    (BacktestConfigParser.quoted e.2).getD fallback = (asString e.1.element.value).getD fallback ↔ StringOr fallback e := by
  unfold StringOr
  cases hv : e.1.element.value with
  | string s =>
    rw [quoted_entry he hv]
    simp only [asString, Option.getD_some, Str.takeWhile_raw_eq_iff, Value.string.injEq, reduceCtorEq, false_and, or_false,
      exists_eq_left']
  | _ => simp [asString]

theorem doubleOr_iff (round : Rat → Option Rat) (fallback : Rat) (he : e ∈ doc.entries) :
    (stod round (numberRun e.2)).getD fallback = (asDouble round e.1.element.value).getD fallback ↔
      DoubleOr round fallback e := by
  unfold DoubleOr
  cases hv : e.1.element.value with
  | number n =>
    rw [stod_entry round he hv]
    exact iff_of_true rfl (.inl ⟨n, rfl⟩)
  | _ => simp [asDouble]

theorem jsonGetString_eq (json key fallback : Text) :
    jsonGetString json key fallback = ((locate json key).bind BacktestConfigParser.quoted).getD fallback := by
  rw [jsonGetString]
  cases locate json key <;> rfl

theorem jsonGetDouble_eq (round : Rat → Option Rat) (json key : Text) (fallback : Rat) :
    jsonGetDouble round json key fallback = ((locate json key).bind fun pos => stod round (numberRun pos)).getD fallback := by
  rw [jsonGetDouble]
  cases locate json key <;> rfl

/-- The getters come to the place that `find_key` gives. -/
def SamePlace (doc : Document) (key : Text) : Prop :=
  ((∀ e ∈ doc.entries, Str.raw e.1.key ≠ key) ∧ ∀ pos, ¬ Found doc.text key pos) ∨
    ∃ e, doc.entries.find? (fun e => Str.raw e.1.key == key) = some e ∧ Found doc.text key e.2

theorem locate_eq_findKey_iff (doc : Document) (key : Text) :
    locate doc.text key = findKey key 0 none false doc.text ↔ SamePlace doc key := by
  rw [findKey_document, SamePlace]
  cases hfind : doc.entries.find? fun e => Str.raw e.1.key == key with
  | none =>
    have hraw : ∀ e ∈ doc.entries, Str.raw e.1.key ≠ key := fun e he => by simpa using List.find?_eq_none.1 hfind e he
    rw [Option.map_none, locate_eq_none_iff]
    constructor
    · exact fun h => .inl ⟨hraw, h⟩
    · rintro (⟨-, h⟩ | ⟨e, he, -⟩)
      · exact h
      · cases he
  | some e =>
    rw [Option.map_some, locate_eq_some_iff]
    constructor
    · exact fun h => .inr ⟨e, rfl, h⟩
    · rintro (⟨hraw, -⟩ | ⟨e', he, h⟩)
      · exact absurd (by simpa using List.find?_some hfind) (hraw e (List.mem_of_find?_eq_some hfind))
      · cases he
        exact h

/-! ### The two functions -/

/-- The strings that are read, with their fallbacks. -/
def stringKeys : List (String × String) :=
  [("corrective_state", "disabled"), ("corrective_mode", "gate"), ("corrective_model_path", ""), ("corrective_content_hash", ""),
    ("corrective_calibration_method", "isotonic"), ("corrective_bp_x", ""), ("corrective_bp_y", ""),
    ("corrective_gv_features", ""), ("corrective_gv_expected_verdict", "pass")]

/-- The numbers that are read. -/
def doubleKeys : List (String × Rat) :=
  [("corrective_threshold", 0.5), ("corrective_sizing_exponent", 1), ("corrective_shadow_horizon_bars", 50),
    ("corrective_schema_version", 1), ("corrective_feature_schema_hash", 0), ("corrective_feature_count", kPopFeatureCountV1),
    ("corrective_platt_a", 0), ("corrective_platt_b", 0), ("corrective_gv_expected_prob", 0)]

/-- Nothing else is read. -/
theorem eq_of_lookups {α : Type} [Zero α] (fl : Floats α) {l l' : Lookup} (hs : ∀ x ∈ stringKeys, l.string x.1 x.2 = l'.string x.1 x.2)
    (hd : ∀ x ∈ doubleKeys, l.double x.1 x.2 = l'.double x.1 x.2) :
    correctiveConfig fl l = correctiveConfig fl l' ∧ artifactManifest fl l = artifactManifest fl l' := by
  simp only [stringKeys, List.forall_mem_cons] at hs
  simp only [doubleKeys, List.forall_mem_cons] at hd
  obtain ⟨hstate, hmode, hpath, hhash, hmethod, hx, hy, hfeatures, hverdict, -⟩ := hs
  obtain ⟨hthreshold, hexponent, hhorizon, hschema, hfeature, hcount, ha, hb, hprob, -⟩ := hd
  constructor
  · simp only [correctiveConfig, hstate, hmode, hthreshold, hexponent, hhorizon]
  · simp only [artifactManifest, hpath, hhash, hmethod, hx, hy, hfeatures, hverdict, hschema, hfeature, hcount, ha, hb, hprob]

/-- Every lookup of the two functions goes right. -/
structure ReadRight (round : Rat → Option Rat) (doc : Document) : Prop where
  strings : ∀ x ∈ stringKeys, Reads BacktestConfigParser.quoted asString (·.getD x.2.toList) (StringOr x.2.toList) doc x.1.toList
  doubles : ∀ x ∈ doubleKeys,
    Reads (fun pos => stod round (numberRun pos)) (asDouble round) (·.getD x.2) (DoubleOr round x.2) doc x.1.toList

theorem string_iff (doc : Document) (key fallback : Text) :
    jsonGetString doc.text key fallback = ((doc.value? key).bind asString).getD fallback ↔
      Reads BacktestConfigParser.quoted asString (·.getD fallback) (StringOr fallback) doc key := by
  rw [jsonGetString_eq]
  exact @reads_iff _ _ BacktestConfigParser.quoted asString (·.getD fallback) _ doc key fun e he => stringOr_iff fallback he

theorem double_iff (round : Rat → Option Rat) (doc : Document) (key : Text) (fallback : Rat) :
    jsonGetDouble round doc.text key fallback = ((doc.value? key).bind (asDouble round)).getD fallback ↔
      Reads (fun pos => stod round (numberRun pos)) (asDouble round) (·.getD fallback) (DoubleOr round fallback) doc key := by
  rw [jsonGetDouble_eq]
  exact @reads_iff _ _ (fun pos => stod round (numberRun pos)) (asDouble round) (·.getD fallback) _ doc key
    fun e he => doubleOr_iff round fallback he

theorem parse_of_readRight {α : Type} [Zero α] (fl : Floats α) {doc : Document} (h : ReadRight fl.round doc) :
    parseCorrectiveConfig fl doc.text = correctiveConfig fl (valueLookup fl doc) ∧
    parseArtifactManifest fl doc.text = artifactManifest fl (valueLookup fl doc) :=
  eq_of_lookups fl (fun x hx => (string_iff doc _ _).2 (h.strings x hx)) fun x hx => (double_iff fl.round doc _ _).2 (h.doubles x hx)

/-- The state of the application's plan, and that of the run. -/
def nestedState : Document where
  members := [memberOf "plan" (.object {} [memberOf "corrective_state" (.string (Str.ofText "enabled".toList))]),
    memberOf "corrective_state" (.string (Str.ofText "disabled".toList))]
  distinct := by decide

/-- Exact numbers, and no floats in the lists. -/
def exactFloats : Floats ℚ := ⟨some, id, fun _ => none⟩

end Preflight

end StratForge
