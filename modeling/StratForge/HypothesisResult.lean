import StratForge.Literals
import StratForge.Spelling

/-!
# Hypothesis results (`stats/result.hpp`, `stats/result_json.hpp`)

`toJson` writes the row of one test, byte by byte, and `toJsonArray` a batch of them. A reader finds every field as it
was (`batch_reads`): the texts, the flag, the counts, and digits for the numbers that no other `double` is as near to; what
is not finite is `null`.
-/

namespace StratForge

open Json (Text Data Spells MemberSpells)

/-- A value of `parameters`. -/
inductive HypothesisParameterValue
  | double (v : Float64)
  | longLong (v : Int64)
  | bool (v : Bool)
  | string (v : Text)

structure HypothesisResult where
  /-- Matches the hypothesis id of the first round. -/
  hypothesisId : Text
  testName : Text
  pValue : Float64
  testStatistic : Float64
  effectSize : Float64
  isSignificant : Bool
  summary : Text
  /-- A `std::map`: in the order of the keys, each of them once. -/
  parameters : List (Text × HypothesisParameterValue)
  ordered : (parameters.map Prod.fst).Pairwise (· < ·)
  /-- One for each bar, or none. -/
  perBarScores : List Float64

namespace HypothesisResult

/-! ### The writer -/

/-- `append_double`. -/
def appendDouble (v : Float64) : List UInt8 :=
  utf8 (if v.isFinite then Decimal.general 17 v.double else Wire.lit "null")

/-- `append_param_value`. -/
def appendParamValue : HypothesisParameterValue → List UInt8
  | .double v => appendDouble v
  | .longLong v => utf8 (Decimal.int v.toInt)
  | .bool v => utf8 (if v then Wire.lit "true" else Wire.lit "false")
  | .string v => appendEscaped (utf8 v)

/-- The loops over `parameters` and `per_bar_scores`: a comma before all but the first. -/
def separated : List (List UInt8) → List UInt8
  | [] => []
  | [t] => t
  | t :: t' :: ts => t ++ utf8 [','] ++ separated (t' :: ts)

def appendParameter (p : Text × HypothesisParameterValue) : List UInt8 :=
  appendEscaped (utf8 p.1) ++ utf8 [':'] ++ appendParamValue p.2

/-- `to_json`. -/
def toJson (r : HypothesisResult) : List UInt8 :=
  [utf8 (Wire.lit "\x7b\"hypothesis_id\":"), appendEscaped (utf8 r.hypothesisId),
    utf8 (Wire.lit ",\"test_name\":"), appendEscaped (utf8 r.testName),
    utf8 (Wire.lit ",\"p_value\":"), appendDouble r.pValue,
    utf8 (Wire.lit ",\"test_statistic\":"), appendDouble r.testStatistic,
    utf8 (Wire.lit ",\"effect_size\":"), appendDouble r.effectSize,
    utf8 (Wire.lit ",\"is_significant\":"), utf8 (if r.isSignificant then Wire.lit "true" else Wire.lit "false"),
    utf8 (Wire.lit ",\"summary\":"), appendEscaped (utf8 r.summary),
    utf8 (Wire.lit ",\"parameters\":\x7b"), separated (r.parameters.map appendParameter), utf8 (Wire.lit "\x7d"),
    if r.perBarScores.isEmpty then []
    else utf8 (Wire.lit ",\"per_bar_scores\":[") ++ separated (r.perBarScores.map appendDouble) ++ utf8 (Wire.lit "]"),
    utf8 (Wire.lit "\x7d")].flatten

/-- `to_json` of a span. -/
def toJsonArray (rs : List HypothesisResult) : List UInt8 := utf8 ['['] ++ separated (rs.map toJson) ++ utf8 [']']

/-! ### What a reader finds -/

def ParameterHolds (d : Data) : HypothesisParameterValue → Prop
  | .double v => v.Holds d
  | .longLong v => d = .number v.toInt
  | .bool v => d = .bool v
  | .string v => d = .string v

/-- A document with the fields of the row. -/
def Holds (r : HypothesisResult) (d : Data) : Prop :=
  ∃ (p t e : Data) (ps ss : List Data), r.pValue.Holds p ∧ r.testStatistic.Holds t ∧ r.effectSize.Holds e ∧
    List.Forall₂ ParameterHolds ps (r.parameters.map Prod.snd) ∧ List.Forall₂ Float64.Holds ss r.perBarScores ∧
    d = .object ([(Wire.lit "hypothesis_id", .string r.hypothesisId), (Wire.lit "test_name", .string r.testName),
      (Wire.lit "p_value", p), (Wire.lit "test_statistic", t), (Wire.lit "effect_size", e),
      (Wire.lit "is_significant", .bool r.isSignificant), (Wire.lit "summary", .string r.summary),
      (Wire.lit "parameters", .object ((r.parameters.map Prod.fst).zip ps))] ++
        if r.perBarScores.isEmpty then [] else [(Wire.lit "per_bar_scores", .array ss)])

/-! ### The texts of the writer -/

theorem utf8_separated (ts : List Text) : separated (ts.map utf8) = utf8 (Json.joined ts) := by
  induction ts with
  | nil => rfl
  | cons t ts ih =>
    cases ts with
    | nil => rfl
    | cons t' ts =>
      show utf8 t ++ utf8 [','] ++ separated ((t' :: ts).map utf8) = utf8 (t ++ ',' :: Json.joined (t' :: ts))
      rw [ih, utf8_append, List.append_assoc]
      rfl

/-- The literal of a text, character by character. -/
def literal (s : Text) : Text := Json.quoted (s.flatMap appendEscape)

theorem utf8_literal (s : Text) : utf8 (literal s) = appendEscaped (utf8 s) := by
  rw [appendEscaped, bytewise_appendEscape.flatMap_utf8, literal, Json.quoted]
  show utf8 (['"'] ++ (s.flatMap appendEscape ++ ['"'])) = _
  rw [utf8_append, utf8_append]
  rfl

theorem spells_literal (s : Text) : Spells (literal s) (.string s) :=
  .string (StandsFor.escaped fun c _ => standsFor_appendEscape c)

theorem exists_double (v : Float64) : ∃ t d, utf8 t = appendDouble v ∧ Spells t d ∧ v.Holds d := by
  cases v with
  | finite x => exact ⟨_, _, rfl, .general (by norm_num) rfl, _, rfl, x.nearest_written⟩
  | infinite => exact ⟨_, _, rfl, .null, rfl⟩
  | nan => exact ⟨_, _, rfl, .null, rfl⟩

theorem exists_paramValue (v : HypothesisParameterValue) :
    ∃ t d, utf8 t = appendParamValue v ∧ Spells t d ∧ ParameterHolds d v := by
  cases v with
  | double v => exact exists_double v
  | longLong v => exact ⟨_, _, rfl, .int v.toInt, rfl⟩
  | bool v => exact ⟨_, _, rfl, .bool v, rfl⟩
  | string v => exact ⟨_, _, utf8_literal v, spells_literal v, rfl⟩

/-- A list of which each element is spelled. -/
theorem exists_list {A : Type*} {f : A → List UInt8} {R : Data → A → Prop}
    (h : ∀ x, ∃ t d, utf8 t = f x ∧ Spells t d ∧ R d x) (xs : List A) :
    ∃ ts ds, utf8 (Json.joined ts) = separated (xs.map f) ∧ List.Forall₂ Spells ts ds ∧ List.Forall₂ R ds xs := by
  have hlist : ∃ ts ds, ts.map utf8 = xs.map f ∧ List.Forall₂ Spells ts ds ∧ List.Forall₂ R ds xs := by
    induction xs with
    | nil => exact ⟨[], [], rfl, .nil, .nil⟩
    | cons x xs ih =>
      obtain ⟨t, d, htext, hspells, hholds⟩ := h x
      obtain ⟨ts, ds, htexts, hall, hrest⟩ := ih
      exact ⟨t :: ts, d :: ds, by rw [List.map_cons, List.map_cons, htext, htexts], .cons hspells hall, .cons hholds hrest⟩
  obtain ⟨ts, ds, htexts, hall, hrest⟩ := hlist
  exact ⟨ts, ds, by rw [← htexts, utf8_separated], hall, hrest⟩

theorem exists_parameters (ps : List (Text × HypothesisParameterValue)) :
    ∃ (ms : List (Text × Text)) (ds : List Data),
      utf8 (Json.joined (ms.map fun m => Json.member m.1 m.2)) = separated (ps.map appendParameter) ∧
      List.Forall₂ MemberSpells ms ((ps.map Prod.fst).zip ds) ∧ List.Forall₂ ParameterHolds ds (ps.map Prod.snd) := by
  have hlist : ∃ (ms : List (Text × Text)) (ds : List Data),
      (ms.map fun m => Json.member m.1 m.2).map utf8 = ps.map appendParameter ∧
      List.Forall₂ MemberSpells ms ((ps.map Prod.fst).zip ds) ∧ List.Forall₂ ParameterHolds ds (ps.map Prod.snd) := by
    induction ps with
    | nil => exact ⟨[], [], rfl, .nil, .nil⟩
    | cons p ps ih =>
      obtain ⟨t, d, htext, hspells, hholds⟩ := exists_paramValue p.2
      obtain ⟨ms, ds, htexts, hall, hrest⟩ := ih
      have hmember : utf8 (Json.member (p.1.flatMap appendEscape) t) = appendParameter p := by
        show utf8 ('"' :: p.1.flatMap appendEscape ++ '"' :: ':' :: t) = _
        rw [show '"' :: p.1.flatMap appendEscape ++ '"' :: ':' :: t = literal p.1 ++ [':'] ++ t by simp [literal, Json.quoted],
          utf8_append, utf8_append, utf8_literal, htext]
        rfl
      refine ⟨(p.1.flatMap appendEscape, t) :: ms, d :: ds, ?_, .cons ⟨?_, hspells⟩ hall, .cons hholds hrest⟩
      · rw [List.map_cons, List.map_cons, List.map_cons, hmember, htexts]
      · exact StandsFor.escaped fun c _ => standsFor_appendEscape c
  obtain ⟨ms, ds, htexts, hall, hrest⟩ := hlist
  exact ⟨ms, ds, by rw [← htexts, utf8_separated], hall, hrest⟩

/-! ### Rows -/

/-- The members of a row, given the texts of its numbers, parameters and scores. -/
def memberTexts (r : HypothesisResult) (p t e : Text) (ms : List (Text × Text)) (ss : List Text) : List (Text × Text) :=
  [(Wire.lit "hypothesis_id", literal r.hypothesisId), (Wire.lit "test_name", literal r.testName),
    (Wire.lit "p_value", p), (Wire.lit "test_statistic", t), (Wire.lit "effect_size", e),
    (Wire.lit "is_significant", if r.isSignificant then Wire.lit "true" else Wire.lit "false"),
    (Wire.lit "summary", literal r.summary), (Wire.lit "parameters", Json.object ms)] ++
    if r.perBarScores.isEmpty then [] else [(Wire.lit "per_bar_scores", Json.array ss)]

theorem utf8_object {r : HypothesisResult} {p t e : Text} {ms : List (Text × Text)} {ss : List Text}
    (hp : utf8 p = appendDouble r.pValue) (ht : utf8 t = appendDouble r.testStatistic)
    (he : utf8 e = appendDouble r.effectSize)
    (hms : utf8 (Json.joined (ms.map fun m => Json.member m.1 m.2)) = separated (r.parameters.map appendParameter))
    (hss : utf8 (Json.joined ss) = separated (r.perBarScores.map appendDouble)) :
    utf8 (Json.object (r.memberTexts p t e ms ss)) = toJson r := by
  have hscores : (if r.perBarScores.isEmpty then []
      else utf8 (Wire.lit ",\"per_bar_scores\":[") ++ separated (r.perBarScores.map appendDouble) ++ utf8 (Wire.lit "]")) =
      utf8 (if r.perBarScores.isEmpty then [] else Wire.lit ",\"per_bar_scores\":[" ++ Json.joined ss ++ Wire.lit "]") := by
    rw [← hss, ← utf8_append, ← utf8_append]
    exact (apply_ite utf8 (r.perBarScores.isEmpty = true) [] _).symm
  rw [toJson, ← hp, ← ht, ← he, ← hms, hscores, ← utf8_literal, ← utf8_literal, ← utf8_literal]
  simp only [List.flatten_cons, List.flatten_nil, List.append_nil, ← utf8_append]
  refine congrArg utf8 ?_
  unfold memberTexts
  rw [Json.object_eq]
  cases r.perBarScores.isEmpty
  · simp [Json.membersThen, Json.object, Json.array, literal, Json.quoted, Wire.lit]
  · simp [Json.membersThen, Json.object, literal, Json.quoted, Wire.lit]

/-- A row is spelled, with the fields it has. -/
theorem exists_row (r : HypothesisResult) : ∃ t d, utf8 t = toJson r ∧ Spells t d ∧ Holds r d := by
  obtain ⟨p, dp, hp, hpd, hpv⟩ := exists_double r.pValue
  obtain ⟨t, dt, ht, htd, htv⟩ := exists_double r.testStatistic
  obtain ⟨e, de, he, hed, hev⟩ := exists_double r.effectSize
  obtain ⟨ms, ps, hms, hmsd, hpsv⟩ := exists_parameters r.parameters
  obtain ⟨ss, ds, hss, hssd, hdsv⟩ := exists_list exists_double r.perBarScores
  refine ⟨_, _, utf8_object hp ht he hms hss, .object ?_, ⟨dp, dt, de, ps, ds, hpv, htv, hev, hpsv, hdsv, rfl⟩⟩
  refine List.rel_append (.cons (.of_key (by decide) (spells_literal _)) (.cons (.of_key (by decide) (spells_literal _))
    (.cons (.of_key (by decide) hpd) (.cons (.of_key (by decide) htd) (.cons (.of_key (by decide) hed)
      (.cons (.of_key (by decide) (.bool _)) (.cons (.of_key (by decide) (spells_literal _))
        (.cons (.of_key (by decide) (.object hmsd)) .nil)))))))) ?_
  split_ifs
  · exact .nil
  · exact .cons (.of_key (by decide) (.array hssd)) .nil

/-- What is written of a batch parses to a list of documents, one for each row and with its fields. -/
theorem batch_reads (rs : List HypothesisResult) : ∃ ds, (readUtf8 (toJsonArray rs)).bind Json.parse = some (.array ds) ∧
    List.Forall₂ (fun d r => Holds r d) ds rs := by
  obtain ⟨ts, ds, hts, htsd, hds⟩ := exists_list exists_row rs
  have hbytes : toJsonArray rs = utf8 (Json.array ts) := by
    rw [toJsonArray, ← hts, ← utf8_append, ← utf8_append]
    rfl
  refine ⟨ds, ?_, hds⟩
  rw [hbytes, readUtf8_utf8]
  exact (Spells.array htsd).parse

end HypothesisResult

end StratForge
