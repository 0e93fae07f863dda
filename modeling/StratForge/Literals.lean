import StratForge.Results
import StratForge.JsonParse

/-!
# String literals, byte by byte

Four functions put a string between quotation marks: `json_escape_into` (`observers/increment_wire.hpp`), `write_string`
of `JsonWriter`, `append_escaped` (`stats/result_json.hpp`) and the loop of `make_error_result`. They go through the bytes
of the string and leave those of a character that is not ASCII as they are, so on UTF-8 they do what is said of characters
(`Bytewise.flatMap_utf8`). `literals_decode` tells what a reader makes of each literal: the string itself, but for the
control characters that `write_string` skips.
-/

namespace StratForge

open Json (Text Str)

/-! ### UTF-8 -/

def utf8 (t : Text) : List UInt8 := t.flatMap String.utf8EncodeChar

def readUtf8 (bytes : List UInt8) : Option Text := bytes.toByteArray.utf8Decode?.map Array.toList

theorem readUtf8_utf8 (t : Text) : readUtf8 (utf8 t) = some t := by
  show (t.utf8Encode.utf8Decode?).map _ = _
  rw [List.utf8Decode?_utf8Encode]
  rfl

theorem utf8_append (t u : Text) : utf8 (t ++ u) = utf8 t ++ utf8 u := List.flatMap_append

/-- The byte of an ASCII character. -/
theorem utf8EncodeChar_ascii {c : Char} (h : c.toNat < 128) : String.utf8EncodeChar c = [UInt8.ofNat c.toNat] :=
  if_pos (Nat.le_of_lt_succ h)

/-- The bytes of any other one are none of them. -/
theorem le_of_mem_utf8EncodeChar {c : Char} (h : 128 ≤ c.toNat) {b : UInt8} (hb : b ∈ String.utf8EncodeChar c) :
    128 ≤ b.toNat := by
  have hv : ¬ c.val.toNat ≤ 0x7f := by
    have : c.toNat = c.val.toNat := rfl
    omega
  unfold String.utf8EncodeChar at hb
  dsimp only at hb
  rw [if_neg hv] at hb
  split_ifs at hb <;> simp only [List.mem_cons, List.not_mem_nil, or_false] at hb <;>
    rcases hb with rfl | rfl | rfl | rfl <;> simp only [UInt8.toNat_ofNat'] <;> omega

/-- `g` does on the bytes of a string what `f` does on its characters. -/
structure Bytewise (f : Char → Text) (g : UInt8 → List UInt8) : Prop where
  ascii : ∀ n : Fin 128, utf8 (f (Char.ofNat n)) = g (UInt8.ofNat n)
  other : ∀ c : Char, 128 ≤ c.toNat → f c = [c]
  byte : ∀ n : Fin 256, 128 ≤ n.val → g (UInt8.ofNat n) = [UInt8.ofNat n]

theorem Bytewise.flatMap_utf8 {f : Char → Text} {g : UInt8 → List UInt8} (h : Bytewise f g) (s : Text) :
    (utf8 s).flatMap g = utf8 (s.flatMap f) := by
  induction s with
  | nil => rfl
  | cons c s ih =>
    have hc : (String.utf8EncodeChar c).flatMap g = utf8 (f c) := by
      by_cases hascii : c.toNat < 128
      · have hn := h.ascii ⟨c.toNat, hascii⟩
        rw [Char.ofNat_toNat] at hn
        rw [utf8EncodeChar_ascii hascii, hn]
        simp
      · rw [h.other c (not_lt.1 hascii)]
        have hsame : (String.utf8EncodeChar c).flatMap g = (String.utf8EncodeChar c).flatMap fun b => [b] :=
          List.flatMap_congr fun b hb => by
            have hbyte := h.byte ⟨b.toNat, b.toNat_lt⟩ (le_of_mem_utf8EncodeChar (not_lt.1 hascii) hb)
            rwa [UInt8.ofNat_toNat] at hbyte
        rw [hsame]
        simp [utf8]
    rw [List.flatMap_cons, utf8_append, ← ih, ← hc]
    exact List.flatMap_append

/-! ### The four writers -/

/-- What `snprintf` writes of a byte with `\u%04x`. -/
def hexEscape (ch : UInt8) : List UInt8 := utf8 ('\\' :: 'u' :: Decimal.pad 4 (Nat.toDigits 16 ch.toNat))

/-- One byte of `json_escape_into`. -/
def jsonEscapeByte (ch : UInt8) : List UInt8 :=
  if ch = '"'.toUInt8 then utf8 ['\\', '"']
  else if ch = '\\'.toUInt8 then utf8 ['\\', '\\']
  else if ch = '\n'.toUInt8 then utf8 ['\\', 'n']
  else if ch = '\r'.toUInt8 then utf8 ['\\', 'r']
  else if ch = '\t'.toUInt8 then utf8 ['\\', 't']
  else if ch < 0x20 then hexEscape ch
  else [ch]

/-- One byte of `write_string`. -/
def JsonWriter.writeByte (c : UInt8) : List UInt8 :=
  if c = '"'.toUInt8 then utf8 ['\\', '"']
  else if c = '\\'.toUInt8 then utf8 ['\\', '\\']
  else if c = '\n'.toUInt8 then utf8 ['\\', 'n']
  else if c = '\r'.toUInt8 then utf8 ['\\', 'r']
  else if c = '\t'.toUInt8 then utf8 ['\\', 't']
  else if c < 0x20 then []
  else [c]

/-- One byte of `append_escaped`. -/
def appendByte (c : UInt8) : List UInt8 :=
  if c = '"'.toUInt8 then utf8 ['\\', '"']
  else if c = '\\'.toUInt8 then utf8 ['\\', '\\']
  else if c = 0x08 then utf8 ['\\', 'b']
  else if c = 0x0C then utf8 ['\\', 'f']
  else if c = '\n'.toUInt8 then utf8 ['\\', 'n']
  else if c = '\r'.toUInt8 then utf8 ['\\', 'r']
  else if c = '\t'.toUInt8 then utf8 ['\\', 't']
  else if c < 0x20 then hexEscape c
  else [c]

/-- One byte of `make_error_result`. -/
def errorByte (ch : UInt8) : List UInt8 :=
  if ch = '"'.toUInt8 then utf8 ['\\', '"']
  else if ch = '\\'.toUInt8 then utf8 ['\\', '\\']
  else if ch = '\n'.toUInt8 then utf8 ['\\', 'n']
  else [ch]

/-- `json_escape_into`, between the quotation marks that its callers write. -/
def escapedLiteral (s : List UInt8) : List UInt8 := '"'.toUInt8 :: (s.flatMap jsonEscapeByte ++ ['"'.toUInt8])

/-- `write_string`. -/
def JsonWriter.writeString (s : List UInt8) : List UInt8 := '"'.toUInt8 :: (s.flatMap writeByte ++ ['"'.toUInt8])

/-- `append_escaped`. -/
def appendEscaped (s : List UInt8) : List UInt8 := '"'.toUInt8 :: (s.flatMap appendByte ++ ['"'.toUInt8])

/-- `make_error_result`. -/
def makeErrorBytes (msg : List UInt8) : List UInt8 :=
  utf8 (Wire.lit "\x7b\"success\":false,\"errorMessage\":\"") ++ msg.flatMap errorByte ++ utf8 (Wire.lit "\"\x7d")

/-- One character of `append_escaped`. -/
def appendEscape (c : Char) : Text :=
  if c = Char.ofNat 8 then ['\\', 'b'] else if c = Char.ofNat 12 then ['\\', 'f'] else jsonEscape c

theorem ne_of_le_toNat {c d : Char} (hc : 128 ≤ c.toNat) (hd : d.toNat < 128) : c ≠ d := by
  rintro rfl
  omega

theorem bytewise_jsonEscape : Bytewise jsonEscape jsonEscapeByte where
  ascii := by decide +kernel
  byte := by decide +kernel
  other c hc := by
    rw [jsonEscape, if_neg (ne_of_le_toNat hc (by decide)), if_neg (ne_of_le_toNat hc (by decide)),
      if_neg (ne_of_le_toNat hc (by decide)), if_neg (ne_of_le_toNat hc (by decide)), if_neg (ne_of_le_toNat hc (by decide)),
      if_neg (by omega)]

theorem bytewise_escape : Bytewise JsonWriter.escape JsonWriter.writeByte where
  ascii := by decide +kernel
  byte := by decide +kernel
  other c hc := by
    rw [JsonWriter.escape, if_neg (ne_of_le_toNat hc (by decide)), if_neg (ne_of_le_toNat hc (by decide)),
      if_neg (ne_of_le_toNat hc (by decide)), if_neg (ne_of_le_toNat hc (by decide)), if_neg (ne_of_le_toNat hc (by decide)),
      if_neg (by omega)]

theorem bytewise_appendEscape : Bytewise appendEscape appendByte where
  ascii := by decide +kernel
  byte := by decide +kernel
  other c hc := by
    rw [appendEscape, if_neg (ne_of_le_toNat hc (by decide)), if_neg (ne_of_le_toNat hc (by decide))]
    exact bytewise_jsonEscape.other c hc

theorem bytewise_errorEscape : Bytewise errorEscape errorByte where
  ascii := by decide +kernel
  byte := by decide +kernel
  other c hc := by
    rw [errorEscape, if_neg (ne_of_le_toNat hc (by decide)), if_neg (ne_of_le_toNat hc (by decide)),
      if_neg (ne_of_le_toNat hc (by decide))]

/-! ### What the literals stand for -/

/-- What a reader makes of the bytes of a literal. -/
def decodeBytes (bytes : List UInt8) : Option Text := (readUtf8 bytes).bind Json.decodeLiteral

/-- An escape that stands for some characters. -/
def StandsFor (raw d : Text) : Prop := ∃ str : Str, str.raw = raw ∧ str.decoded = d

theorem StandsFor.flatMap {f d : Char → Text} {s : Text} (h : ∀ c ∈ s, StandsFor (f c) (d c)) :
    StandsFor (s.flatMap f) (s.flatMap d) := by
  induction s with
  | nil => exact ⟨[], rfl, rfl⟩
  | cons c s ih =>
    obtain ⟨hc, hs⟩ := List.forall_mem_cons.1 h
    obtain ⟨str, hraw, hdec⟩ := hc
    obtain ⟨str', hraw', hdec'⟩ := ih hs
    refine ⟨str ++ str', ?_, ?_⟩
    · rw [List.flatMap_cons, ← hraw, ← hraw']
      exact List.flatMap_append
    · rw [List.flatMap_cons, ← hdec, ← hdec']
      exact List.map_append

theorem StandsFor.escaped {f : Char → Text} {s : Text} (h : ∀ c ∈ s, StandsFor (f c) [c]) : StandsFor (s.flatMap f) s := by
  have hall := StandsFor.flatMap h
  rwa [List.flatMap_singleton'] at hall

/-- A literal whose characters are escaped one by one. -/
theorem StandsFor.decodeBytes {f : Char → Text} {g : UInt8 → List UInt8} (hg : Bytewise f g) {s d : Text}
    (h : StandsFor (s.flatMap f) d) : decodeBytes ('"'.toUInt8 :: ((utf8 s).flatMap g ++ ['"'.toUInt8])) = some d := by
  obtain ⟨str, hraw, hdec⟩ := h
  have hbytes : '"'.toUInt8 :: ((utf8 s).flatMap g ++ ['"'.toUInt8]) = utf8 str.text := by
    rw [hg.flatMap_utf8, ← hraw, Str.text, utf8_append]
    rfl
  rw [StratForge.decodeBytes, hbytes, readUtf8_utf8]
  exact Json.decodeLiteral_eq_some.2 ⟨str, rfl, hdec⟩

theorem standsFor_escape (e : Json.Escape) : StandsFor ['\\', e.letter] [e.char] := ⟨[.escape e], rfl, rfl⟩

theorem standsFor_plain {c : Char} (hq : c ≠ '"') (hb : c ≠ '\\') (hctl : ¬ c.toNat < 32) : StandsFor [c] [c] :=
  ⟨[.plain c ⟨hq, hb, not_lt.1 hctl⟩], rfl, rfl⟩

theorem standsFor_control (n : Fin 32) :
    StandsFor ('\\' :: 'u' :: Decimal.pad 4 (Nat.toDigits 16 n)) [Char.ofNat n] := by
  have hlen : (Decimal.pad 4 (Nat.toDigits 16 n)).length = 4 := by revert n; decide
  have hhex : (Decimal.pad 4 (Nat.toDigits 16 n)).all Json.isHex = true := by revert n; decide
  have hval : (⟨_, hlen, hhex⟩ : Json.Hex4).value = n := by revert n; decide
  have hplain : (⟨_, hlen, hhex⟩ : Json.Hex4).value < 0xD800 := by rw [hval]; omega
  refine ⟨[.unicode ⟨_, hlen, hhex⟩ (.inl hplain)], List.append_nil _, ?_⟩
  show [Char.ofNat (Json.Hex4.value _)] = _
  rw [hval]

theorem standsFor_jsonEscape (c : Char) : StandsFor (jsonEscape c) [c] := by
  unfold jsonEscape
  split_ifs with hq hb hn hr ht hctl
  · subst hq
    exact standsFor_escape .quotationMark
  · subst hb
    exact standsFor_escape .reverseSolidus
  · subst hn
    exact standsFor_escape .lineFeed
  · subst hr
    exact standsFor_escape .carriageReturn
  · subst ht
    exact standsFor_escape .tab
  · have h := standsFor_control ⟨c.toNat, hctl⟩
    rwa [Char.ofNat_toNat] at h
  · exact standsFor_plain hq hb hctl

theorem standsFor_appendEscape (c : Char) : StandsFor (appendEscape c) [c] := by
  unfold appendEscape
  split_ifs with hb hf
  · subst hb
    exact standsFor_escape .backspace
  · subst hf
    exact standsFor_escape .formFeed
  · exact standsFor_jsonEscape c

/-- What `write_string` keeps. -/
def JsonWriter.keeps (c : Char) : Bool := 32 ≤ c.toNat || c = '\n' || c = '\r' || c = '\t'

theorem standsFor_writeChar (c : Char) : StandsFor (JsonWriter.escape c) (if JsonWriter.keeps c then [c] else []) := by
  by_cases hskip : c.toNat < 32 ∧ c ≠ '\n' ∧ c ≠ '\r' ∧ c ≠ '\t'
  · obtain ⟨hctl, hn, hr, ht⟩ := hskip
    have hq : c ≠ '"' := by rintro rfl; revert hctl; decide
    have hb : c ≠ '\\' := by rintro rfl; revert hctl; decide
    have hkeep : JsonWriter.keeps c = false := by simp [JsonWriter.keeps, hctl, hn, hr, ht]
    rw [hkeep, JsonWriter.escape, if_neg hq, if_neg hb, if_neg hn, if_neg hr, if_neg ht, if_pos hctl]
    exact ⟨[], rfl, rfl⟩
  · have hkeep : JsonWriter.keeps c = true := by
      simp only [JsonWriter.keeps, Bool.or_eq_true, decide_eq_true_eq]
      by_contra hno
      push Not at hno
      exact hskip ⟨hno.1.1.1, hno.1.1.2, hno.1.2, hno.2⟩
    -- nothing is dropped, and `json_escape_into` does the same
    have hsame : JsonWriter.escape c = jsonEscape c := by
      unfold JsonWriter.escape jsonEscape
      split_ifs with hq hb hn hr ht hctl
      · rfl
      · rfl
      · rfl
      · rfl
      · rfl
      · exact absurd ⟨hctl, hn, hr, ht⟩ hskip
      · rfl
    rw [hkeep, hsame]
    exact standsFor_jsonEscape c

theorem standsFor_errorEscape {c : Char} (h : 32 ≤ c.toNat ∨ c = '\n') : StandsFor (errorEscape c) [c] := by
  unfold errorEscape
  split_ifs with hq hb hn
  · subst hq
    exact standsFor_escape .quotationMark
  · subst hb
    exact standsFor_escape .reverseSolidus
  · subst hn
    exact standsFor_escape .lineFeed
  · exact standsFor_plain hq hb (not_lt.2 (h.resolve_right hn))

theorem standsFor_writeString (s : Text) : StandsFor (s.flatMap JsonWriter.escape) (s.filter JsonWriter.keeps) := by
  have hfilter : s.flatMap (fun c => if JsonWriter.keeps c then [c] else []) = s.filter JsonWriter.keeps := by
    induction s with
    | nil => rfl
    | cons c s ih => cases hkeep : JsonWriter.keeps c <;> simp [hkeep, ih]
  rw [← hfilter]
  exact .flatMap fun c _ => standsFor_writeChar c

theorem decodeBytes_escapedLiteral (s : Text) : decodeBytes (escapedLiteral (utf8 s)) = some s :=
  StandsFor.decodeBytes bytewise_jsonEscape (.escaped fun c _ => standsFor_jsonEscape c)

theorem decodeBytes_appendEscaped (s : Text) : decodeBytes (appendEscaped (utf8 s)) = some s :=
  StandsFor.decodeBytes bytewise_appendEscape (.escaped fun c _ => standsFor_appendEscape c)

theorem decodeBytes_writeString (s : Text) :
    decodeBytes (JsonWriter.writeString (utf8 s)) = some (s.filter JsonWriter.keeps) :=
  StandsFor.decodeBytes bytewise_escape (standsFor_writeString s)

/-- The document of an error, as long as the line feeds are the only control characters of the message. -/
theorem parse_makeErrorBytes {msg : Text} (h : PlainMessage msg) : (readUtf8 (makeErrorBytes (utf8 msg))).bind Json.parse =
    some (.object [(Wire.lit "success", .bool false), (Wire.lit "errorMessage", .string msg)]) := by
  obtain ⟨str, hraw, hdec⟩ := StandsFor.escaped fun c hc => standsFor_errorEscape (h c hc)
  let doc : Json.Value := .object {} [⟨{}, Str.ofText (Wire.lit "success"), {}, ⟨{}, .bool false, {}⟩⟩,
    ⟨{}, Str.ofText (Wire.lit "errorMessage"), {}, ⟨{}, .string str, {}⟩⟩]
  have htext : makeErrorBytes (utf8 msg) = utf8 doc.text := by
    rw [makeErrorBytes, bytewise_errorEscape.flatMap_utf8, ← hraw, ← utf8_append, ← utf8_append]
    have hsuccess : (Str.ofText (Wire.lit "success")).raw = Wire.lit "success" := by decide
    have hmessage : (Str.ofText (Wire.lit "errorMessage")).raw = Wire.lit "errorMessage" := by decide
    simp only [doc, Json.Value.text, Json.membersText, Json.memberText, Json.elementText, Str.text, hsuccess, hmessage]
    simp [Wire.lit]
  rw [htext, readUtf8_utf8, Option.bind_some, Json.parse_value]
  show some (Json.Data.object [(_, .bool false), (_, .string str.decoded)]) = _
  rw [hdec]
  rfl

/-- What the four writers write is read as the string; `write_string` has left out control characters then. -/
theorem literals_decode (s : Text) :
    decodeBytes (escapedLiteral (utf8 s)) = some s ∧ decodeBytes (appendEscaped (utf8 s)) = some s ∧
    decodeBytes (JsonWriter.writeString (utf8 s)) = some (s.filter JsonWriter.keeps) ∧
    (PlainMessage s → s.filter JsonWriter.keeps = s ∧ (readUtf8 (makeErrorBytes (utf8 s))).bind Json.parse =
      some (.object [(Wire.lit "success", .bool false), (Wire.lit "errorMessage", .string s)])) := by
  refine ⟨decodeBytes_escapedLiteral s, decodeBytes_appendEscaped s, decodeBytes_writeString s, fun h => ⟨?_, parse_makeErrorBytes h⟩⟩
  rw [List.filter_eq_self]
  intro c hc
  rcases h c hc with hplain | rfl
  · simp [JsonWriter.keeps, hplain]
  · rfl

/-- `write_string` leaves a control character out. -/
theorem not_literals_decode : ¬ ∀ s : Text,
    decodeBytes (escapedLiteral (utf8 s)) = some s ∧ decodeBytes (appendEscaped (utf8 s)) = some s ∧
    decodeBytes (JsonWriter.writeString (utf8 s)) = some s ∧
    (readUtf8 (makeErrorBytes (utf8 s))).bind Json.parse =
      some (.object [(Wire.lit "success", .bool false), (Wire.lit "errorMessage", .string s)]) := by
  intro h
  obtain ⟨-, -, hskipped, -⟩ := h [Char.ofNat 1]
  rw [decodeBytes_writeString, Option.some.injEq] at hskipped
  revert hskipped
  decide

theorem literals_decode_message : decodeBytes (escapedLiteral (utf8 ['a', '"', '\n'])) = some ['a', '"', '\n'] ∧
    decodeBytes (appendEscaped (utf8 ['a', '"', '\n'])) = some ['a', '"', '\n'] ∧
    decodeBytes (JsonWriter.writeString (utf8 ['a', '"', '\n'])) = some ['a', '"', '\n'] ∧
    (readUtf8 (makeErrorBytes (utf8 ['a', '"', '\n']))).bind Json.parse =
      some (.object [(Wire.lit "success", .bool false), (Wire.lit "errorMessage", .string ['a', '"', '\n'])]) := by
  have hplain : PlainMessage ['a', '"', '\n'] := by
    intro c hc
    simp only [List.mem_cons, List.not_mem_nil, or_false] at hc
    rcases hc with rfl | rfl | rfl
    · exact .inl (by decide)
    · exact .inl (by decide)
    · exact .inr rfl
  obtain ⟨h₁, h₂, h₃, h₄⟩ := literals_decode ['a', '"', '\n']
  exact ⟨h₁, h₂, h₃, (h₄ hplain).2⟩

end StratForge
