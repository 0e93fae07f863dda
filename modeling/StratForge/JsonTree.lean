import StratForge.Literals

/-!
# The trees that `JsonWriter` writes (`engine/detail/backtest_json_writer.hpp`)

A caller of the writer goes through a tree: `begin` and `end` around a list, a key before the value of a member, a value
for a leaf. `write_eq` says what the calls for a tree do in any state of the writer, nested or not: what one call of
`value` with the tree's text would do, so that the flags of the outer lists are as they were. By `parse_write` the text
parses to the tree, with its numbers rounded and without the control characters that `write_string` skips.
-/

namespace StratForge
variable {α : Type}

open Json (Text Str)
open Json.Value (data_array data_object)

def JsonWriter.valueNull : JsonWriter → JsonWriter := value "null".toList

inductive JsonTree (α : Type)
  | null
  | bool (v : Bool)
  | int (v : Int)
  | uint (v : Nat)
  | double (v : α) (precision : Nat)
  | string (v : Text)
  | array (items : List (JsonTree α))
  | object (members : List (String × JsonTree α))

namespace JsonTree

open JsonWriter

mutual

/-- The calls for a tree. -/
def write [Printed α] : JsonTree α → JsonWriter → JsonWriter
  | .null, w => valueNull w
  | .bool v, w => valueBool v w
  | .int v, w => valueInt v w
  | .uint v, w => valueUint v w
  | .double v precision, w => valueDouble v precision w
  | .string v, w => valueString v w
  | .array items, w => endArray (writeItems items (beginArray w))
  | .object members, w => endObject (writeMembers members (beginObject w))

def writeItems [Printed α] : List (JsonTree α) → JsonWriter → JsonWriter
  | [], w => w
  | t :: ts, w => writeItems ts (t.write w)

def writeMembers [Printed α] : List (String × JsonTree α) → JsonWriter → JsonWriter
  | [], w => w
  | m :: ms, w => writeMembers ms (writeMember m w)

def writeMember [Printed α] : String × JsonTree α → JsonWriter → JsonWriter
  | (k, t), w => t.write (key k w)

end

mutual

/-- What a tree stands for once it is written. -/
def data [Printed α] : JsonTree α → Json.Data
  | .null => .null
  | .bool v => .bool v
  | .int v => .number v
  | .uint v => .number v
  | .double v precision =>
    if Printed.isFinite v then .number (Decimal.rounded precision (Printed.double v)) else .null
  | .string v => .string (v.filter keeps)
  | .array items => .array (itemsData items)
  | .object members => .object (membersData members)

def itemsData [Printed α] : List (JsonTree α) → List Json.Data
  | [] => []
  | t :: ts => t.data :: itemsData ts

def membersData [Printed α] : List (String × JsonTree α) → List (Text × Json.Data)
  | [] => []
  | m :: ms => memberData m :: membersData ms

def memberData [Printed α] : String × JsonTree α → Text × Json.Data
  | (k, t) => (k.toList.filter keeps, t.data)

end

variable [Printed α]

/-! ### The calls for a tree write its text -/

/-- A list in brackets is written as a value, whatever flags are there. -/
theorem endWith_eq {open' close : Char} {w w' : JsonWriter} {ts : List Text} (h : Adds (beginWith open' w) w' ts) :
    endWith close w' = value (open' :: Json.joined ts ++ [close]) w := by
  have hw : beginWith open' w = ⟨w.commaIfNeeded.ss ++ [open'], false :: w.commaIfNeeded.needsComma⟩ := rfl
  rw [h false _ (congrArg needsComma hw), hw]
  cases hstack : w.commaIfNeeded.needsComma <;> simp [endWith, value, put, markWritten, setComma, more, hstack]

mutual

/-- In any state the calls for a tree do what writing its text as one value would do. -/
theorem write_eq : ∀ t : JsonTree α, ∃ v : Json.Value, v.data = t.data ∧ ∀ w, t.write w = value v.text w
  | .null => ⟨.null, rfl, fun _ => rfl⟩
  | .bool true => ⟨.bool true, rfl, fun _ => rfl⟩
  | .bool false => ⟨.bool false, rfl, fun _ => rfl⟩
  | .int v => by
    obtain ⟨n, htext, hvalue⟩ := Decimal.exists_number_int v
    exact ⟨.number n, congrArg Json.Data.number hvalue, fun w => by rw [write, valueInt, ← htext]; rfl⟩
  | .uint v => by
    obtain ⟨n, htext, hvalue⟩ := Decimal.exists_number_int v
    exact ⟨.number n, congrArg Json.Data.number hvalue, fun w => by
      rw [write, valueUint, show Decimal.nat v = Decimal.int v from rfl, ← htext]; rfl⟩
  | .double v precision => by
    by_cases hv : Printed.isFinite v = true
    · obtain ⟨n, htext, hvalue⟩ := Decimal.exists_number_fixed precision hv
      refine ⟨.number n, ?_, fun w => ?_⟩
      · rw [data, if_pos hv, ← hvalue]
        rfl
      · rw [write, valueDouble, doubleText, if_pos hv, ← htext]
        rfl
    · refine ⟨.null, ?_, fun w => ?_⟩
      · rw [data, if_neg hv]
        rfl
      · rw [write, valueDouble, doubleText, if_neg hv]
        rfl
  | .string v => by
    obtain ⟨str, hraw, hdec⟩ := standsFor_writeString v
    exact ⟨.string str, congrArg Json.Data.string hdec, fun w => by
      rw [write, valueString, stringText, ← hraw]; rfl⟩
  | .array items => by
    obtain ⟨vs, hdata, hwrite⟩ := writeItems_adds items
    refine ⟨.array {} (vs.map fun v => ⟨{}, v, {}⟩), ?_, fun w => ?_⟩
    · rw [data_array, hdata]
      rfl
    · rw [Json.text_array]
      exact endWith_eq (hwrite (beginArray w))
  | .object members => by
    obtain ⟨ms, hdata, hwrite⟩ := writeMembers_adds members
    refine ⟨.object {} (ms.map fun m => ⟨{}, m.1, {}, ⟨{}, m.2, {}⟩⟩), ?_, fun w => ?_⟩
    · rw [data_object, hdata]
      rfl
    · rw [Json.text_object, Json.object, List.map_map]
      exact endWith_eq (hwrite (beginObject w))

theorem writeItems_adds : ∀ ts : List (JsonTree α), ∃ vs : List Json.Value, vs.map Json.Value.data = itemsData ts ∧
    ∀ w, Adds w (writeItems ts w) (vs.map Json.Value.text)
  | [] => ⟨[], rfl, .refl⟩
  | t :: ts => by
    obtain ⟨v, hv, hwrite⟩ := write_eq t
    obtain ⟨vs, hvs, hrest⟩ := writeItems_adds ts
    refine ⟨v :: vs, by rw [List.map_cons, hv, hvs, itemsData], fun w => ?_⟩
    have hfirst : Adds w (t.write w) [v.text] := by
      rw [hwrite]
      exact adds_value v.text w
    exact hfirst.trans (hrest _)

theorem writeMembers_adds : ∀ ms : List (String × JsonTree α), ∃ vs : List (Str × Json.Value),
    (vs.map fun m => (m.1.decoded, m.2.data)) = membersData ms ∧
    ∀ w, Adds w (writeMembers ms w) (vs.map fun m => Json.member m.1.raw m.2.text)
  | [] => ⟨[], rfl, .refl⟩
  | m :: ms => by
    obtain ⟨v, hv, hfirst⟩ := writeMember_adds m
    obtain ⟨vs, hvs, hrest⟩ := writeMembers_adds ms
    exact ⟨v :: vs, by rw [List.map_cons, hv, hvs, membersData], fun w => (hfirst w).trans (hrest _)⟩

theorem writeMember_adds : ∀ m : String × JsonTree α, ∃ v : Str × Json.Value, (v.1.decoded, v.2.data) = memberData m ∧
    ∀ w, Adds w (writeMember m w) [Json.member v.1.raw v.2.text]
  | (k, t) => by
    obtain ⟨v, hv, hwrite⟩ := write_eq t
    obtain ⟨str, hraw, hdec⟩ := standsFor_writeString k.toList
    refine ⟨(str, v), by rw [hdec, hv, memberData], fun w => ?_⟩
    rw [hraw]
    refine adds_escaped_key k ?_
    rw [writeMember, hwrite]
    exact adds_value v.text _

end

/-- The text of a tree is well formed and parses to the tree, and no flag is left. -/
theorem parse_write (t : JsonTree α) : (∃ v : Json.Value, v.text = (t.write {}).ss ∧ v.data = t.data) ∧
    Json.parse (t.write {}).ss = some t.data ∧ (t.write {}).needsComma = [] := by
  obtain ⟨v, hdata, hwrite⟩ := write_eq t
  have htext : t.write {} = ⟨v.text, []⟩ := hwrite {}
  rw [htext, ← hdata]
  exact ⟨⟨v, rfl, rfl⟩, Json.parse_value v, rfl⟩

/-- An empty array after an object, and what follows them. -/
example : (write (.object [("a", .object [("b", .null)]), ("c", .array []), ("d", .array [.int (-1), .double (1 / 3 : ℚ) 2])]) {}).ss =
    "\x7b\"a\":\x7b\"b\":null\x7d,\"c\":[],\"d\":[-1,0.33]\x7d".toList := by
  decide +kernel

end JsonTree

end StratForge
