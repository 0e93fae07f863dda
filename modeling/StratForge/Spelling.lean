import StratForge.JsonParse
import StratForge.SeventeenDigits

/-!
# Texts that spell data

`Spells t d`: some document has the text `t` and stands for `d`. The ways a writer puts texts together spell what is
put together the same way, and a text that spells data parses to it (`Spells.parse`). `Holds d x` is what a reader finds
of a number `x`: digits that are nearest to it, or `null` where it is not finite.
-/

namespace Json

def Spells (t : Text) (d : Data) : Prop := ∃ v : Value, v.text = t ∧ v.data = d

/-- The key of a member and its value. -/
structure MemberSpells (m : Text × Text) (d : Text × Data) : Prop where
  key : ∃ s : Str, s.raw = m.1 ∧ s.decoded = d.1
  value : Spells m.2 d.2

/-- A key that needs no escape. -/
theorem IsKey.spells {key : Text} (h : IsKey key) : ∃ s : Str, s.raw = key ∧ s.decoded = key := by
  induction key with
  | nil => exact ⟨[], rfl, rfl⟩
  | cons c key ih =>
    obtain ⟨hc, hkey⟩ := List.forall_mem_cons.1 h
    obtain ⟨s, hraw, hdec⟩ := ih hkey
    refine ⟨.plain c hc :: s, ?_, ?_⟩
    · exact congrArg (c :: ·) hraw
    · exact congrArg (c :: ·) hdec

theorem MemberSpells.of_key {key t : Text} {d : Data} (hkey : IsKey key) (h : Spells t d) :
    MemberSpells (key, t) (key, d) := ⟨hkey.spells, h⟩

namespace Spells
variable {t : Text} {d : Data}

theorem parse (h : Spells t d) : Json.parse t = some d := by
  obtain ⟨v, rfl, rfl⟩ := h
  exact parse_value v

theorem null : Spells ['n', 'u', 'l', 'l'] .null := ⟨.null, rfl, rfl⟩

theorem bool (b : Bool) : Spells (if b then ['t', 'r', 'u', 'e'] else ['f', 'a', 'l', 's', 'e']) (.bool b) :=
  ⟨.bool b, by cases b <;> rfl, rfl⟩

theorem number {n : Number} {q : ℚ} (ht : n.text = t) (hq : n.value = q) : Spells t (.number q) :=
  ⟨.number n, ht, congrArg Data.number hq⟩

theorem int (i : Int) : Spells (Decimal.int i) (.number i) := by
  obtain ⟨n, htext, hvalue⟩ := Decimal.exists_number_int i
  exact number htext hvalue

theorem nat (n : Nat) : Spells (Decimal.nat n) (.number n) := by
  have h := int n
  rwa [Int.cast_natCast] at h

theorem general {precision : Nat} (hp : 0 < precision) {x : Decimal.Double} (hx : x.isFinite = true) :
    Spells (Decimal.general precision x) (.number (Decimal.written precision x)) := by
  obtain ⟨n, htext, hvalue⟩ := Decimal.exists_number_general hp hx
  exact number htext hvalue

theorem string {raw s : Text} (h : ∃ str : Str, str.raw = raw ∧ str.decoded = s) : Spells (quoted raw) (.string s) := by
  obtain ⟨str, rfl, rfl⟩ := h
  exact ⟨.string str, rfl, rfl⟩

theorem array {ts : List Text} {ds : List Data} (h : List.Forall₂ Spells ts ds) : Spells (array ts) (.array ds) := by
  have hvalues : ∃ vs : List Value, vs.map Value.text = ts ∧ vs.map Value.data = ds := by
    induction h with
    | nil => exact ⟨[], rfl, rfl⟩
    | cons hhead _ ih =>
      obtain ⟨v, rfl, rfl⟩ := hhead
      obtain ⟨vs, rfl, rfl⟩ := ih
      exact ⟨v :: vs, rfl, rfl⟩
  obtain ⟨vs, rfl, rfl⟩ := hvalues
  exact ⟨_, text_array vs, Value.data_array vs⟩

theorem object {ms : List (Text × Text)} {ds : List (Text × Data)} (h : List.Forall₂ MemberSpells ms ds) :
    Spells (object ms) (.object ds) := by
  have hmembers : ∃ vs : List (Str × Value), (vs.map fun m => (m.1.raw, m.2.text)) = ms ∧
      (vs.map fun m => (m.1.decoded, m.2.data)) = ds := by
    induction h with
    | nil => exact ⟨[], rfl, rfl⟩
    | @cons m d _ _ hhead _ ih =>
      obtain ⟨⟨s, hraw, hdec⟩, v, htext, hdata⟩ := hhead
      obtain ⟨vs, rfl, rfl⟩ := ih
      refine ⟨(s, v) :: vs, ?_, ?_⟩
      · rw [List.map_cons, hraw, htext]
      · rw [List.map_cons, hdec, hdata]
  obtain ⟨vs, rfl, rfl⟩ := hmembers
  exact ⟨_, text_object vs, Value.data_object vs⟩

/-- A list of texts that one function writes and another tells the meaning of. -/
theorem list {A : Type*} {xs : List A} {f : A → Text} {g : A → Data} (h : ∀ x ∈ xs, Spells (f x) (g x)) :
    Spells (Json.array (xs.map f)) (.array (xs.map g)) := by
  refine array ?_
  rw [List.forall₂_map_left_iff, List.forall₂_map_right_iff, List.forall₂_same]
  exact h

end Spells

end Json

/-! ### Numbers of the machine -/

/-- A `double`. -/
inductive Float64
  | finite (x : Binary64)
  | infinite (negative : Bool)
  | nan (negative : Bool)

namespace Float64

def double : Float64 → Decimal.Double
  | finite x => x.double
  | infinite negative => .infinite negative
  | nan negative => .nan negative

def isFinite : Float64 → Bool
  | finite _ => true
  | _ => false

/-- What a reader finds of a number. -/
def Holds (d : Json.Data) : Float64 → Prop
  | finite x => ∃ q, d = .number q ∧ x.NearestTo q
  | _ => d = .null

end Float64
