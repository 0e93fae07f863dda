import StratForge.Optimizer
import StratForge.Tuples

/-!
# What the parameter grid holds (`engine/optimizer.hpp`)

`generate_param_grid` extends a grid range by range. Before the next range the maps of the grid belong, one by one, to
the tuples of positions into the ranges that it has had (`Binds.extend`).
-/

namespace StratForge

open Tuples

variable {α : Type}

namespace ParamMap
variable {m : ParamMap α} {name : String} {value : ParamValue α}

/-- `m.at(name)`, if `m` has the name. -/
def at? (m : ParamMap α) (name : String) : Option (ParamValue α) := (m.find? (·.1 == name)).map (·.2)

theorem assign_new (h : name ∉ m.map (·.1)) : m.assign name value = m ++ [(name, value)] := by
  have hany : m.any (·.1 == name) = false := by
    rw [List.any_eq_false]
    intro e he hname
    exact h (List.mem_map.mpr ⟨e, he, by simpa using hname⟩)
  simp [assign, hany]

theorem at?_append_of_some {more : ParamMap α} (h : m.at? name = some value) : at? (m ++ more) name = some value := by
  simp only [at?, Option.map_eq_some_iff] at h ⊢
  obtain ⟨e, he, rfl⟩ := h
  exact ⟨e, by simp [he], rfl⟩

theorem at?_append_new (h : name ∉ m.map (·.1)) : at? (m ++ [(name, value)]) name = some value := by
  have hnone : m.find? (·.1 == name) = none := by
    rw [List.find?_eq_none]
    intro e he hname
    exact h (List.mem_map.mpr ⟨e, he, by simpa using hname⟩)
  simp [at?, hnone]

end ParamMap

/-- The map has exactly the names of the ranges, each bound to the value of its range at the position of the tuple. -/
structure Binds (ranges : List (ParamRange α)) (positions : List Nat) (m : ParamMap α) : Prop where
  names : m.map (·.1) = ranges.map (·.name)
  values : List.Forall₂ (fun r i => ∃ v, r.values[i]? = some v ∧ m.at? r.name = some v) ranges positions

theorem Binds.extend {done : List (ParamRange α)} {t : List Nat} {m : ParamMap α} (h : Binds done t m) {r : ParamRange α}
    (hnew : r.name ∉ done.map (·.name)) {i : Nat} {v : ParamValue α} (hv : r.values[i]? = some v) :
    Binds (done ++ [r]) (t ++ [i]) (m.assign r.name v) := by
  have hname : r.name ∉ m.map (·.1) := h.names ▸ hnew
  rw [ParamMap.assign_new hname]
  refine ⟨by simp [h.names], List.rel_append (h.values.imp ?_) (.cons ⟨v, hv, ParamMap.at?_append_new hname⟩ .nil)⟩
  rintro r i ⟨v, hv, hat⟩
  exact ⟨v, hv, ParamMap.at?_append_of_some hat⟩

/-- The values of a range belong to its positions. -/
theorem positions_values (values : List (ParamValue α)) :
    List.Forall₂ (fun i v => values[i]? = some v) (List.range values.length) values := by
  refine List.forall₂_of_length_eq_of_get (by simp) fun i hi hv => ?_
  simp only [List.get_eq_getElem, List.getElem_range]
  exact List.getElem?_eq_getElem hv

/-- The loop body over the remaining ranges. -/
def extendGrid (grid : List (ParamMap α)) (r : ParamRange α) : List (ParamMap α) :=
  grid.flatMap fun existing => r.values.map fun val => existing.assign r.name val

/-- The first range extends the grid of the one map without names. -/
theorem generateParamGrid_eq {ranges : List (ParamRange α)} (h : ranges ≠ []) :
    generateParamGrid ranges = ranges.foldl extendGrid [[]] := by
  cases ranges with
  | nil => exact absurd rfl h
  | cons r rest =>
    have hfirst : extendGrid [[]] r = r.values.map fun val => ParamMap.assign [] r.name val := by simp [extendGrid]
    rw [List.foldl_cons, hfirst]
    rfl

/-- By induction on the ranges that the grid has had: every map grows by every value of the next range. -/
theorem foldl_binds (ranges : List (ParamRange α)) (h : (ranges.map (·.name)).Nodup) :
    List.Forall₂ (Binds ranges) (tuples (ranges.map (·.values.length))) (ranges.foldl extendGrid [[]]) := by
  induction ranges using List.reverseRecOn with
  | nil => exact .cons ⟨rfl, .nil⟩ .nil
  | append_singleton done r ih =>
    rw [List.map_append, List.nodup_append] at h
    have hnew : r.name ∉ done.map (·.name) := fun hmem => h.2.2 _ hmem _ (by simp) rfl
    rw [List.map_append, List.map_singleton, tuples_concat, List.foldl_append]
    refine List.rel_flatMap (ih h.1) fun t m ht => ?_
    exact List.rel_map (fun i v hv => ht.extend hnew hv) (positions_values r.values)

/-- The grid of a list of ranges is the product of their value lists, by position in lexicographic order. -/
theorem grid_product (ranges : List (ParamRange α)) (hne : ranges ≠ []) (hnames : (ranges.map (·.name)).Nodup) :
    List.Forall₂ (Binds ranges) (tuples (ranges.map (·.values.length))) (generateParamGrid ranges) ∧
      (generateParamGrid ranges).length = (ranges.map (·.values.length)).prod ∧
      (∀ t, t ∈ tuples (ranges.map (·.values.length)) ↔ List.Forall₂ (fun i r => i < r.values.length) t ranges) ∧
      (tuples (ranges.map (·.values.length))).Pairwise (List.Lex (· < ·)) := by
  have hgrid := foldl_binds ranges hnames
  rw [← generateParamGrid_eq hne] at hgrid
  refine ⟨hgrid, ?_, fun t => ?_, pairwise_tuples _⟩
  · rw [← hgrid.length_eq, length_tuples]
  · rw [mem_tuples, List.forall₂_map_right_iff]

theorem grid_product_two : (generateParamGrid (α := Int) [⟨"period", [.int 2, .int 3]⟩, ⟨"fast", [.bool true]⟩]).length = 2 :=
  (grid_product _ (by simp) (by simp)).2.1

end StratForge
