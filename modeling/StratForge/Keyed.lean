import Mathlib.Data.List.Nodup
import Mathlib.Data.List.Pairwise
import Mathlib.Order.Basic
import Mathlib.Data.List.Basic

/-!
# Lists with keys

A list whose elements carry distinct keys is a finite map that also remembers an order. `update`
rewrites the element of a key wherever it stands; on distinct keys it is what the usual loops do that
stop at the first element with the key, or write through a position (`modify_findIdx`, `modify_eq`).
-/

namespace Keyed
universe u v
variable {τ : Type u} {κ : Type v} {key : τ → κ} {k : κ} {f : τ → τ} {l : List τ} {x y : τ}

theorem eq_of_key (hnd : (l.map key).Nodup) (hx : x ∈ l) (hy : y ∈ l) (h : key x = key y) : x = y :=
  List.inj_on_of_nodup_map hnd hx hy h

variable [DecidableEq κ]

/-- Rewrite every element that has the key. -/
def update (key : τ → κ) (k : κ) (f : τ → τ) (l : List τ) : List τ :=
  l.map fun x => if key x = k then f x else x

@[simp] theorem update_nil : update key k f [] = [] := rfl

@[simp] theorem update_cons : update key k f (x :: l) = (if key x = k then f x else x) :: update key k f l := rfl

@[simp] theorem update_append {l' : List τ} :
    update key k f (l ++ l') = update key k f l ++ update key k f l' := List.map_append ..

@[simp] theorem length_update : (update key k f l).length = l.length := List.length_map ..

theorem mem_update : y ∈ update key k f l ↔ ∃ x ∈ l, (if key x = k then f x else x) = y := List.mem_map

theorem getElem?_update {i : Nat} (h : l[i]? = some x) :
    (update key k f l)[i]? = some (if key x = k then f x else x) := by
  rw [update, List.getElem?_map, h]; rfl

theorem mem_update_of_ne (h : x ∈ l) (hk : key x ≠ k) : x ∈ update key k f l :=
  mem_update.2 ⟨x, h, if_neg hk⟩

/-- The elements after a rewriting that fixes the key: the new one, or an old one of another key. -/
theorem mem_update_cases (h : y ∈ update key k f l) :
    (∃ x ∈ l, key x = k ∧ y = f x) ∨ (y ∈ l ∧ key y ≠ k) := by
  obtain ⟨x, hx, rfl⟩ := mem_update.1 h
  by_cases hk : key x = k
  · exact .inl ⟨x, hx, hk, if_pos hk⟩
  · rw [if_neg hk]; exact .inr ⟨hx, hk⟩

theorem update_of_forall_ne (h : ∀ x ∈ l, key x ≠ k) : update key k f l = l := by
  unfold update
  conv_rhs => rw [← List.map_id l]
  exact List.map_congr_left fun x hx => if_neg (h x hx)

theorem map_key_update (hf : ∀ x ∈ l, key x = k → key (f x) = k) :
    (update key k f l).map key = l.map key := by
  unfold update
  rw [List.map_map]
  refine List.map_congr_left fun x hx => ?_
  by_cases hk : key x = k
  · simp [hk, hf x hx hk]
  · simp [hk]

theorem update_congr {g : τ → τ} (h : ∀ x ∈ l, key x = k → f x = g x) : update key k f l = update key k g l := by
  refine List.map_congr_left fun x hx => ?_
  by_cases hk : key x = k
  · simp [hk, h x hx hk]
  · simp [hk]

/-- Writing through a position. -/
theorem modify_eq (hnd : (l.map key).Nodup) {i : Nat} (hi : l[i]? = some x) :
    l.modify i f = update key (key x) f l := by
  induction l generalizing i with
  | nil => simp at hi
  | cons a l ih =>
    rw [List.map_cons, List.nodup_cons] at hnd
    cases i with
    | zero =>
      obtain rfl : a = x := by simpa using hi
      have hne : ∀ y ∈ l, key y ≠ key a := fun y hy h => hnd.1 (h ▸ List.mem_map_of_mem hy)
      simp [update_of_forall_ne hne]
    | succ i =>
      have hx : l[i]? = some x := by simpa using hi
      have hne : key a ≠ key x := fun h => hnd.1 (h ▸ List.mem_map_of_mem (List.mem_of_getElem? hx))
      simp [ih hnd.2 hx, hne]

/-- Stopping at the first element that has the key. -/
theorem modify_findIdx (hnd : (l.map key).Nodup) :
    l.modify (l.findIdx (key · == k)) f = update key k f l := by
  by_cases h : ∃ x ∈ l, key x = k
  · obtain ⟨x, hx, rfl⟩ := h
    have hlt : l.findIdx (key · == key x) < l.length := List.findIdx_lt_length_of_exists ⟨x, hx, by simp⟩
    have hget := List.getElem?_eq_getElem hlt
    have hkey : key l[l.findIdx (key · == key x)] = key x := by
      simpa using @List.findIdx_getElem _ (key · == key x) l hlt
    rw [modify_eq hnd hget, hkey]
  · have hne : ∀ x ∈ l, key x ≠ k := fun x hx hk => h ⟨x, hx, hk⟩
    have hlen : l.findIdx (key · == k) = l.length :=
      List.findIdx_eq_length.2 fun x hx => by simpa using hne x hx
    rw [update_of_forall_ne hne, hlen, List.modify_eq_self (Nat.le_refl _)]

theorem find?_eq_some_iff (hnd : (l.map key).Nodup) :
    l.find? (key · == k) = some x ↔ x ∈ l ∧ key x = k := by
  constructor
  · intro h
    exact ⟨List.mem_of_find?_eq_some h, by simpa using List.find?_some h⟩
  · rintro ⟨hx, rfl⟩
    cases h : l.find? (key · == key x) with
    | none => exact absurd (List.find?_eq_none.1 h x hx) (by simp)
    | some y =>
      have hy : key y = key x := by simpa using List.find?_some h
      rw [eq_of_key hnd (List.mem_of_find?_eq_some h) hx hy]

theorem filter_eq_singleton (hnd : (l.map key).Nodup) (hx : x ∈ l) (hk : key x = k) :
    l.filter (key · == k) = [x] := by
  induction l with
  | nil => cases hx
  | cons a l ih =>
    rw [List.map_cons, List.nodup_cons] at hnd
    rcases List.mem_cons.1 hx with rfl | hx
    · have hnone : l.filter (key · == k) = [] := List.filter_eq_nil_iff.2 fun y hy hyk => by
        have hyk : key y = k := by simpa using hyk
        exact hnd.1 (hk ▸ hyk ▸ List.mem_map_of_mem hy)
      simp [hk, hnone]
    · have hne : key a ≠ k := fun ha => hnd.1 (ha ▸ hk ▸ List.mem_map_of_mem hx)
      simp [hne, ih hnd.2 hx]

theorem map_key_modify_findIdx (hf : ∀ x, key x = k → key (f x) = k) :
    (l.modify (l.findIdx (key · == k)) f).map key = l.map key := by
  induction l with
  | nil => simp
  | cons a l ih =>
    by_cases ha : key a = k
    · simp [List.findIdx_cons, ha, hf a ha]
    · have hb : (key a == k) = false := by simpa using ha
      simp [List.findIdx_cons, hb, ih]

/-- Looking a key up after such a write. -/
theorem find?_modify_findIdx (hf : ∀ x, key x = k → key (f x) = k) (k' : κ) :
    (l.modify (l.findIdx (key · == k)) f).find? (key · == k') =
      if k' = k then (l.find? (key · == k)).map f else l.find? (key · == k') := by
  induction l with
  | nil => simp
  | cons a l ih =>
    by_cases ha : key a = k
    · have hfa := hf a ha
      by_cases hk : k' = k
      · subst hk; simp [List.findIdx_cons, ha, hfa]
      · have hne : k ≠ k' := fun h => hk h.symm
        simp [List.findIdx_cons, ha, hfa, hk, hne]
    · have hb : (key a == k) = false := by simpa using ha
      have hi : (a :: l).findIdx (key · == k) = l.findIdx (key · == k) + 1 := by
        simp [List.findIdx_cons, hb]
      rw [hi, List.modify_succ_cons]
      by_cases hk : k' = k
      · subst hk; simp only [if_true] at ih; simp [ha, ih]
      · rw [if_neg hk] at ih ⊢
        simp [List.find?_cons, ih]

theorem find?_append_singleton (hx : l.find? (key · == key x) = none) (k' : κ) :
    (l ++ [x]).find? (key · == k') = if k' = key x then some x else l.find? (key · == k') := by
  rw [List.find?_append]
  by_cases hk : k' = key x
  · subst hk; simp [hx]
  · have hne : key x ≠ k' := fun h => hk h.symm
    simp [hk, hne]

end Keyed
