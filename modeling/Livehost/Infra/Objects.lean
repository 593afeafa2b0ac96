import Mathlib.Data.List.Basic

/-!
# Objects by number

Where a program creates objects and keeps references to them, a list holds the objects in the order
they were created, and a reference is a place in it. An object is never removed; creating one
appends, and a write through a reference is a `List.modify`.

* `getElem?_concat_iff` — what a reference leads to behind a creation
* `getElem?_modify_iff` — and behind a write
-/

namespace Livehost.Infra

variable {α : Type*} {xs : List α} {x y : α} {i j : Nat}

theorem getElem?_concat_iff :
    (xs ++ [x])[i]? = some y ↔ (i = xs.length ∧ y = x) ∨ xs[i]? = some y := by
  constructor
  · intro h
    rw [List.getElem?_append] at h
    split at h
    · exact Or.inr h
    · rw [List.getElem?_singleton, Option.ite_none_right_eq_some] at h
      exact Or.inl ⟨by omega, (Option.some.inj h.2).symm⟩
  · rintro (⟨rfl, rfl⟩ | h)
    · exact List.getElem?_concat_length
    · rw [List.getElem?_append_left (List.getElem?_eq_some_iff.mp h).1, h]

/-- A reference stays good. -/
theorem getElem?_concat_of_some (h : xs[i]? = some y) (x : α) : (xs ++ [x])[i]? = some y :=
  getElem?_concat_iff.mpr (Or.inr h)

theorem getElem?_modify_iff {f : α → α} :
    (xs.modify j f)[i]? = some y ↔ ∃ x, xs[i]? = some x ∧ y = if j = i then f x else x := by
  rw [List.getElem?_modify, Option.map_eq_map, Option.map_eq_some_iff]
  exact exists_congr fun x => and_congr_right fun _ => eq_comm

end Livehost.Infra
