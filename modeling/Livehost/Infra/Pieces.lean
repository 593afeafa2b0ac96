import Mathlib.Data.List.Basic

/-!
# Strings cut at a character

`pieces c s` is what stands between the occurrences of `c` in `s`; the empty string has one piece.
Joining pieces with `c` and cutting again gives the pieces back as long as `c` is in none of them,
and cutting never gives a piece with `c` in it.

* `pieces_intercalate` — cutting is the inverse of joining
* `not_mem_of_mem_pieces` — no piece contains the separator
-/

namespace Livehost.Infra

/-- The strings between the occurrences of `c`. -/
def pieces (c : Char) (s : String) : List String := (s.toList.splitOn c).map String.ofList

/-- No part of a list that is cut at `a` contains `a`. -/
theorem not_mem_of_mem_splitOn {α : Type*} [BEq α] [LawfulBEq α] {a : α} {l : List α} :
    ∀ {xs : List α}, l ∈ xs.splitOn a → a ∉ l := by
  intro xs
  induction xs generalizing l with
  | nil =>
    intro h
    rw [List.splitOn_nil, List.mem_singleton] at h
    rw [h]
    exact List.not_mem_nil
  | cons x xs ih =>
    intro h
    rw [List.splitOn_cons_eq_if_modifyHead] at h
    split at h
    · rcases List.mem_cons.mp h with rfl | h
      · exact List.not_mem_nil
      · exact ih h
    next hx =>
      -- `x` goes to the front of the first part
      obtain ⟨head, rest, hsplit⟩ := List.exists_cons_of_ne_nil (List.splitOn_ne_nil a xs)
      rw [hsplit] at h ih
      rw [List.modifyHead_cons] at h
      rcases List.mem_cons.mp h with rfl | h
      · intro ha
        rcases List.mem_cons.mp ha with rfl | ha
        · exact hx (beq_self_eq_true _)
        · exact ih List.mem_cons_self ha
      · exact ih (List.mem_cons_of_mem _ h)

/-- **No piece contains the separator.** -/
theorem not_mem_of_mem_pieces {c : Char} {s l : String} (h : l ∈ pieces c s) : c ∉ l.toList := by
  obtain ⟨cs, hcs, rfl⟩ := List.mem_map.mp h
  rw [String.toList_ofList]
  exact not_mem_of_mem_splitOn hcs

/-- **Cutting is the inverse of joining**, for lines without the separator. -/
theorem pieces_intercalate {c : Char} {sep : String} (hsep : sep.toList = [c]) {ls : List String}
    (h : ∀ l ∈ ls, c ∉ l.toList) (hne : ls ≠ []) : pieces c (sep.intercalate ls) = ls := by
  have hlists : ∀ l ∈ ls.map String.toList, c ∉ l := by
    intro l hl
    obtain ⟨s, hs, rfl⟩ := List.mem_map.mp hl
    exact h s hs
  unfold pieces
  rw [String.toList_intercalate, hsep, List.splitOn_intercalate c hlists (by simpa using hne)]
  simp [List.map_map, Function.comp_def]

end Livehost.Infra
