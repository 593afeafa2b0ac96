import Mathlib.Data.List.Basic

/-!
# Turns with a mark in between

`Alternates turn mark l` says that between two turns of the list `l` there is a mark. A
machine shows it by keeping one bit: whether the list is `Open`, that is, whether a turn has
been seen with no mark after it. `alternates_concat` says what the bit must do.
-/

namespace Livehost.Infra

variable {ω : Type*} {turn mark : ω → Prop} {l : List ω} {o : ω}

/-- Between two turns there is a mark. -/
def Alternates (turn mark : ω → Prop) (l : List ω) : Prop :=
  ∀ pre x mid y post, l = pre ++ x :: (mid ++ y :: post) → turn x → turn y → ∃ m ∈ mid, mark m

/-- A turn has been seen and no mark after it. -/
def Open (turn mark : ω → Prop) (l : List ω) : Prop :=
  ∃ pre x mid, l = pre ++ x :: mid ∧ turn x ∧ ∀ m ∈ mid, ¬ mark m

theorem alternates_nil : Alternates turn mark [] := by
  intro pre x mid y post h
  simp at h

theorem not_open_nil : ¬ Open turn mark [] := by
  rintro ⟨pre, x, mid, h, -⟩
  simp at h

/-- A turn may follow unless one is open; anything else may follow always. -/
theorem alternates_concat (h : Alternates turn mark l) (ho : turn o → ¬ Open turn mark l) :
    Alternates turn mark (l ++ [o]) := by
  intro pre x mid y post he hx hy
  rcases List.eq_nil_or_concat post with rfl | ⟨post', z, rfl⟩
  · -- the second turn is the new one
    have he' : l ++ [o] = (pre ++ x :: mid) ++ [y] := by rw [he]; simp
    obtain ⟨hl, hoy⟩ := List.append_inj' he' rfl
    obtain rfl := List.singleton_inj.mp hoy
    by_contra hno
    exact ho hy ⟨pre, x, mid, hl, hx, fun m hm hmark => hno ⟨m, hm, hmark⟩⟩
  · have he' : l ++ [o] = (pre ++ x :: (mid ++ y :: post')) ++ [z] := by rw [he]; simp
    exact h pre x mid y post' (List.append_inj' he' rfl).1 hx hy

/-- A mark closes the list. -/
theorem not_open_concat_mark (hm : mark o) (ht : ¬ turn o) : ¬ Open turn mark (l ++ [o]) := by
  rintro ⟨pre, x, mid, he, hx, hno⟩
  rcases List.eq_nil_or_concat mid with rfl | ⟨mid', z, rfl⟩
  · have he' : l ++ [o] = pre ++ [x] := he
    obtain ⟨-, hox⟩ := List.append_inj' he' rfl
    exact ht (List.singleton_inj.mp hox ▸ hx)
  · have he' : l ++ [o] = (pre ++ x :: mid') ++ [z] := by rw [he]; simp
    obtain ⟨-, hoz⟩ := List.append_inj' he' rfl
    exact hno z (by simp) (List.singleton_inj.mp hoz ▸ hm)

end Livehost.Infra
