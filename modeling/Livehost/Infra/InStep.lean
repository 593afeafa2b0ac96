import Mathlib.Data.List.AList
import Mathlib.Data.List.Forall2

/-!
# Two programs in step

The same program at two levels, over two forms of the same data. Where one of them raises, the
other does too, each with exceptions of its own; and of two tables by key, one holds what the other
holds in another form. Whoever looks a key up, writes a row, or deletes the rows that a test finds,
does it in both.

* `Agree` — both raise, or they return related values
* `InStep` — the same keys in the same order, and related rows
-/

namespace Livehost.Infra

/-! ## Outcomes -/

section

variable {ε ε' α α' β β' : Type}

/-- Both raise, or they return related values. -/
def Agree (Q : α → α' → Prop) : Except ε α → Except ε' α' → Prop
  | .ok a, .ok a' => Q a a'
  | .error _, .error _ => True
  | _, _ => False

/-- One behind the other. -/
theorem Agree.bind {Q : α → α' → Prop} {P : β → β' → Prop} {x : Except ε α} {x' : Except ε' α'}
    {f : α → Except ε β} {f' : α' → Except ε' β'} (hx : Agree Q x x')
    (hf : ∀ a a', Q a a' → Agree P (f a) (f' a')) : Agree P (x >>= f) (x' >>= f') := by
  cases x with
  | ok a =>
    cases x' with
    | ok a' => exact hf a a' hx
    | error e => exact hx.elim
  | error e =>
    cases x' with
    | ok a' => exact hx.elim
    | error e' => trivial

/-- `try: return x` with `except: return a`. -/
def caught (x : Except ε α) (a : α) : α :=
  match x with
  | .ok b => b
  | .error _ => a

theorem Agree.caught {Q : α → α' → Prop} {x : Except ε α} {x' : Except ε' α'} (hx : Agree Q x x')
    {a : α} {a' : α'} (ha : Q a a') : Q (caught x a) (caught x' a') := by
  cases x with
  | ok b =>
    cases x' with
    | ok b' => exact hx
    | error e => exact hx.elim
  | error e =>
    cases x' with
    | ok b' => exact hx.elim
    | error e' => exact ha

/-- A test that both make. -/
theorem Agree.ite {Q : α → α' → Prop} {p q : Prop} [Decidable p] [Decidable q] (hpq : p ↔ q)
    {x y : Except ε α} {x' y' : Except ε' α'} (hx : Agree Q x x') (hy : Agree Q y y') :
    Agree Q (if p then x else y) (if q then x' else y') := by
  by_cases hp : p
  · rw [if_pos hp, if_pos (hpq.mp hp)]
    exact hx
  · rw [if_neg hp, if_neg (fun hq => hp (hpq.mpr hq))]
    exact hy

end

/-! ## Tables -/

variable {κ β γ : Type} {R : β → γ → Prop}

/-- The tables hold related rows under the same keys, in one order. -/
def InStep (R : β → γ → Prop) (t : AList fun _ : κ => β) (s : AList fun _ : κ => γ) : Prop :=
  List.Forall₂ (fun x y => x.1 = y.1 ∧ R x.2 y.2) t.entries s.entries

theorem InStep.empty : InStep R (∅ : AList fun _ : κ => β) ∅ := .nil

variable [DecidableEq κ]

section

variable {xs : List (Sigma fun _ : κ => β)} {ys : List (Sigma fun _ : κ => γ)}

theorem forall₂_dlookup (h : List.Forall₂ (fun x y => x.1 = y.1 ∧ R x.2 y.2) xs ys) (key : κ) :
    Option.Rel R (xs.dlookup key) (ys.dlookup key) := by
  induction h with
  | nil => exact .none
  | @cons x y xs ys hxy hrest ih =>
    obtain ⟨k, row⟩ := x
    obtain ⟨k', row'⟩ := y
    obtain ⟨rfl, hrow⟩ := hxy
    by_cases hk : key = k
    · subst hk
      rw [List.dlookup_cons_eq, List.dlookup_cons_eq]
      exact .some hrow
    · rw [List.dlookup_cons_ne _ _ hk, List.dlookup_cons_ne _ _ hk]
      exact ih

theorem forall₂_kerase (h : List.Forall₂ (fun x y => x.1 = y.1 ∧ R x.2 y.2) xs ys) (key : κ) :
    List.Forall₂ (fun x y => x.1 = y.1 ∧ R x.2 y.2) (xs.kerase key) (ys.kerase key) := by
  induction h with
  | nil => exact .nil
  | @cons x y xs ys hxy hrest ih =>
    by_cases hk : key = x.1
    · rw [List.kerase_cons_eq hk, List.kerase_cons_eq (hk.trans hxy.1)]
      exact hrest
    · rw [List.kerase_cons_ne hk, List.kerase_cons_ne (hxy.1 ▸ hk)]
      exact .cons hxy ih

end

namespace InStep

variable {t : AList fun _ : κ => β} {s : AList fun _ : κ => γ}

/-- The same keys are there, with related rows. -/
theorem lookup (h : InStep R t s) (key : κ) : Option.Rel R (t.lookup key) (s.lookup key) :=
  forall₂_dlookup h key

/-- One row is written in both. -/
theorem insert (h : InStep R t s) (key : κ) {row : β} {row' : γ} (hrow : R row row') :
    InStep R (t.insert key row) (s.insert key row') := by
  show List.Forall₂ _ (t.insert key row).entries (s.insert key row').entries
  rw [AList.entries_insert, AList.entries_insert]
  exact .cons ⟨rfl, hrow⟩ (forall₂_kerase h key)

omit [DecidableEq κ] in
/-- The rows that a test keeps. -/
theorem filter (h : InStep R t s) {p : (Sigma fun _ : κ => β) → Bool}
    {q : (Sigma fun _ : κ => γ) → Bool} (hpq : ∀ x y, R x.2 y.2 → p x = q y) :
    List.Forall₂ (fun x y => x.1 = y.1 ∧ R x.2 y.2) (t.entries.filter p) (s.entries.filter q) :=
  List.rel_filter (fun x y hxy => iff_of_eq (congrArg (· = true) (hpq x y hxy.2))) h

end InStep

end Livehost.Infra
