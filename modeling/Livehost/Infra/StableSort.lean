import Mathlib.Data.List.Sort
import Mathlib.Data.List.Pairwise

/-!
# Stable descending sort by a key

`sortDesc key l` puts the greatest keys first and leaves elements of one key in the order they
had in `l`. `sortDesc_pairwise` says both at once: any relation that holds between elements of
one key along `l` orders the ties of the result. A sort of a list with one more element at its end
is an insertion into the sorted list, `insertDesc`, which goes along with taking a prefix and with
filtering.
-/

namespace Livehost.Infra

variable {α κ : Type*} [LinearOrder κ] {key : α → κ} {R : α → α → Prop}

/-- Stable sort, greatest key first. -/
def sortDesc (key : α → κ) (l : List α) : List α :=
  l.insertionSort fun a b => key b ≤ key a

/-- Greater key first, ties by `R`. -/
def KeyDesc (key : α → κ) (R : α → α → Prop) (a b : α) : Prop :=
  key b < key a ∨ key a = key b ∧ R a b

theorem sortDesc_perm (key : α → κ) (l : List α) : (sortDesc key l).Perm l :=
  l.perm_insertionSort _

@[simp] theorem mem_sortDesc {l : List α} {x : α} : x ∈ sortDesc key l ↔ x ∈ l :=
  (sortDesc_perm key l).mem_iff

theorem KeyDesc.key_le {a b : α} (h : KeyDesc key R a b) : key b ≤ key a := by
  rcases h with h | ⟨h, -⟩
  · exact h.le
  · exact h.ge

theorem KeyDesc.tie {a b : α} (h : KeyDesc key R a b) (he : key a = key b) : R a b := by
  rcases h with h | ⟨-, h⟩
  · exact absurd he h.ne'
  · exact h

theorem keyDesc_of_le {a b : α} (h : key b ≤ key a) (hr : key a = key b → R a b) :
    KeyDesc key R a b := by
  rcases h.lt_or_eq with h | h
  · exact Or.inl h
  · exact Or.inr ⟨h.symm, hr h.symm⟩

/-- Inserting keeps the order when the new element comes before its ties. -/
theorem orderedInsert_keyDesc {a : α} : ∀ {l : List α}, l.Pairwise (KeyDesc key R) →
    (∀ b ∈ l, key a = key b → R a b) →
    (l.orderedInsert (fun a b => key b ≤ key a) a).Pairwise (KeyDesc key R)
  | [], _, _ => by simp
  | b :: l, hl, ha => by
    obtain ⟨hb, hl'⟩ := List.pairwise_cons.mp hl
    rw [List.orderedInsert_cons]
    split
    · next hle =>
      refine List.pairwise_cons.mpr ⟨fun c hc => ?_, hl⟩
      have hcb : key c ≤ key b := by
        rcases List.mem_cons.mp hc with rfl | hc
        · exact le_rfl
        · exact (hb c hc).key_le
      exact keyDesc_of_le (hcb.trans hle) (ha c hc)
    · next hlt =>
      refine List.pairwise_cons.mpr ⟨fun c hc => ?_, ?_⟩
      · rcases (List.mem_orderedInsert _).mp hc with rfl | hc
        · exact Or.inl (not_le.mp hlt)
        · exact hb c hc
      · exact orderedInsert_keyDesc hl' fun c hc => ha c (List.mem_cons_of_mem _ hc)

/-- **Stability.** What relates the ties of `l` in their order relates them in the sorted list. -/
theorem sortDesc_pairwise : ∀ {l : List α}, l.Pairwise (fun a b => key a = key b → R a b) →
    (sortDesc key l).Pairwise (KeyDesc key R)
  | [], _ => List.Pairwise.nil
  | a :: l, h => by
    obtain ⟨ha, hl⟩ := List.pairwise_cons.mp h
    exact orderedInsert_keyDesc (sortDesc_pairwise hl) fun b hb => ha b (mem_sortDesc.mp hb)

/-- Sorting an ordered list with one more element at its end, behind all its ties. -/
theorem sortDesc_concat_pairwise {l : List α} {a : α} (hl : l.Pairwise (KeyDesc key R))
    (ha : ∀ b ∈ l, R b a) : (sortDesc key (l ++ [a])).Pairwise (KeyDesc key R) := by
  refine sortDesc_pairwise (List.pairwise_append.mpr ⟨?_, by simp, ?_⟩)
  · exact hl.imp fun h he => h.tie he
  · intro b hb c hc _
    rw [List.mem_singleton.mp hc]
    exact ha b hb

instance [Std.Irrefl R] : Std.Irrefl (KeyDesc key R) where
  irrefl a h := by
    rcases h with h | ⟨-, h⟩
    · exact lt_irrefl _ h
    · exact irrefl a h

instance [Std.Asymm R] : Std.Antisymm (KeyDesc key R) where
  antisymm a b hab hba := by
    have he : key a = key b := le_antisymm hba.key_le hab.key_le
    exact absurd (hba.tie he.symm) (asymm (hab.tie he))

instance [DecidableRel R] : DecidableRel (KeyDesc key R) :=
  fun a b => inferInstanceAs (Decidable (key b < key a ∨ key a = key b ∧ R a b))

theorem sortDesc_of_ordered {l : List α} (h : l.Pairwise fun a b => key b ≤ key a) :
    sortDesc key l = l :=
  List.Pairwise.insertionSort_eq h

theorem sortDesc_ordered (key : α → κ) (l : List α) :
    (sortDesc key l).Pairwise fun a b => key b ≤ key a :=
  (sortDesc_pairwise (R := fun _ _ => True) (List.pairwise_of_forall fun _ _ _ => trivial)).imp
    fun h => h.key_le

/-- Without ties the sorted list does not depend on the order of the list. -/
theorem sortDesc_eq_of_perm {l l' : List α} (hl : l.Perm l')
    (hinj : ∀ a ∈ l, ∀ b ∈ l, key a = key b → a = b) : sortDesc key l = sortDesc key l' := by
  refine List.Perm.eq_of_pairwise (fun a b ha hb hab hba => ?_) (sortDesc_ordered key l)
    (sortDesc_ordered key l') (((sortDesc_perm key l).trans hl).trans (sortDesc_perm key l').symm)
  exact hinj a (mem_sortDesc.mp ha) b (hl.mem_iff.mpr (mem_sortDesc.mp hb)) (le_antisymm hba hab)

theorem map_sortDesc {β : Type*} {key' : β → κ} {f : α → β} {l : List α}
    (h : ∀ a ∈ l, key' (f a) = key a) : (sortDesc key l).map f = sortDesc key' (l.map f) :=
  List.map_insertionSort _ _ f l fun a ha b hb => by rw [h a ha, h b hb]

/-! ## One more element -/

/-- Insert `a` behind the elements whose key is not less. -/
def insertDesc (key : α → κ) (a : α) (l : List α) : List α :=
  l.orderedInsert (fun a b => key b < key a) a

theorem insertDesc_cons (a b : α) (l : List α) : insertDesc key a (b :: l)
    = if key b < key a then a :: b :: l else b :: insertDesc key a l :=
  List.orderedInsert_cons ..

/-- An element that comes last may be inserted first: it goes behind its ties all the same. -/
theorem orderedInsert_insertDesc (a z : α) : ∀ l : List α,
    (insertDesc key z l).orderedInsert (fun a b => key b ≤ key a) a
      = insertDesc key z (l.orderedInsert (fun a b => key b ≤ key a) a)
  | [] => by
    by_cases h : key z ≤ key a
    · simp [insertDesc, h, not_lt.mpr h]
    · simp [insertDesc, h, not_le.mp h]
  | b :: l => by
    have ih := orderedInsert_insertDesc a z l
    by_cases hbz : key b < key z <;> by_cases hba : key b ≤ key a
    · by_cases hza : key z ≤ key a
      · simp [insertDesc_cons, List.orderedInsert_cons, hbz, hba, hza, not_lt.mpr hza]
      · simp [insertDesc_cons, List.orderedInsert_cons, hbz, hba, hza, not_le.mp hza]
    · have hza : ¬ key z ≤ key a := fun hza => hba (hbz.le.trans hza)
      simp [insertDesc_cons, List.orderedInsert_cons, hbz, hba, hza]
    · have haz : ¬ key a < key z := fun haz => hbz (hba.trans_lt haz)
      simp [insertDesc_cons, List.orderedInsert_cons, hbz, hba, haz]
    · simp [insertDesc_cons, List.orderedInsert_cons, hbz, hba, ih]

/-- **Sorting a list with one more element at its end** inserts it into the sorted list. -/
theorem sortDesc_concat (z : α) : ∀ l : List α,
    sortDesc key (l ++ [z]) = insertDesc key z (sortDesc key l)
  | [] => rfl
  | a :: l => by
    show (sortDesc key (l ++ [z])).orderedInsert (fun a b => key b ≤ key a) a = _
    rw [sortDesc_concat z l, orderedInsert_insertDesc]
    rfl

/-- What stands first after an insertion depends on what stood first before it. -/
theorem take_insertDesc (a : α) : ∀ (l : List α) (k : Nat),
    (insertDesc key a (l.take k)).take k = (insertDesc key a l).take k
  | [], k => by simp
  | b :: l, 0 => by simp
  | b :: l, k + 1 => by
    rw [List.take_succ_cons, insertDesc_cons, insertDesc_cons]
    split
    · cases k with
      | zero => simp
      | succ k => simp [List.take_take]
    · rw [List.take_succ_cons, List.take_succ_cons, take_insertDesc a l k]

theorem filter_insertDesc_of_neg {p : α → Bool} {a : α} (ha : p a = false) : ∀ l : List α,
    (insertDesc key a l).filter p = l.filter p
  | [] => by simp [insertDesc, ha]
  | b :: l => by
    rw [insertDesc_cons]
    split
    · simp [ha]
    · rw [List.filter_cons, List.filter_cons, filter_insertDesc_of_neg ha l]

theorem filter_insertDesc_of_pos {p : α → Bool} {a : α} (ha : p a = true) : ∀ {l : List α},
    l.Pairwise (fun a b => key b ≤ key a) →
    (insertDesc key a l).filter p = insertDesc key a (l.filter p)
  | [], _ => by simp [insertDesc, ha]
  | b :: l, hl => by
    obtain ⟨hb, hl'⟩ := List.pairwise_cons.mp hl
    rw [insertDesc_cons]
    split
    next hlt =>
      -- what the filter keeps is below `b`, and so below the new element
      have hfront : ∀ l' : List α, (∀ c ∈ l', key c < key a) → insertDesc key a l' = a :: l' := by
        intro l' hl'
        cases l' with
        | nil => rfl
        | cons c l' => rw [insertDesc_cons, if_pos (hl' c List.mem_cons_self)]
      rw [List.filter_cons_of_pos ha, hfront]
      intro c hc
      rcases List.mem_cons.mp (List.mem_of_mem_filter hc) with rfl | hc
      · exact hlt
      · exact (hb c hc).trans_lt hlt
    next hge =>
      rw [List.filter_cons, List.filter_cons, filter_insertDesc_of_pos ha hl']
      split
      · rw [insertDesc_cons, if_neg hge]
      · rfl

theorem length_insertDesc (a : α) (l : List α) : (insertDesc key a l).length = l.length + 1 :=
  List.orderedInsert_length ..

end Livehost.Infra
