import Mathlib.Data.List.Basic

/-!
# Runs of a machine

A machine is a partial step function `step : σ → α → Option σ`: the state after an action,
`none` where the action cannot happen. Concurrent activities are the actions of one machine,
and an interleaving of them is a list of actions, so a theorem about every list of actions is
a theorem about every interleaving.

* `run` — the state after a list of actions
* `Along` — a condition that every step of a run meets, on the state before it and the action
* `run_inv`, `run_inv_along` — the invariant rules; `run_iff_along` and `always_iff_along` are the
  exact ones
* `recorded` — the machine whose states come with the actions that led to them
* `run_simulation` — the runs of one machine are runs of another
* `run_rel` — what two runs with the same actions have in common
* `trace` — what the steps of a run show to an observer; `trace_inv`, `run_trace_inv` and
  `trace_simulation` are its rules
* `run_queue`, `run_potential` — what two observers together see: a queue, and a budget
* `run_descends` — how many steps there can be
-/

namespace Livehost.Infra

variable {σ α ω : Type*} {step : σ → α → Option σ}

/-! ## Runs -/

/-- The state after the actions, in order. -/
def run (step : σ → α → Option σ) : σ → List α → Option σ
  | s, [] => some s
  | s, a :: as => (step s a).bind fun s' => run step s' as

@[simp] theorem run_nil (s : σ) : run step s [] = some s := rfl

theorem run_cons_some {s t : σ} {a : α} {as : List α} :
    run step s (a :: as) = some t ↔ ∃ m, step s a = some m ∧ run step m as = some t := by
  simp [run, Option.bind_eq_some_iff]

theorem run_append (s : σ) (as bs : List α) :
    run step s (as ++ bs) = (run step s as).bind fun m => run step m bs := by
  induction as generalizing s with
  | nil => rfl
  | cons a as ih =>
    cases h : step s a with
    | none => simp [run, h]
    | some m => simp [run, h, ih]

theorem run_append_some {s t : σ} {as bs : List α} :
    run step s (as ++ bs) = some t ↔ ∃ m, run step s as = some m ∧ run step m bs = some t := by
  rw [run_append, Option.bind_eq_some_iff]

theorem run_concat_some {s t : σ} {a : α} {as : List α} :
    run step s (as ++ [a]) = some t ↔ ∃ m, run step s as = some m ∧ step m a = some t := by
  rw [run_append_some]
  simp [run]

/-- A machine whose every action can happen. -/
theorem run_foldl (f : σ → α → σ) (s : σ) (as : List α) :
    run (fun s a => some (f s a)) s as = some (as.foldl f s) := by
  induction as generalizing s with
  | nil => rfl
  | cons a as ih => exact ih (f s a)

/-! ## Conditions on the steps -/

/-- Every step of the run meets `P`, read in the state before it. -/
def Along (step : σ → α → Option σ) (P : σ → α → Prop) : σ → List α → Prop
  | _, [] => True
  | s, a :: as => P s a ∧ ∀ s', step s a = some s' → Along step P s' as

variable {P : σ → α → Prop}

theorem along_cons {s m : σ} {a : α} {as : List α} (hs : step s a = some m) (ha : P s a)
    (h : Along step P m as) : Along step P s (a :: as) :=
  ⟨ha, fun s' hs' => by rw [hs] at hs'; cases hs'; exact h⟩

theorem along_append {s : σ} {as bs : List α} :
    Along step P s (as ++ bs) ↔
      Along step P s as ∧ ∀ m, run step s as = some m → Along step P m bs := by
  induction as generalizing s with
  | nil => simp [Along]
  | cons a as ih =>
    simp only [List.cons_append, Along, ih, run_cons_some]
    constructor
    · rintro ⟨ha, hrest⟩
      exact ⟨⟨ha, fun s' hs => (hrest s' hs).1⟩, fun m ⟨s', hs, hm⟩ => (hrest s' hs).2 m hm⟩
    · rintro ⟨⟨ha, hrest⟩, hbs⟩
      exact ⟨ha, fun s' hs => ⟨hrest s' hs, fun m hm => hbs m ⟨s', hs, hm⟩⟩⟩

/-- `Along`, read at a place of the run. -/
theorem along_iff {s : σ} {as : List α} :
    Along step P s as ↔
      ∀ pre a post m, as = pre ++ a :: post → run step s pre = some m → P m a := by
  constructor
  · rintro h pre a post m rfl hm
    exact ((along_append.mp h).2 m hm).1
  · induction as generalizing s with
    | nil => intro _; trivial
    | cons a as ih =>
      intro h
      refine ⟨h [] a as s rfl rfl, fun s' hs => ih fun pre b post m he hm => ?_⟩
      exact h (a :: pre) b post m (by rw [he]; rfl) (run_cons_some.mpr ⟨s', hs, hm⟩)

/-- A condition on the action alone. -/
theorem along_of_forall {p : α → Prop} {s : σ} {as : List α} (h : ∀ a ∈ as, p a) :
    Along step (fun _ a => p a) s as :=
  along_iff.mpr fun pre a post m he _ =>
    h a (by rw [he]; exact List.mem_append_right _ List.mem_cons_self)

/-! ## Invariants -/

/-- **Invariant rule.** What holds at the start and is kept by every step that meets `P` holds
after every run whose steps meet `P`. -/
theorem run_inv_along {I : σ → Prop} (hstep : ∀ s a s', I s → P s a → step s a = some s' → I s')
    {s t : σ} {as : List α} (h0 : I s) (hp : Along step P s as) (h : run step s as = some t) :
    I t := by
  induction as generalizing s with
  | nil => cases h; exact h0
  | cons a as ih =>
    obtain ⟨m, hm, ht⟩ := run_cons_some.mp h
    exact ih (hstep s a m h0 hp.1 hm) (hp.2 m hm) ht

/-- **Exact rule.** What is kept by exactly the steps that meet `P`, in states with `J`, holds after
a run exactly when it held before it and every step met `P`. -/
theorem run_iff_along {I J : σ → Prop}
    (hstep : ∀ s a s', J s → step s a = some s' → J s' ∧ (I s' ↔ I s ∧ P s a))
    {s t : σ} {as : List α} (h0 : J s) (h : run step s as = some t) :
    J t ∧ (I t ↔ I s ∧ Along step P s as) := by
  induction as generalizing s with
  | nil => cases h; simp [Along, h0]
  | cons a as ih =>
    obtain ⟨m, hm, ht⟩ := run_cons_some.mp h
    obtain ⟨hj, hi⟩ := hstep s a m h0 hm
    obtain ⟨hj', hi'⟩ := ih hj ht
    refine ⟨hj', hi'.trans ?_⟩
    simp [Along, hm, hi, and_assoc]

/-- **Exact rule for what holds all along.** If, in states with `J`, a step from a state with `I`
leads to a state with `I` exactly when it meets `P`, then `I` holds in every state of a run exactly
when every step of it meets `P`. -/
theorem always_iff_along {I J : σ → Prop}
    (hstep : ∀ s a s', J s → step s a = some s' → J s' ∧ (I s → (I s' ↔ P s a)))
    {s t : σ} {as : List α} (hj : J s) (hi : I s) (h : run step s as = some t) :
    (∀ pre post m, as = pre ++ post → run step s pre = some m → I m) ↔ Along step P s as := by
  induction as generalizing s with
  | nil =>
    refine ⟨fun _ => trivial, fun _ pre post m he hm => ?_⟩
    obtain ⟨rfl, rfl⟩ := List.append_eq_nil_iff.mp he.symm
    cases hm
    exact hi
  | cons a as ih =>
    obtain ⟨m, hm, ht⟩ := run_cons_some.mp h
    obtain ⟨hj', hi'⟩ := hstep s a m hj hm
    constructor
    · intro hall
      have him : I m := hall [a] as m rfl (run_cons_some.mpr ⟨m, hm, rfl⟩)
      refine along_cons hm ((hi' hi).mp him) ((ih hj' him ht).mp fun pre post m' he hrun => ?_)
      exact hall (a :: pre) post m' (by rw [he]; rfl) (run_cons_some.mpr ⟨m, hm, hrun⟩)
    · rintro ⟨ha, halong⟩ pre post m' he hrun
      cases pre with
      | nil => cases hrun; exact hi
      | cons b pre =>
        obtain ⟨rfl, rfl⟩ := List.cons.inj he
        obtain ⟨m₁, hm₁, hrun⟩ := run_cons_some.mp hrun
        cases hm.symm.trans hm₁
        exact (ih hj' ((hi' hi).mpr ha) ht).mpr (halong m hm) pre post m' rfl hrun

/-- The invariant rule without a condition on the steps. -/
theorem run_inv {I : σ → Prop} (hstep : ∀ s a s', I s → step s a = some s' → I s')
    {s t : σ} {as : List α} (h0 : I s) (h : run step s as = some t) : I t :=
  run_inv_along (P := fun _ _ => True) (fun s a s' hi _ => hstep s a s' hi) h0
    (along_iff.mpr fun _ _ _ _ _ _ => trivial) h

/-! ## Histories -/

/-- The machine with a history: a state comes with the actions that led to it. -/
def recorded (step : σ → α → Option σ) (p : σ × List α) (a : α) : Option (σ × List α) :=
  (step p.1 a).map fun s' => (s', p.2 ++ [a])

theorem recorded_some {p p' : σ × List α} {a : α} :
    recorded step p a = some p' ↔ ∃ s', step p.1 a = some s' ∧ p' = (s', p.2 ++ [a]) := by
  rw [recorded, Option.map_eq_some_iff]
  exact exists_congr fun s' => and_congr_right fun _ => eq_comm

theorem run_recorded (s : σ) (past as : List α) :
    run (recorded step) (s, past) as = (run step s as).map fun t => (t, past ++ as) := by
  induction as generalizing s past with
  | nil => simp
  | cons a as ih =>
    cases hs : step s a with
    | none => simp [run, recorded, hs]
    | some s' => simp [run, recorded, hs, ih, List.append_assoc]

/-! ## Simulation -/

/-- **Simulation rule.** If a step of the machine is none or one step of another machine on what
`f` makes of the states, then its runs are runs of the other. -/
theorem run_simulation {τ β : Type*} {step' : τ → β → Option τ} {f : σ → τ}
    (hstep : ∀ s a s', step s a = some s' → f s' = f s ∨ ∃ b, step' (f s) b = some (f s'))
    {s t : σ} {as : List α} (h : run step s as = some t) :
    ∃ bs, run step' (f s) bs = some (f t) := by
  induction as generalizing s with
  | nil => cases h; exact ⟨[], rfl⟩
  | cons a as ih =>
    obtain ⟨m, hm, ht⟩ := run_cons_some.mp h
    obtain ⟨bs, hbs⟩ := ih ht
    rcases hstep s a m hm with he | ⟨b, hb⟩
    · exact ⟨bs, he ▸ hbs⟩
    · exact ⟨b :: bs, run_cons_some.mpr ⟨f m, hb, hbs⟩⟩

/-! ## Two runs -/

/-- **Two-run rule.** Two states in `R` stay in `R` along the same actions, each of which both can
take or neither, if every action that meets `p` keeps them so. -/
theorem run_rel {R : σ → σ → Prop} {p : α → Prop}
    (hstep : ∀ s t a, R s t → p a → Option.Rel R (step s a) (step t a))
    {s t : σ} {as : List α} (h0 : R s t) (hp : ∀ a ∈ as, p a) :
    Option.Rel R (run step s as) (run step t as) := by
  induction as generalizing s t with
  | nil => exact .some h0
  | cons a as ih =>
    have ha := hstep s t a h0 (hp a List.mem_cons_self)
    unfold run
    cases hs : step s a <;> cases ht : step t a <;> rw [hs, ht] at ha <;> cases ha
    case none.none => exact .none
    case some.some h => exact ih h fun b hb => hp b (List.mem_cons_of_mem _ hb)

/-! ## Traces -/

/-- What an observer sees of the run, up to the first action that cannot happen: `obs s a` is
shown by the step `a` from `s`. -/
def trace (step : σ → α → Option σ) (obs : σ → α → List ω) : σ → List α → List ω
  | _, [] => []
  | s, a :: as =>
    match step s a with
    | none => []
    | some s' => obs s a ++ trace step obs s' as

variable {obs : σ → α → List ω}

theorem trace_append {s m : σ} {as bs : List α} (h : run step s as = some m) :
    trace step obs s (as ++ bs) = trace step obs s as ++ trace step obs m bs := by
  induction as generalizing s with
  | nil => cases h; rfl
  | cons a as ih =>
    obtain ⟨s', hs, hm⟩ := run_cons_some.mp h
    simp [trace, hs, ih hm, List.append_assoc]

/-- **Invariant rule for traces.** `I` relates the state to what has been seen so far. -/
theorem trace_inv {I : σ → List ω → Prop}
    (hstep : ∀ s a s' seen, I s seen → step s a = some s' → I s' (seen ++ obs s a))
    {s : σ} {seen : List ω} (h0 : I s seen) (as : List α) :
    ∃ t, I t (seen ++ trace step obs s as) := by
  induction as generalizing s seen with
  | nil => exact ⟨s, by simpa [trace] using h0⟩
  | cons a as ih =>
    cases hs : step s a with
    | none => exact ⟨s, by simpa [trace, hs] using h0⟩
    | some s' =>
      obtain ⟨t, ht⟩ := ih (hstep s a s' seen h0 hs)
      exact ⟨t, by simpa [trace, hs, List.append_assoc] using ht⟩

/-- The invariant rule for traces, at the end of a run whose steps meet `P`. -/
theorem run_trace_inv_along {I : σ → List ω → Prop}
    (hstep : ∀ s a s' seen, I s seen → P s a → step s a = some s' → I s' (seen ++ obs s a))
    {s t : σ} {seen : List ω} (h0 : I s seen) {as : List α} (hp : Along step P s as)
    (h : run step s as = some t) : I t (seen ++ trace step obs s as) := by
  induction as generalizing s seen with
  | nil => cases h; simpa [trace] using h0
  | cons a as ih =>
    obtain ⟨m, hm, ht⟩ := run_cons_some.mp h
    have hi := ih (hstep s a m seen h0 hp.1 hm) (hp.2 m hm) ht
    simpa [trace, hm, List.append_assoc] using hi

/-- The invariant rule for traces, at the end of a run. -/
theorem run_trace_inv {I : σ → List ω → Prop}
    (hstep : ∀ s a s' seen, I s seen → step s a = some s' → I s' (seen ++ obs s a))
    {s t : σ} {seen : List ω} (h0 : I s seen) {as : List α} (h : run step s as = some t) :
    I t (seen ++ trace step obs s as) :=
  run_trace_inv_along (P := fun _ _ => True) (fun s a s' seen hi _ => hstep s a s' seen hi) h0
    (along_iff.mpr fun _ _ _ _ _ _ => trivial) h

/-- **Queue rule.** If every step takes from the front of `f` what one observer sees and adds to its
end what another sees, then so does the run. -/
theorem run_queue {I : σ → Prop} {f : σ → List ω} {into out : σ → α → List ω}
    (hstep : ∀ s a s', I s → step s a = some s' → I s' ∧ f s ++ into s a = out s a ++ f s')
    {s t : σ} {as : List α} (h0 : I s) (h : run step s as = some t) :
    f s ++ trace step into s as = trace step out s as ++ f t := by
  induction as generalizing s with
  | nil => cases h; simp [trace]
  | cons a as ih =>
    obtain ⟨m, hm, ht⟩ := run_cons_some.mp h
    obtain ⟨hi, hf⟩ := hstep s a m h0 hm
    simp only [trace, hm]
    rw [← List.append_assoc, hf, List.append_assoc, ih hi ht, List.append_assoc]

/-- **Potential rule.** If every step that spends is paid for by a growth of the potential, or `k`
times by what it earns, then so is the run. -/
theorem run_potential {ω' : Type*} {I : σ → Prop} {φ : σ → Nat} {k : Nat}
    {spent : σ → α → List ω} {earned : σ → α → List ω'}
    (hstep : ∀ s a s', I s → step s a = some s' →
      I s' ∧ φ s + (spent s a).length ≤ k * (earned s a).length + φ s')
    {s t : σ} {as : List α} (h0 : I s) (h : run step s as = some t) :
    φ s + (trace step spent s as).length ≤ k * (trace step earned s as).length + φ t := by
  induction as generalizing s with
  | nil => cases h; simp [trace]
  | cons a as ih =>
    obtain ⟨m, hm, ht⟩ := run_cons_some.mp h
    obtain ⟨hi, hφ⟩ := hstep s a m h0 hm
    have hrest := ih hi ht
    simp only [trace, hm, List.length_append, Nat.mul_add]
    omega

/-- **Descent rule.** Where every step that meets `p` makes the measure smaller, there are no more
such steps than the measure says. -/
theorem run_descends {I : σ → Prop} {p : α → Prop} {φ : σ → Nat}
    (hstep : ∀ s a s', I s → p a → step s a = some s' → I s' ∧ φ s' < φ s)
    {s t : σ} {as : List α} (h0 : I s) (hp : ∀ a ∈ as, p a) (h : run step s as = some t) :
    I t ∧ as.length + φ t ≤ φ s := by
  induction as generalizing s with
  | nil =>
    cases h
    exact ⟨h0, by simp⟩
  | cons a as ih =>
    obtain ⟨m, hm, ht⟩ := run_cons_some.mp h
    obtain ⟨hi, hless⟩ := hstep s a m h0 (hp a List.mem_cons_self) hm
    obtain ⟨hit, hrest⟩ := ih hi (fun b hb => hp b (List.mem_cons_of_mem _ hb)) ht
    refine ⟨hit, ?_⟩
    rw [List.length_cons]
    omega

/-- **Simulation rule for traces.** If a step of the machine shows nothing and is no step of the
other machine, or is a step of it that shows the same, then its traces are traces of the other. -/
theorem trace_simulation {τ β : Type*} {step' : τ → β → Option τ} {obs' : τ → β → List ω}
    {f : σ → τ}
    (hstep : ∀ s a s', step s a = some s' → f s' = f s ∧ obs s a = [] ∨
      ∃ b, step' (f s) b = some (f s') ∧ obs' (f s) b = obs s a)
    (s : σ) (as : List α) : ∃ bs, trace step' obs' (f s) bs = trace step obs s as := by
  induction as generalizing s with
  | nil => exact ⟨[], rfl⟩
  | cons a as ih =>
    cases hs : step s a with
    | none => exact ⟨[], by simp [trace, hs]⟩
    | some s' =>
      obtain ⟨bs, hbs⟩ := ih s'
      rcases hstep s a s' hs with ⟨hf, hobs⟩ | ⟨b, hb, hobs⟩
      · exact ⟨bs, by simp [trace, hs, hobs, ← hf, hbs]⟩
      · exact ⟨b :: bs, by simp [trace, hs, hb, hobs, hbs]⟩

end Livehost.Infra
