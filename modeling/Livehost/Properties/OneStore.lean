import Livehost.Api.Stores
import Livehost.Infra.Objects

/-!
# At most one open memory store

`_get_memory_store` closes the store it replaces behind the construction of the next one. Where
that construction fails, it forgets the store instead.

* `call_cases` — what a call does
* `open_step` — which calls leave no store open behind
* `one_store_iff` — the sequences of calls that keep at most one store open
-/

namespace Livehost

open Infra

namespace MemoryModule

variable {m : MemoryModule}

/-! ## The law -/

/-- The open stores are the one the module holds. -/
def HoldsOpen (m : MemoryModule) : Prop :=
  ∀ (i : Nat) (st : BuiltStore), m.built[i]? = some st →
    (st.closed = false ↔ m.memoryStore = some i)

/-- **The law** of a sequence of calls. -/
structure OneStore (cs : List StoreCall) : Prop where
  /-- A call returns `None`, or a store built for the path configured. -/
  returned : ∀ pre c post, cs = pre ++ c :: post →
    ((calls pre).call c).1 = .ok none ∨ ∃ i st, ((calls pre).call c).1 = .ok (some i) ∧
      (calls (pre ++ [c])).built[i]? = some st ∧ st.dbPath = c.memoryDbPath
  /-- After every call, the store the module holds is the only one that is open. -/
  holds : ∀ pre post, cs = pre ++ post → (calls pre).HoldsOpen
  /-- Behind a call whose construction fails, one with the same path attempts none. -/
  attempts : ∀ pre c d post, cs = pre ++ c :: d :: post → c.memoryDbPath = d.memoryDbPath →
    c.build ≠ none → (calls (pre ++ [c, d])).constructions = (calls (pre ++ [c])).constructions

/-- The construction does not fail while the module holds a store of another path. -/
def Replaced (m : MemoryModule) (c : StoreCall) : Prop :=
  m.memoryStore ≠ none → m.memoryStorePath ≠ some c.memoryDbPath → c.build = none

/-! ## One call -/

/-- The store the module holds was built for its path, and no path has failed. -/
def Consistent (m : MemoryModule) : Prop :=
  ∀ i, m.memoryStore = some i → m.memoryStoreFailedPath = none ∧
    ∃ st, m.built[i]? = some st ∧ m.memoryStorePath = some st.dbPath

/-- What a call returns, and the module behind it. -/
inductive CallCase (m : MemoryModule) (c : StoreCall) :
    Except Exc (Option Nat) × MemoryModule → Prop
  /-- The path has failed before. -/
  | degraded (hfailed : m.memoryStoreFailedPath = some c.memoryDbPath) : CallCase m c (.ok none, m)
  /-- The store is there. -/
  | held {i : Nat} (hstore : m.memoryStore = some i)
    (hpath : m.memoryStorePath = some c.memoryDbPath) : CallCase m c (.ok (some i), m)
  | failed (hnew : m.memoryStore = none ∨ m.memoryStorePath ≠ some c.memoryDbPath)
    (hbuild : c.build ≠ none) :
    CallCase m c (.ok none,
      { m with
        memoryStore := none
        memoryStorePath := none
        memoryStoreFailedPath := some c.memoryDbPath
        constructions := m.constructions + 1 })
  | rebuilt {m' : MemoryModule} (hbuild : c.build = none)
    (hstore : m'.memoryStore = some m.built.length)
    (hpath : m'.memoryStorePath = some c.memoryDbPath) (hfailed : m'.memoryStoreFailedPath = none)
    (hbuilt : ∀ i st, m'.built[i]? = some st ↔
      (i = m.built.length ∧ st = { dbPath := c.memoryDbPath }) ∨
      ∃ st₀, m.built[i]? = some st₀ ∧
        st = if m.memoryStore = some i then { st₀ with closed := true } else st₀) :
    CallCase m c (.ok (some m.built.length), m')

theorem call_cases (hm : m.Consistent) (c : StoreCall) : CallCase m c (m.call c) := by
  unfold call getMemoryStore construct
  by_cases hfailed : m.memoryStoreFailedPath = some c.memoryDbPath
  · rw [if_pos hfailed]
    exact .degraded hfailed
  rw [if_neg hfailed]
  by_cases hnew : m.memoryStore = none ∨ m.memoryStorePath ≠ some c.memoryDbPath
  · rw [if_pos hnew]
    cases hbuild : c.build with
    | some exc =>
      have hcaught := c.caught exc hbuild
      simp only [hcaught, if_true]
      exact .failed hnew (by simp [hbuild])
    | none =>
      cases hstore : m.memoryStore with
      | none =>
        refine .rebuilt hbuild rfl rfl rfl fun i st => ?_
        rw [getElem?_concat_iff]
        exact or_congr_right (by simp [hstore, eq_comm])
      | some old =>
        obtain ⟨-, st₀, hst₀, -⟩ := hm old hstore
        have hold := (List.getElem?_eq_some_iff.mp hst₀).1
        refine .rebuilt hbuild rfl rfl rfl fun i st => ?_
        simp only [close, getElem?_modify_iff, getElem?_concat_iff, hstore, Option.some.injEq]
        constructor
        · rintro ⟨st₁, ⟨rfl, rfl⟩ | hst₁, rfl⟩
          · exact Or.inl ⟨rfl, if_neg (Nat.ne_of_lt hold)⟩
          · exact Or.inr ⟨st₁, hst₁, rfl⟩
        · rintro (⟨rfl, rfl⟩ | ⟨st₁, hst₁, rfl⟩)
          · exact ⟨_, Or.inl ⟨rfl, rfl⟩, (if_neg (Nat.ne_of_lt hold)).symm⟩
          · exact ⟨st₁, Or.inr hst₁, rfl⟩
  · rw [if_neg hnew]
    rw [not_or, not_not] at hnew
    obtain ⟨hstore, hpath⟩ := hnew
    obtain ⟨i, hi⟩ := Option.ne_none_iff_exists'.mp hstore
    rw [hi]
    exact .held hi hpath

/-! ## Every call -/

theorem consistent_call (hm : m.Consistent) (c : StoreCall) : (m.call c).2.Consistent := by
  have hcase := call_cases hm c
  generalize m.call c = r at hcase ⊢
  cases hcase with
  | degraded | held => exact hm
  | failed =>
    intro i hi
    cases hi
  | rebuilt hbuild hstore hpath hfailed hbuilt =>
    intro i hi
    cases hstore.symm.trans hi
    exact ⟨hfailed, _, (hbuilt _ _).mpr (Or.inl ⟨rfl, rfl⟩), hpath⟩

/-- **One call.** The open stores stay the one the module holds exactly where no construction
fails while it holds one. -/
theorem open_step (hm : m.Consistent) (ho : m.HoldsOpen) (c : StoreCall) :
    (m.call c).2.HoldsOpen ↔ m.Replaced c := by
  have hcase := call_cases hm c
  generalize m.call c = r at hcase ⊢
  cases hcase with
  | degraded hfailed =>
    refine iff_of_true ho fun hstore => ?_
    obtain ⟨i, hi⟩ := Option.ne_none_iff_exists'.mp hstore
    rw [(hm i hi).1] at hfailed
    cases hfailed
  | held _ hpath => exact iff_of_true ho fun _ hne => absurd hpath hne
  | failed hnew hbuild =>
    constructor
    · intro ho' hstore
      -- the store the module held is open, and it holds none
      obtain ⟨i, hi⟩ := Option.ne_none_iff_exists'.mp hstore
      obtain ⟨-, st, hst, -⟩ := hm i hi
      have hopen := (ho i st hst).mpr hi
      cases (ho' i st hst).mp hopen
    · intro hreplaced i st hst
      refine iff_of_false (fun hopen => ?_) (by simp)
      have hi := (ho i st hst).mp hopen
      have hne : m.memoryStore ≠ none := by simp [hi]
      exact hbuild (hreplaced hne (hnew.resolve_left hne))
  | rebuilt hbuild hstore hpath hfailed hbuilt =>
    refine iff_of_true (fun i st hst => ?_) fun _ _ => hbuild
    rw [hstore, Option.some.injEq]
    rcases (hbuilt i st).mp hst with ⟨rfl, rfl⟩ | ⟨st₀, hst₀, rfl⟩
    · simp
    · have hlt := (List.getElem?_eq_some_iff.mp hst₀).1
      refine iff_of_false ?_ (by omega)
      split
      · simp
      next hne =>
        intro hopen
        exact hne ((ho i st₀ hst₀).mp hopen)

/-! ## Sequences of calls -/

/-- A sequence of calls as a run. -/
def next (m : MemoryModule) (c : StoreCall) : Option MemoryModule := some (m.call c).2

theorem run_next (cs : List StoreCall) : run next {} cs = some (calls cs) := run_foldl ..

theorem calls_concat (cs : List StoreCall) (c : StoreCall) :
    calls (cs ++ [c]) = ((calls cs).call c).2 := by simp [calls]

theorem consistent_calls (cs : List StoreCall) : (calls cs).Consistent := by
  refine run_inv (I := Consistent) ?_ ?_ (run_next cs)
  · rintro m c m' hm hs
    cases hs
    exact consistent_call hm c
  · rintro i hi
    cases hi

theorem call_returned (hm : m.Consistent) (c : StoreCall) :
    (m.call c).1 = .ok none ∨ ∃ i st, (m.call c).1 = .ok (some i) ∧
      (m.call c).2.built[i]? = some st ∧ st.dbPath = c.memoryDbPath := by
  have hcase := call_cases hm c
  generalize m.call c = r at hcase ⊢
  cases hcase with
  | degraded | failed => exact Or.inl rfl
  | held hstore hpath =>
    obtain ⟨-, st, hst, hpath'⟩ := hm _ hstore
    exact Or.inr ⟨_, st, rfl, hst, Option.some.inj (hpath'.symm.trans hpath)⟩
  | rebuilt hbuild hstore hpath hfailed hbuilt =>
    exact Or.inr ⟨_, _, rfl, (hbuilt _ _).mpr (Or.inl ⟨rfl, rfl⟩), rfl⟩

/-- The module knows what to return for the path. -/
def Knows (m : MemoryModule) (path : String) : Prop :=
  m.memoryStoreFailedPath = some path ∨ m.memoryStore ≠ none ∧ m.memoryStorePath = some path

theorem knows_call (hm : m.Consistent) (c : StoreCall) : (m.call c).2.Knows c.memoryDbPath := by
  have hcase := call_cases hm c
  generalize m.call c = r at hcase ⊢
  cases hcase with
  | degraded hfailed => exact Or.inl hfailed
  | held hstore hpath => exact Or.inr ⟨by simp [hstore], hpath⟩
  | failed => exact Or.inl rfl
  | rebuilt _ hstore hpath => exact Or.inr ⟨by simp [hstore], hpath⟩

/-- Then a call changes nothing. -/
theorem Knows.call {c : StoreCall} (h : m.Knows c.memoryDbPath) : (m.call c).2 = m := by
  unfold MemoryModule.call getMemoryStore
  by_cases hfailed : m.memoryStoreFailedPath = some c.memoryDbPath
  · rw [if_pos hfailed]
  · obtain ⟨hstore, hpath⟩ := h.resolve_left hfailed
    rw [if_neg hfailed, if_neg (by simp [hstore, hpath])]

/--
**At most one store is open exactly when no construction fails behind a success.** For every
sequence of calls: every call returns `None` or a store built for its path, the store the module
holds is the only open one after every call, and a broken path is tried once in a row, if and only
if no construction fails while the module holds a store of another path.
-/
theorem one_store_iff (cs : List StoreCall) :
    OneStore cs ↔ ∀ pre c post, cs = pre ++ c :: post → (calls pre).Replaced c := by
  have hopen : (∀ pre post m, cs = pre ++ post → run next {} pre = some m → m.HoldsOpen) ↔
      Along next Replaced {} cs := by
    refine always_iff_along (J := Consistent) ?_ ?_ ?_ (run_next cs)
    · rintro m c m' hm hs
      cases hs
      exact ⟨consistent_call hm c, fun ho => open_step hm ho c⟩
    · exact consistent_calls []
    · rintro i st hst
      simp at hst
  rw [along_iff] at hopen
  simp only [run_next, Option.some.injEq] at hopen
  constructor
  · intro h pre c post he
    exact hopen.mp (fun pre post m he hm => hm ▸ h.holds pre post he) pre c post _ he rfl
  · intro h
    refine ⟨fun pre c post _ => ?_, fun pre post he => ?_, fun pre c d post _ hpath _ => ?_⟩
    · rw [calls_concat]
      exact call_returned (consistent_calls pre) c
    · exact hopen.mpr (fun pre c post m he hm => hm ▸ h pre c post he) pre post _ he rfl
    · have hknows := knows_call (consistent_calls pre) c
      rw [hpath] at hknows
      have happend : pre ++ [c, d] = (pre ++ [c]) ++ [d] := by simp
      rw [happend, calls_concat, calls_concat, hknows.call]

/-- A store is built, and the next path cannot be opened. -/
def brokenPath : List StoreCall :=
  [⟨"a.db", none, by simp⟩, ⟨"b.db", some .sqliteError, by simp [Exc.isException]⟩]

/-- The store of the first path stays open, and the module has lost it. -/
theorem brokenPath_leaks : ¬ OneStore brokenPath := by
  intro h
  have hopen := (h.holds brokenPath [] rfl 0 ⟨"a.db", false⟩ rfl).mp rfl
  cases hopen

end MemoryModule

end Livehost
