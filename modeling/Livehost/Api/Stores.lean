import Livehost.Api.Exits

/-!
# The memory stores of the module

`livehost/api/ws.py`: `_get_memory_store` with the stores told apart. A handler only asks whether
there is one (`Api/Exits.lean`); here a store is known by its number in the order of construction,
and remembers its path and whether `close()` was called.
-/

namespace Livehost

/-- A `ViewerMemoryStore` that was built. -/
structure BuiltStore where
  dbPath : String
  closed : Bool := false
  deriving DecidableEq, Repr

/-- The three globals, and what was done with the class so far. -/
structure MemoryModule where
  memoryStore : Option Nat := none
  memoryStorePath : Option String := none
  memoryStoreFailedPath : Option String := none
  built : List BuiltStore := []
  /-- How often `ViewerMemoryStore(...)` was called. -/
  constructions : Nat := 0
  deriving DecidableEq, Repr

namespace MemoryModule

/-- `ViewerMemoryStore(dbPath, ...)`, and what it raises. -/
def construct (m : MemoryModule) (dbPath : String) (build : Option Exc) :
    Except Exc Nat × MemoryModule :=
  let m := { m with constructions := m.constructions + 1 }
  match build with
  | some exc => (.error exc, m)
  | none => (.ok m.built.length, { m with built := m.built ++ [{ dbPath }] })

/-- `store.close()`. -/
def close (m : MemoryModule) (store : Nat) : MemoryModule :=
  { m with built := m.built.modify store fun st => { st with closed := true } }

/-- `_get_memory_store()` with `settings.memory_db_path`, and what the construction and
`old_store.close()` raise. -/
def getMemoryStore (m : MemoryModule) (currentPath : String) (build close : Option Exc) :
    Except Exc (Option Nat) × MemoryModule :=
  if m.memoryStoreFailedPath = some currentPath then (.ok none, m)
  else if m.memoryStore = none ∨ m.memoryStorePath ≠ some currentPath then
    let oldStore := m.memoryStore
    match m.construct currentPath build with
    | (.error exc, m) =>
      if exc.isException then
        (.ok none,
          { m with
            memoryStore := none
            memoryStorePath := none
            memoryStoreFailedPath := some currentPath })
      else (.error exc, m)
    | (.ok store, m) =>
      let m :=
        { m with
          memoryStore := some store
          memoryStorePath := some currentPath
          memoryStoreFailedPath := none }
      match oldStore, close with
      | some _, some exc => (.error exc, m)
      | some old, none => (.ok (some store), m.close old)
      | none, _ => (.ok (some store), m)
  else (.ok m.memoryStore, m)

/-- The globals as a handler sees them. -/
def globals (m : MemoryModule) : MemoryGlobals where
  store := m.memoryStore.isSome
  storePath := m.memoryStorePath
  failedPath := m.memoryStoreFailedPath

/-- **A handler's `_get_memory_store` is this one**, with the stores forgotten. -/
theorem getMemoryStore_globals (m : MemoryModule) (currentPath : String)
    (build close : Option Exc) :
    Livehost.getMemoryStore m.globals currentPath build close =
      ((m.getMemoryStore currentPath build close).1.map (·.isSome),
        (m.getMemoryStore currentPath build close).2.globals) := by
  unfold Livehost.getMemoryStore getMemoryStore globals construct
  by_cases hfailed : m.memoryStoreFailedPath = some currentPath
  · simp [hfailed, Except.map]
  rw [if_neg hfailed, if_neg hfailed]
  cases hstore : m.memoryStore <;> by_cases hpath : m.memoryStorePath = some currentPath <;>
    cases build <;> cases close <;>
    simp [hstore, hpath, Except.map, MemoryModule.close] <;>
    split <;> simp

end MemoryModule

/-- A call of `_get_memory_store`: the path configured, and what the construction would raise,
which is an `Exception`. -/
structure StoreCall where
  memoryDbPath : String
  build : Option Exc
  caught : ∀ exc ∈ build, exc.isException = true

namespace MemoryModule

def call (m : MemoryModule) (c : StoreCall) : Except Exc (Option Nat) × MemoryModule :=
  m.getMemoryStore c.memoryDbPath c.build none

/-- The module after the calls. -/
def calls (cs : List StoreCall) : MemoryModule := cs.foldl (fun m c => (m.call c).2) {}

end MemoryModule

end Livehost
