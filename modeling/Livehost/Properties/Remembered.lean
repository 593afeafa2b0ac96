import Livehost.Api.Control
import Livehost.Infra.Machine
import Livehost.Properties.CellText

/-!
# What the co-host remembers

Every handler's drain loop looks its events up in the one SQLite file, and every claim cleans the
file up. The note that an event carries into its turn is read off a cell that another session may
have written, days ago.

* `RoomServer` — the server and its file
* `recalled_step` — the file is the memory after all calls so far
* `remembered` — the notes, in every run of the server
-/

namespace Livehost

open Infra ViewerMemoryStore

variable {σ β F : Type} [PyJson F]

/-! ## The server and its file -/

/-- The server, and the file that its handlers share. -/
structure RoomServer (σ β F : Type) where
  server : Server σ β
  file : ViewerFile F
  /-- The `memory_id` of each handler's query. -/
  memoryId : Nat → String := fun _ => ""

/-- What happens; a step that uses the file has its own `time.time()`. -/
inductive RoomAct (β F : Type)
  /-- A handler claims its id, and cleans up where it got it. -/
  | accept (i : Nat) (config : StreamConfig) (memoryId : String) (retentionDays : Int) (wall : F)
  /-- A handler's drain loop takes an event. -/
  | drain (i : Nat) (now : Rat) (wall : F)
  | server (a : ServerAct β)

/-- The step of a handler that uses the file. -/
def ServerAct.usesFile : ServerAct β → Bool
  | .stream _ (.accept _) | .stream _ (.drain _ _) => true
  | _ => false

namespace RoomServer

/-- A fresh server on a fresh file. -/
def start (recentCommentsLimit : Int) : RoomServer σ β F :=
  { server := .start, file := { recentCommentsLimit } }

/-- The calls on the file, in the step. -/
def fileCalls (s : RoomServer σ β F) : RoomAct β F → List (ViewerFile.Call F)
  | .accept i config _ retentionDays wall =>
    if (s.server.registry.claim config.sessionId ⟨i, ownerOf config.userId⟩).1 then
      [.cleanup retentionDays wall]
    else []
  | .drain i _ wall =>
    let h := s.server.streams i
    match h.ingestor.queue with
    | event :: _ => [.noteAndRecord h.config.userId (s.memoryId i) event wall]
    | [] => []
  | .server _ => []

/-- The step of the server; the note on a drained event is what `note_and_record` returned. -/
def serverAct (s : RoomServer σ β F) : RoomAct β F → Option (ServerAct β)
  | .accept i config _ _ _ => some (.stream i (.accept config))
  | .drain i now wall =>
    let h := s.server.streams i
    match h.ingestor.queue with
    | event :: _ =>
      some (.stream i
        (.drain now (s.file.noteAndRecord h.config.userId (s.memoryId i) event wall).1))
    | [] => none
  | .server a => if a.usesFile then none else some a

def step [Score σ] [PyLower] (s : RoomServer σ β F) (a : RoomAct β F) :
    Option (RoomServer σ β F) := do
  let act ← s.serverAct a
  let server ← serverStep s.server act
  let file := (s.file.calls (s.fileCalls a)).2
  match a with
  | .accept i _ memoryId _ _ =>
    some { server, file, memoryId := Function.update s.memoryId i memoryId }
  | _ => some { s with server, file }

/-- What the steps are to the memory. -/
def recalled (s : RoomServer σ β F) (a : RoomAct β F) : List Call :=
  (s.fileCalls a).map ViewerFile.Call.onMemory

/-- What the steps are to the server. -/
def served (s : RoomServer σ β F) (a : RoomAct β F) : List (ServerAct β) := (s.serverAct a).toList

section

variable [Score σ] [PyLower] {s s' : RoomServer σ β F} {a : RoomAct β F}

theorem step_some (hs : s.step a = some s') :
    ∃ act, s.serverAct a = some act ∧ serverStep s.server act = some s'.server ∧
      s'.file = (s.file.calls (s.fileCalls a)).2 := by
  simp only [step, Option.bind_eq_bind, Option.bind_eq_some_iff] at hs
  obtain ⟨act, hact, server, hserver, hs⟩ := hs
  refine ⟨act, hact, ?_⟩
  cases a <;> cases hs <;> exact ⟨hserver, rfl⟩

/-! ## Runs -/

/-- **A step leaves the file in the memory's rows**, after the calls so far. -/
theorem recalled_step {limit : Int} {seen : List Call}
    (hi : Stored s.file ((ViewerMemoryStore.new limit).calls seen)) (hs : s.step a = some s') :
    Stored s'.file ((ViewerMemoryStore.new limit).calls (seen ++ s.recalled a)) := by
  obtain ⟨act, -, -, hfile⟩ := step_some hs
  rw [hfile, ViewerMemoryStore.calls, List.foldl_append]
  exact Stored.calls hi (s.fileCalls a)

/-- The server's part of a run is a run of the server. -/
theorem run_served {acts : List (RoomAct β F)} (h : run step s acts = some s') :
    run serverStep s.server (trace step served s acts) = some s'.server := by
  induction acts generalizing s with
  | nil =>
    cases h
    rfl
  | cons a acts ih =>
    obtain ⟨m, hm, hrest⟩ := run_cons_some.mp h
    obtain ⟨act, hact, hserver, -⟩ := step_some hm
    simp only [trace, hm, served, hact, Option.toList_some]
    exact run_cons_some.mpr ⟨m.server, hserver, ih hrest⟩

/-- Before each step of a run, the file is the memory after the calls so far. -/
theorem stored_run {limit : Int} {acts : List (RoomAct β F)}
    (h : run step (.start limit) acts = some s) :
    Stored s.file ((ViewerMemoryStore.new limit).calls
      (trace step recalled (.start limit : RoomServer σ β F) acts)) := by
  have hfresh : Stored (start limit : RoomServer σ β F).file
      ((ViewerMemoryStore.new limit).calls []) := ⟨rfl, .empty⟩
  exact run_trace_inv (I := fun s seen =>
      Stored s.file ((ViewerMemoryStore.new limit).calls seen))
    (fun _ _ _ _ hi hs => recalled_step hi hs) hfresh h

open Spec in
/--
**What the co-host remembers.** In every run of the server on a fresh file, with a window of at
least one comment and totals within SQLite's range: the server's part is a run of the server in
which every drained event carries the note of what its viewer did before, in whichever sessions of
the same owner and `memory_id`, since the last cleanup that found it expired.
-/
theorem remembered {n : Nat} {acts : List (RoomAct β F)}
    (h : run step (.start (n + 1)) acts = some s)
    (hfits : AlwaysFits (trace step recalled (.start (n + 1) : RoomServer σ β F) acts)) :
    run serverStep .start (trace step served (.start (n + 1) : RoomServer σ β F) acts) =
        some s.server ∧
      ∀ pre i now wall post (m : RoomServer σ β F) event queue,
        acts = pre ++ .drain i now wall :: post → run step (.start (n + 1)) pre = some m →
        (m.server.streams i).ingestor.queue = event :: queue →
        m.serverAct (.drain i now wall) = some (.stream i (.drain now (noteOf (history
          (keyOf (m.server.streams i).config.userId (m.memoryId i) event)
          (trace step recalled (.start (n + 1) : RoomServer σ β F) pre))))) := by
  refine ⟨run_served h, ?_⟩
  rintro pre i now wall post m event queue rfl hm hqueue
  -- the calls of the run are those before the step, that of the step, and the rest
  obtain ⟨m', hm', hrest⟩ := run_append_some.mp h
  cases hm.symm.trans hm'
  obtain ⟨m', hstep, -⟩ := run_cons_some.mp hrest
  have hcall : m.recalled (.drain i now wall) = [.noteAndRecord
      (m.server.streams i).config.userId (m.memoryId i) event (PyJson.value wall)] := by
    simp only [recalled, fileCalls, hqueue]
    rfl
  rw [trace_append hm, show trace step recalled m (.drain i now wall :: post) =
    m.recalled (.drain i now wall) ++ trace step recalled m' post by simp only [trace, hstep],
    hcall, ← List.append_assoc] at hfits
  have hbefore : AlwaysFits (trace step recalled (.start (n + 1) : RoomServer σ β F) pre) :=
    hfits.left.left
  have hnow := hfits _ _
    (keyOf (m.server.streams i).config.userId (m.memoryId i) event) rfl
  rw [history_concat, historyStep, if_pos rfl] at hnow
  -- the file answers as the memory does, and the memory from the history
  have hnote := (Stored.noteAndRecord (stored_run hm) (m.server.streams i).config.userId
    (m.memoryId i) event wall).1
  rw [((storeInv_calls n hbefore).note _ _ _ _ hnow).1] at hnote
  simp only [serverAct, hqueue, hnote]

end

/-! ## A viewer who comes back -/

/-- The events of a call with their times. -/
def noted : Call → List (SocialEvent × Rat)
  | .noteAndRecord _ _ event now => [(event, now)]
  | .cleanup _ _ => []

theorem history_sublist (key : ViewerKey) (cs : List Call) :
    (Spec.history key cs).Sublist (cs.flatMap noted) := by
  induction cs using List.reverseRecOn with
  | nil => exact .slnil
  | append_singleton cs c ih =>
    rw [Spec.history_concat, List.flatMap_append, List.flatMap_singleton]
    cases c with
    | noteAndRecord ownerKey memoryId event now =>
      simp only [Spec.historyStep]
      split
      · exact ih.append (.refl _)
      · exact ih.trans (List.sublist_append_left _ _)
    | cleanup retentionDays now =>
      simp only [Spec.historyStep]
      split
      · exact List.nil_sublist _
      · exact ih.trans (List.sublist_append_left _ _)

/-- Calls about comments only, of which there are not too many. -/
theorem alwaysFits_comments {cs : List Call}
    (hcomments : ∀ e ∈ cs.flatMap noted, e.1.kind = .comment)
    (hfew : (cs.flatMap noted).length < 2 ^ 63) : Spec.AlwaysFits cs := by
  rintro pre post key rfl
  have hsub : (Spec.history key pre).Sublist ((pre ++ post).flatMap noted) := by
    rw [List.flatMap_append]
    exact (history_sublist key pre).trans (List.sublist_append_left _ _)
  have hkind : ∀ e ∈ Spec.history key pre, e.1.kind = .comment := fun e he =>
    hcomments e (hsub.subset he)
  have hcount : Spec.comments (Spec.history key pre) ≤ (Spec.history key pre).length :=
    List.countP_le_length
  have hlength := hsub.length_le
  have hgifts : Spec.gifts (Spec.history key pre) = 0 :=
    List.countP_eq_zero.mpr fun e he => by simp [hkind e he]
  have htotal : Spec.giftTotal (Spec.history key pre) = 0 := by
    have hzero : (Spec.history key pre).map Spec.giftValue =
        (Spec.history key pre).map fun _ => (0 : Int) :=
      List.map_congr_left fun e he => by simp [Spec.giftValue, hkind e he]
    rw [Spec.giftTotal, hzero]
    simp
  refine ⟨⟨?_, ?_⟩, ?_, ?_⟩
  · omega
  · omega
  · rw [hgifts]
    decide
  · rw [htotal]
    decide

/-- Bao says something. -/
def baoSays (text : String) : SocialEvent :=
  { kind := .comment, userId := "bao", userName := "Bao", text }

theorem history_baoSays : Spec.history (keyOf "u1" "memory" (baoSays "hi"))
    [ .cleanup 30 0, .noteAndRecord "u1" "memory" (baoSays "xin chào") 1, .cleanup 30 86400 ] =
      [(baoSays "xin chào", 1)] := by
  have hfresh : ¬Spec.Expired (0 - (30 : Int) * 86400) [] := by simp [Spec.Expired]
  have hkept : ¬Spec.Expired (86400 - (30 : Int) * 86400) [(baoSays "xin chào", 1)] := by
    decide +kernel
  have hkey : keyOf "u1" "memory" (baoSays "xin chào") = keyOf "u1" "memory" (baoSays "hi") := rfl
  simp only [Spec.history, List.foldl_cons, List.foldl_nil, Spec.historyStep]
  rw [if_neg hfresh, if_pos hkey, List.nil_append, if_neg hkept]

/-- A session of the streamer's, up to an event in the handler's queue. -/
def sessionOf (i : Nat) (sessionId : String) (wall : Int) (event : SocialEvent) :
    List (RoomAct Unit WholeFloat) :=
  [ .accept i { sessionId, userId := "u1" } "memory" 30 ⟨wall⟩, .server (.stream i (.dialed 0)),
    .server (.request i (.connect "host") sessionId (some "ticket")),
    .server (.introspected i (some "u1")),
    .server (.stream i (.ingest (.run (.begin .returns)))),
    .server (.stream i (.ingest (.run (.connected true)))),
    .server (.stream i (.ingest (.run (.event event)))) ]

/-- Bao comments in one session, and a day later in another. -/
def baoReturns : List (RoomAct Unit WholeFloat) :=
  sessionOf 0 "monday" 0 (baoSays "xin chào") ++ [.drain 0 1 ⟨1⟩] ++
    sessionOf 1 "tuesday" 86400 (baoSays "hi")

/-- **The second session knows what was said in the first.** -/
theorem baoReturns_remembered : ∃ (_ : PyLower) (m : RoomServer Int Unit WholeFloat),
    run step (.start 5) baoReturns = some m ∧
      m.serverAct (.drain 1 2 ⟨86401⟩) = some (.stream 1 (.drain 2
        (some "đã bình luận 1 lần, lần trước nói: \"xin chào\""))) := by
  let lower : PyLower := ⟨id⟩
  have hrun : run step (.start 5 : RoomServer Int Unit WholeFloat)
      (baoReturns ++ [.drain 1 2 ⟨86401⟩]) = some _ := rfl
  have hcalls : trace step recalled (.start 5 : RoomServer Int Unit WholeFloat)
      (baoReturns ++ [.drain 1 2 ⟨86401⟩]) =
      [ .cleanup 30 0, .noteAndRecord "u1" "memory" (baoSays "xin chào") 1, .cleanup 30 86400,
        .noteAndRecord "u1" "memory" (baoSays "hi") 86401 ] := rfl
  obtain ⟨m, hm, -⟩ := run_append_some.mp hrun
  have hfits : Spec.AlwaysFits (trace step recalled (.start 5 : RoomServer Int Unit WholeFloat)
      (baoReturns ++ [.drain 1 2 ⟨86401⟩])) := by
    rw [hcalls]
    exact alwaysFits_comments (by decide) (by decide)
  refine ⟨lower, m, hm, ?_⟩
  have hnote := (remembered (n := 4) hrun hfits).2 baoReturns 1 2 ⟨86401⟩ [] m (baoSays "hi") []
    rfl hm (by cases hm; rfl)
  cases hm
  rw [hnote]
  exact congrArg (fun h => some (ServerAct.stream 1 (.drain 2 (Spec.noteOf h)))) history_baoSays

end RoomServer

end Livehost
