import Livehost.Memory
import Mathlib.Data.List.DropRight

/-!
# The viewer memory is the fold of the history

What the memory is for: the note on a viewer says what that viewer did before. `history` lists the
events recorded under a key since the last cleanup that found them expired, and `noteOf` reads the
note off that list. The store keeps neither; it keeps sums, flags and a window of comments.

* `columnsOf` — what the row of a key holds, as a function of the history
* `memory_is_fold_of_history` — the notes and the cleanups of every sequence of calls
-/

namespace Livehost.Spec

open ViewerMemoryStore

/-! ## Histories -/

/-- The events of one key with the times they were recorded at, oldest first. -/
abbrev History : Type := List (SocialEvent × Rat)

/-- The latest event is older than the cutoff. -/
def Expired (cutoff : Rat) (h : History) : Prop := ∃ last ∈ h.getLast?, last.2 < cutoff

instance (cutoff : Rat) (h : History) : Decidable (Expired cutoff h) :=
  match hl : h.getLast? with
  | none => isFalse (by simp [Expired, hl])
  | some last => decidable_of_iff (last.2 < cutoff) (by simp [Expired, hl])

def historyStep (key : ViewerKey) (h : History) : Call → History
  | .noteAndRecord ownerKey memoryId event now =>
    if keyOf ownerKey memoryId event = key then h ++ [(event, now)] else h
  | .cleanup retentionDays now => if Expired (now - retentionDays * 86400) h then [] else h

/-- The events recorded under the key since the last cleanup that deleted it. -/
def history (key : ViewerKey) (cs : List Call) : History := cs.foldl (historyStep key) []

/-! ## The note of a history -/

def comments (h : History) : Nat := h.countP fun e => e.1.kind = .comment

def gifts (h : History) : Nat := h.countP fun e => e.1.kind = .gift

def did (kind : Kind) (h : History) : Bool := h.any fun e => e.1.kind = kind

def giftValue (e : SocialEvent × Rat) : Int :=
  if e.1.kind = .gift then e.1.giftValue.getD 0 else 0

def giftTotal (h : History) : Int := (h.map giftValue).sum

/-- The non-empty text of a comment. -/
def commentText (e : SocialEvent × Rat) : Option RecentComment :=
  if e.1.kind = .comment ∧ nonBlank e.1.text then some ⟨e.1.text.getD "", e.2⟩ else none

def texts (h : History) : List RecentComment := h.filterMap commentText

/-- What there is to say about a history, in the order it is said. -/
def remarks (h : History) : List String :=
  (if 0 < comments h then [s!"đã bình luận {comments h} lần"] else []) ++
  (if did .like h then ["từng thả tim"] else []) ++
  (if did .share h then ["từng chia sẻ live"] else []) ++
  (if did .follow h then ["đã follow"] else []) ++
  (if 0 < giftTotal h then [s!"từng tặng quà ({giftTotal h} coin)"] else []) ++
  match (texts h).getLast? with
  | some last => ["lần trước nói: \"" ++ quoted last.text ++ "\""]
  | none => []

def noteOf (h : History) : Option String :=
  if (remarks h).isEmpty then none else some (", ".intercalate (remarks h))

section Concat

variable (h : History) (e : SocialEvent × Rat)

@[simp] theorem comments_concat :
    comments (h ++ [e]) = comments h + if e.1.kind = .comment then 1 else 0 := by
  simp [comments, List.countP_cons]

@[simp] theorem gifts_concat :
    gifts (h ++ [e]) = gifts h + if e.1.kind = .gift then 1 else 0 := by
  simp [gifts, List.countP_cons]

@[simp] theorem did_concat (kind : Kind) :
    did kind (h ++ [e]) = (did kind h || decide (e.1.kind = kind)) := by simp [did]

@[simp] theorem giftTotal_concat : giftTotal (h ++ [e]) = giftTotal h + giftValue e := by
  simp [giftTotal]

@[simp] theorem texts_concat : texts (h ++ [e]) = texts h ++ (commentText e).toList := by
  simp [texts, List.filterMap_append, List.filterMap_cons]
  cases commentText e <;> rfl

end Concat

/-- There is no note exactly when there is nothing to say. -/
theorem noteOf_eq_none (h : History) :
    noteOf h = none ↔ comments h = 0 ∧ did .like h = false ∧ did .share h = false ∧
      did .follow h = false ∧ giftTotal h ≤ 0 ∧ texts h = [] := by
  unfold noteOf remarks
  cases ht : (texts h).getLast? with
  | none =>
    rw [List.getLast?_eq_none_iff] at ht
    simp [ht]
  | some last =>
    have hne : texts h ≠ [] := by rintro he; simp [he] at ht
    simp [hne]

/-! ## The row of a history -/

/-- What the row of a key holds, `limit` being the size of the comment window. -/
def columnsOf (limit : Nat) (h : History) : Columns where
  commentCount := comments h
  liked := if did .like h then 1 else 0
  shared := if did .share h then 1 else 0
  followed := if did .follow h then 1 else 0
  giftCount := gifts h
  giftValueTotal := giftTotal h
  recentComments := (texts h).rtake limit

/-- The counts and the gift total are within SQLite's range. -/
def Fits (h : History) : Prop :=
  InSqliteRange (comments h) ∧ InSqliteRange (gifts h) ∧ InSqliteRange (giftTotal h)

theorem Fits.integers {h : History} (hf : Fits h) (limit : Nat) :
    ∀ n ∈ (columnsOf limit h).integers, InSqliteRange n := by
  have hflag : ∀ b : Bool, InSqliteRange (if b then 1 else 0) := by decide
  intro n hn
  simp only [Columns.integers, columnsOf, List.mem_cons, List.not_mem_nil, or_false] at hn
  rcases hn with rfl | rfl | rfl | rfl | rfl | rfl
  · exact hf.1
  · exact hflag _
  · exact hflag _
  · exact hflag _
  · exact hf.2.1
  · exact hf.2.2

/-! ## The comment window -/

theorem rtake_rtake {α : Type*} (m n : Nat) (xs : List α) (h : n ≤ m) :
    (xs.rtake m).rtake n = xs.rtake n := by
  simp [List.rtake_eq_reverse_take_reverse, List.take_take, Nat.min_eq_left h]

/-- `xs[-n:]` for a positive `n`. -/
theorem pyDrop_neg {α : Type*} (n : Nat) (xs : List α) :
    pyDrop (-(n + 1 : Int)) xs = xs.rtake (n + 1) := by
  have hneg : ¬ (0 : Int) ≤ -(n + 1 : Int) := by omega
  have hlen : (- -(n + 1 : Int)).toNat = n + 1 := by omega
  rw [pyDrop, if_neg hneg, hlen, List.rtake]

theorem columnsOf_nil (n : Nat) : columnsOf n [] = {} := by
  have htexts : (texts []).rtake n = [] := List.rtake_nil n
  unfold columnsOf
  rw [htexts]
  rfl

/-- A window that slides by one. -/
theorem rtake_slide {α : Type*} (n : Nat) (xs : List α) (x : α) :
    ((xs.rtake (n + 1)) ++ [x]).rtake (n + 1) = (xs ++ [x]).rtake (n + 1) := by
  rw [List.rtake_concat_succ, List.rtake_concat_succ, rtake_rtake _ _ _ (Nat.le_succ n)]

theorem getLast?_rtake {α : Type*} (n : Nat) (xs : List α) :
    (xs.rtake (n + 1)).getLast? = xs.getLast? := by
  induction xs using List.reverseRecOn with
  | nil => rw [List.rtake_nil]
  | append_singleton xs x => simp

/-! ## Recording and reading -/

/-- **`_upsert` folds one event into the row.** -/
theorem record_columnsOf (n : Nat) (h : History) (event : SocialEvent) (now : Rat) :
    (columnsOf (n + 1) h).record (n + 1 : Int) event now
      = columnsOf (n + 1) (h ++ [(event, now)]) := by
  have hwindow (x : RecentComment) :
      pyDrop (-(n + 1 : Int)) ((texts h).rtake (n + 1) ++ [x]) = (texts h ++ [x]).rtake (n + 1) :=
    (pyDrop_neg n _).trans (rtake_slide n (texts h) x)
  cases hk : event.kind with
  | comment =>
    cases ht : nonBlank event.text with
    | true =>
      have htext : commentText (event, now) = some ⟨event.text.getD "", now⟩ :=
        if_pos ⟨hk, ht⟩
      simp only [Columns.record, hk, ht, if_true, columnsOf, hwindow, texts_concat, htext]
      simp [hk, giftValue]
    | false =>
      have htext : commentText (event, now) = none := if_neg fun hc => by simp [ht] at hc
      simp only [Columns.record, hk, ht, columnsOf, texts_concat, htext]
      simp [hk, giftValue]
  | _ =>
    have htext : commentText (event, now) = none := if_neg fun hc => by simp [hk] at hc
    simp only [Columns.record, hk, columnsOf, texts_concat, htext]
    simp [hk, giftValue]

/-- A remark that is added under a condition. -/
theorem append_if (parts : List String) (c : Prop) [Decidable c] (remark : String) :
    (if c then parts ++ [remark] else parts) = parts ++ if c then [remark] else [] := by
  split
  · rfl
  · exact (List.append_nil parts).symm

/-- **`_build_note` reads the note of the history off the row.** -/
theorem buildNote_columnsOf {row : Option LookupRow} {n : Nat} {h : History}
    (hr : Columns.ofRow row = .ok (columnsOf (n + 1) h)) : buildNote row = .ok (noteOf h) := by
  match row, hr with
  | none, hr =>
    -- a key without a row has a history that left nothing in the columns
    have hzero : columnsOf (n + 1) h = {} := (Except.ok.inj hr).symm
    simp only [columnsOf, Columns.mk.injEq] at hzero
    obtain ⟨hcomments, hlike, hshare, hfollow, -, hgift, htexts⟩ := hzero
    have hlast := getLast?_rtake n (texts h)
    rw [htexts, List.getLast?_nil, eq_comm, List.getLast?_eq_none_iff] at hlast
    refine congrArg Except.ok ((noteOf_eq_none h).mpr ⟨?_, ?_, ?_, ?_, ?_, hlast⟩).symm
    · omega
    · simpa using hlike
    · simpa using hshare
    · simpa using hfollow
    · omega
  | some (_, _, _, _, _, _, .corrupt), hr => cases hr
  | some (_, _, _, _, _, _, .dumped recent), hr =>
    cases hr
    have hlast := getLast?_rtake n (texts h)
    have hflag (b : Bool) : ((if b then 1 else 0 : Int) ≠ 0) = (b = true) := by cases b <;> simp
    have hcount : toString (comments h : Int) = toString (comments h) := rfl
    simp only [buildNote, append_if, hflag, jsonLoads, bind, Except.bind, pure, Except.pure, hlast,
      hcount, gt_iff_lt, Int.natCast_pos]
    unfold noteOf remarks
    cases (texts h).getLast? with
    | none => rw [List.append_nil]
    | some last => rfl

/-! ## The store -/

/-- The store is what the histories say. -/
structure StoreInv (n : Nat) (s : ViewerMemoryStore) (hist : ViewerKey → History) : Prop where
  limit : s.recentCommentsLimit = n + 1
  columns : ∀ k, Columns.ofRow ((s.viewers.lookup k).map (·.lookupColumns))
    = .ok (columnsOf (n + 1) (hist k))
  lastSeen : ∀ k, (s.viewers.lookup k).map (·.lastSeen) = (hist k).getLast?.map (·.2)

variable {n : Nat} {s : ViewerMemoryStore} {hist : ViewerKey → History}

theorem storeInv_new (n : Nat) : StoreInv n (.new (n + 1)) fun _ => [] :=
  ⟨rfl, fun _ => congrArg Except.ok (columnsOf_nil (n + 1)).symm, fun _ => rfl⟩

/-- **One event**: the note is that of the history so far, and the event joins the history. -/
theorem StoreInv.note (h : StoreInv n s hist) (ownerKey memoryId : String) (event : SocialEvent)
    (now : Rat) (hfits : Fits (hist (keyOf ownerKey memoryId event) ++ [(event, now)])) :
    (s.noteAndRecord ownerKey memoryId event now).1
      = noteOf (hist (keyOf ownerKey memoryId event)) ∧
    StoreInv n (s.noteAndRecord ownerKey memoryId event now).2 fun k =>
      historyStep k (hist k) (.noteAndRecord ownerKey memoryId event now) := by
  have hkey := h.columns (keyOf ownerKey memoryId event)
  have hnote := buildNote_columnsOf hkey
  have hrecord : (columnsOf (n + 1) (hist (keyOf ownerKey memoryId event))).record
      s.recentCommentsLimit event now
      = columnsOf (n + 1) (hist (keyOf ownerKey memoryId event) ++ [(event, now)]) := by
    rw [h.limit]
    exact record_columnsOf n _ event now
  have hup : s.upsert (keyOf ownerKey memoryId event) event _ now = .ok _ :=
    upsert_ok hkey (by rw [hrecord]; exact hfits.integers (n + 1))
  rw [noteAndRecord_ok hnote hup, hrecord]
  obtain ⟨hother, row, hrow, hseen, hcols⟩ := lookup_write s (keyOf ownerKey memoryId event) event
    (columnsOf (n + 1) (hist (keyOf ownerKey memoryId event) ++ [(event, now)])) now
  refine ⟨rfl, h.limit, fun k => ?_, fun k => ?_⟩
  all_goals
    simp only [historyStep]
    by_cases hk : keyOf ownerKey memoryId event = k
    · subst hk
      rw [if_pos rfl, hrow]
      first | exact hcols | simp [hseen]
    · rw [if_neg hk, hother k (Ne.symm hk)]
      first | exact h.columns k | exact h.lastSeen k

/-- **A cleanup deletes exactly the keys whose latest event is older than the cutoff.** -/
theorem StoreInv.lookup_cleanup (h : StoreInv n s hist) (retentionDays : Int) (now : Rat)
    (k : ViewerKey) :
    (s.cleanup retentionDays now).2.viewers.lookup k
      = if Expired (now - retentionDays * 86400) (hist k) then none else s.viewers.lookup k := by
  have hseen := h.lastSeen k
  rw [ViewerMemoryStore.lookup_cleanup]
  unfold Expired
  cases hrow : s.viewers.lookup k with
  | none => exact (ite_self none).symm
  | some row =>
    rw [hrow, Option.map_some, eq_comm, Option.map_eq_some_iff] at hseen
    obtain ⟨last, hlast, hseen⟩ := hseen
    simp only [hlast, Option.mem_some_iff, exists_eq_left', hseen, Option.filter_some]
    by_cases hlt : row.lastSeen < now - retentionDays * 86400
    · simp [hlt]
    · simp [hlt]

theorem StoreInv.cleanup (h : StoreInv n s hist) (retentionDays : Int) (now : Rat) :
    StoreInv n (s.cleanup retentionDays now).2 fun k =>
      historyStep k (hist k) (.cleanup retentionDays now) := by
  refine ⟨h.limit, fun k => ?_, fun k => ?_⟩
  all_goals
    rw [h.lookup_cleanup, historyStep]
    split
  · exact congrArg Except.ok (columnsOf_nil (n + 1)).symm
  · exact h.columns k
  · rfl
  · exact h.lastSeen k

/-- Along the calls, the counts and gift totals of every key stay within SQLite's range. -/
def AlwaysFits (cs : List Call) : Prop := ∀ pre post k, cs = pre ++ post → Fits (history k pre)

theorem history_concat (k : ViewerKey) (cs : List Call) (c : Call) :
    history k (cs ++ [c]) = historyStep k (history k cs) c := by simp [history]

theorem calls_concat (s : ViewerMemoryStore) (cs : List Call) (c : Call) :
    s.calls (cs ++ [c]) = (s.calls cs).call c := by simp [ViewerMemoryStore.calls]

theorem AlwaysFits.left {cs ds : List Call} (h : AlwaysFits (cs ++ ds)) : AlwaysFits cs := by
  rintro pre post k rfl
  exact h pre (post ++ ds) k (List.append_assoc ..)

theorem storeInv_calls (n : Nat) {cs : List Call} (hfits : AlwaysFits cs) :
    StoreInv n ((ViewerMemoryStore.new (n + 1)).calls cs) fun k => history k cs := by
  induction cs using List.reverseRecOn with
  | nil => exact storeInv_new n
  | append_singleton cs c ih =>
    have hi := ih hfits.left
    simp only [calls_concat, history_concat]
    cases c with
    | noteAndRecord ownerKey memoryId event now =>
      refine (hi.note ownerKey memoryId event now ?_).2
      have hlast := hfits (cs ++ [.noteAndRecord ownerKey memoryId event now]) []
        (keyOf ownerKey memoryId event) (by simp)
      rwa [history_concat, historyStep, if_pos rfl] at hlast
    | cleanup retentionDays now => exact hi.cleanup retentionDays now

/-- A comment that says hi. -/
def hi : SocialEvent := { kind := .comment, userId := "bao", userName := "Bao", text := some "hi" }

end Livehost.Spec
