import Livehost.Infra.Percent
import Mathlib.Data.List.TakeWhile

/-!
# Query strings

A query string is a list of pairs `name=value` joined by `&`, with both sides percent-encoded and a
space perhaps written as `+`. Reading cuts the string at every `&` and each pair at its first `=`.

* `parseQsl_joinPairs` — reading undoes the joining, of any pairs without a separator
* `parseQsl_urlencode` — the pairs that `urlencode` writes are read back
* `formChar_urlencode` — what it writes consists of unreserved characters, `%`, `+`, `=` and `&`
* `unquotePlus_urlEscape` — so is what `encodeURIComponent` writes, also behind a URL parser
* `Spells` — a query that is written pair by pair, and what it is read as; `Spells.parse`
-/

namespace Livehost.Infra

/-! ## Names and values -/

def spaceToPlus (c : Char) : Char := if c = ' ' then '+' else c

def plusToSpace (c : Char) : Char := if c = '+' then ' ' else c

/-- Letters, digits and `_.-~`. -/
def unreserved (n : Nat) : Bool :=
  48 ≤ n && n ≤ 57 || 65 ≤ n && n ≤ 90 || 97 ≤ n && n ≤ 122 ||
    n == 95 || n == 46 || n == 45 || n == 126

/-- What Python's `quote` leaves alone where a space is safe. -/
def quoteSafe (b : UInt8) : Bool := unreserved b.toNat || b == 32

/-- Python's `urllib.parse.quote_plus`. -/
def quotePlus (s : List Char) : List Char :=
  (percentEncode quoteSafe s).map spaceToPlus

/-- `unquote` of a name or value of a form, where `+` is a space. -/
def unquotePlus (raw : List Char) : List Char := percentDecode (raw.map plusToSpace)

/-- What JavaScript's `encodeURIComponent` leaves alone: letters, digits and `-_.!~*'()`. -/
def componentSafe (b : UInt8) : Bool :=
  unreserved b.toNat || b == 33 || b == 39 || b == 40 || b == 41 || b == 42

/-- JavaScript's `encodeURIComponent`. -/
def encodeURIComponent (s : List Char) : List Char := percentEncode componentSafe s

/-! ## Pairs -/

/-- The pairs, joined. -/
def joinPairs (raws : List (List Char × List Char)) : List Char :=
  ['&'].intercalate (raws.map fun (name, value) => name ++ '=' :: value)

/-- Python's `urllib.parse.urlencode`. -/
def urlencode (items : List (List Char × List Char)) : List Char :=
  joinPairs (items.map fun (name, value) => (quotePlus name, quotePlus value))

/-- Both sides of the first `=`. -/
def cutPair (piece : List Char) : List Char × List Char :=
  (piece.takeWhile (· != '='), (piece.dropWhile (· != '=')).drop 1)

/-- Python's `urllib.parse.parse_qsl`, which keeps blank values. -/
def parseQsl (s : List Char) : List (List Char × List Char) :=
  ((s.splitOn '&').filter (!·.isEmpty)).map fun piece =>
    (unquotePlus (cutPair piece).1, unquotePlus (cutPair piece).2)

theorem joinPairs_cons_cons (raw raw' : List Char × List Char) (raws) :
    joinPairs (raw :: raw' :: raws) =
      (raw.1 ++ '=' :: raw.2) ++ '&' :: joinPairs (raw' :: raws) := by
  simp [joinPairs, List.intercalate]

theorem cutPair_join {name : List Char} (h : '=' ∉ name) (value : List Char) :
    cutPair (name ++ '=' :: value) = (name, value) := by
  have hname : ∀ c ∈ name, (c != '=') = true := fun c hc => by
    simp only [bne_iff_ne, ne_eq]
    rintro rfl
    exact h hc
  unfold cutPair
  rw [List.takeWhile_append_of_pos hname, List.dropWhile_append_of_pos hname]
  simp

/-- **Reading undoes the joining.** -/
theorem parseQsl_joinPairs {raws : List (List Char × List Char)}
    (h : ∀ raw ∈ raws, '&' ∉ raw.1 ∧ '=' ∉ raw.1 ∧ '&' ∉ raw.2) :
    parseQsl (joinPairs raws) = raws.map fun raw => (unquotePlus raw.1, unquotePlus raw.2) := by
  rcases eq_or_ne raws [] with rfl | hne
  · rfl
  · unfold parseQsl joinPairs
    rw [List.splitOn_intercalate '&' ?_ (by simpa using hne), List.filter_eq_self.mpr ?_,
      List.map_map]
    · refine List.map_congr_left fun raw hraw => ?_
      simp only [Function.comp_apply, cutPair_join (h raw hraw).2.1]
    · intro piece hpiece
      obtain ⟨raw, -, rfl⟩ := List.mem_map.mp hpiece
      simp
    · intro piece hpiece
      obtain ⟨raw, hraw, rfl⟩ := List.mem_map.mp hpiece
      simp [(h raw hraw).1, (h raw hraw).2.2]

/-! ## `urlencode` -/

theorem unreserved_hexValue {c : Char} (h : (hexValue c).isSome = true) :
    unreserved c.toNat = true := by
  have hn := hexValue_isSome h
  simp only [unreserved, Bool.or_eq_true, Bool.and_eq_true, decide_eq_true_eq, beq_iff_eq]
  omega

theorem unreserved_lt {n : Nat} (h : unreserved n = true) : n < 128 := by
  simp only [unreserved, Bool.or_eq_true, Bool.and_eq_true, decide_eq_true_eq, beq_iff_eq] at h
  omega

theorem readable_quoteSafe : Readable quoteSafe where
  ascii b hb := by
    simp only [quoteSafe, Bool.or_eq_true, beq_iff_eq] at hb
    rcases hb with hb | rfl
    · exact unreserved_lt hb
    · decide
  percent := by decide

/-- What is escaped but for the spaces. -/
theorem mem_quoteSafe {s : List Char} {c : Char} (h : c ∈ percentEncode quoteSafe s) :
    c = ' ' ∨ c = '%' ∨ unreserved c.toNat = true := by
  rcases mem_percentEncode h with hc | ⟨b, hb, rfl⟩
  · simp only [escapeChar, Bool.or_eq_true, beq_iff_eq] at hc
    exact Or.inr (hc.imp_right unreserved_hexValue)
  · simp only [quoteSafe, Bool.or_eq_true, beq_iff_eq] at hb
    rcases hb with hb | rfl
    · exact Or.inr (Or.inr (by rwa [toNat_ofNat_byte]))
    · exact Or.inl rfl

/-- **What `quotePlus` writes can be read.** -/
theorem unquotePlus_quotePlus (s : List Char) : unquotePlus (quotePlus s) = s := by
  unfold unquotePlus quotePlus
  rw [List.map_map, List.map_congr_left (g := id) fun c hc => ?_, List.map_id]
  · exact percentDecode_percentEncode readable_quoteSafe s
  · rcases mem_quoteSafe hc with rfl | rfl | hu
    · rfl
    · rfl
    · have hspace : c ≠ ' ' := by rintro rfl; cases hu
      have hplus : c ≠ '+' := by rintro rfl; cases hu
      simp [spaceToPlus, plusToSpace, hspace, hplus]

/-- An unreserved character, `%` or `+`. -/
def quotedChar (c : Char) : Bool := unreserved c.toNat || c == '%' || c == '+'

theorem quotedChar_quotePlus {s : List Char} {c : Char} (h : c ∈ quotePlus s) :
    quotedChar c = true := by
  obtain ⟨c, hc, rfl⟩ := List.mem_map.mp h
  rcases mem_quoteSafe hc with rfl | rfl | hu
  · rfl
  · rfl
  · have hspace : c ≠ ' ' := by rintro rfl; cases hu
    simp [spaceToPlus, quotedChar, hspace, hu]

theorem not_mem_quotePlus {s : List Char} {c : Char} (h : quotedChar c = false) :
    c ∉ quotePlus s := fun hc => by
  rw [quotedChar_quotePlus hc] at h
  cases h

/-- **The pairs that `urlencode` writes are read back.** -/
theorem parseQsl_urlencode (items : List (List Char × List Char)) :
    parseQsl (urlencode items) = items := by
  unfold urlencode
  rw [parseQsl_joinPairs, List.map_map]
  · simp [Function.comp_def, unquotePlus_quotePlus]
  · intro raw hraw
    obtain ⟨item, -, rfl⟩ := List.mem_map.mp hraw
    exact ⟨not_mem_quotePlus (by decide), not_mem_quotePlus (by decide),
      not_mem_quotePlus (by decide)⟩

/-- An unreserved character, `%`, `+`, `=` or `&`. -/
def formChar (c : Char) : Bool := quotedChar c || c == '=' || c == '&'

theorem mem_joinPairs {raws : List (List Char × List Char)} {c : Char} (h : c ∈ joinPairs raws) :
    c = '=' ∨ c = '&' ∨ ∃ raw ∈ raws, c ∈ raw.1 ∨ c ∈ raw.2 := by
  induction raws with
  | nil => cases h
  | cons raw raws ih =>
    have hraw : c ∈ raw.1 ++ '=' :: raw.2 →
        c = '=' ∨ c = '&' ∨ ∃ raw' ∈ raw :: raws, c ∈ raw'.1 ∨ c ∈ raw'.2 := by
      intro hc
      rcases List.mem_append.mp hc with hc | hc
      · exact Or.inr (Or.inr ⟨raw, List.mem_cons_self, Or.inl hc⟩)
      · rcases List.mem_cons.mp hc with rfl | hc
        · exact Or.inl rfl
        · exact Or.inr (Or.inr ⟨raw, List.mem_cons_self, Or.inr hc⟩)
    cases raws with
    | nil => exact hraw (by simpa [joinPairs] using h)
    | cons raw' raws =>
      rw [joinPairs_cons_cons] at h
      rcases List.mem_append.mp h with hc | hc
      · exact hraw hc
      · rcases List.mem_cons.mp hc with rfl | hc
        · exact Or.inr (Or.inl rfl)
        · exact (ih hc).imp_right (Or.imp_right fun ⟨r, hr, hm⟩ =>
            ⟨r, List.mem_cons_of_mem _ hr, hm⟩)

/-- **What `urlencode` writes** needs no escapes in a URL. -/
theorem formChar_urlencode {items : List (List Char × List Char)} {c : Char}
    (h : c ∈ urlencode items) : formChar c = true := by
  rcases mem_joinPairs h with rfl | rfl | ⟨raw, hraw, hc⟩
  · rfl
  · rfl
  · obtain ⟨item, -, rfl⟩ := List.mem_map.mp hraw
    rcases hc with hc | hc <;> simp [formChar, quotedChar_quotePlus hc]

/-! ## Behind a URL parser -/

/-- What a URL parser escapes in a query: controls and spaces, what is not ASCII, and `"#'<>`. -/
def queryEscaped (c : Char) : Bool :=
  let n := c.toNat
  n ≤ 32 || 127 ≤ n || n == 34 || n == 35 || n == 39 || n == 60 || n == 62

def urlEscape (s : List Char) : List Char :=
  s.flatMap fun c => if queryEscaped c then percentEncode (fun _ => false) [c] else [c]

/-- The query of a `http`, `https`, `ws` or `wss` URL as a URL parser leaves it: it ends where the
fragment begins, and some of its characters are escaped. Tabs, newlines and a space at the end of
the URL, which the parser removes before, are not in `s`. -/
def urlQuery (s : List Char) : List Char := urlEscape (s.takeWhile (· != '#'))

/-- What is left alone by both `encodeURIComponent` and the parser. -/
def querySafe (b : UInt8) : Bool := componentSafe b && b != 39

theorem readable_componentSafe : Readable componentSafe where
  ascii b hb := by
    simp only [componentSafe, Bool.or_eq_true, beq_iff_eq, or_assoc] at hb
    rcases hb with hb | rfl | rfl | rfl | rfl | rfl
    · exact unreserved_lt hb
    all_goals decide
  percent := by decide

theorem readable_querySafe : Readable querySafe where
  ascii b hb := readable_componentSafe.ascii b (by simp_all [querySafe])
  percent := by decide

/-- What `encodeURIComponent` writes: unreserved characters and `!'()*%`. -/
def componentChar (c : Char) : Bool :=
  unreserved c.toNat || c == '!' || c == '\'' || c == '(' || c == ')' || c == '*' || c == '%'

theorem componentChar_percentEncode {safe : UInt8 → Bool}
    (hsafe : ∀ b, safe b = true → componentSafe b = true) {s : List Char} {c : Char}
    (h : c ∈ percentEncode safe s) : componentChar c = true := by
  rcases mem_percentEncode h with hc | ⟨b, hb, rfl⟩
  · simp only [escapeChar, Bool.or_eq_true, beq_iff_eq] at hc
    rcases hc with rfl | hc
    · rfl
    · simp [componentChar, unreserved_hexValue hc]
  · have hb := hsafe b hb
    simp only [componentSafe, Bool.or_eq_true, beq_iff_eq, or_assoc] at hb
    rcases hb with hb | rfl | rfl | rfl | rfl | rfl
    · simp [componentChar, toNat_ofNat_byte, hb]
    all_goals decide

/-- A byte behind the parser: only an apostrophe is escaped there. -/
theorem urlEscape_writeByte (b : UInt8) :
    urlEscape (writeByte componentSafe b) = writeByte querySafe b := by
  have alone : ∀ c, queryEscaped c = false → urlEscape [c] = [c] := fun c hc => by
    simp [urlEscape, hc]
  by_cases hquote : b = 39
  · subst hquote
    decide
  · have hsafe : querySafe b = componentSafe b := by simp [querySafe, hquote]
    unfold writeByte
    rw [hsafe]
    split
    next hb =>
      refine alone _ ?_
      have hn : b.toNat ≠ 39 := fun hc => hquote (UInt8.toNat_inj.mp hc)
      simp only [componentSafe, Bool.or_eq_true, beq_iff_eq, or_assoc] at hb
      rcases hb with hb | rfl | rfl | rfl | rfl | rfl
      · simp only [unreserved, Bool.or_eq_true, Bool.and_eq_true, decide_eq_true_eq,
          beq_iff_eq] at hb
        simp only [queryEscaped, toNat_ofNat_byte, Bool.or_eq_false_iff, decide_eq_false_iff_not,
          beq_eq_false_iff_ne]
        omega
      all_goals first | decide | exact absurd rfl hn
    next =>
      have hlt := b.toNat_lt
      have hdigit : ∀ n < 16, queryEscaped (hexDigit n) = false := by decide
      have hpercent : queryEscaped '%' = false := by decide
      simp [urlEscape, hpercent, hdigit (b.toNat / 16) (by omega),
        hdigit (b.toNat % 16) (by omega)]

theorem urlQuery_eq {s : List Char} (h : '#' ∉ s) : urlQuery s = urlEscape s := by
  unfold urlQuery
  rw [List.takeWhile_eq_self_iff.mpr]
  intro c hc
  simp only [bne_iff_ne, ne_eq]
  rintro rfl
  exact h hc

theorem urlEscape_encodeURIComponent (s : List Char) :
    urlEscape (encodeURIComponent s) = percentEncode querySafe s := by
  unfold encodeURIComponent percentEncode
  induction utf8Bytes s with
  | nil => rfl
  | cons b bytes ih =>
    rw [List.flatMap_cons, List.flatMap_cons, ← urlEscape_writeByte, ← ih]
    exact List.flatMap_append ..

/-- **What `encodeURIComponent` writes can be read**, also behind a URL parser. -/
theorem unquotePlus_urlEscape (s : List Char) :
    unquotePlus (urlEscape (encodeURIComponent s)) = s := by
  rw [urlEscape_encodeURIComponent, unquotePlus, List.map_congr_left (g := id) fun c hc => ?_,
    List.map_id, percentDecode_percentEncode readable_querySafe]
  have hc := componentChar_percentEncode (fun b hb => by simp_all [querySafe]) hc
  have hplus : c ≠ '+' := by rintro rfl; cases hc
  exact if_neg hplus

theorem urlEscape_joinPairs (raws : List (List Char × List Char)) :
    urlEscape (joinPairs raws) =
      joinPairs (raws.map fun raw => (urlEscape raw.1, urlEscape raw.2)) := by
  have happend : ∀ s t, urlEscape (s ++ t) = urlEscape s ++ urlEscape t := fun s t =>
    List.flatMap_append ..
  have hpair : ∀ raw : List Char × List Char, urlEscape (raw.1 ++ '=' :: raw.2) =
      urlEscape raw.1 ++ '=' :: urlEscape raw.2 := fun raw => happend raw.1 ('=' :: raw.2)
  induction raws with
  | nil => rfl
  | cons raw raws ih =>
    cases raws with
    | nil => simpa [joinPairs] using hpair raw
    | cons raw' raws =>
      simp only [List.map_cons] at ih ⊢
      rw [joinPairs_cons_cons, joinPairs_cons_cons, happend, hpair, ← ih]
      rfl

/-! ## Pair by pair -/

/-- What can stand on a side of a pair: the parser leaves no separator in it. -/
structure Clean (raw : List Char) : Prop where
  fragment : '#' ∉ raw
  pair : '&' ∉ urlEscape raw
  sides : '=' ∉ urlEscape raw

/-- What a side is read as, behind the parser. -/
def sideText (raw : List Char) : List Char := unquotePlus (urlEscape raw)

/-- The query consists of pairs that are read as the items. -/
def Spells (s : List Char) (items : List (List Char × List Char)) : Prop :=
  ∃ raws, raws ≠ [] ∧ s = joinPairs raws ∧ (∀ raw ∈ raws, Clean raw.1 ∧ Clean raw.2) ∧
    raws.map (fun raw => (sideText raw.1, sideText raw.2)) = items

theorem Spells.one {name value : List Char} (hname : Clean name) (hvalue : Clean value) :
    Spells (name ++ '=' :: value) [(sideText name, sideText value)] :=
  ⟨[(name, value)], by simp, by simp [joinPairs], by simp [hname, hvalue], rfl⟩

theorem joinPairs_concat {raws : List (List Char × List Char)} (hne : raws ≠ [])
    (name value : List Char) : joinPairs (raws ++ [(name, value)]) =
      joinPairs raws ++ '&' :: (name ++ '=' :: value) := by
  induction raws with
  | nil => exact absurd rfl hne
  | cons raw raws ih =>
    cases raws with
    | nil => simp [joinPairs]
    | cons raw' raws =>
      simp only [List.cons_append] at ih ⊢
      rw [joinPairs_cons_cons, joinPairs_cons_cons, ih (by simp), ← List.cons_append,
        ← List.append_assoc]

/-- One more pair at the end. -/
theorem Spells.append {s name value : List Char} {items : List (List Char × List Char)}
    (h : Spells s items) (hname : Clean name) (hvalue : Clean value) :
    Spells (s ++ '&' :: (name ++ '=' :: value))
      (items ++ [(sideText name, sideText value)]) := by
  obtain ⟨raws, hne, rfl, hclean, rfl⟩ := h
  refine ⟨raws ++ [(name, value)], by simp, (joinPairs_concat hne name value).symm, ?_, by simp⟩
  intro raw hraw
  rcases List.mem_append.mp hraw with hraw | hraw
  · exact hclean raw hraw
  · rw [List.mem_singleton.mp hraw]
    exact ⟨hname, hvalue⟩

/-- **The items are what is read** behind the parser. -/
theorem Spells.parse {s : List Char} {items : List (List Char × List Char)} (h : Spells s items) :
    parseQsl (urlQuery s) = items := by
  obtain ⟨raws, -, rfl, hclean, rfl⟩ := h
  have hfragment : '#' ∉ joinPairs raws := by
    intro hc
    rcases mem_joinPairs hc with he | he | ⟨raw, hraw, hc | hc⟩
    · cases he
    · cases he
    · exact (hclean raw hraw).1.fragment hc
    · exact (hclean raw hraw).2.fragment hc
  rw [urlQuery_eq hfragment, urlEscape_joinPairs, parseQsl_joinPairs, List.map_map]
  · rfl
  · intro escaped hescaped
    obtain ⟨raw, hraw, rfl⟩ := List.mem_map.mp hescaped
    obtain ⟨hname, hvalue⟩ := hclean raw hraw
    exact ⟨hname.pair, hname.sides, hvalue.pair⟩

theorem clean_encodeURIComponent (s : List Char) : Clean (encodeURIComponent s) := by
  have hnot : ∀ {safe : UInt8 → Bool} {c : Char},
      (∀ b, safe b = true → componentSafe b = true) → componentChar c = false →
      c ∉ percentEncode safe s := fun hsafe hc hmem => by
    rw [componentChar_percentEncode hsafe hmem] at hc
    cases hc
  have hquery : ∀ b, querySafe b = true → componentSafe b = true := fun b hb => by
    simp_all [querySafe]
  refine ⟨hnot (fun _ => id) (by decide), ?_, ?_⟩
  · rw [urlEscape_encodeURIComponent]
    exact hnot hquery (by decide)
  · rw [urlEscape_encodeURIComponent]
    exact hnot hquery (by decide)

theorem sideText_encodeURIComponent (s : List Char) : sideText (encodeURIComponent s) = s :=
  unquotePlus_urlEscape s

/-- A character that neither the parser nor the reader changes, and that separates nothing. -/
def plainChar (c : Char) : Bool :=
  !queryEscaped c && c != '%' && c != '+' && c != '&' && c != '='

theorem urlEscape_plain {s : List Char} (h : s.all plainChar = true) : urlEscape s = s := by
  induction s with
  | nil => rfl
  | cons c s ih =>
    rw [List.all_cons, Bool.and_eq_true] at h
    have hc : queryEscaped c = false := by
      have hc := h.1
      simp only [plainChar, Bool.and_eq_true, Bool.not_eq_true', and_assoc] at hc
      exact hc.1
    rw [urlEscape, List.flatMap_cons, if_neg (by rw [hc]; decide)]
    exact congrArg _ (ih h.2)

theorem clean_plain {s : List Char} (h : s.all plainChar = true) : Clean s := by
  have hnot : ∀ {c}, plainChar c = false → c ∉ s := fun hc hmem => by
    rw [List.all_eq_true.mp h _ hmem] at hc
    cases hc
  refine ⟨hnot (by decide), ?_, ?_⟩
  · rw [urlEscape_plain h]
    exact hnot (by decide)
  · rw [urlEscape_plain h]
    exact hnot (by decide)

/-- A byte that no plain character is escaped to. -/
def plainSafe (b : UInt8) : Bool := b.toNat < 128 && b != 37

theorem sideText_plain {s : List Char} (h : s.all plainChar = true) : sideText s = s := by
  have hplus : s.map plusToSpace = s := by
    refine (List.map_congr_left (g := id) fun c hc => ?_).trans (List.map_id s)
    have hc := List.all_eq_true.mp h c hc
    refine if_neg ?_
    rintro rfl
    cases hc
  have hsafe : percentEncode plainSafe s = s := by
    refine percentEncode_safe fun c hc => ?_
    have hc := List.all_eq_true.mp h c hc
    simp only [plainChar, queryEscaped, Bool.and_eq_true, Bool.not_eq_true', bne_iff_ne, ne_eq,
      Bool.or_eq_false_iff, decide_eq_false_iff_not, and_assoc] at hc
    obtain ⟨-, hascii, -, -, -, -, -, hpercent, -⟩ := hc
    have hlt : c.toNat < 128 := by omega
    have hback : (UInt8.ofNat c.toNat).toNat = c.toNat :=
      UInt8.toNat_ofNat_of_lt' (Nat.lt_trans hlt (by decide))
    refine ⟨hlt, ?_⟩
    simp only [plainSafe, hback, hlt, decide_true, Bool.true_and, bne_iff_ne, ne_eq]
    intro hc
    refine hpercent (Char.toNat_inj.mp ?_)
    rw [← hback, hc]
    rfl
  have hreadable : Readable plainSafe := ⟨fun b hb => by simp_all [plainSafe], by decide⟩
  rw [sideText, urlEscape_plain h, unquotePlus, hplus]
  calc percentDecode s
      = percentDecode (percentEncode plainSafe s) := by rw [hsafe]
    _ = s := percentDecode_percentEncode hreadable s

end Livehost.Infra
