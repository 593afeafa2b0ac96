import Livehost.Infra.JsonString

/-!
# JSON text

A value is written on one line, with a space behind the separators or without. Reading allows white
space everywhere, and of several members of one name keeps the last value in the place of the first,
as a dictionary does. What is no number, or not finite, is a constant: it is written as a word that
not every reader takes.

* `readJson_writeJson` — what is written of a value is read as the value
* `readJson_proper` — the objects of what is read are dictionaries
* `readJson_lax` — a reader of the words reads what one without them reads
-/

namespace Livehost.Infra

/-- A value with floats of `F`; the members of an object in order. -/
inductive Json (F : Type)
  | null
  | bool (b : Bool)
  | int (n : Int)
  | float (x : F)
  | constant (c : JsonConstant)
  | str (s : String)
  | arr (items : List (Json F))
  | obj (members : List (String × Json F))

/-- How a text is read. -/
structure JsonDialect where
  /-- `NaN`, `Infinity` and `-Infinity` are values. -/
  constants : Bool
  /-- What half of a surrogate pair is read as, if it is read. -/
  lone : Option Char := none

variable {F : Type}

/-! ## Writing and reading -/

/-- `members[name] = x`. -/
def setMember (members : List (String × Json F)) (name : String) (x : Json F) :
    List (String × Json F) :=
  if members.any (·.1 == name) then
    members.map fun m => if m.1 == name then (name, x) else m
  else members ++ [(name, x)]

/-- The dictionary of the members. -/
def dictOf (members : List (String × Json F)) : List (String × Json F) :=
  members.foldl (fun dict m => setMember dict m.1 m.2) []

section

variable [JsonFloat F]

def itemSep (style : JsonStyle) : List Char := if style.spaced then [',', ' '] else [',']

def keySep (style : JsonStyle) : List Char := if style.spaced then [':', ' '] else [':']

mutual

/-- `json.dumps`. -/
def writeJson (style : JsonStyle) : Json F → List Char
  | .null => "null".toList
  | .bool true => "true".toList
  | .bool false => "false".toList
  | .int n => writeInt n
  | .float x => JsonFloat.text x
  | .constant c => c.word
  | .str s => writeString style s
  | .arr items => '[' :: writeItems style items
  | .obj members => '{' :: writeMembers style members

/-- What stands behind `[`. -/
def writeItems (style : JsonStyle) : List (Json F) → List Char
  | [] => [']']
  | x :: xs => writeJson style x ++ writeMoreItems style xs

def writeMoreItems (style : JsonStyle) : List (Json F) → List Char
  | [] => [']']
  | x :: xs => itemSep style ++ (writeJson style x ++ writeMoreItems style xs)

/-- What stands behind `{`. -/
def writeMembers (style : JsonStyle) : List (String × Json F) → List Char
  | [] => ['}']
  | (name, x) :: ms =>
    writeString style name ++ (keySep style ++ (writeJson style x ++ writeMoreMembers style ms))

def writeMoreMembers (style : JsonStyle) : List (String × Json F) → List Char
  | [] => ['}']
  | (name, x) :: ms => itemSep style ++ (writeString style name ++
      (keySep style ++ (writeJson style x ++ writeMoreMembers style ms)))

end

def isJsonSpace (c : Char) : Bool := c == ' ' || c == '\t' || c == '\n' || c == '\r'

def skipSpace (s : List Char) : List Char := s.dropWhile isJsonSpace

/-- The text behind a character, which white space may precede. -/
def expectChar (c : Char) (s : List Char) : Option (List Char) :=
  match skipSpace s with
  | d :: rest => if d = c then some rest else none
  | [] => none

/-- The text behind a word. -/
def expectWord (word s : List Char) : Option (List Char) :=
  if word.isPrefixOf s then some (s.drop word.length) else none

omit [JsonFloat F] in
def Json.ofNumber : Int ⊕ JsonConstant ⊕ F → Json F
  | .inl n => .int n
  | .inr (.inl c) => .constant c
  | .inr (.inr x) => .float x

omit [JsonFloat F] in
/-- The word of a constant at the head of the text. -/
def JsonDialect.readConstant (dialect : JsonDialect) (s : List Char) :
    Option (Json F × List Char) :=
  if dialect.constants then
    [.nan, .infinity, .negInfinity].findSome? fun c : JsonConstant =>
      (expectWord c.word s).map (.constant c, ·)
  else none

mutual

/-- The value at the head of the text; `fuel` bounds the length of what is read. -/
def JsonDialect.readValue (dialect : JsonDialect) :
    Nat → List Char → Option (Json F × List Char)
  | 0, _ => none
  | fuel + 1, s =>
    match skipSpace s with
    | [] => none
    | c :: rest =>
      if c = '"' then (readString dialect.lone rest).map fun (s, rest) => (.str s, rest)
      else if c = '[' then (dialect.readItems fuel rest).map fun (xs, rest) => (.arr xs, rest)
      else if c = '{' then
        (dialect.readMembers fuel rest).map fun (ms, rest) => (.obj (dictOf ms), rest)
      else if c = 'n' then (expectWord "ull".toList rest).map (.null, ·)
      else if c = 't' then (expectWord "rue".toList rest).map (.bool true, ·)
      else if c = 'f' then (expectWord "alse".toList rest).map (.bool false, ·)
      else
        ((readNumber (c :: rest)).map fun (number, rest) => (Json.ofNumber number, rest)).or
          (dialect.readConstant (c :: rest))

/-- The items behind `[`. -/
def JsonDialect.readItems (dialect : JsonDialect) :
    Nat → List Char → Option (List (Json F) × List Char)
  | 0, _ => none
  | fuel + 1, s =>
    match expectChar ']' s with
    | some rest => some ([], rest)
    | none => do
      let (x, rest) ← dialect.readValue fuel s
      let (xs, rest) ← dialect.readMoreItems fuel rest
      some (x :: xs, rest)

def JsonDialect.readMoreItems (dialect : JsonDialect) :
    Nat → List Char → Option (List (Json F) × List Char)
  | 0, _ => none
  | fuel + 1, s =>
    match expectChar ']' s with
    | some rest => some ([], rest)
    | none => do
      let rest ← expectChar ',' s
      let (x, rest) ← dialect.readValue fuel rest
      let (xs, rest) ← dialect.readMoreItems fuel rest
      some (x :: xs, rest)

/-- The members behind `{`. -/
def JsonDialect.readMembers (dialect : JsonDialect) :
    Nat → List Char → Option (List (String × Json F) × List Char)
  | 0, _ => none
  | fuel + 1, s =>
    match expectChar '}' s with
    | some rest => some ([], rest)
    | none => do
      let rest ← expectChar '"' s
      let (name, rest) ← readString dialect.lone rest
      let rest ← expectChar ':' rest
      let (x, rest) ← dialect.readValue fuel rest
      let (ms, rest) ← dialect.readMoreMembers fuel rest
      some ((name, x) :: ms, rest)

def JsonDialect.readMoreMembers (dialect : JsonDialect) :
    Nat → List Char → Option (List (String × Json F) × List Char)
  | 0, _ => none
  | fuel + 1, s =>
    match expectChar '}' s with
    | some rest => some ([], rest)
    | none => do
      let rest ← expectChar ',' s
      let rest ← expectChar '"' rest
      let (name, rest) ← readString dialect.lone rest
      let rest ← expectChar ':' rest
      let (x, rest) ← dialect.readValue fuel rest
      let (ms, rest) ← dialect.readMoreMembers fuel rest
      some ((name, x) :: ms, rest)

end

/-- One value, and white space. -/
def JsonDialect.readJson (dialect : JsonDialect) (s : List Char) : Option (Json F) := do
  let (x, rest) ← dialect.readValue (s.length + 1) s
  if skipSpace rest = [] then some x else none

end

/-! ## What is written is read -/

mutual

/-- The members of every object have distinct names, and only with `constants` are there any. -/
def Json.Proper (constants : Bool) : Json F → Prop
  | .constant _ => constants = true
  | .arr items => ProperItems constants items
  | .obj members => (members.map Prod.fst).Nodup ∧ ProperMembers constants members
  | _ => True

def ProperItems (constants : Bool) : List (Json F) → Prop
  | [] => True
  | x :: xs => x.Proper constants ∧ ProperItems constants xs

def ProperMembers (constants : Bool) : List (String × Json F) → Prop
  | [] => True
  | (_, x) :: ms => x.Proper constants ∧ ProperMembers constants ms

end

theorem dictOf_distinct {members : List (String × Json F)} (h : (members.map Prod.fst).Nodup) :
    dictOf members = members := by
  have hfold : ∀ ms dict : List (String × Json F), ((dict ++ ms).map Prod.fst).Nodup →
      ms.foldl (fun dict m => setMember dict m.1 m.2) dict = dict ++ ms := by
    intro ms
    induction ms with
    | nil => simp
    | cons m ms ih =>
      intro dict hnodup
      have hfresh : dict.any (·.1 == m.1) = false := by
        rw [List.map_append, List.map_cons, List.nodup_append] at hnodup
        refine List.any_eq_false.mpr fun d hd hname => ?_
        exact hnodup.2.2 d.1 (List.mem_map_of_mem hd) m.1 List.mem_cons_self (by simpa using hname)
      rw [List.foldl_cons, setMember, if_neg (by rw [hfresh]; decide)]
      rw [ih _ (by simpa using hnodup), List.append_assoc]
      rfl
  exact hfold members [] h

theorem skipSpace_cons {c : Char} (h : isJsonSpace c = false) (s : List Char) :
    skipSpace (c :: s) = c :: s := by simp [skipSpace, h]

theorem skipSpace_space (s : List Char) : skipSpace (' ' :: s) = skipSpace s := rfl

section

variable [JsonFloat F] {dialect : JsonDialect}

theorem readValue_space (fuel : Nat) (s : List Char) :
    dialect.readValue (F := F) fuel (' ' :: s) = dialect.readValue fuel s := by
  cases fuel with
  | zero => rfl
  | succ fuel => rw [JsonDialect.readValue, JsonDialect.readValue, skipSpace_space]

theorem expectChar_cons {c : Char} (h : isJsonSpace c = false) (s : List Char) :
    expectChar c (c :: s) = some s := by simp [expectChar, skipSpace_cons h]

theorem expectChar_ne {c d : Char} (h : isJsonSpace d = false) (hne : d ≠ c) (s : List Char) :
    expectChar c (d :: s) = none := by simp [expectChar, skipSpace_cons h, hne]

/-- Behind a separator, with its space or without. -/
theorem expectChar_itemSep (style : JsonStyle) (s : List Char) :
    ∃ t, expectChar ',' (itemSep style ++ s) = some t ∧ (t = s ∨ t = ' ' :: s) := by
  cases h : style.spaced <;> simp [itemSep, h, expectChar, skipSpace, isJsonSpace]

theorem expectChar_keySep (style : JsonStyle) (s : List Char) :
    ∃ t, expectChar ':' (keySep style ++ s) = some t ∧ (t = s ∨ t = ' ' :: s) := by
  cases h : style.spaced <;> simp [keySep, h, expectChar, skipSpace, isJsonSpace]

theorem expectChar_bracket_itemSep {style : JsonStyle} {c : Char} (h : ',' ≠ c) (s : List Char) :
    expectChar c (itemSep style ++ s) = none := by
  unfold itemSep
  split <;> exact expectChar_ne rfl h _

theorem expectChar_quote {s t : List Char} (h : t = s ∨ t = ' ' :: s) :
    expectChar '"' t = expectChar '"' s := by
  rcases h with rfl | rfl <;> rfl

theorem readValue_behind {s t : List Char} (h : t = s ∨ t = ' ' :: s) (fuel : Nat) :
    dialect.readValue (F := F) fuel t = dialect.readValue fuel s := by
  rcases h with rfl | rfl
  · rfl
  · exact readValue_space fuel s

/-- A number begins with a digit or a minus. -/
theorem writeInt_head (n : Int) : ∃ c t, writeInt n = c :: t ∧ isIntChar c = true := by
  have hchars := writeInt_chars n
  cases htext : writeInt n with
  | nil => exact absurd htext (writeInt_ne_nil n)
  | cons c t =>
    rw [htext] at hchars
    exact ⟨c, t, rfl, hchars c List.mem_cons_self⟩

theorem ne_of_isIntChar {c d : Char} (hc : isIntChar c = true) (hd : isIntChar d = false) :
    c ≠ d := by
  rintro rfl
  rw [hc] at hd
  cases hd

theorem isJsonSpace_isIntChar {c : Char} (h : isIntChar c = true) : isJsonSpace c = false := by
  simp [isJsonSpace, ne_of_isIntChar h (d := ' ') rfl, ne_of_isIntChar h (d := '\t') rfl,
    ne_of_isIntChar h (d := '\n') rfl, ne_of_isIntChar h (d := '\r') rfl]

/-- What begins as a number is read as one. -/
theorem readValue_number {c : Char} (hc : isIntChar c = true) {t rest : List Char}
    {number : Int ⊕ JsonConstant ⊕ F} (h : readNumber (c :: t) = some (number, rest)) (fuel : Nat) :
    dialect.readValue (fuel + 1) (c :: t) = some (Json.ofNumber number, rest) := by
  rw [JsonDialect.readValue, skipSpace_cons (isJsonSpace_isIntChar hc)]
  simp only [ne_of_isIntChar hc (d := '"') rfl, ne_of_isIntChar hc (d := '[') rfl,
    ne_of_isIntChar hc (d := '{') rfl, ne_of_isIntChar hc (d := 'n') rfl,
    ne_of_isIntChar hc (d := 't') rfl, ne_of_isIntChar hc (d := 'f') rfl, if_false, h]
  rfl

/-- What begins as the word of a constant is no number. -/
theorem readValue_constant (c : JsonConstant) (h : dialect.constants = true) (rest : List Char)
    (fuel : Nat) :
    dialect.readValue (fuel + 1) (c.word ++ rest) = some (Json.constant (F := F) c, rest) := by
  have hnumber := readNumber_constant (F := F) c rest
  have hconstant : dialect.readConstant (c.word ++ rest) =
      some (Json.constant (F := F) c, rest) := by
    rw [JsonDialect.readConstant, if_pos h]
    cases c <;> rfl
  have hvalue : dialect.readValue (F := F) (fuel + 1) (c.word ++ rest) =
      ((readNumber (c.word ++ rest)).map fun (number, rest) => (Json.ofNumber number, rest)).or
        (dialect.readConstant (c.word ++ rest)) := by
    cases c <;> rfl
  rw [hvalue, hnumber, hconstant]
  rfl

/-- A value begins with no white space and with no closing bracket. -/
theorem writeJson_head (style : JsonStyle) (x : Json F) :
    ∃ c t, writeJson style x = c :: t ∧ isJsonSpace c = false ∧ c ≠ ']' := by
  cases x with
  | null => exact ⟨'n', _, rfl, rfl, by decide⟩
  | bool b => cases b <;> exact ⟨_, _, rfl, rfl, by decide⟩
  | int n =>
    obtain ⟨c, t, htext, hc⟩ := writeInt_head n
    exact ⟨c, t, htext, isJsonSpace_isIntChar hc, ne_of_isIntChar hc rfl⟩
  | float x =>
    obtain ⟨c, t, htext, hc⟩ := JsonFloat.text_head x
    exact ⟨c, t, htext, isJsonSpace_isIntChar hc, ne_of_isIntChar hc rfl⟩
  | constant c => cases c <;> exact ⟨_, _, rfl, rfl, by decide⟩
  | str s => exact ⟨'"', _, rfl, rfl, by decide⟩
  | arr items => exact ⟨'[', _, rfl, rfl, by decide⟩
  | obj members => exact ⟨'{', _, rfl, rfl, by decide⟩

theorem expectChar_writeJson (style : JsonStyle) (x : Json F) (s : List Char) :
    expectChar ']' (writeJson style x ++ s) = none := by
  obtain ⟨c, t, htext, hspace, hne⟩ := writeJson_head style x
  rw [htext]
  exact expectChar_ne hspace hne _

theorem one_le_writeJson (style : JsonStyle) (x : Json F) : 1 ≤ (writeJson style x).length := by
  obtain ⟨c, t, htext, -⟩ := writeJson_head style x
  simp [htext]

theorem one_le_writeString (style : JsonStyle) (s : String) :
    1 ≤ (writeString style s).length := by simp [writeString]

theorem one_le_writeMoreItems (style : JsonStyle) (xs : List (Json F)) :
    1 ≤ (writeMoreItems style xs).length := by
  cases xs with
  | nil => exact Nat.le_refl _
  | cons x xs =>
    have hpos := one_le_writeJson style x
    simp only [writeMoreItems, List.length_append]
    omega

theorem noNumber_cons {c : Char} (h : isNumberChar c = false) (s : List Char) :
    NoNumber (c :: s) := by
  intro d hd
  cases hd
  exact h

theorem noNumber_writeMoreItems (style : JsonStyle) (xs : List (Json F)) (rest : List Char) :
    NoNumber (writeMoreItems style xs ++ rest) := by
  cases xs with
  | nil => exact noNumber_cons (by decide) _
  | cons x xs =>
    rw [writeMoreItems, itemSep]
    split <;> exact noNumber_cons (by decide) _

theorem noNumber_writeMoreMembers (style : JsonStyle) (ms : List (String × Json F))
    (rest : List Char) : NoNumber (writeMoreMembers style ms ++ rest) := by
  cases ms with
  | nil => exact noNumber_cons (by decide) _
  | cons m ms =>
    rw [writeMoreMembers, itemSep]
    split <;> exact noNumber_cons (by decide) _

theorem one_le_itemSep (style : JsonStyle) : 1 ≤ (itemSep style).length := by
  rw [itemSep]
  split <;> decide

mutual

theorem readValue_writeJson (style : JsonStyle) :
    ∀ (x : Json F) (fuel : Nat) (rest : List Char), x.Proper dialect.constants →
      (writeJson style x).length ≤ fuel → NoNumber rest →
      dialect.readValue fuel (writeJson style x ++ rest) = some (x, rest)
  | .null, 0, _, _, h, _ => absurd h (by simp [writeJson])
  | .null, fuel + 1, rest, _, _, _ => rfl
  | .bool b, 0, _, _, h, _ => by cases b <;> exact absurd h (by simp [writeJson])
  | .bool b, fuel + 1, rest, _, _, _ => by cases b <;> rfl
  | .int n, 0, _, _, h, _ => absurd h (by have := one_le_writeJson style (.int n : Json F); omega)
  | .int n, fuel + 1, rest, _, _, hrest => by
    obtain ⟨c, t, htext, hc⟩ := writeInt_head n
    have hread := readNumber_int (F := F) n hrest
    rw [htext, List.cons_append] at hread
    rw [writeJson, htext, List.cons_append, readValue_number hc hread]
    rfl
  | .float x, 0, _, _, h, _ =>
    absurd h (by have := one_le_writeJson style (.float x : Json F); omega)
  | .float x, fuel + 1, rest, _, _, hrest => by
    obtain ⟨c, t, htext, hc⟩ := JsonFloat.text_head x
    have hread := readNumber_float x hrest
    rw [htext, List.cons_append] at hread
    rw [writeJson, htext, List.cons_append, readValue_number hc hread]
    rfl
  | .constant c, 0, _, _, h, _ =>
    absurd h (by have := one_le_writeJson style (.constant c : Json F); omega)
  | .constant c, fuel + 1, rest, hx, _, _ => readValue_constant c hx rest fuel
  | .str s, 0, _, _, h, _ => absurd h (by simp [writeJson, writeString])
  | .str s, fuel + 1, rest, _, _, _ => by
    simp only [writeJson, writeString, List.cons_append, List.append_assoc, List.nil_append]
    rw [JsonDialect.readValue, skipSpace_cons rfl]
    simp only [if_true, readString_writeString]
    rfl
  | .arr items, 0, _, _, h, _ => absurd h (by simp [writeJson])
  | .arr items, fuel + 1, rest, hx, h, _ => by
    have hlength : (writeItems style items).length ≤ fuel := by
      rw [writeJson, List.length_cons] at h
      omega
    have hitems := readItems_writeItems style items fuel rest hx hlength
    rw [writeJson, List.cons_append, JsonDialect.readValue, skipSpace_cons rfl]
    simp only [hitems]
    rfl
  | .obj members, 0, _, _, h, _ => absurd h (by simp [writeJson])
  | .obj members, fuel + 1, rest, hx, h, _ => by
    have hlength : (writeMembers style members).length ≤ fuel := by
      rw [writeJson, List.length_cons] at h
      omega
    have hmembers := readMembers_writeMembers style members fuel rest hx.2 hlength
    rw [writeJson, List.cons_append, JsonDialect.readValue, skipSpace_cons rfl]
    simp only [hmembers, Option.map_some, dictOf_distinct hx.1]
    rfl

theorem readItems_writeItems (style : JsonStyle) :
    ∀ (xs : List (Json F)) (fuel : Nat) (rest : List Char), ProperItems dialect.constants xs →
      (writeItems style xs).length ≤ fuel →
      dialect.readItems fuel (writeItems style xs ++ rest) = some (xs, rest)
  | [], 0, _, _, h => absurd h (by simp [writeItems])
  | [], fuel + 1, rest, _, _ => rfl
  | x :: xs, 0, rest, hx, h => by
    obtain ⟨c, t, htext, -⟩ := writeJson_head style x
    simp [writeItems, htext] at h
  | x :: xs, fuel + 1, rest, hx, h => by
    have hmore := one_le_writeMoreItems style xs
    have hpos := one_le_writeJson style x
    rw [writeItems, List.length_append] at h
    have hvalue := readValue_writeJson style x fuel (writeMoreItems style xs ++ rest) hx.1
      (by omega) (noNumber_writeMoreItems style xs rest)
    have hitems := readMoreItems_writeMoreItems style xs fuel rest hx.2 (by omega)
    rw [writeItems, List.append_assoc, JsonDialect.readItems, expectChar_writeJson]
    simp only [hvalue, hitems, Option.bind_eq_bind, Option.bind_some]

theorem readMoreItems_writeMoreItems (style : JsonStyle) :
    ∀ (xs : List (Json F)) (fuel : Nat) (rest : List Char), ProperItems dialect.constants xs →
      (writeMoreItems style xs).length ≤ fuel →
      dialect.readMoreItems fuel (writeMoreItems style xs ++ rest) = some (xs, rest)
  | [], 0, _, _, h => absurd h (by simp [writeMoreItems])
  | [], fuel + 1, rest, _, _ => rfl
  | x :: xs, 0, rest, hx, h => by
    have hsep := one_le_itemSep style
    rw [writeMoreItems, List.length_append] at h
    omega
  | x :: xs, fuel + 1, rest, hx, h => by
    have hsep := one_le_itemSep style
    have hpos := one_le_writeJson style x
    rw [writeMoreItems, List.length_append, List.length_append] at h
    have hvalue := readValue_writeJson style x fuel (writeMoreItems style xs ++ rest) hx.1
      (by omega) (noNumber_writeMoreItems style xs rest)
    have hitems := readMoreItems_writeMoreItems style xs fuel rest hx.2 (by omega)
    obtain ⟨t, ht, hbehind⟩ := expectChar_itemSep style
      (writeJson style x ++ (writeMoreItems style xs ++ rest))
    rw [writeMoreItems, List.append_assoc, List.append_assoc, JsonDialect.readMoreItems,
      expectChar_bracket_itemSep (by decide)]
    simp only [ht, readValue_behind hbehind, hvalue, hitems, Option.bind_eq_bind,
      Option.bind_some]

theorem readMembers_writeMembers (style : JsonStyle) :
    ∀ (ms : List (String × Json F)) (fuel : Nat) (rest : List Char),
      ProperMembers dialect.constants ms →
      (writeMembers style ms).length ≤ fuel →
      dialect.readMembers fuel (writeMembers style ms ++ rest) = some (ms, rest)
  | [], 0, _, _, h => absurd h (by simp [writeMembers])
  | [], fuel + 1, rest, _, _ => rfl
  | (name, x) :: ms, 0, rest, hx, h => absurd h (by simp [writeMembers, writeString])
  | (name, x) :: ms, fuel + 1, rest, hx, h => by
    rw [writeMembers, List.length_append, List.length_append, List.length_append] at h
    have hname := one_le_writeString style name
    have hpos := one_le_writeJson style x
    have hvalue := readValue_writeJson style x fuel (writeMoreMembers style ms ++ rest) hx.1
      (by omega) (noNumber_writeMoreMembers style ms rest)
    have hmembers := readMoreMembers_writeMoreMembers style ms fuel rest hx.2 (by omega)
    obtain ⟨t, ht, hbehind⟩ := expectChar_keySep style
      (writeJson style x ++ (writeMoreMembers style ms ++ rest))
    simp only [writeMembers, writeString, List.cons_append, List.append_assoc, List.nil_append]
    rw [JsonDialect.readMembers, expectChar_ne rfl (by decide), expectChar_cons rfl]
    simp only [readString_writeString, ht, readValue_behind hbehind, hvalue, hmembers,
      Option.bind_eq_bind, Option.bind_some]

theorem readMoreMembers_writeMoreMembers (style : JsonStyle) :
    ∀ (ms : List (String × Json F)) (fuel : Nat) (rest : List Char),
      ProperMembers dialect.constants ms →
      (writeMoreMembers style ms).length ≤ fuel →
      dialect.readMoreMembers fuel (writeMoreMembers style ms ++ rest) = some (ms, rest)
  | [], 0, _, _, h => absurd h (by simp [writeMoreMembers])
  | [], fuel + 1, rest, _, _ => rfl
  | (name, x) :: ms, 0, rest, hx, h => by
    have hsep := one_le_itemSep style
    rw [writeMoreMembers, List.length_append] at h
    omega
  | (name, x) :: ms, fuel + 1, rest, hx, h => by
    rw [writeMoreMembers, List.length_append, List.length_append, List.length_append,
      List.length_append] at h
    have hsep := one_le_itemSep style
    have hname := one_le_writeString style name
    have hpos := one_le_writeJson style x
    have hvalue := readValue_writeJson style x fuel (writeMoreMembers style ms ++ rest) hx.1
      (by omega) (noNumber_writeMoreMembers style ms rest)
    have hmembers := readMoreMembers_writeMoreMembers style ms fuel rest hx.2 (by omega)
    obtain ⟨t, ht, hbehind⟩ := expectChar_keySep style
      (writeJson style x ++ (writeMoreMembers style ms ++ rest))
    obtain ⟨t', ht', hbehind'⟩ := expectChar_itemSep style (writeString style name ++
      (keySep style ++ (writeJson style x ++ (writeMoreMembers style ms ++ rest))))
    have hquote : expectChar '"' t' = some (name.toList.flatMap (writeChar style) ++
        '"' :: (keySep style ++ (writeJson style x ++ (writeMoreMembers style ms ++ rest)))) := by
      rw [expectChar_quote hbehind', writeString, List.cons_append, expectChar_cons rfl,
        List.append_assoc]
      rfl
    simp only [writeMoreMembers, List.append_assoc]
    rw [JsonDialect.readMoreMembers, expectChar_bracket_itemSep (by decide)]
    simp only [ht', hquote, readString_writeString, ht, readValue_behind hbehind, hvalue,
      hmembers, Option.bind_eq_bind, Option.bind_some]

end

/-- **What is written of a value is read as the value.** -/
theorem readJson_writeJson (style : JsonStyle) {x : Json F} (hx : x.Proper dialect.constants) :
    dialect.readJson (writeJson style x) = some x := by
  have hvalue := readValue_writeJson style x ((writeJson style x).length + 1) [] hx
    (Nat.le_succ _) (by simp [NoNumber])
  rw [List.append_nil] at hvalue
  rw [JsonDialect.readJson, hvalue]
  rfl

end

/-! ## What is read -/

theorem setMember_names (members : List (String × Json F)) (name : String) (x : Json F) :
    (setMember members name x).map Prod.fst =
      if name ∈ members.map Prod.fst then members.map Prod.fst
      else members.map Prod.fst ++ [name] := by
  have hany : members.any (·.1 == name) = true ↔ name ∈ members.map Prod.fst := by
    simp [List.any_eq_true]
  unfold setMember
  by_cases h : name ∈ members.map Prod.fst
  · rw [if_pos (hany.mpr h), if_pos h, List.map_map]
    refine List.map_congr_left fun m _ => ?_
    by_cases hm : m.1 = name <;> simp [hm]
  · rw [if_neg (fun hc => h (hany.mp hc)), if_neg h, List.map_append]
    rfl

theorem properMembers_iff {constants : Bool} {members : List (String × Json F)} :
    ProperMembers constants members ↔ ∀ m ∈ members, m.2.Proper constants := by
  induction members with
  | nil => simp [ProperMembers]
  | cons m members ih => simp [ProperMembers, ih]

theorem setMember_proper {constants : Bool} {members : List (String × Json F)} {name : String}
    {x : Json F}
    (hmembers : (Json.obj members).Proper constants) (hx : x.Proper constants) :
    (Json.obj (setMember members name x)).Proper constants := by
  obtain ⟨hnodup, hvalues⟩ := hmembers
  refine ⟨?_, properMembers_iff.mpr fun m hm => ?_⟩
  · rw [setMember_names]
    split
    · exact hnodup
    next hfresh => exact List.nodup_append.mpr ⟨hnodup, by simp, fun a ha b hb hab =>
        hfresh (List.mem_singleton.mp hb ▸ hab ▸ ha)⟩
  · have hvalues := properMembers_iff.mp hvalues
    unfold setMember at hm
    split at hm
    · obtain ⟨m', hm', rfl⟩ := List.mem_map.mp hm
      split
      · exact hx
      · exact hvalues m' hm'
    · rcases List.mem_append.mp hm with hm | hm
      · exact hvalues m hm
      · rw [List.mem_singleton.mp hm]
        exact hx

theorem dictOf_proper {constants : Bool} {members : List (String × Json F)}
    (h : ProperMembers constants members) : (Json.obj (dictOf members)).Proper constants := by
  have hfold : ∀ ms dict : List (String × Json F), ProperMembers constants ms →
      (Json.obj dict).Proper constants →
      (Json.obj (ms.foldl (fun dict m => setMember dict m.1 m.2) dict)).Proper constants := by
    intro ms
    induction ms with
    | nil => exact fun dict _ hdict => hdict
    | cons m ms ih => exact fun dict hms hdict => ih _ hms.2 (setMember_proper hdict hms.1)
  exact hfold members [] h ⟨List.nodup_nil, trivial⟩

theorem readConstant_some {dialect : JsonDialect} {s rest : List Char} {x : Json F}
    (h : dialect.readConstant s = some (x, rest)) : ∃ c, x = .constant c := by
  rw [JsonDialect.readConstant, Option.ite_none_right_eq_some] at h
  obtain ⟨c, -, hc⟩ := List.exists_of_findSome?_eq_some h.2
  obtain ⟨r, -, he⟩ := Option.map_eq_some_iff.mp hc
  cases he
  exact ⟨c, rfl⟩

section

variable [JsonFloat F] {dialect : JsonDialect}

/-- **What is read is a value whose objects are dictionaries.** -/
theorem read_proper (fuel : Nat) :
    (∀ s (x : Json F) rest, dialect.readValue fuel s = some (x, rest) → x.Proper true) ∧
    (∀ s (xs : List (Json F)) rest, dialect.readItems fuel s = some (xs, rest) →
      ProperItems true xs) ∧
    (∀ s (xs : List (Json F)) rest, dialect.readMoreItems fuel s = some (xs, rest) →
      ProperItems true xs) ∧
    (∀ s (ms : List (String × Json F)) rest, dialect.readMembers fuel s = some (ms, rest) →
      ProperMembers true ms) ∧
    ∀ s (ms : List (String × Json F)) rest, dialect.readMoreMembers fuel s = some (ms, rest) →
      ProperMembers true ms := by
  induction fuel with
  | zero =>
    refine ⟨?_, ?_, ?_, ?_, ?_⟩ <;> intro s x rest h <;> cases h
  | succ fuel ih =>
    obtain ⟨hvalue, hitems, hmoreItems, hmembers, hmoreMembers⟩ := ih
    refine ⟨fun s x rest h => ?_, fun s xs rest h => ?_, fun s xs rest h => ?_,
      fun s ms rest h => ?_, fun s ms rest h => ?_⟩
    · rw [JsonDialect.readValue] at h
      split at h
      · cases h
      next c t _ =>
        split at h
        · obtain ⟨⟨s, r⟩, -, he⟩ := Option.map_eq_some_iff.mp h
          cases he
          trivial
        split at h
        · obtain ⟨⟨xs, r⟩, hread, he⟩ := Option.map_eq_some_iff.mp h
          cases he
          exact hitems _ _ _ hread
        split at h
        · obtain ⟨⟨ms, r⟩, hread, he⟩ := Option.map_eq_some_iff.mp h
          cases he
          exact dictOf_proper (hmembers _ _ _ hread)
        iterate 3
          split at h
          · obtain ⟨r, -, he⟩ := Option.map_eq_some_iff.mp h
            cases he
            trivial
        rcases Option.or_eq_some_iff.mp h with h | ⟨-, h⟩
        · obtain ⟨⟨number, r⟩, -, he⟩ := Option.map_eq_some_iff.mp h
          cases he
          rcases number with n | c | x <;> trivial
        · obtain ⟨c, rfl⟩ := readConstant_some h
          rfl
    · rw [JsonDialect.readItems] at h
      split at h
      · cases h
        trivial
      · simp only [Option.bind_eq_bind, Option.bind_eq_some_iff] at h
        obtain ⟨⟨x, r⟩, hx, ⟨xs, r'⟩, hxs, he⟩ := h
        cases he
        exact ⟨hvalue _ _ _ hx, hmoreItems _ _ _ hxs⟩
    · rw [JsonDialect.readMoreItems] at h
      split at h
      · cases h
        trivial
      · simp only [Option.bind_eq_bind, Option.bind_eq_some_iff] at h
        obtain ⟨t, -, ⟨x, r⟩, hx, ⟨xs, r'⟩, hxs, he⟩ := h
        cases he
        exact ⟨hvalue _ _ _ hx, hmoreItems _ _ _ hxs⟩
    · rw [JsonDialect.readMembers] at h
      split at h
      · cases h
        trivial
      · simp only [Option.bind_eq_bind, Option.bind_eq_some_iff] at h
        obtain ⟨t, -, ⟨name, r⟩, -, t', -, ⟨x, r'⟩, hx, ⟨ms, r''⟩, hms, he⟩ := h
        cases he
        exact ⟨hvalue _ _ _ hx, hmoreMembers _ _ _ hms⟩
    · rw [JsonDialect.readMoreMembers] at h
      split at h
      · cases h
        trivial
      · simp only [Option.bind_eq_bind, Option.bind_eq_some_iff] at h
        obtain ⟨t, -, t', -, ⟨name, r⟩, -, t'', -, ⟨x, r'⟩, hx, ⟨ms, r''⟩, hms, he⟩ := h
        cases he
        exact ⟨hvalue _ _ _ hx, hmoreMembers _ _ _ hms⟩

theorem readJson_proper {s : List Char} {x : Json F} (h : dialect.readJson s = some x) :
    x.Proper true := by
  simp only [JsonDialect.readJson, Option.bind_eq_bind, Option.bind_eq_some_iff] at h
  obtain ⟨⟨y, rest⟩, hread, h⟩ := h
  rw [Option.ite_none_right_eq_some] at h
  cases h.2
  exact (read_proper _).1 _ _ _ hread

end

/-! ## Two dialects -/

/-- What is read in `a` is read in `b`. -/
def ReadAlso {α : Type} (a b : Option α) : Prop := ∀ r, a = some r → b = some r

namespace ReadAlso

variable {α α' : Type} {a b : Option α}

theorem refl (a : Option α) : ReadAlso a a := fun _ h => h

theorem map (h : ReadAlso a b) (f : α → α') : ReadAlso (a.map f) (b.map f) := by
  intro r hr
  obtain ⟨x, hx, rfl⟩ := Option.map_eq_some_iff.mp hr
  rw [h x hx]
  rfl

theorem bind (h : ReadAlso a b) {f g : α → Option α'} (hfg : ∀ x, ReadAlso (f x) (g x)) :
    ReadAlso (a >>= f) (b >>= g) := by
  intro r hr
  obtain ⟨x, hx, hr⟩ := Option.bind_eq_some_iff.mp hr
  rw [h x hx]
  exact hfg x r hr

theorem ite {p : Prop} [Decidable p] {a' b' : Option α} (h : ReadAlso a b)
    (h' : ReadAlso a' b') : ReadAlso (if p then a else a') (if p then b else b') := by
  split
  · exact h
  · exact h'

/-- An alternative is one of the second reader's only. -/
theorem alternative (a b : Option α) : ReadAlso (a.or none) (a.or b) := by
  intro r hr
  rw [Option.or_none] at hr
  rw [hr]
  rfl

end ReadAlso

section

variable [JsonFloat F]

/-- **A reader that takes the words of the constants** reads what one without them reads, as the
same. -/
theorem read_lax (lone : Option Char) (fuel : Nat) :
    (∀ s, ReadAlso ((⟨false, lone⟩ : JsonDialect).readValue (F := F) fuel s)
      ((⟨true, lone⟩ : JsonDialect).readValue fuel s)) ∧
    (∀ s, ReadAlso ((⟨false, lone⟩ : JsonDialect).readItems (F := F) fuel s)
      ((⟨true, lone⟩ : JsonDialect).readItems fuel s)) ∧
    (∀ s, ReadAlso ((⟨false, lone⟩ : JsonDialect).readMoreItems (F := F) fuel s)
      ((⟨true, lone⟩ : JsonDialect).readMoreItems fuel s)) ∧
    (∀ s, ReadAlso ((⟨false, lone⟩ : JsonDialect).readMembers (F := F) fuel s)
      ((⟨true, lone⟩ : JsonDialect).readMembers fuel s)) ∧
    ∀ s, ReadAlso ((⟨false, lone⟩ : JsonDialect).readMoreMembers (F := F) fuel s)
      ((⟨true, lone⟩ : JsonDialect).readMoreMembers fuel s) := by
  induction fuel with
  | zero => exact ⟨fun _ => .refl _, fun _ => .refl _, fun _ => .refl _, fun _ => .refl _,
      fun _ => .refl _⟩
  | succ fuel ih =>
    obtain ⟨hvalue, hitems, hmoreItems, hmembers, hmoreMembers⟩ := ih
    refine ⟨fun s => ?_, fun s => ?_, fun s => ?_, fun s => ?_, fun s => ?_⟩
    · rw [JsonDialect.readValue, JsonDialect.readValue]
      cases skipSpace s with
      | nil => exact .refl _
      | cons c rest =>
        refine .ite (.refl _) (.ite ((hitems rest).map _) (.ite ((hmembers rest).map _) ?_))
        exact .ite (.refl _) (.ite (.refl _) (.ite (.refl _) (.alternative _ _)))
    · rw [JsonDialect.readItems, JsonDialect.readItems]
      cases expectChar ']' s with
      | some rest => exact .refl _
      | none => exact (hvalue s).bind fun x => (hmoreItems x.2).bind fun _ => .refl _
    · rw [JsonDialect.readMoreItems, JsonDialect.readMoreItems]
      cases expectChar ']' s with
      | some rest => exact .refl _
      | none =>
        refine (ReadAlso.refl _).bind fun rest => (hvalue rest).bind fun x => ?_
        exact (hmoreItems x.2).bind fun _ => .refl _
    · rw [JsonDialect.readMembers, JsonDialect.readMembers]
      cases expectChar '}' s with
      | some rest => exact .refl _
      | none =>
        refine (ReadAlso.refl _).bind fun rest => (ReadAlso.refl _).bind fun name => ?_
        refine (ReadAlso.refl _).bind fun rest => (hvalue rest).bind fun x => ?_
        exact (hmoreMembers x.2).bind fun _ => .refl _
    · rw [JsonDialect.readMoreMembers, JsonDialect.readMoreMembers]
      cases expectChar '}' s with
      | some rest => exact .refl _
      | none =>
        refine (ReadAlso.refl _).bind fun rest => (ReadAlso.refl _).bind fun rest => ?_
        refine (ReadAlso.refl _).bind fun name => (ReadAlso.refl _).bind fun rest => ?_
        exact (hvalue rest).bind fun x => (hmoreMembers x.2).bind fun _ => .refl _

theorem readJson_lax {lone : Option Char} {s : List Char} {x : Json F}
    (h : (⟨false, lone⟩ : JsonDialect).readJson s = some x) :
    (⟨true, lone⟩ : JsonDialect).readJson s = some x :=
  ((read_lax lone (s.length + 1)).1 s).bind (fun _ => .refl _) x h

end

end Livehost.Infra
