import Livehost.Infra.Percent

/-!
# JSON strings and numbers

A string is written without line breaks, with every character that is not ASCII as an escape or as
it is. Reading joins the two halves of a surrogate pair.

A number without a fraction and an exponent is an integer. The others are of a type of floats, with
the text that is written of one and the reading of such a text; one that is too large for a float is
read as an infinity. A string is one of Unicode characters. What half of a surrogate pair is read as
is up to the reader.

* `readString_writeString` — what is written of a string is read as the string
* `readNumber_int`, `readNumber_float` — and of a number as the number
-/

namespace Livehost.Infra

/-- How a value is written: with a space behind `,` and `:`, in ASCII. -/
structure JsonStyle where
  spaced : Bool
  ascii : Bool

/-! ## Strings -/

/-- The UTF-16 code units of a character. -/
def utf16Units (n : Nat) : List Nat :=
  if n < 0x10000 then [n] else [0xd800 + (n - 0x10000) / 0x400, 0xdc00 + (n - 0x10000) % 0x400]

def lowerHexDigit (n : Nat) : Char := Char.ofNat (if n < 10 then 48 + n else 87 + n)

/-- `\uXXXX`. -/
def writeUnit (u : Nat) : List Char :=
  ['\\', 'u', lowerHexDigit (u / 4096), lowerHexDigit (u / 256 % 16), lowerHexDigit (u / 16 % 16),
    lowerHexDigit (u % 16)]

/-- What stands behind the backslash of a short escape. -/
def shortEscape : Char → Option Char
  | '"' => some '"'
  | '\\' => some '\\'
  | '\x08' => some 'b'
  | '\x0c' => some 'f'
  | '\n' => some 'n'
  | '\r' => some 'r'
  | '\t' => some 't'
  | _ => none

/-- The character needs an escape other than a short one. -/
def JsonStyle.escapes (style : JsonStyle) (c : Char) : Bool :=
  c.toNat < 32 || style.ascii && 127 ≤ c.toNat

def writeChar (style : JsonStyle) (c : Char) : List Char :=
  match shortEscape c with
  | some e => ['\\', e]
  | none => if style.escapes c then (utf16Units c.toNat).flatMap writeUnit else [c]

def writeString (style : JsonStyle) (s : String) : List Char :=
  '"' :: (s.toList.flatMap (writeChar style) ++ ['"'])

/-- What an escape of one character stands for. -/
def escapedUnit : Char → Option Nat
  | '"' => some 34
  | '\\' => some 92
  | '/' => some 47
  | 'b' => some 8
  | 'f' => some 12
  | 'n' => some 10
  | 'r' => some 13
  | 't' => some 9
  | _ => none

def hexUnit (a b c d : Char) : Option Nat := do
  let a ← hexValue a
  let b ← hexValue b
  let c ← hexValue c
  let d ← hexValue d
  some (4096 * a + 256 * b + 16 * c + d)

/-- The unit that an escape stands for, and how many characters it has behind `\`. -/
def escapeUnit : List Char → Option (Nat × Nat)
  | [] => none
  | e :: rest =>
    if e = 'u' then
      match rest with
      | a :: b :: c :: d :: _ => (hexUnit a b c d).map (·, 5)
      | _ => none
    else (escapedUnit e).map (·, 1)

/-- The code units behind the first `skip` characters, up to the closing quotation mark, and what is
behind it. A character that is not escaped counts as one unit. -/
def readUnitsFrom : Nat → List Char → Option (List Nat × List Char)
  | _, [] => none
  | skip + 1, _ :: rest => readUnitsFrom skip rest
  | 0, c :: rest =>
    if c = '"' then some ([], rest)
    else if c = '\\' then do
      let (u, skip) ← escapeUnit rest
      let (us, rest) ← readUnitsFrom skip rest
      some (u :: us, rest)
    else if c.toNat < 32 then none
    else do
      let (us, rest) ← readUnitsFrom 0 rest
      some (c.toNat :: us, rest)

/-- The code units up to the closing quotation mark, and what is behind it. -/
def readUnits (s : List Char) : Option (List Nat × List Char) := readUnitsFrom 0 s

def highSurrogate (u : Nat) : Bool := 0xd800 ≤ u && u < 0xdc00

def lowSurrogate (u : Nat) : Bool := 0xdc00 ≤ u && u < 0xe000

/-- The characters of the units behind the first half of a pair, if there is one; a half alone is
read as `lone`, if it is read. -/
def joinUnitsFrom (lone : Option Char) : Option Nat → List Nat → Option (List Char)
  | none, [] => some []
  | some _, [] => lone.map ([·])
  | some high, u :: rest =>
    if lowSurrogate u then
      (joinUnitsFrom lone none rest).map
        (Char.ofNat (0x10000 + 0x400 * (high - 0xd800) + (u - 0xdc00)) :: ·)
    else do
      let c ← lone
      let cs ← if highSurrogate u then joinUnitsFrom lone (some u) rest
        else (joinUnitsFrom lone none rest).map (Char.ofNat u :: ·)
      some (c :: cs)
  | none, u :: rest =>
    if highSurrogate u then joinUnitsFrom lone (some u) rest
    else if lowSurrogate u then do
      let c ← lone
      let cs ← joinUnitsFrom lone none rest
      some (c :: cs)
    else (joinUnitsFrom lone none rest).map (Char.ofNat u :: ·)

/-- The characters of the units. -/
def joinUnits (lone : Option Char) (us : List Nat) : Option (List Char) :=
  joinUnitsFrom lone none us

/-- The string up to the closing quotation mark. -/
def readString (lone : Option Char) (s : List Char) : Option (String × List Char) := do
  let (us, rest) ← readUnits s
  let cs ← joinUnits lone us
  some (String.ofList cs, rest)

/-- The units that the written character is read as. -/
def unitsOf (style : JsonStyle) (c : Char) : List Nat :=
  if (shortEscape c).isNone && style.escapes c then utf16Units c.toNat else [c.toNat]

theorem hexValue_lowerHexDigit : ∀ n < 16, hexValue (lowerHexDigit n) = some n := by decide

theorem readUnits_escape {s rest : List Char} {u : Nat} (skip : Nat)
    (h : escapeUnit s = some (u, skip)) (hskip : readUnitsFrom skip s = readUnits rest) :
    readUnits ('\\' :: s) = (readUnits rest).map fun (us, rest) => (u :: us, rest) := by
  rw [readUnits, readUnitsFrom, if_neg (by decide), if_pos rfl, h]
  simp only [Option.bind_eq_bind, Option.bind_some, hskip]
  cases readUnits rest <;> rfl

theorem readUnits_writeUnit {u : Nat} (h : u < 0x10000) (rest : List Char) :
    readUnits (writeUnit u ++ rest) =
      (readUnits rest).map fun (us, rest) => (u :: us, rest) := by
  have hunit : hexUnit (lowerHexDigit (u / 4096)) (lowerHexDigit (u / 256 % 16))
      (lowerHexDigit (u / 16 % 16)) (lowerHexDigit (u % 16)) = some u := by
    unfold hexUnit
    rw [hexValue_lowerHexDigit _ (by omega), hexValue_lowerHexDigit _ (by omega),
      hexValue_lowerHexDigit _ (by omega), hexValue_lowerHexDigit _ (by omega)]
    exact congrArg some (by omega)
  simp only [writeUnit, List.cons_append, List.nil_append]
  refine readUnits_escape 5 ?_ rfl
  simp only [escapeUnit, if_true, hunit]
  rfl

theorem readUnits_flatMap {units : List Nat} (h : ∀ u ∈ units, u < 0x10000) (rest : List Char) :
    readUnits (units.flatMap writeUnit ++ rest) =
      (readUnits rest).map fun (us, rest) => (units ++ us, rest) := by
  induction units with
  | nil => simp
  | cons u units ih =>
    rw [List.flatMap_cons, List.append_assoc, readUnits_writeUnit (h u List.mem_cons_self),
      ih fun v hv => h v (List.mem_cons_of_mem _ hv), Option.map_map]
    rfl

theorem lt_utf16Units {n u : Nat} (hn : n < 0x110000) (h : u ∈ utf16Units n) : u < 0x10000 := by
  unfold utf16Units at h
  split at h
  · rw [List.mem_singleton.mp h]
    assumption
  · simp only [List.mem_cons, List.not_mem_nil, or_false] at h
    omega

theorem toNat_lt_unicode (c : Char) : c.toNat < 0x110000 := by
  rcases c.valid with h | ⟨-, h⟩
  · exact Nat.lt_trans h (by decide)
  · exact h

theorem shortEscape_some {c e : Char} (h : shortEscape c = some e) :
    e ≠ 'u' ∧ escapedUnit e = some c.toNat := by
  unfold shortEscape at h
  split at h <;> cases h <;> decide

theorem readUnits_writeChar (style : JsonStyle) (c : Char) (rest : List Char) :
    readUnits (writeChar style c ++ rest) =
      (readUnits rest).map fun (us, rest) => (unitsOf style c ++ us, rest) := by
  cases hshort : shortEscape c with
  | some e =>
    obtain ⟨hu, hunit⟩ := shortEscape_some hshort
    have hescape : escapeUnit (e :: rest) = some (c.toNat, 1) :=
      (if_neg hu).trans (congrArg (Option.map _) hunit)
    have hunits : unitsOf style c = [c.toNat] := by simp [unitsOf, hshort]
    simp only [writeChar, hshort, hunits, List.cons_append, List.nil_append]
    exact readUnits_escape 1 hescape rfl
  | none =>
    cases hescapes : style.escapes c with
    | true =>
      have hunits : unitsOf style c = utf16Units c.toNat := by simp [unitsOf, hshort, hescapes]
      simp only [writeChar, hshort, hescapes, if_true, hunits]
      exact readUnits_flatMap (fun u hu => lt_utf16Units (toNat_lt_unicode c) hu) rest
    | false =>
      have hunits : unitsOf style c = [c.toNat] := by simp [unitsOf, hescapes]
      have hquote : c ≠ '"' := by
        rintro rfl
        cases hshort
      have hbackslash : c ≠ '\\' := by
        rintro rfl
        cases hshort
      have hcontrol : ¬c.toNat < 32 := by
        simp only [JsonStyle.escapes, Bool.or_eq_false_iff, decide_eq_false_iff_not] at hescapes
        exact hescapes.1
      simp only [writeChar, hshort, hescapes, Bool.false_eq_true, if_false, hunits,
        List.cons_append, List.nil_append]
      rw [readUnits, readUnitsFrom, if_neg hquote, if_neg hbackslash, if_neg hcontrol]
      cases h : readUnits rest with
      | none =>
        rw [readUnits] at h
        simp [h]
      | some r =>
        rw [readUnits] at h
        simp [h]

section

variable (lone : Option Char)

theorem joinUnits_char (c : Char) (us : List Nat) :
    joinUnits lone (c.toNat :: us) = (joinUnits lone us).map (c :: ·) := by
  have hvalid : c.toNat < 0xd800 ∨ 0xdfff < c.toNat := c.valid.imp_right And.left
  have hhigh : highSurrogate c.toNat = false := by
    simp only [highSurrogate, Bool.and_eq_false_iff, decide_eq_false_iff_not]
    omega
  have hlow : lowSurrogate c.toNat = false := by
    simp only [lowSurrogate, Bool.and_eq_false_iff, decide_eq_false_iff_not]
    omega
  rw [joinUnits, joinUnitsFrom, hhigh, hlow, if_neg (by decide),
    if_neg (by decide), Char.ofNat_toNat]
  rfl

theorem joinUnits_pair {c : Char} (h : 0x10000 ≤ c.toNat) (us : List Nat) :
    joinUnits lone ((0xd800 + (c.toNat - 0x10000) / 0x400) ::
      (0xdc00 + (c.toNat - 0x10000) % 0x400) :: us) = (joinUnits lone us).map (c :: ·) := by
  have hlt := toNat_lt_unicode c
  have hhigh : highSurrogate (0xd800 + (c.toNat - 0x10000) / 0x400) = true := by
    simp only [highSurrogate, Bool.and_eq_true, decide_eq_true_eq]
    omega
  have hlow : lowSurrogate (0xdc00 + (c.toNat - 0x10000) % 0x400) = true := by
    simp only [lowSurrogate, Bool.and_eq_true, decide_eq_true_eq]
    omega
  have hback : 0x10000 + 0x400 * (0xd800 + (c.toNat - 0x10000) / 0x400 - 0xd800) +
      (0xdc00 + (c.toNat - 0x10000) % 0x400 - 0xdc00) = c.toNat := by omega
  rw [joinUnits, joinUnitsFrom, if_pos hhigh, joinUnitsFrom,
    if_pos hlow, hback, Char.ofNat_toNat]
  rfl

theorem joinUnits_unitsOf (style : JsonStyle) (c : Char) (us : List Nat) :
    joinUnits lone (unitsOf style c ++ us) = (joinUnits lone us).map (c :: ·) := by
  unfold unitsOf
  split
  · unfold utf16Units
    split
    · exact joinUnits_char lone c us
    · exact joinUnits_pair lone (by omega) us
  · exact joinUnits_char lone c us

/-- **What is written of a string is read as the string.** -/
theorem readString_writeString (style : JsonStyle) (s : String) (rest : List Char) :
    readString lone (s.toList.flatMap (writeChar style) ++ '"' :: rest) = some (s, rest) := by
  have hunits : ∀ cs : List Char, readUnits (cs.flatMap (writeChar style) ++ '"' :: rest) =
      some (cs.flatMap (unitsOf style), rest) := fun cs => by
    induction cs with
    | nil => rfl
    | cons c cs ih =>
      rw [List.flatMap_cons, List.append_assoc, readUnits_writeChar, ih]
      rfl
  have hjoin : ∀ cs : List Char, joinUnits lone (cs.flatMap (unitsOf style)) = some cs :=
    fun cs => by
      induction cs with
      | nil => rfl
      | cons c cs ih =>
        rw [List.flatMap_cons, joinUnits_unitsOf, ih]
        rfl
  rw [readString, hunits]
  simp [hjoin]

end

/-! ## Numbers -/

/-- The characters of an integer. -/
def isIntChar (c : Char) : Bool := c.isDigit || c == '-'

/-- The characters of a number. -/
def isNumberChar (c : Char) : Bool := isIntChar c || c == '+' || c == '.' || c == 'e' || c == 'E'

/-- What a double can be that is no number, or not finite. -/
inductive JsonConstant
  | nan
  | infinity
  | negInfinity
  deriving DecidableEq, Repr

def JsonConstant.word : JsonConstant → List Char
  | .nan => "NaN".toList
  | .infinity => "Infinity".toList
  | .negInfinity => "-Infinity".toList

/-- A type of finite floats. What is written of one is a number with a fraction or an exponent, and
is read as the float; of such a number that is too large an infinity is read. -/
class JsonFloat (F : Type) where
  text : F → List Char
  read : List Char → Option (JsonConstant ⊕ F)
  read_text (x : F) : read (text x) = some (.inr x)
  text_number (x : F) : ∀ c ∈ text x, isNumberChar c = true
  text_head (x : F) : ∃ c t, text x = c :: t ∧ isIntChar c = true
  text_point (x : F) : (text x).all isIntChar = false

def writeInt (n : Int) : List Char :=
  if n < 0 then '-' :: Nat.toDigits 10 n.natAbs else Nat.toDigits 10 n.natAbs

/-- A leading zero is not read. -/
def readNat (digits : List Char) : Option Nat :=
  if digits = [] || !digits.all Char.isDigit || digits.head? = some '0' && digits ≠ ['0'] then none
  else some (Nat.ofDigitChars 10 digits 0)

def readInt : List Char → Option Int
  | '-' :: digits => (readNat digits).map fun n => -n
  | digits => (readNat digits).map fun n => n

/-- The number at the head of the text. -/
def readNumber {F : Type} [JsonFloat F] (s : List Char) :
    Option ((Int ⊕ JsonConstant ⊕ F) × List Char) :=
  let token := s.takeWhile isNumberChar
  let rest := s.dropWhile isNumberChar
  if token.all isIntChar then (readInt token).map fun n => (.inl n, rest)
  else (JsonFloat.read token).map fun x => (.inr x, rest)

/-- What follows a number does not go on with it. -/
def NoNumber (rest : List Char) : Prop := ∀ c ∈ rest.head?, isNumberChar c = false

theorem toDigits_head {n : Nat} (h : (Nat.toDigits 10 n).head? = some '0') : n = 0 := by
  induction n using Nat.strongRecOn with
  | _ n ih =>
    by_cases hlt : n < 10
    · rw [Nat.toDigits_of_lt_base hlt] at h
      have hall : ∀ m < 10, [Nat.digitChar m].head? = some '0' → m = 0 := by decide
      exact hall n hlt h
    · rw [Nat.toDigits_of_base_le (by decide) (by omega), List.head?_append_of_ne_nil _
        Nat.toDigits_ne_nil] at h
      have hzero := ih (n / 10) (by omega) h
      omega

theorem isDigit_toDigits (n : Nat) : ∀ c ∈ Nat.toDigits 10 n, c.isDigit = true := fun _ hc =>
  Nat.isDigit_of_mem_toDigits (by decide) (by decide) hc

theorem readNat_toDigits (n : Nat) : readNat (Nat.toDigits 10 n) = some n := by
  have hall : (Nat.toDigits 10 n).all Char.isDigit = true :=
    List.all_eq_true.mpr (isDigit_toDigits n)
  have hzero : ¬((decide (Nat.toDigits 10 n = []) || !(Nat.toDigits 10 n).all Char.isDigit ||
      decide ((Nat.toDigits 10 n).head? = some '0') &&
        decide (Nat.toDigits 10 n ≠ ['0'])) = true) := by
    simp only [Nat.toDigits_ne_nil, hall, decide_false, Bool.not_true, Bool.false_or,
      Bool.and_eq_true, decide_eq_true_eq, not_and, ne_eq, not_not]
    intro hhead
    rw [toDigits_head hhead]
    rfl
  exact (if_neg hzero).trans (by rw [Nat.ofDigitChars_ten_toDigits])

theorem readInt_writeInt (n : Int) : readInt (writeInt n) = some n := by
  unfold writeInt
  split
  next hneg =>
    rw [readInt, readNat_toDigits]
    show some (-(n.natAbs : Int)) = some n
    rw [show -(n.natAbs : Int) = n by omega]
  next hneg =>
    have hread := readNat_toDigits n.natAbs
    have hdigits := isDigit_toDigits n.natAbs
    cases htext : Nat.toDigits 10 n.natAbs with
    | nil => exact absurd htext Nat.toDigits_ne_nil
    | cons c text =>
      rw [htext] at hread hdigits
      have hminus : c ≠ '-' := by
        rintro rfl
        exact absurd (hdigits '-' List.mem_cons_self) (by decide)
      rw [readInt, hread]
      · show some (n.natAbs : Int) = some n
        rw [show (n.natAbs : Int) = n by omega]
      · exact fun s hs => hminus (List.cons.inj hs).1

/-- Every character of an integer is one. -/
theorem writeInt_chars (n : Int) : ∀ c ∈ writeInt n, isIntChar c = true := by
  have hdigits : ∀ c ∈ Nat.toDigits 10 n.natAbs, isIntChar c = true := fun c hc => by
    rw [isIntChar, isDigit_toDigits _ c hc, Bool.true_or]
  unfold writeInt
  split
  · exact List.forall_mem_cons.mpr ⟨rfl, hdigits⟩
  · exact hdigits

theorem writeInt_ne_nil (n : Int) : writeInt n ≠ [] := by
  unfold writeInt
  split
  · exact List.cons_ne_nil _ _
  · exact Nat.toDigits_ne_nil

theorem isNumberChar_of_int {c : Char} (h : isIntChar c = true) : isNumberChar c = true := by
  simp [isNumberChar, h]

/-- A number's text is told from what follows it. -/
theorem takeWhile_number {token rest : List Char} (htoken : ∀ c ∈ token, isNumberChar c = true)
    (hrest : NoNumber rest) :
    (token ++ rest).takeWhile isNumberChar = token ∧
      (token ++ rest).dropWhile isNumberChar = rest := by
  have hempty : rest.takeWhile isNumberChar = [] ∧ rest.dropWhile isNumberChar = rest := by
    cases rest with
    | nil => exact ⟨rfl, rfl⟩
    | cons c rest => simp [hrest c rfl]
  rw [List.takeWhile_append_of_pos htoken, List.dropWhile_append_of_pos htoken, hempty.1, hempty.2,
    List.append_nil]
  exact ⟨rfl, rfl⟩

section

variable {F : Type} [JsonFloat F]

theorem readNumber_int (n : Int) {rest : List Char} (hrest : NoNumber rest) :
    readNumber (F := F) (writeInt n ++ rest) = some (.inl n, rest) := by
  obtain ⟨htake, hdrop⟩ := takeWhile_number
    (fun c hc => isNumberChar_of_int (writeInt_chars n c hc)) hrest
  have hall : (writeInt n).all isIntChar = true := List.all_eq_true.mpr (writeInt_chars n)
  simp only [readNumber, htake, hdrop, hall, if_true, readInt_writeInt]
  rfl

theorem readNumber_float (x : F) {rest : List Char} (hrest : NoNumber rest) :
    readNumber (JsonFloat.text x ++ rest) = some (.inr (.inr x), rest) := by
  obtain ⟨htake, hdrop⟩ := takeWhile_number (JsonFloat.text_number x) hrest
  simp only [readNumber, htake, hdrop, JsonFloat.text_point, Bool.false_eq_true, if_false,
    JsonFloat.read_text]
  rfl

/-- No number begins with a word of a constant. -/
theorem readNumber_constant (c : JsonConstant) (rest : List Char) :
    readNumber (F := F) (c.word ++ rest) = none := by
  cases c <;> rfl

end

/-- The floats that are whole numbers. -/
structure WholeFloat where
  whole : Int

instance : JsonFloat WholeFloat where
  text x := writeInt x.whole ++ ".0".toList
  read token :=
    if ".0".toList.isSuffixOf token then
      (readInt (token.take (token.length - 2))).map fun n => .inr ⟨n⟩
    else none
  read_text x := by
    have htake : (writeInt x.whole ++ ".0".toList).take
        ((writeInt x.whole ++ ".0".toList).length - 2) = writeInt x.whole := by simp
    rw [if_pos (List.isSuffixOf_iff_suffix.mpr (List.suffix_append _ _)), htake, readInt_writeInt]
    rfl
  text_number x c hc := by
    rcases List.mem_append.mp hc with hc | hc
    · exact isNumberChar_of_int (writeInt_chars x.whole c hc)
    · have hpoint : ".0".toList.all isNumberChar = true := rfl
      exact List.all_eq_true.mp hpoint c hc
  text_head x := by
    have hchars := writeInt_chars x.whole
    cases htext : writeInt x.whole with
    | nil => exact absurd htext (writeInt_ne_nil x.whole)
    | cons c t =>
      rw [htext] at hchars
      exact ⟨c, t ++ ".0".toList, rfl, hchars c List.mem_cons_self⟩
  text_point x := by simp [isIntChar]

end Livehost.Infra
