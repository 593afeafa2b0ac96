import Mathlib.Data.List.Basic

/-!
# Percent-encoded text

Text is written as its UTF-8 bytes, each of them as it is, where it is `safe`, or as `%XX`. Reading
undoes the escapes and decodes the bytes, with U+FFFD in the place of what is no UTF-8; characters
that are not ASCII stand for themselves.

* `utf8Text_utf8Bytes` — decoding is the inverse of encoding
* `percentDecode_percentEncode` — so is reading of writing, whatever is safe but `%`
* `mem_percentEncode` — what is written consists of the safe characters, `%` and digits
-/

namespace Livehost.Infra

/-! ## UTF-8 -/

/-- The UTF-8 bytes of the text. -/
def utf8Bytes (s : List Char) : List UInt8 := s.flatMap String.utf8EncodeChar

/-- `b₁` can follow the first byte `b₀` of a character of three or four bytes. -/
def mayFollow (b₀ b₁ : UInt8) : Bool :=
  let n := b₁.toNat
  if b₀ = 0xe0 then 0xa0 ≤ n && n ≤ 0xbf
  else if b₀ = 0xed then 0x80 ≤ n && n ≤ 0x9f
  else if b₀ = 0xf0 then 0x90 ≤ n && n ≤ 0xbf
  else if b₀ = 0xf4 then 0x80 ≤ n && n ≤ 0x8f
  else 0xe1 ≤ b₀.toNat && b₀.toNat ≤ 0xf3 && 0x80 ≤ n && n ≤ 0xbf

/-- How many bytes one U+FFFD stands for where no character can be decoded: those of the longest
start of a character, or one. -/
def badLength : List UInt8 → Nat
  | b₀ :: b₁ :: rest =>
    if mayFollow b₀ b₁ then
      match rest with
      | b₂ :: _ => if 0xf0 ≤ b₀.toNat && 0x80 ≤ b₂.toNat && b₂.toNat ≤ 0xbf then 3 else 2
      | [] => 2
    else 1
  | _ => 1

/-- The text of the bytes behind the first `skip` of them. -/
def utf8TextFrom : Nat → List UInt8 → List Char
  | _, [] => []
  | skip + 1, _ :: bs => utf8TextFrom skip bs
  | 0, b :: bs =>
    match ByteArray.utf8DecodeChar? (b :: bs).toByteArray 0 with
    | some c => c :: utf8TextFrom (c.utf8Size - 1) bs
    | none => Char.ofNat 0xfffd :: utf8TextFrom (badLength (b :: bs) - 1) bs

/-- The text that the bytes are decoded to. -/
def utf8Text (bytes : List UInt8) : List Char := utf8TextFrom 0 bytes

theorem utf8TextFrom_length (front bs : List UInt8) :
    utf8TextFrom front.length (front ++ bs) = utf8Text bs := by
  induction front with
  | nil => rfl
  | cons b front ih => exact ih

theorem utf8Text_char (c : Char) (bs : List UInt8) :
    utf8Text (String.utf8EncodeChar c ++ bs) = c :: utf8Text bs := by
  have hlength : (String.utf8EncodeChar c).length = c.utf8Size := String.length_utf8EncodeChar c
  have hpos := c.utf8Size_pos
  have hdecode : ByteArray.utf8DecodeChar? (String.utf8EncodeChar c ++ bs).toByteArray 0
      = some c := by
    rw [List.toByteArray_append]
    exact ByteArray.utf8DecodeChar?_utf8EncodeChar_append
  cases hbytes : String.utf8EncodeChar c with
  | nil =>
    rw [hbytes] at hlength
    simp at hlength
    omega
  | cons b front =>
    rw [hbytes] at hdecode hlength
    simp only [List.cons_append] at hdecode ⊢
    rw [utf8Text, utf8TextFrom, hdecode]
    have hfront : c.utf8Size - 1 = front.length := by
      rw [← hlength, List.length_cons, Nat.add_sub_cancel]
    simp only [hfront, utf8TextFrom_length]

/-- **Decoding is the inverse of encoding.** -/
theorem utf8Text_utf8Bytes (s : List Char) : utf8Text (utf8Bytes s) = s := by
  induction s with
  | nil => rfl
  | cons c s ih =>
    rw [utf8Bytes, List.flatMap_cons, utf8Text_char]
    exact congrArg _ ih

/-! ## Escapes -/

def hexDigit (n : Nat) : Char := Char.ofNat (if n < 10 then 48 + n else 55 + n)

def hexValue (c : Char) : Option Nat :=
  let n := c.toNat
  if 48 ≤ n && n ≤ 57 then some (n - 48)
  else if 65 ≤ n && n ≤ 70 then some (n - 55)
  else if 97 ≤ n && n ≤ 102 then some (n - 87)
  else none

/-- The byte as it is, or escaped. -/
def writeByte (safe : UInt8 → Bool) (b : UInt8) : List Char :=
  if safe b then [Char.ofNat b.toNat]
  else ['%', hexDigit (b.toNat / 16), hexDigit (b.toNat % 16)]

/-- The text, with all but the safe bytes escaped. -/
def percentEncode (safe : UInt8 → Bool) (s : List Char) : List Char :=
  (utf8Bytes s).flatMap (writeByte safe)

/-- The byte that two digits stand for. -/
def escaped (high low : Char) : Option UInt8 :=
  (hexValue high).bind fun x => (hexValue low).map fun y => UInt8.ofNat (16 * x + y)

/-- The byte that `c` and the two characters behind it stand for, if they are an escape. -/
def escapeAt (c : Char) : List Char → Option UInt8
  | high :: low :: _ => if c = '%' then escaped high low else none
  | _ => none

/-- The bytes of the ASCII text behind the first `skip` characters. A `%` without two digits behind
it stands for itself. -/
def unescapeFrom : Nat → List Char → List UInt8
  | _, [] => []
  | skip + 1, _ :: rest => unescapeFrom skip rest
  | 0, c :: rest =>
    match escapeAt c rest with
    | some b => b :: unescapeFrom 2 rest
    | none => UInt8.ofNat c.toNat :: unescapeFrom 0 rest

/-- The bytes of ASCII text. -/
def unescape (s : List Char) : List UInt8 := unescapeFrom 0 s

/-- The text of what follows `run`, which is ASCII. -/
def percentDecodeFrom (run : List Char) : List Char → List Char
  | [] => utf8Text (unescape run)
  | c :: rest =>
    if c.toNat < 128 then percentDecodeFrom (run ++ [c]) rest
    else utf8Text (unescape run) ++ c :: percentDecodeFrom [] rest

/-- The text that is written so: every stretch of ASCII is read for itself. -/
def percentDecode (s : List Char) : List Char := percentDecodeFrom [] s

theorem percentDecodeFrom_ascii {s : List Char} (h : ∀ c ∈ s, c.toNat < 128) (run : List Char) :
    percentDecodeFrom run s = utf8Text (unescape (run ++ s)) := by
  induction s generalizing run with
  | nil => rw [percentDecodeFrom, List.append_nil]
  | cons c s ih =>
    rw [percentDecodeFrom, if_pos (h c List.mem_cons_self),
      ih (fun x hx => h x (List.mem_cons_of_mem _ hx)), List.append_assoc]
    rfl

/-! ## What is written can be read -/

theorem hexValue_hexDigit : ∀ n < 16, hexValue (hexDigit n) = some n := by decide

theorem escaped_hexDigit (b : UInt8) :
    escaped (hexDigit (b.toNat / 16)) (hexDigit (b.toNat % 16)) = some b := by
  have hb := b.toNat_lt
  have hhigh := hexValue_hexDigit (b.toNat / 16) (by omega)
  have hlow := hexValue_hexDigit (b.toNat % 16) (by omega)
  rw [escaped, hhigh, hlow, Option.bind_some, Option.map_some, Nat.div_add_mod,
    UInt8.ofNat_toNat]

theorem hexValue_isSome {c : Char} (h : (hexValue c).isSome = true) :
    48 ≤ c.toNat ∧ c.toNat ≤ 57 ∨ 65 ≤ c.toNat ∧ c.toNat ≤ 70 ∨
      97 ≤ c.toNat ∧ c.toNat ≤ 102 := by
  unfold hexValue at h
  dsimp only at h
  split at h
  next hn => exact Or.inl (by simpa using hn)
  split at h
  next hn => exact Or.inr (Or.inl (by simpa using hn))
  split at h
  next hn => exact Or.inr (Or.inr (by simpa using hn))
  next => cases h

/-- A digit, or `%`. -/
def escapeChar (c : Char) : Bool := c == '%' || (hexValue c).isSome

theorem escapeChar_hexDigit {n : Nat} (h : n < 16) : escapeChar (hexDigit n) = true := by
  rw [escapeChar, hexValue_hexDigit n h]
  exact Bool.or_true _

/-- **What is written consists of safe characters, `%` and digits.** -/
theorem mem_percentEncode {safe : UInt8 → Bool} {s : List Char} {c : Char}
    (h : c ∈ percentEncode safe s) :
    escapeChar c = true ∨ ∃ b, safe b = true ∧ c = Char.ofNat b.toNat := by
  obtain ⟨b, -, hc⟩ := List.mem_flatMap.mp h
  unfold writeByte at hc
  split at hc
  next hsafe => exact Or.inr ⟨b, hsafe, List.mem_singleton.mp hc⟩
  next =>
    have hb := b.toNat_lt
    simp only [List.mem_cons, List.not_mem_nil, or_false] at hc
    rcases hc with rfl | rfl | rfl
    · exact Or.inl rfl
    · exact Or.inl (escapeChar_hexDigit (by omega))
    · exact Or.inl (escapeChar_hexDigit (by omega))

/-- The safe bytes are ASCII, and `%` is not among them. -/
structure Readable (safe : UInt8 → Bool) : Prop where
  ascii : ∀ b, safe b = true → b.toNat < 128
  percent : safe 37 = false

theorem toNat_ofNat_byte (b : UInt8) : (Char.ofNat b.toNat).toNat = b.toNat := by
  have hb := b.toNat_lt
  have hvalid : b.toNat.isValidChar := Or.inl (by omega)
  rw [Char.ofNat, dif_pos hvalid]
  rfl

theorem ofNat_byte_ne_percent {b : UInt8} (h : b ≠ 37) : Char.ofNat b.toNat ≠ '%' := by
  intro hc
  refine h (UInt8.toNat_inj.mp ?_)
  rw [← toNat_ofNat_byte, hc]
  rfl

theorem unescape_writeByte {safe : UInt8 → Bool} (hsafe : Readable safe) (b : UInt8)
    (rest : List Char) : unescape (writeByte safe b ++ rest) = b :: unescape rest := by
  unfold writeByte
  split
  next hb =>
    have hne : b ≠ 37 := by
      rintro rfl
      rw [hsafe.percent] at hb
      cases hb
    have hnone : escapeAt (Char.ofNat b.toNat) rest = none := by
      unfold escapeAt
      split
      · exact if_neg (ofNat_byte_ne_percent hne)
      · rfl
    rw [List.singleton_append, unescape, unescapeFrom, hnone]
    simp only [toNat_ofNat_byte, UInt8.ofNat_toNat]
    rfl
  next =>
    have hsome : escapeAt '%' (hexDigit (b.toNat / 16) :: hexDigit (b.toNat % 16) :: rest)
        = some b := escaped_hexDigit b
    simp only [List.cons_append, List.nil_append]
    rw [unescape, unescapeFrom, hsome]
    rfl

theorem unescape_flatMap {safe : UInt8 → Bool} (hsafe : Readable safe) (bytes : List UInt8) :
    unescape (bytes.flatMap (writeByte safe)) = bytes := by
  induction bytes with
  | nil => rfl
  | cons b bytes ih => rw [List.flatMap_cons, unescape_writeByte hsafe, ih]

theorem ascii_percentEncode {safe : UInt8 → Bool} (hsafe : Readable safe) {s : List Char}
    {c : Char} (h : c ∈ percentEncode safe s) : c.toNat < 128 := by
  rcases mem_percentEncode h with hc | ⟨b, hb, rfl⟩
  · simp only [escapeChar, Bool.or_eq_true, beq_iff_eq] at hc
    rcases hc with rfl | hc
    · decide
    · have hn := hexValue_isSome hc
      omega
  · rw [toNat_ofNat_byte]
    exact hsafe.ascii b hb

/-- Text that is safe is written as it is. -/
theorem percentEncode_safe {safe : UInt8 → Bool} {s : List Char}
    (h : ∀ c ∈ s, c.toNat < 128 ∧ safe (UInt8.ofNat c.toNat) = true) :
    percentEncode safe s = s := by
  induction s with
  | nil => rfl
  | cons c s ih =>
    obtain ⟨hascii, hc⟩ := h c List.mem_cons_self
    have hbyte : String.utf8EncodeChar c = [UInt8.ofNat c.toNat] := by
      rw [String.utf8EncodeChar_eq_singleton (Char.utf8Size_eq_one_iff.mpr ?_)]
      · rfl
      · rw [UInt32.le_iff_toNat_le]
        exact Nat.le_of_lt_succ hascii
    have hback : Char.ofNat (UInt8.ofNat c.toNat).toNat = c := by
      rw [UInt8.toNat_ofNat_of_lt' (by simpa using Nat.lt_trans hascii (by decide)),
        Char.ofNat_toNat]
    have hrest : percentEncode safe s = s := ih fun c' hc' => h c' (List.mem_cons_of_mem _ hc')
    rw [percentEncode, utf8Bytes, List.flatMap_cons, hbyte, List.singleton_append,
      List.flatMap_cons, writeByte, if_pos hc, hback]
    exact congrArg _ hrest

/-- **What is written can be read.** -/
theorem percentDecode_percentEncode {safe : UInt8 → Bool} (hsafe : Readable safe)
    (s : List Char) : percentDecode (percentEncode safe s) = s := by
  rw [percentDecode, percentDecodeFrom_ascii (fun c hc => ascii_percentEncode hsafe hc),
    List.nil_append, percentEncode, unescape_flatMap hsafe, utf8Text_utf8Bytes]

end Livehost.Infra
