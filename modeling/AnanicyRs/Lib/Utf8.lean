import AnanicyRs.Lib.Text

/-!
Contract: UTF-8, as the Rust standard library reads it.

Owns the encoding of a text, `String::from_utf8`, which refuses what is not an encoding,
and `String::from_utf8_lossy`, which puts a replacement character in the place of every
maximal broken part. An ASCII byte always stands for itself, so a text may be cut at one
(`isUtf8_cut`).
-/

set_option autoImplicit false

namespace AnanicyRs.Lib.Utf8

/-! ## Encoding -/

def encode (text : List Char) : List UInt8 := text.flatMap String.utf8EncodeChar

def IsUtf8 (bytes : List UInt8) : Prop := ∃ text, bytes = encode text

/-- `String::from_utf8`, and what `fs::read_to_string` makes of the bytes it read. -/
def fromUtf8 (bytes : List UInt8) : Option String := String.fromUTF8? bytes.toByteArray

@[simp] theorem encode_nil : encode [] = [] := rfl

@[simp] theorem encode_cons (c : Char) (text : List Char) :
    encode (c :: text) = String.utf8EncodeChar c ++ encode text := rfl

@[simp] theorem encode_append (left right : List Char) :
    encode (left ++ right) = encode left ++ encode right :=
  List.flatMap_append

theorem fromUtf8_eq_some_iff {bytes : List UInt8} {text : String} :
    fromUtf8 bytes = some text ↔ bytes = encode text.toList := by
  have encoded : text.toByteArray = (encode text.toList).toByteArray := by
    rw [encode, ← List.utf8Encode, String.utf8Encode_toList]
  unfold fromUtf8 String.fromUTF8?
  split
  next valid =>
    rw [Option.some.injEq, ← String.toByteArray_inj, encoded]
    show bytes.toByteArray = _ ↔ _
    constructor
    · intro same
      have lists := congrArg (fun array => array.data.toList) same
      simpa using lists
    · intro same
      rw [same]
  next invalid =>
    constructor
    · intro impossible
      exact absurd impossible (by simp)
    · rintro rfl
      exact absurd (encoded ▸ text.isValidUTF8) invalid

theorem fromUtf8_encode (text : List Char) : fromUtf8 (encode text) = some (String.ofList text) := by
  rw [fromUtf8_eq_some_iff, String.toList_ofList]

theorem isUtf8_of_fromUtf8 {bytes : List UInt8} {text : String}
    (read : fromUtf8 bytes = some text) : IsUtf8 bytes :=
  ⟨text.toList, fromUtf8_eq_some_iff.mp read⟩

/-! ## ASCII bytes -/

/-- An ASCII byte is the whole encoding of its character. -/
theorem utf8EncodeChar_of_ascii {c : Char} {byte : UInt8} (member : byte ∈ String.utf8EncodeChar c)
    (ascii : byte.toNat < 128) : String.utf8EncodeChar c = [byte] ∧ c.toNat = byte.toNat := by
  have value : c.toNat = c.val.toNat := rfl
  unfold String.utf8EncodeChar at member ⊢
  simp only at member ⊢
  split at member
  next small =>
    rw [List.mem_singleton] at member
    rw [if_pos small, member]
    refine ⟨rfl, ?_⟩
    rw [value, UInt8.toNat_ofNat']
    omega
  next =>
    have high : 128 ≤ byte.toNat := by
      split at member
      · simp only [List.mem_cons, List.not_mem_nil, or_false] at member
        rcases member with rfl | rfl <;> (rw [UInt8.toNat_ofNat']; omega)
      · split at member
        · simp only [List.mem_cons, List.not_mem_nil, or_false] at member
          rcases member with rfl | rfl | rfl <;> (rw [UInt8.toNat_ofNat']; omega)
        · simp only [List.mem_cons, List.not_mem_nil, or_false] at member
          rcases member with rfl | rfl | rfl | rfl <;> (rw [UInt8.toNat_ofNat']; omega)
    omega

theorem mem_of_ascii_mem_encode {text : List Char} {byte : UInt8} (member : byte ∈ encode text)
    (ascii : byte.toNat < 128) : Char.ofNat byte.toNat ∈ text := by
  obtain ⟨c, inText, inChar⟩ := List.mem_flatMap.mp member
  rw [← (utf8EncodeChar_of_ascii inChar ascii).2, Char.ofNat_toNat]
  exact inText

/-- Where a text is cut at an ASCII byte, both parts are encodings. -/
theorem exists_cut {byte : UInt8} (ascii : byte.toNat < 128) {right : List UInt8} :
    ∀ {text : List Char} {left : List UInt8}, encode text = left ++ byte :: right →
      ∃ before after c, text = before ++ c :: after ∧ left = encode before ∧
        String.utf8EncodeChar c = [byte] ∧ right = encode after
  | [], left, split => by
      simp at split
  | c :: rest, left, split => by
      rw [encode_cons, List.append_eq_append_iff] at split
      rcases split with ⟨more, isLeft, isRest⟩ | ⟨more, isChar, isRight⟩
      · obtain ⟨before, after, other, rfl, rfl, isByte, isAfter⟩ := exists_cut ascii isRest
        exact ⟨c :: before, after, other, rfl, isLeft, isByte, isAfter⟩
      · cases more with
        | nil =>
            rw [List.nil_append] at isRight
            have splitHere : encode rest = [] ++ byte :: right := isRight.symm
            obtain ⟨before, after, other, rfl, isNil, isByte, isAfter⟩ :=
              exists_cut ascii splitHere
            refine ⟨c :: before, after, other, rfl, ?_, isByte, isAfter⟩
            rw [encode_cons, ← isNil, isChar, List.append_nil, List.append_nil]
        | cons first others =>
            obtain ⟨rfl, afterByte⟩ := List.cons.inj isRight
            have member : byte ∈ String.utf8EncodeChar c := by
              rw [isChar]
              simp
            have whole := (utf8EncodeChar_of_ascii member ascii).1
            rw [whole] at isChar
            cases left with
            | nil =>
                obtain ⟨_, rfl⟩ := List.cons.inj isChar
                exact ⟨[], rest, c, rfl, rfl, whole, afterByte⟩
            | cons head tail =>
                have lengths := congrArg List.length isChar
                simp at lengths

theorem isUtf8_cut {byte : UInt8} (ascii : byte.toNat < 128) {left right : List UInt8}
    (valid : IsUtf8 (left ++ byte :: right)) : IsUtf8 left ∧ IsUtf8 right := by
  obtain ⟨text, isText⟩ := valid
  obtain ⟨before, after, c, _, isLeft, _, isRight⟩ := exists_cut ascii isText.symm
  exact ⟨⟨before, isLeft⟩, after, isRight⟩

/-! ## Lossy decoding -/

def replacement : Char := Char.ofNat 0xFFFD

/-- A character of several bytes that has begun: how many bytes it still wants, the range
of the next one, and the value of the bits so far. -/
structure Pending where
  more : Nat
  low : Nat
  high : Nat
  value : Nat

/-- What a first byte announces. The ranges leave out overlong forms, surrogates and what
is above the last code point. -/
def lead (byte : Nat) : Option Pending :=
  if byte < 0xC2 then none
  else if byte < 0xE0 then some ⟨1, 0x80, 0xBF, byte % 32⟩
  else if byte = 0xE0 then some ⟨2, 0xA0, 0xBF, byte % 16⟩
  else if byte = 0xED then some ⟨2, 0x80, 0x9F, byte % 16⟩
  else if byte < 0xF0 then some ⟨2, 0x80, 0xBF, byte % 16⟩
  else if byte = 0xF0 then some ⟨3, 0x90, 0xBF, byte % 8⟩
  else if byte < 0xF4 then some ⟨3, 0x80, 0xBF, byte % 8⟩
  else if byte = 0xF4 then some ⟨3, 0x80, 0x8F, byte % 8⟩
  else none

/-- A byte where no character has begun: what is printed, and the character it begins. -/
def firstByte (byte : Nat) : List Char × Option Pending :=
  if byte < 0x80 then ([Char.ofNat byte], none)
  else
    match lead byte with
    | some pending => ([], some pending)
    | none => ([replacement], none)

/-- The next byte. One that does not continue the character breaks it, and is read again as
a first byte. -/
def nextByte (pending : Pending) (byte : Nat) : List Char × Option Pending :=
  if pending.low ≤ byte ∧ byte ≤ pending.high then
    if pending.more = 1 then ([Char.ofNat (pending.value * 64 + byte % 64)], none)
    else ([], some ⟨pending.more - 1, 0x80, 0xBF, pending.value * 64 + byte % 64⟩)
  else (replacement :: (firstByte byte).1, (firstByte byte).2)

def lossyChars : Option Pending → List UInt8 → List Char
  | none, [] => []
  | some _, [] => [replacement]
  | none, byte :: rest =>
      (firstByte byte.toNat).1 ++ lossyChars (firstByte byte.toNat).2 rest
  | some pending, byte :: rest =>
      (nextByte pending byte.toNat).1 ++ lossyChars (nextByte pending byte.toNat).2 rest

/-- `String::from_utf8_lossy`. -/
def fromUtf8Lossy (bytes : List UInt8) : String := String.ofList (lossyChars none bytes)

theorem lossyChars_lead {byte : UInt8} {pending : Pending} (long : 0x80 ≤ byte.toNat)
    (announced : lead byte.toNat = some pending) (rest : List UInt8) :
    lossyChars none (byte :: rest) = lossyChars (some pending) rest := by
  have isFirst : firstByte byte.toNat = ([], some pending) := by
    rw [firstByte, if_neg (Nat.not_lt.mpr long), announced]
  rw [lossyChars, isFirst, List.nil_append]

theorem lossyChars_more {more low high value : Nat} {byte : UInt8}
    (inRange : low ≤ byte.toNat ∧ byte.toNat ≤ high) (rest : List UInt8) :
    lossyChars (some ⟨more + 2, low, high, value⟩) (byte :: rest) =
      lossyChars (some ⟨more + 1, 0x80, 0xBF, value * 64 + byte.toNat % 64⟩) rest := by
  have isNext : nextByte ⟨more + 2, low, high, value⟩ byte.toNat =
      ([], some ⟨more + 1, 0x80, 0xBF, value * 64 + byte.toNat % 64⟩) := by
    rw [nextByte, if_pos inRange, if_neg (by simp)]
    rfl
  rw [lossyChars, isNext, List.nil_append]

theorem lossyChars_last {low high value : Nat} {byte : UInt8}
    (inRange : low ≤ byte.toNat ∧ byte.toNat ≤ high) (rest : List UInt8) :
    lossyChars (some ⟨1, low, high, value⟩) (byte :: rest) =
      Char.ofNat (value * 64 + byte.toNat % 64) :: lossyChars none rest := by
  have isLast : nextByte ⟨1, low, high, value⟩ byte.toNat =
      ([Char.ofNat (value * 64 + byte.toNat % 64)], none) := by
    rw [nextByte, if_pos inRange, if_pos rfl]
  rw [lossyChars, isLast]
  rfl

theorem toNat_byte {n : Nat} (bound : n < 256) : (UInt8.ofNat n).toNat = n := by
  rw [UInt8.toNat_ofNat']
  omega

/-- A continuation byte, the last one of its character. -/
theorem lossyChars_continuationLast {value bits : Nat} (rest : List UInt8) :
    lossyChars (some ⟨1, 0x80, 0xBF, value⟩) (UInt8.ofNat (bits % 64 + 0x80) :: rest) =
      Char.ofNat (value * 64 + bits % 64) :: lossyChars none rest := by
  have isByte : (UInt8.ofNat (bits % 64 + 0x80)).toNat = bits % 64 + 0x80 := by
    apply toNat_byte
    omega
  have sameBits : (bits % 64 + 0x80) % 64 = bits % 64 := by
    omega
  rw [lossyChars_last (by omega) rest, isByte, sameBits]

/-- A continuation byte that fits the range its first byte left. -/
theorem lossyChars_continuation {more low high value bits : Nat}
    (inRange : low ≤ bits % 64 + 0x80 ∧ bits % 64 + 0x80 ≤ high) (rest : List UInt8) :
    lossyChars (some ⟨more + 2, low, high, value⟩) (UInt8.ofNat (bits % 64 + 0x80) :: rest) =
      lossyChars (some ⟨more + 1, 0x80, 0xBF, value * 64 + bits % 64⟩) rest := by
  have isByte : (UInt8.ofNat (bits % 64 + 0x80)).toNat = bits % 64 + 0x80 := by
    apply toNat_byte
    omega
  have sameBits : (bits % 64 + 0x80) % 64 = bits % 64 := by
    omega
  rw [lossyChars_more (by rw [isByte]; exact inRange) rest, isByte, sameBits]

/-- The first byte of three leaves a range that the second one is in. -/
theorem exists_lead_three {v : Nat} (atLeast : 0x7FF < v) (atMost : v ≤ 0xFFFF)
    (noSurrogate : v < 0xD800 ∨ 0xDFFF < v) :
    ∃ low high, lead (v / 4096 % 16 + 0xE0) = some ⟨2, low, high, v / 4096⟩ ∧
      low ≤ v / 64 % 64 + 0x80 ∧ v / 64 % 64 + 0x80 ≤ high := by
  have value : (v / 4096 % 16 + 0xE0) % 16 = v / 4096 := by
    omega
  rw [lead, value, if_neg (by omega), if_neg (by omega)]
  split
  next first => exact ⟨0xA0, 0xBF, rfl, by omega, by omega⟩
  next =>
    split
    next surrogates => exact ⟨0x80, 0x9F, rfl, by omega, by omega⟩
    next => exact ⟨0x80, 0xBF, if_pos (by omega), by omega, by omega⟩

/-- The first byte of four likewise. -/
theorem exists_lead_four {v : Nat} (atLeast : 0xFFFF < v) (atMost : v < 0x110000) :
    ∃ low high, lead (v / 262144 % 8 + 0xF0) = some ⟨3, low, high, v / 262144⟩ ∧
      low ≤ v / 4096 % 64 + 0x80 ∧ v / 4096 % 64 + 0x80 ≤ high := by
  have value : (v / 262144 % 8 + 0xF0) % 8 = v / 262144 := by
    omega
  rw [lead, value, if_neg (by omega), if_neg (by omega), if_neg (by omega), if_neg (by omega),
    if_neg (by omega)]
  split
  next first => exact ⟨0x90, 0xBF, rfl, by omega, by omega⟩
  next =>
    split
    next => exact ⟨0x80, 0xBF, rfl, by omega, by omega⟩
    next last => exact ⟨0x80, 0x8F, if_pos (by omega), by omega, by omega⟩

theorem lossyChars_one {v : Nat} (atMost : v ≤ 0x7F) (rest : List UInt8) :
    lossyChars none (UInt8.ofNat v :: rest) = Char.ofNat v :: lossyChars none rest := by
  have isByte : (UInt8.ofNat v).toNat = v := by
    apply toNat_byte
    omega
  have ascii : firstByte v = ([Char.ofNat v], none) := by
    rw [firstByte, if_pos (by omega)]
  rw [lossyChars, isByte, ascii]
  rfl

theorem lossyChars_two {v : Nat} (atLeast : 0x7F < v) (atMost : v ≤ 0x7FF) (rest : List UInt8) :
    lossyChars none (UInt8.ofNat (v / 64 % 32 + 0xC0) :: UInt8.ofNat (v % 64 + 0x80) :: rest) =
      Char.ofNat v :: lossyChars none rest := by
  have isByte : (UInt8.ofNat (v / 64 % 32 + 0xC0)).toNat = v / 64 % 32 + 0xC0 := by
    apply toNat_byte
    omega
  have announced : lead (v / 64 % 32 + 0xC0) = some ⟨1, 0x80, 0xBF, v / 64⟩ := by
    have value : (v / 64 % 32 + 0xC0) % 32 = v / 64 := by
      omega
    rw [lead, if_neg (by omega), if_pos (by omega), value]
  have whole : v / 64 * 64 + v % 64 = v := by
    omega
  rw [lossyChars_lead (by omega) (isByte ▸ announced), lossyChars_continuationLast, whole]

theorem lossyChars_three {v : Nat} (atLeast : 0x7FF < v) (atMost : v ≤ 0xFFFF)
    (noSurrogate : v < 0xD800 ∨ 0xDFFF < v) (rest : List UInt8) :
    lossyChars none (UInt8.ofNat (v / 4096 % 16 + 0xE0) :: UInt8.ofNat (v / 64 % 64 + 0x80) ::
        UInt8.ofNat (v % 64 + 0x80) :: rest) = Char.ofNat v :: lossyChars none rest := by
  have isByte : (UInt8.ofNat (v / 4096 % 16 + 0xE0)).toNat = v / 4096 % 16 + 0xE0 := by
    apply toNat_byte
    omega
  obtain ⟨low, high, announced, inRange⟩ := exists_lead_three atLeast atMost noSurrogate
  have whole : (v / 4096 * 64 + v / 64 % 64) * 64 + v % 64 = v := by
    omega
  rw [lossyChars_lead (by omega) (isByte ▸ announced), lossyChars_continuation inRange,
    lossyChars_continuationLast, whole]

theorem lossyChars_four {v : Nat} (atLeast : 0xFFFF < v) (atMost : v < 0x110000)
    (rest : List UInt8) :
    lossyChars none (UInt8.ofNat (v / 262144 % 8 + 0xF0) :: UInt8.ofNat (v / 4096 % 64 + 0x80) ::
        UInt8.ofNat (v / 64 % 64 + 0x80) :: UInt8.ofNat (v % 64 + 0x80) :: rest) =
      Char.ofNat v :: lossyChars none rest := by
  have isByte : (UInt8.ofNat (v / 262144 % 8 + 0xF0)).toNat = v / 262144 % 8 + 0xF0 := by
    apply toNat_byte
    omega
  obtain ⟨low, high, announced, inRange⟩ := exists_lead_four atLeast atMost
  have inner : 0x80 ≤ v / 64 % 64 + 0x80 ∧ v / 64 % 64 + 0x80 ≤ 0xBF := by
    omega
  have whole : ((v / 262144 * 64 + v / 4096 % 64) * 64 + v / 64 % 64) * 64 + v % 64 = v := by
    omega
  rw [lossyChars_lead (by omega) (isByte ▸ announced), lossyChars_continuation inRange,
    lossyChars_continuation inner, lossyChars_continuationLast, whole]

/-- The bytes of a character are read as the character. -/
theorem lossyChars_encodeChar (c : Char) (rest : List UInt8) :
    lossyChars none (String.utf8EncodeChar c ++ rest) = c :: lossyChars none rest := by
  have isChar : Char.ofNat c.val.toNat = c := Char.ofNat_toNat c
  have valid : c.val.toNat < 0xD800 ∨ 0xDFFF < c.val.toNat ∧ c.val.toNat < 0x110000 := c.valid
  unfold String.utf8EncodeChar
  generalize c.val.toNat = v at isChar valid
  simp only
  rw [← isChar]
  split
  next one => exact lossyChars_one one rest
  next notOne =>
    split
    next two => exact lossyChars_two (by omega) two rest
    next notTwo =>
      split
      next three => exact lossyChars_three (by omega) three (by omega) rest
      next four => exact lossyChars_four (by omega) (by omega) rest

/-- A text survives. -/
theorem fromUtf8Lossy_encode (text : List Char) :
    fromUtf8Lossy (encode text) = String.ofList text := by
  have chars : lossyChars none (encode text) = text := by
    induction text with
    | nil => rfl
    | cons c rest inductionHypothesis =>
        rw [encode_cons, lossyChars_encodeChar, inductionHypothesis]
  rw [fromUtf8Lossy, chars]

example : fromUtf8Lossy [0x61, 0xC3, 0xA9, 0xE2, 0x82, 0x62, 0xFF] =
    String.ofList ['a', 'é', replacement, 'b', replacement] := by
  decide

end AnanicyRs.Lib.Utf8
