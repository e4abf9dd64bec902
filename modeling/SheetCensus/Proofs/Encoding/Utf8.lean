import SheetCensus.Encoding.Basic
import SheetCensus.Proofs.Text.Ascii

set_option autoImplicit false

/-! UTF-8 read back. The decoder answers the text that was encoded (`decodeFrom_encode`), and
whatever it decodes is the encoding of its answer (`eq_encode_of_decodeFrom`), so the bytes that
encode no text are the ones that it refuses (`decode_eq_ok_iff`). The encoder is the one of the core
library (`encode_eq_toUTF8`). -/

namespace SheetCensus.Utf8

/-! ### Characters and bytes -/

theorem isScalar_toNat (c : Char) :
    c.toNat < 0xd800 ∨ 0xdfff < c.toNat ∧ c.toNat < 0x110000 :=
  c.valid

theorem toNat_byte (number : Nat) (small : number < 0x100) :
    (UInt8.ofNat number).toNat = number := by
  rw [UInt8.toNat_ofNat']
  omega

theorem toNat_continuation (number : Nat) : (continuation number).toNat = 0x80 + number % 64 := by
  unfold continuation
  apply toNat_byte
  omega

theorem byte_eq (byte : UInt8) (number : Nat) (same : byte.toNat = number) :
    byte = UInt8.ofNat number := by
  rw [← same, UInt8.ofNat_toNat]

theorem continuation_eq (byte : UInt8) (number : Nat) (same : byte.toNat = 0x80 + number % 64) :
    byte = continuation number :=
  byte_eq byte _ same

theorem encodeChar_eq_utf8EncodeChar (c : Char) : encodeChar c = String.utf8EncodeChar c := by
  have bound := isScalar_toNat c
  have value : c.val.toNat = c.toNat := rfl
  have last (number : Nat) : continuation number = UInt8.ofNat (number % 64 + 128) :=
    congrArg UInt8.ofNat (Nat.add_comm 0x80 _)
  unfold encodeChar String.utf8EncodeChar
  simp only [value, last]
  split
  · rfl
  split
  · have first : 0xc0 + c.toNat / 64 = c.toNat / 64 % 32 + 192 := by omega
    rw [first]
  split
  · have first : 0xe0 + c.toNat / 4096 = c.toNat / 4096 % 16 + 224 := by omega
    rw [first]
  · have first : 0xf0 + c.toNat / 262144 = c.toNat / 262144 % 8 + 240 := by omega
    rw [first]

theorem encode_eq_toUTF8 (text : Text) :
    encode text = (String.ofList text).toUTF8.data.toList := by
  unfold encode String.toUTF8
  rw [String.toByteArray_ofList, List.utf8Encode, List.toList_data_toByteArray]
  exact congrArg (fun encoder => text.flatMap encoder) (funext encodeChar_eq_utf8EncodeChar)

/-! ### From texts to bytes -/

theorem decodeFrom_next (index start code low high missing : Nat) (byte : UInt8)
    (rest : List UInt8) (fits : low ≤ byte.toNat ∧ byte.toNat ≤ high) (more : 1 < missing) :
    decodeFrom index (some ⟨start, code, low, high, missing⟩) (byte :: rest) =
      decodeFrom (index + 1)
        (some ⟨start, code * 64 + (byte.toNat - 0x80), 0x80, 0xbf, missing - 1⟩) rest := by
  rw [decodeFrom]
  dsimp only
  rw [if_pos fits, if_neg (by omega)]

theorem decodeFrom_last (index start code low high : Nat) (byte : UInt8) (rest : List UInt8)
    (fits : low ≤ byte.toNat ∧ byte.toNat ≤ high) :
    decodeFrom index (some ⟨start, code, low, high, 1⟩) (byte :: rest) =
      (decodeFrom (index + 1) none rest).map
        (Char.ofNat (code * 64 + (byte.toNat - 0x80)) :: ·) := by
  rw [decodeFrom]
  dsimp only
  rw [if_pos fits, if_pos (Nat.le_refl 1)]

/-- A lead byte and what it asks for: the range of the second byte leaves out long forms,
surrogates and what is beyond the last code point. -/
theorem lead_two (index byte : Nat) (range : 0xc2 ≤ byte ∧ byte ≤ 0xdf) :
    lead index byte = .pending ⟨index, byte - 0xc0, 0x80, 0xbf, 1⟩ := by
  unfold lead
  rw [if_neg (by omega), if_neg (by omega), if_pos (by omega)]

def secondOfThree (byte : Nat) : Nat × Nat :=
  (if byte = 0xe0 then 0xa0 else 0x80, if byte = 0xed then 0x9f else 0xbf)

theorem secondOfThree_iff (byte second : Nat) :
    (secondOfThree byte).1 ≤ second ∧ second ≤ (secondOfThree byte).2 ↔
      (0x80 ≤ second ∧ second ≤ 0xbf) ∧ (byte = 0xe0 → 0xa0 ≤ second) ∧
        (byte = 0xed → second ≤ 0x9f) := by
  unfold secondOfThree
  dsimp only
  split <;> split <;> omega

theorem lead_three (index byte : Nat) (range : 0xe0 ≤ byte ∧ byte ≤ 0xef) :
    lead index byte =
      .pending ⟨index, byte - 0xe0, (secondOfThree byte).1, (secondOfThree byte).2, 2⟩ := by
  unfold lead secondOfThree
  rw [if_neg (by omega), if_neg (by omega), if_neg (by omega)]
  by_cases first : byte = 0xe0
  · subst first
    rfl
  by_cases surrogate : byte = 0xed
  · subst surrogate
    rfl
  simp only [if_neg first, if_neg surrogate]
  rw [if_pos range.2]

def secondOfFour (byte : Nat) : Nat × Nat :=
  (if byte = 0xf0 then 0x90 else 0x80, if byte = 0xf4 then 0x8f else 0xbf)

theorem secondOfFour_iff (byte second : Nat) :
    (secondOfFour byte).1 ≤ second ∧ second ≤ (secondOfFour byte).2 ↔
      (0x80 ≤ second ∧ second ≤ 0xbf) ∧ (byte = 0xf0 → 0x90 ≤ second) ∧
        (byte = 0xf4 → second ≤ 0x8f) := by
  unfold secondOfFour
  dsimp only
  split <;> split <;> omega

theorem lead_four (index byte : Nat) (range : 0xf0 ≤ byte ∧ byte ≤ 0xf4) :
    lead index byte =
      .pending ⟨index, byte - 0xf0, (secondOfFour byte).1, (secondOfFour byte).2, 3⟩ := by
  unfold lead secondOfFour
  rw [if_neg (by omega), if_neg (by omega), if_neg (by omega), if_neg (by omega),
    if_neg (by omega), if_neg (by omega)]
  by_cases first : byte = 0xf0
  · subst first
    rfl
  by_cases last : byte = 0xf4
  · subst last
    rfl
  simp only [if_neg first, if_neg last]
  rw [if_pos (by omega)]

theorem ofNat_eq {number : Nat} (c : Char) (same : number = c.toNat) : Char.ofNat number = c := by
  rw [same, Char.ofNat_toNat]

section Widths

variable (index : Nat) {c : Char} (rest : List UInt8)

theorem decodeFrom_one (range : c.toNat ≤ 0x7f) :
    decodeFrom index none (UInt8.ofNat c.toNat :: rest) =
      (decodeFrom (index + 1) none rest).map (c :: ·) := by
  have first : (UInt8.ofNat c.toNat).toNat = c.toNat := toNat_byte _ (by omega)
  rw [decodeFrom, first, lead, if_pos range]
  dsimp only
  rw [Char.ofNat_toNat]

theorem decodeFrom_two (range : 0x7f < c.toNat ∧ c.toNat ≤ 0x7ff) :
    decodeFrom index none
        (UInt8.ofNat (0xc0 + c.toNat / 64) :: continuation c.toNat :: rest) =
      (decodeFrom (index + 2) none rest).map (c :: ·) := by
  have first : (UInt8.ofNat (0xc0 + c.toNat / 64)).toNat = 0xc0 + c.toNat / 64 :=
    toNat_byte _ (by omega)
  have second := toNat_continuation c.toNat
  rw [decodeFrom, first, lead_two _ _ (by omega)]
  dsimp only
  rw [decodeFrom_last _ _ _ _ _ _ _ (by omega), ofNat_eq c (by omega)]

theorem decodeFrom_three (range : 0x7ff < c.toNat ∧ c.toNat ≤ 0xffff) :
    decodeFrom index none
        (UInt8.ofNat (0xe0 + c.toNat / 4096) :: continuation (c.toNat / 64) ::
          continuation c.toNat :: rest) =
      (decodeFrom (index + 3) none rest).map (c :: ·) := by
  have scalar := isScalar_toNat c
  have first : (UInt8.ofNat (0xe0 + c.toNat / 4096)).toNat = 0xe0 + c.toNat / 4096 :=
    toNat_byte _ (by omega)
  have second := toNat_continuation (c.toNat / 64)
  have third := toNat_continuation c.toNat
  rw [decodeFrom, first, lead_three _ _ (by omega)]
  dsimp only
  rw [decodeFrom_next _ _ _ _ _ _ _ _ ?_ (by omega), decodeFrom_last _ _ _ _ _ _ _ (by omega),
    ofNat_eq c (by omega)]
  rw [secondOfThree_iff]
  omega

theorem decodeFrom_four (range : 0xffff < c.toNat) :
    decodeFrom index none
        (UInt8.ofNat (0xf0 + c.toNat / 262144) :: continuation (c.toNat / 4096) ::
          continuation (c.toNat / 64) :: continuation c.toNat :: rest) =
      (decodeFrom (index + 4) none rest).map (c :: ·) := by
  have scalar := isScalar_toNat c
  have first : (UInt8.ofNat (0xf0 + c.toNat / 262144)).toNat = 0xf0 + c.toNat / 262144 :=
    toNat_byte _ (by omega)
  have second := toNat_continuation (c.toNat / 4096)
  have third := toNat_continuation (c.toNat / 64)
  have fourth := toNat_continuation c.toNat
  rw [decodeFrom, first, lead_four _ _ (by omega)]
  dsimp only
  rw [decodeFrom_next _ _ _ _ _ _ _ _ ?_ (by omega), decodeFrom_next _ _ _ _ _ _ _ _ ?_ (by omega),
    decodeFrom_last _ _ _ _ _ _ _ (by omega), ofNat_eq c (by omega)]
  · omega
  · rw [secondOfFour_iff]
    omega

end Widths

theorem decodeFrom_encodeChar (index : Nat) (c : Char) (rest : List UInt8) :
    decodeFrom index none (encodeChar c ++ rest) =
      (decodeFrom (index + (encodeChar c).length) none rest).map (c :: ·) := by
  fun_cases encodeChar c with
  | case1 code one => exact decodeFrom_one index rest one
  | case2 => exact decodeFrom_two index rest (by omega)
  | case3 => exact decodeFrom_three index rest (by omega)
  | case4 => exact decodeFrom_four index rest (by omega)

theorem decodeFrom_encode (index : Nat) (text : Text) :
    decodeFrom index none (encode text) = .ok text := by
  induction text generalizing index with
  | nil => rfl
  | cons c rest ih =>
      unfold encode at ih ⊢
      rw [List.flatMap_cons, decodeFrom_encodeChar, ih]
      rfl

/-! ### From bytes to texts -/

theorem exists_of_decodeFrom_next (index start code low high missing : Nat) (bytes : List UInt8)
    (text : Text) (more : 1 < missing)
    (decoded : decodeFrom index (some ⟨start, code, low, high, missing⟩) bytes = .ok text) :
    ∃ byte rest, bytes = byte :: rest ∧ (low ≤ byte.toNat ∧ byte.toNat ≤ high) ∧
      decodeFrom (index + 1)
        (some ⟨start, code * 64 + (byte.toNat - 0x80), 0x80, 0xbf, missing - 1⟩) rest =
          .ok text := by
  cases bytes with
  | nil => cases decoded
  | cons byte rest =>
      by_cases fits : low ≤ byte.toNat ∧ byte.toNat ≤ high
      · rw [decodeFrom_next _ _ _ _ _ _ _ _ fits more] at decoded
        exact ⟨byte, rest, rfl, fits, decoded⟩
      · rw [decodeFrom] at decoded
        dsimp only at decoded
        rw [if_neg fits] at decoded
        cases decoded

theorem exists_of_decodeFrom_last (index start code low high : Nat) (bytes : List UInt8)
    (text : Text) (decoded : decodeFrom index (some ⟨start, code, low, high, 1⟩) bytes = .ok text) :
    ∃ byte rest later, bytes = byte :: rest ∧ (low ≤ byte.toNat ∧ byte.toNat ≤ high) ∧
      text = Char.ofNat (code * 64 + (byte.toNat - 0x80)) :: later ∧
        decodeFrom (index + 1) none rest = .ok later := by
  cases bytes with
  | nil => cases decoded
  | cons byte rest =>
      by_cases fits : low ≤ byte.toNat ∧ byte.toNat ≤ high
      · rw [decodeFrom_last _ _ _ _ _ _ _ fits] at decoded
        cases behind : decodeFrom (index + 1) none rest with
        | error fault =>
            rw [behind] at decoded
            cases decoded
        | ok later =>
            rw [behind] at decoded
            cases decoded
            exact ⟨byte, rest, later, rfl, fits, rfl, behind⟩
      · rw [decodeFrom] at decoded
        dsimp only at decoded
        rw [if_neg fits] at decoded
        cases decoded

theorem lead_invalid (index byte : Nat) (range : 0x80 ≤ byte ∧ byte ≤ 0xc1 ∨ 0xf5 ≤ byte) :
    lead index byte = .invalid := by
  unfold lead
  rcases range with range | range
  · rw [if_neg (by omega), if_pos range.2]
  · rw [if_neg (by omega), if_neg (by omega), if_neg (by omega), if_neg (by omega),
      if_neg (by omega), if_neg (by omega), if_neg (by omega), if_neg (by omega),
      if_neg (by omega)]

/-- The bytes are those of the first character of the text, and others that are decoded to the rest
of it. -/
def SplitsOff (bytes : List UInt8) (text : Text) : Prop :=
  ∃ c others later next, bytes = encodeChar c ++ others ∧ text = c :: later ∧
    decodeFrom next none others = .ok later

section Widths

variable {index start : Nat} {byte : UInt8} {rest : List UInt8} {text : Text}

theorem splitsOff_one (range : byte.toNat ≤ 0x7f)
    (decoded : (decodeFrom index none rest).map (Char.ofNat byte.toNat :: ·) = .ok text) :
    SplitsOff (byte :: rest) text := by
  have number := toNat_ofNat byte.toNat (by omega)
  cases behind : decodeFrom index none rest with
  | error fault =>
      rw [behind] at decoded
      cases decoded
  | ok later =>
      rw [behind] at decoded
      cases decoded
      refine ⟨_, rest, later, _, ?_, rfl, behind⟩
      unfold encodeChar
      rw [number, if_pos range, UInt8.ofNat_toNat]
      rfl

theorem splitsOff_two (range : 0xc2 ≤ byte.toNat ∧ byte.toNat ≤ 0xdf)
    (decoded : decodeFrom index (some ⟨start, byte.toNat - 0xc0, 0x80, 0xbf, 1⟩) rest = .ok text) :
    SplitsOff (byte :: rest) text := by
  obtain ⟨second, others, later, rfl, fits, rfl, behind⟩ :=
    exists_of_decodeFrom_last _ _ _ _ _ _ _ decoded
  have number := toNat_ofNat ((byte.toNat - 0xc0) * 64 + (second.toNat - 0x80)) (by omega)
  refine ⟨_, others, later, _, ?_, rfl, behind⟩
  unfold encodeChar
  rw [number, if_neg (by omega), if_pos (by omega), ← byte_eq byte _ (by omega),
    ← continuation_eq second _ (by omega)]
  rfl

theorem splitsOff_three (range : 0xe0 ≤ byte.toNat ∧ byte.toNat ≤ 0xef)
    (decoded : decodeFrom index (some ⟨start, byte.toNat - 0xe0, (secondOfThree byte.toNat).1,
      (secondOfThree byte.toNat).2, 2⟩) rest = .ok text) :
    SplitsOff (byte :: rest) text := by
  obtain ⟨second, _, rfl, fits, decoded⟩ :=
    exists_of_decodeFrom_next _ _ _ _ _ _ _ _ (by omega) decoded
  obtain ⟨third, others, later, rfl, tail, rfl, behind⟩ :=
    exists_of_decodeFrom_last _ _ _ _ _ _ _ decoded
  rw [secondOfThree_iff] at fits
  have number := toNat_ofNat
    (((byte.toNat - 0xe0) * 64 + (second.toNat - 0x80)) * 64 + (third.toNat - 0x80)) (by omega)
  refine ⟨_, others, later, _, ?_, rfl, behind⟩
  unfold encodeChar
  rw [number, if_neg (by omega), if_neg (by omega), if_pos (by omega),
    ← byte_eq byte _ (by omega), ← continuation_eq second _ (by omega),
    ← continuation_eq third _ (by omega)]
  rfl

theorem splitsOff_four (range : 0xf0 ≤ byte.toNat ∧ byte.toNat ≤ 0xf4)
    (decoded : decodeFrom index (some ⟨start, byte.toNat - 0xf0, (secondOfFour byte.toNat).1,
      (secondOfFour byte.toNat).2, 3⟩) rest = .ok text) :
    SplitsOff (byte :: rest) text := by
  obtain ⟨second, _, rfl, fits, decoded⟩ :=
    exists_of_decodeFrom_next _ _ _ _ _ _ _ _ (by omega) decoded
  obtain ⟨third, _, rfl, middle, decoded⟩ :=
    exists_of_decodeFrom_next _ _ _ _ _ _ _ _ (by omega) decoded
  obtain ⟨fourth, others, later, rfl, tail, rfl, behind⟩ :=
    exists_of_decodeFrom_last _ _ _ _ _ _ _ decoded
  rw [secondOfFour_iff] at fits
  have number := toNat_ofNat
    ((((byte.toNat - 0xf0) * 64 + (second.toNat - 0x80)) * 64 + (third.toNat - 0x80)) * 64 +
      (fourth.toNat - 0x80)) (by omega)
  refine ⟨_, others, later, _, ?_, rfl, behind⟩
  unfold encodeChar
  rw [number, if_neg (by omega), if_neg (by omega), if_neg (by omega),
    ← byte_eq byte _ (by omega), ← continuation_eq second _ (by omega),
    ← continuation_eq third _ (by omega), ← continuation_eq fourth _ (by omega)]
  rfl

end Widths

/-- Bytes that are decoded begin with the bytes of the first character. -/
theorem splitsOff_of_decodeFrom_cons (index : Nat) (byte : UInt8) (rest : List UInt8) (text : Text)
    (decoded : decodeFrom index none (byte :: rest) = .ok text) :
    SplitsOff (byte :: rest) text := by
  rw [decodeFrom] at decoded
  by_cases one : byte.toNat ≤ 0x7f
  · rw [lead, if_pos one] at decoded
    exact splitsOff_one one decoded
  by_cases invalid : 0x80 ≤ byte.toNat ∧ byte.toNat ≤ 0xc1 ∨ 0xf5 ≤ byte.toNat
  · rw [lead_invalid _ _ invalid] at decoded
    cases decoded
  by_cases two : byte.toNat ≤ 0xdf
  · rw [lead_two _ _ (by omega)] at decoded
    exact splitsOff_two (by omega) decoded
  by_cases three : byte.toNat ≤ 0xef
  · rw [lead_three _ _ (by omega)] at decoded
    exact splitsOff_three (by omega) decoded
  · rw [lead_four _ _ (by omega)] at decoded
    exact splitsOff_four (by omega) decoded

theorem length_encodeChar_pos (c : Char) : 0 < (encodeChar c).length := by
  unfold encodeChar
  dsimp only
  split
  · exact Nat.one_pos
  split
  · exact Nat.succ_pos _
  split <;> exact Nat.succ_pos _

theorem eq_encode_of_decodeFrom (index : Nat) (bytes : List UInt8) (text : Text)
    (decoded : decodeFrom index none bytes = .ok text) : bytes = encode text := by
  -- The induction is on the number of bytes, as a character takes up to four of them.
  induction size : bytes.length using Nat.strongRecOn generalizing index bytes text with
  | ind bound ih =>
      cases bytes with
      | nil =>
          cases decoded
          rfl
      | cons byte rest =>
          obtain ⟨c, others, later, next, whole, rfl, behind⟩ :=
            splitsOff_of_decodeFrom_cons index byte rest text decoded
          have some := length_encodeChar_pos c
          have lengths := congrArg List.length whole
          rw [List.length_append] at lengths
          rw [whole, ih others.length (by omega) next others later behind rfl]
          rfl

theorem decode_eq_ok_iff (bytes : List UInt8) (text : Text) :
    decode bytes = .ok text ↔ bytes = encode text := by
  constructor
  · exact eq_encode_of_decodeFrom 0 bytes text
  · rintro rfl
    exact decodeFrom_encode 0 text

end SheetCensus.Utf8
