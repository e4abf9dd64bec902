import SheetCensus.Proofs.Batch.Precedence
import SheetCensus.Proofs.Encoding.Utf8

set_option autoImplicit false

/-! Files in UTF-8. Such a file is taken in as the text that its bytes encode, every code point of
it, and as no text at all when they encode none (`Attempt.ofFile_readsUtf8`). The length and the
digest are those of this text, not of the one with a single kind of line end that the style sheet
is read from. -/

namespace SheetCensus

namespace Attempt

theorem decode_eq_ok_iff_of_utf8 [Codecs] (name : Text) (known : Encoding.ofName? name = some .utf8)
    (bytes : List UInt8) (text : Text) :
    decode name bytes = .ok text ↔ bytes = Utf8.encode text := by
  rw [← Utf8.decode_eq_ok_iff, decode_of_ofName? known]
  change (Except.mapError _ (Except.mapError _ (Utf8.decode bytes))) = _ ↔ _
  cases Utf8.decode bytes with
  | ok decoded => simp only [Except.mapError, Except.ok.injEq]
  | error fault => simp only [Except.mapError, reduceCtorEq]

theorem decode_eq_error_of_utf8 [Codecs] (name : Text) (known : Encoding.ofName? name = some .utf8)
    (bytes : List UInt8) (failure : Failure) (stopped : decode name bytes = .error failure) :
    ∃ fault, failure = .undecodable fault := by
  rw [decode_of_ofName? known] at stopped
  cases bad : Encoding.utf8.decode bytes with
  | ok text =>
      rw [bad] at stopped
      cases stopped
  | error fault =>
      rw [bad] at stopped
      cases stopped
      exact ⟨fault, rfl⟩

/-- The file is taken in as the text: the text is what its style sheet is read from, what its
record counts, and what a digest is cut from. -/
structure TakesIn [Codecs] (tree : Tree) (directory : Path) (file : Text) (config : Config)
    (text : Text) : Prop where
  content_eq : content tree (directory.join (Path.ofText file)) config.encoding = .ok text
  ofFile_eq : ∃ id, eventId file = .ok id ∧ ofFile tree directory file config =
    ofContent id file (directory.join (Path.ofText file)).text text config.digestLength
  length_eq : ∀ record, (ofFile tree directory file config).outcome = .ok record →
    record.length = text.length
  refused : (∃ fault, Stylesheet.read text none = .error (.fault fault)) →
    ∃ record, (ofFile tree directory file config).outcome = .ok record ∧ record.error = 1 ∧
      (0 ≤ config.digestLength → record.digest = text.take config.digestLength.toNat) ∧
      (config.digestLength < 0 →
        record.digest = text.take (text.length - config.digestLength.natAbs))

variable {tree : Tree} {directory : Path} {file : Text} {config : Config}

theorem HasText.takesIn [Codecs] {text : Text}
    (has : HasText tree directory config.encoding file text) :
    TakesIn tree directory file config text := by
  obtain ⟨id, named⟩ := (exists_eventId_iff file).mpr has.named
  obtain ⟨bytes, found, decoded⟩ := has.decoded
  have content_eq :
      content tree (directory.join (Path.ofText file)) config.encoding = .ok text := by
    unfold content
    rw [found]
    exact decoded
  refine ⟨content_eq, ⟨id, named, ?_⟩, ?_, ?_⟩
  · unfold ofFile
    rw [named]
    dsimp only
    rw [content_eq]
  · intro record made
    exact (isConsistent_of_content content_eq made).length_eq
  · intro bad
    obtain ⟨fault, read⟩ := bad
    have small := ((Stylesheet.read_eq_fault_iff text none fault).mp read).1
    obtain ⟨record, made, tells⟩ := has.exists_tellsOf small
    have failed := tells.refused.mpr ⟨fault, read⟩
    have agrees := isConsistent_of_content content_eq made
    exact ⟨record, made, failed, agrees.digest_from_front failed, agrees.digest_from_back failed⟩

theorem hasText_of_utf8 [Codecs] {bytes : List UInt8} {text : Text} (named : BeginsWithDigit file)
    (known : Encoding.ofName? config.encoding = some .utf8)
    (stored : tree.read (directory.join (Path.ofText file)) = .ok bytes)
    (encoded : bytes = Utf8.encode text) :
    HasText tree directory config.encoding file text :=
  ⟨named, bytes, stored, (decode_eq_ok_iff_of_utf8 _ known bytes text).mpr encoded⟩

/-- A file with a good name is taken in as the text whose encoding its bytes are. When they are the
encoding of no text, it stops for that reason, and nothing is said of it. -/
theorem ofFile_readsUtf8 [Codecs] (tree : Tree) (directory : Path) (file : Text) (config : Config)
    (bytes : List UInt8) (named : BeginsWithDigit file)
    (known : Encoding.ofName? config.encoding = some .utf8)
    (stored : tree.read (directory.join (Path.ofText file)) = .ok bytes) :
    (∀ text, bytes = (String.ofList text).toUTF8.data.toList →
        TakesIn tree directory file config text) ∧
      ((∀ text, bytes ≠ (String.ofList text).toUTF8.data.toList) →
        ∃ fault, ofFile tree directory file config = ⟨[], .error (.undecodable fault)⟩) := by
  constructor
  · intro text encoded
    rw [← Utf8.encode_eq_toUTF8] at encoded
    exact (hasText_of_utf8 named known stored encoded).takesIn
  · intro none
    cases decoded : decode config.encoding bytes with
    | ok text =>
        have encoded := (decode_eq_ok_iff_of_utf8 _ known bytes text).mp decoded
        rw [Utf8.encode_eq_toUTF8] at encoded
        exact absurd encoded (none text)
    | error failure =>
        obtain ⟨fault, rfl⟩ := decode_eq_error_of_utf8 _ known bytes failure decoded
        have misread := (decode_eq_error_iff _).mp decoded
        exact ⟨fault, ofFile_of_misread bytes _ named stored misread⟩

/-- A byte order mark and a line end of two characters in front of an open block, with digests that
leave off the last character; and the three bytes of a surrogate, which encode nothing. -/
theorem ofFile_readsUtf8_at_mark_and_surrogate :
    (∃ record, (ofFile
        ⟨[([['c']], .directory),
          ([['c'], ['7']], .file [0xef, 0xbb, 0xbf, 0x0d, 0x0a, 0x7b])], []⟩
        ⟨[], [['c']]⟩ ['7'] ⟨['c'], 1, -1, ['u', 't', 'f', '8']⟩).outcome = .ok record ∧
      record.error = 1 ∧ record.length = 4 ∧ record.digest = ['\uFEFF', '\r', '\n']) ∧
    ∃ fault, ofFile
        ⟨[([['c']], .directory), ([['c'], ['7']], .file [0xed, 0xa0, 0x80])], []⟩
        ⟨[], [['c']]⟩ ['7'] ⟨['c'], 1, -1, ['u', 't', 'f', '8']⟩ =
      ⟨[], .error (.undecodable fault)⟩ := by
  have named : BeginsWithDigit ['7'] := ⟨'7', [], rfl, by decide, by decide⟩
  constructor
  · have takes := (ofFile_readsUtf8
      ⟨[([['c']], .directory),
        ([['c'], ['7']], .file [0xef, 0xbb, 0xbf, 0x0d, 0x0a, 0x7b])], []⟩
      ⟨[], [['c']]⟩ ['7'] ⟨['c'], 1, -1, ['u', 't', 'f', '8']⟩ _ named rfl rfl).1
      ['\uFEFF', '\r', '\n', '{'] (by rw [← Utf8.encode_eq_toUTF8]; rfl)
    obtain ⟨record, made, failed, _, back⟩ := takes.refused ⟨⟨.blockOpen .curly, ⟨2, 1⟩, none⟩, rfl⟩
    exact ⟨record, made, failed, takes.length_eq record made, back (by decide)⟩
  · apply (ofFile_readsUtf8 _ _ _ _ [0xed, 0xa0, 0x80] named rfl rfl).2
    intro text encoded
    rw [← Utf8.encode_eq_toUTF8, ← Utf8.decode_eq_ok_iff] at encoded
    cases encoded

end Attempt

end SheetCensus
