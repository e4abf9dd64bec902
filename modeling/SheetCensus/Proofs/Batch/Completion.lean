import SheetCensus.Proofs.Batch.Decoding
import SheetCensus.Proofs.Batch.Entry
import SheetCensus.Proofs.Batch.Run
import SheetCensus.Proofs.Stylesheet.Label

set_option autoImplicit false

/-! Whether a batch comes to its end. When every entry of the directory is a file with a good name
whose bytes decode, only an oversized integer can stop the batch: a text that is refused for
anything else has its record, in the place of its file (`run_completes_iff`). -/

namespace SheetCensus

open Css

/-! ### Files with a text -/

theorem exists_eventId (c : Char) (rest : Text) (digit : IsAsciiDigit c) :
    ∃ id, eventId (c :: rest) = .ok id := by
  have begins : (c :: rest).takeWhile Char.isDigit = c :: rest.takeWhile Char.isDigit := by
    rw [List.takeWhile_cons, (isDigit_iff c).mpr digit]
    rfl
  unfold eventId
  rw [begins]
  exact ⟨_, rfl⟩

namespace Attempt

/-- The file has a name that begins with a digit, and its bytes decode to the text. -/
structure HasText [Codecs] (tree : Tree) (directory : Path) (encoding file text : Text) : Prop where
  named : ∃ c rest, file = c :: rest ∧ IsAsciiDigit c
  decoded : ∃ bytes, tree.read (directory.join (Path.ofText file)) = .ok bytes ∧
    decode encoding bytes = .ok text

theorem HasText.ofFile_eq [Codecs] {tree : Tree} {directory : Path} {config : Config}
    {file text : Text}
    (has : HasText tree directory config.encoding file text) :
    ∃ id, ofFile tree directory file config =
      ofContent id file (directory.join (Path.ofText file)).text text config.digestLength := by
  obtain ⟨⟨c, rest, rfl, digit⟩, bytes, found, decodes⟩ := has
  obtain ⟨id, named⟩ := exists_eventId c rest digit
  refine ⟨id, ?_⟩
  unfold ofFile content
  rw [named]
  dsimp only
  rw [found]
  dsimp only
  rw [decodes]

end Attempt

/-! ### Texts with a record -/

def oversizedDigits? (text : Text) : Option Nat :=
  Reading.oversizedIn? (Source.normalize text)

/-- A record has its error flag set exactly when the text is refused as a style sheet. -/
structure Record.TellsOf (text : Text) (record : Record) : Prop where
  flag : record.error = 0 ∨ record.error = 1
  refused : record.error = 1 ↔ ∃ fault, Stylesheet.read text none = .error (.fault fault)

namespace Attempt

variable {tree : Tree} {directory : Path} {config : Config} {file text : Text}

theorem HasText.outcome_of_oversized [Codecs]
    (has : HasText tree directory config.encoding file text)
    (digits : Nat) (big : oversizedDigits? text = some digits) :
    (ofFile tree directory file config).outcome = .error (.oversized digits) := by
  obtain ⟨id, taken⟩ := has.ofFile_eq
  have refused := (Stylesheet.read_eq_oversized_iff text
    (some (directory.join (Path.ofText file)).text) digits).mpr big
  rw [taken]
  unfold ofContent
  dsimp only
  rw [refused]

theorem exists_outcome (id label : Text) (digestLength : Int)
    (small : oversizedDigits? text = none) :
    ∃ record, (ofContent id file label text digestLength).outcome = .ok record := by
  unfold ofContent
  dsimp only
  cases read : Stylesheet.read text (some label) with
  | ok sheet => exact ⟨_, rfl⟩
  | error refusal =>
      cases refusal with
      | fault fault => exact ⟨_, rfl⟩
      | oversized digits =>
          rw [Stylesheet.read_eq_oversized_iff] at read
          rw [oversizedDigits?, read] at small
          cases small

theorem tellsOf_of_outcome (id label : Text) (digestLength : Int) (record : Record)
    (made : (ofContent id file label text digestLength).outcome = .ok record) :
    record.TellsOf text := by
  rcases ofContent_ok id file label text digestLength record made with
    ⟨sheet, read, rfl⟩ | ⟨fault, read, rfl⟩
  · have clean : ((Record.initial id text.length).countSheet sheet).error = 0 := by
      rw [Record.countSheet, Record.count_eq]
      rfl
    refine ⟨Or.inl clean, ?_⟩
    rw [clean, Stylesheet.exists_fault_iff none (some label), read]
    simp
  · refine ⟨Or.inr rfl, ?_⟩
    rw [Stylesheet.exists_fault_iff none (some label)]
    exact ⟨fun _ => ⟨fault, read⟩, fun _ => rfl⟩

theorem HasText.exists_tellsOf [Codecs] (has : HasText tree directory config.encoding file text)
    (small : oversizedDigits? text = none) :
    ∃ record, (ofFile tree directory file config).outcome = .ok record ∧ record.TellsOf text := by
  obtain ⟨id, taken⟩ := has.ofFile_eq
  obtain ⟨record, made⟩ := exists_outcome id _ config.digestLength small
  rw [taken]
  exact ⟨record, made, tellsOf_of_outcome id _ _ record made⟩

end Attempt

/-! ### An integer that is too long -/

theorem digitsWidth_nines (count : Nat) : digitsWidth (List.replicate count '9') = count := by
  unfold digitsWidth
  rw [List.takeWhile_replicate, if_pos (by decide), List.length_replicate]

theorem numeralWidth_nines (count : Nat) :
    numeralWidth (List.replicate (count + 1) '9') = count + 1 := by
  have sign : signWidth (List.replicate (count + 1) '9') = 0 := rfl
  have mantissa : mantissaWidth (List.replicate (count + 1) '9') = count + 1 := by
    unfold mantissaWidth
    simp [digitsWidth_nines]
  unfold numeralWidth
  simp [sign, mantissa, exponentWidth]

theorem scan_nines (count : Nat) :
    Lexeme.scan '9' (List.replicate count '9') =
      (.leaf (.number (List.replicate (count + 1) '9')), count + 1) := by
  have range : startsUnicodeRange ('9' :: List.replicate count '9') = false := by
    rcases count with _ | _ | count <;> rfl
  have width := numeralWidth_nines count
  rw [List.replicate_succ] at width
  unfold Lexeme.scan
  simp only [range, width]
  simp [isSpace, startsIdent, startsEscape, isNameStart, Lexeme.scanNumeric]
  rfl

theorem lexemes_nines (count : Nat) :
    lexemes (List.replicate (count + 1) '9') =
      [(.start, .leaf (.number (List.replicate (count + 1) '9')))] := by
  have rest : (List.replicate count '9').drop count = [] := by simp
  unfold lexemes
  rw [List.replicate_succ, pieces_cons, scan_nines, Nat.add_sub_cancel, rest]
  rfl

theorem normalize_nines (count : Nat) :
    Source.normalize (List.replicate count '9') = List.replicate count '9' := by
  induction count with
  | zero => rfl
  | succ count ih =>
      rw [List.replicate_succ, Source.normalize, ih]
      · rfl
      · intro rest impossible
        cases impossible

theorem oversizedDigits?_nines (count : Nat) (big : Reading.digitLimit ≤ count) :
    oversizedDigits? (List.replicate (count + 1) '9') = some (count + 1) := by
  have length : integerLength? (List.replicate (count + 1) '9') = some (count + 1) := by
    have sign : signWidth (List.replicate (count + 1) '9') = 0 := rfl
    unfold integerLength?
    simp [sign, isDigit]
  unfold oversizedDigits? Reading.oversizedIn?
  rw [normalize_nines, lexemes_nines, List.findSome?_singleton]
  unfold Reading.oversized?
  simp only [Reading.numeral?, Option.bind_some, length]
  rw [if_pos (Nat.lt_succ_of_le big)]

theorem decodeFrom_nines (index count : Nat) :
    Utf8.decodeFrom index none (List.replicate count 0x39) = .ok (List.replicate count '9') := by
  induction count generalizing index with
  | zero => rfl
  | succ count ih =>
      rw [List.replicate_succ, Utf8.decodeFrom]
      change (Utf8.decodeFrom (index + 1) none _).map _ = _
      rw [ih]
      rfl

theorem decode_nines [Codecs] (count : Nat) :
    Attempt.decode ['u', 't', 'f', '8'] (List.replicate (count + 1) 0x39) =
      .ok (List.replicate (count + 1) '9') := by
  rw [Attempt.decode_of_ofName? (rfl : Encoding.ofName? ['u', 't', 'f', '8'] = some .utf8)]
  change Except.mapError _ (Except.mapError _ (Utf8.decodeFrom 0 none _)) = _
  rw [decodeFrom_nines]
  rfl

/-! ### The batch -/

namespace Batch

variable {tree : Tree} {directory : Option Text} {config : Config} {files texts : List Text}

theorem exists_texts [Codecs]
    (each : ∀ file ∈ files, ∃ text,
      Attempt.HasText tree (directoryOf directory config) config.encoding file text) :
    ∃ texts, List.Forall₂
      (Attempt.HasText tree (directoryOf directory config) config.encoding) files texts := by
  induction files with
  | nil => exact ⟨[], .nil⟩
  | cons file rest ih =>
      obtain ⟨text, has⟩ := each file List.mem_cons_self
      obtain ⟨texts, others⟩ := ih (fun other member => each other (List.mem_cons_of_mem _ member))
      exact ⟨text :: texts, .cons has others⟩

theorem collect_of_oversized [Codecs] (digits : Nat)
    (all : List.Forall₂ (Attempt.HasText tree (directoryOf directory config) config.encoding)
      files texts)
    (big : texts.findSome? oversizedDigits? = some digits) :
    collect (files.map (workOf tree directory config)) = .error (.oversized digits) := by
  induction all with
  | nil => cases big
  | @cons file text files texts has _ ih =>
      rw [List.map_cons, collect, workOf]
      rw [List.findSome?_cons] at big
      cases here : oversizedDigits? text with
      | some found =>
          rw [here] at big
          cases big
          rw [has.outcome_of_oversized digits here]
      | none =>
          rw [here] at big
          obtain ⟨record, made, _⟩ := has.exists_tellsOf here
          rw [made]
          dsimp only
          rw [ih big]

theorem allMade_of_small [Codecs]
    (all : List.Forall₂ (Attempt.HasText tree (directoryOf directory config) config.encoding)
      files texts)
    (small : ∀ text ∈ texts, oversizedDigits? text = none) :
    ∃ records, AllMade (files.map (workOf tree directory config)) records ∧
      List.Forall₂ (fun text record => record.TellsOf text) texts records := by
  induction all with
  | nil => exact ⟨[], .nil, .nil⟩
  | @cons file text files texts has _ ih =>
      obtain ⟨record, made, tells⟩ := has.exists_tellsOf (small text List.mem_cons_self)
      obtain ⟨records, later, tell⟩ :=
        ih (fun other member => small other (List.mem_cons_of_mem text member))
      exact ⟨record :: records, .cons made later, .cons tells tell⟩

/-- A batch of files with good names and good bytes has one record for each file, and the record
tells whether its text was refused, unless some text holds an oversized integer: then the first
such integer is all that comes of the batch. -/
theorem run_completes_iff [Codecs] (tree : Tree) (directory : Option Text) (config : Config)
    (files : List Text) (staffed : 1 ≤ config.workers)
    (listed : listing tree (directoryOf directory config) = .ok files)
    (each : ∀ file ∈ files, ∃ text,
      Attempt.HasText tree (directoryOf directory config) config.encoding file text) :
    ∃ texts, List.Forall₂
        (Attempt.HasText tree (directoryOf directory config) config.encoding) files texts ∧
      ((∃ result, run tree directory config = .ok result) ↔
        ∀ text ∈ texts, oversizedDigits? text = none) ∧
      (∀ result, run tree directory config = .ok result →
        result.records.length = files.length ∧
          List.Forall₂ (fun text record => record.TellsOf text) texts result.records) ∧
      ∀ digits, texts.findSome? oversizedDigits? = some digits →
        run tree directory config = .error (.oversized digits) := by
  obtain ⟨texts, all⟩ := exists_texts each
  refine ⟨texts, all, ?_⟩
  have answer := run_records tree directory config files staffed listed
  cases found : texts.findSome? oversizedDigits? with
  | some digits =>
      rw [collect_of_oversized digits all found] at answer
      have stopped := error_of_map_error answer
      have big : ¬ ∀ text ∈ texts, oversizedDigits? text = none := by
        intro small
        rw [List.findSome?_eq_none_iff.mpr small] at found
        cases found
      rw [stopped]
      refine ⟨⟨?_, fun small => absurd small big⟩, ?_, ?_⟩
      · rintro ⟨result, impossible⟩
        cases impossible
      · intro result impossible
        cases impossible
      · rintro _ ⟨⟩
        rfl
  | none =>
      have small := List.findSome?_eq_none_iff.mp found
      obtain ⟨records, made, tell⟩ := allMade_of_small all small
      rw [collect_of_allMade made] at answer
      obtain ⟨result, done, rfl⟩ := exists_ok_of_map_ok answer
      rw [done]
      refine ⟨⟨fun _ => small, fun _ => ⟨result, rfl⟩⟩, ?_, ?_⟩
      · rintro _ ⟨⟩
        exact ⟨tell.length_eq.symm.trans all.length_eq.symm, tell⟩
      · intro digits impossible
        cases impossible

/-- A stray bracket and an empty text. -/
theorem run_completes_iff_at_stray_bracket :
    listing
        ⟨[([['c']], .directory), ([['c'], ['1']], .file [0x7d]), ([['c'], ['2']], .file [])], []⟩
        (directoryOf none ⟨['c'], 1, 50, ['u', 't', 'f', '8']⟩) = .ok [['1'], ['2']] ∧
      ∃ result, run
          ⟨[([['c']], .directory), ([['c'], ['1']], .file [0x7d]), ([['c'], ['2']], .file [])], []⟩
          none ⟨['c'], 1, 50, ['u', 't', 'f', '8']⟩ = .ok result ∧
        result.records.length = 2 ∧
          List.Forall₂ (fun text record => record.TellsOf text) [['}'], []] result.records := by
  have listed : listing
      ⟨[([['c']], .directory), ([['c'], ['1']], .file [0x7d]), ([['c'], ['2']], .file [])], []⟩
      (directoryOf none ⟨['c'], 1, 50, ['u', 't', 'f', '8']⟩) = .ok [['1'], ['2']] := rfl
  refine ⟨listed, ?_⟩
  obtain ⟨texts, all, done, tell, _⟩ := run_completes_iff _ none _ _ (by decide) listed (by
    intro file member
    rcases List.mem_pair.mp member with rfl | rfl
    · exact ⟨['}'], ⟨_, _, rfl, by decide, by decide⟩, _, rfl, rfl⟩
    · exact ⟨[], ⟨_, _, rfl, by decide, by decide⟩, _, rfl, rfl⟩)
  obtain rfl : [['}'], []] = texts := by
    obtain _ | ⟨⟨_, _, found, first⟩, _ | ⟨⟨_, _, foundToo, second⟩, ⟨⟩⟩⟩ := all
    cases found
    cases foundToo
    cases first
    cases second
    rfl
  obtain ⟨result, ended⟩ := done.mpr (by decide)
  exact ⟨result, ended, tell result ended⟩

/-- A file that holds nothing but the digit nine, once more than an integer may have digits. -/
theorem run_stops_at_long_integer :
    listing ⟨[([['c']], .directory), ([['c'], ['1']], .file (List.replicate 4301 0x39))], []⟩
        (directoryOf none ⟨['c'], 1, 50, ['u', 't', 'f', '8']⟩) = .ok [['1']] ∧
      Attempt.HasText
        ⟨[([['c']], .directory), ([['c'], ['1']], .file (List.replicate 4301 0x39))], []⟩
        (directoryOf none ⟨['c'], 1, 50, ['u', 't', 'f', '8']⟩) ['u', 't', 'f', '8'] ['1']
        (List.replicate 4301 '9') ∧
      run ⟨[([['c']], .directory), ([['c'], ['1']], .file (List.replicate 4301 0x39))], []⟩
        none ⟨['c'], 1, 50, ['u', 't', 'f', '8']⟩ = .error (.oversized 4301) := by
  -- No step but the decoding looks at the bytes.
  generalize bytes_eq : List.replicate 4301 (0x39 : UInt8) = bytes
  have listed : listing ⟨[([['c']], .directory), ([['c'], ['1']], .file bytes)], []⟩
      (directoryOf none ⟨['c'], 1, 50, ['u', 't', 'f', '8']⟩) = .ok [['1']] := rfl
  have decoded : Attempt.decode ['u', 't', 'f', '8'] bytes = .ok (List.replicate 4301 '9') := by
    rw [← bytes_eq]
    exact decode_nines 4300
  have has : Attempt.HasText ⟨[([['c']], .directory), ([['c'], ['1']], .file bytes)], []⟩
      (directoryOf none ⟨['c'], 1, 50, ['u', 't', 'f', '8']⟩) ['u', 't', 'f', '8'] ['1']
      (List.replicate 4301 '9') :=
    ⟨⟨_, _, rfl, by decide, by decide⟩, bytes, rfl, decoded⟩
  refine ⟨listed, has, ?_⟩
  have answer := run_records _ none ⟨['c'], 1, 50, ['u', 't', 'f', '8']⟩ _ (by decide) listed
  rw [collect_of_oversized 4301 (.cons has .nil)] at answer
  · exact error_of_map_error answer
  · rw [List.findSome?_singleton]
    exact oversizedDigits?_nines 4300 (Nat.le_refl _)

end Batch

end SheetCensus
