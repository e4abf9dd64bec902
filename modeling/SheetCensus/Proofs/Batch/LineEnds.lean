import SheetCensus.Proofs.Batch.Entry
import SheetCensus.Proofs.Source.Normalization
import SheetCensus.Proofs.Stylesheet.Reading

set_option autoImplicit false

/-! Texts that differ in their line ends and null characters only. A style sheet is read from the
text after the replacements, so such texts have the same answer under every label; a record tells
of the text as it stands by its length and its digest alone (`Attempt.ofFile_sameLines`). -/

namespace SheetCensus

theorem Stylesheet.read_congr (first second : Text) (label : Option Text)
    (same : Source.replaced first = Source.replaced second) :
    read first label = read second label := by
  rw [Source.replaced_eq_normalize, Source.replaced_eq_normalize] at same
  rw [read_eq, read_eq, same]

structure Record.SameCensus (record other : Record) : Prop where
  eventId_eq : other.eventId = record.eventId
  empty_eq : other.emptyStylesheet = record.emptyStylesheet
  background_eq : other.backgroundSelectors = record.backgroundSelectors
  color_eq : other.colorSelectors = record.colorSelectors
  overridden_eq : other.backgroundIsOverriddenWithImage = record.backgroundIsOverriddenWithImage
  error_eq : other.error = record.error
  errorStack_eq : other.errorStack = record.errorStack

/-- The record with the parts that are taken from a text as it stands taken from another text. -/
def Record.retold (record : Record) (text : Text) (digestLength : Int) : Record :=
  { record with
    length := text.length
    digest := if record.error = 1 then text.clip digestLength else record.digest }

theorem Record.retold_sameCensus (record : Record) (text : Text) (digestLength : Int) :
    record.SameCensus (record.retold text digestLength) :=
  ⟨rfl, rfl, rfl, rfl, rfl, rfl, rfl⟩

theorem Record.countSheet_retold (id : Text) (length : Int) (sheet : Stylesheet) (text : Text)
    (digestLength : Int) :
    ((initial id length).countSheet sheet).retold text digestLength =
      (initial id text.length).countSheet sheet := by
  unfold countSheet
  rw [count_eq, count_eq]
  rfl

namespace Attempt

/-- The outcome for a text with the same lines is the outcome for the other text, retold. -/
theorem outcome_retold (first second : Text)
    (same : Source.replaced first = Source.replaced second) (id file label : Text)
    (digestLength : Int) :
    (ofContent id file label second digestLength).outcome =
      (ofContent id file label first digestLength).outcome.map
        (fun record => record.retold second digestLength) := by
  unfold ofContent
  dsimp only
  rw [Stylesheet.read_congr first second (some label) same]
  cases Stylesheet.read second (some label) with
  | ok sheet =>
      have retold := Record.countSheet_retold id first.length sheet second digestLength
      exact congrArg Except.ok retold.symm
  | error refusal => cases refusal <;> rfl

theorem ofFile_of_content [Codecs] {tree : Tree} {directory : Path} {file text : Text}
    {config : Config}
    (decoded : content tree (directory.join (Path.ofText file)) config.encoding = .ok text) :
    (ofFile tree directory file config).outcome =
      match eventId file with
      | .error failure => .error failure
      | .ok id =>
          (ofContent id file (directory.join (Path.ofText file)).text text
            config.digestLength).outcome := by
  unfold ofFile
  cases eventId file with
  | error failure => rfl
  | ok id =>
      dsimp only
      rw [decoded]

theorem ofFile_retold [Codecs] {tree other : Tree} {directory : Path} {file first second : Text}
    {config : Config} (same : Source.replaced first = Source.replaced second)
    (decoded : content tree (directory.join (Path.ofText file)) config.encoding = .ok first)
    (decodedToo : content other (directory.join (Path.ofText file)) config.encoding =
      .ok second) :
    (ofFile other directory file config).outcome =
      (ofFile tree directory file config).outcome.map
        (fun record => record.retold second config.digestLength) := by
  rw [ofFile_of_content decoded, ofFile_of_content decodedToo]
  cases eventId file with
  | error failure => rfl
  | ok id => exact outcome_retold first second same id file _ config.digestLength

/-- Texts that the replacements make equal are read as the same style sheet or refused alike, and
replacing once more changes nothing. A file that holds the one text in the place of the other has a
record that differs in its length and its digest at most, or none for the same reason. -/
theorem ofFile_sameLines [Codecs] (first second : Text)
    (same : Source.replaced first = Source.replaced second) :
    Source.replaced (Source.ofText first).text = (Source.ofText first).text ∧
    (∀ label, Stylesheet.read first label = Stylesheet.read second label) ∧
    ∀ (tree other : Tree) (directory : Path) (file : Text) (config : Config),
      content tree (directory.join (Path.ofText file)) config.encoding = .ok first →
      content other (directory.join (Path.ofText file)) config.encoding = .ok second →
      (∀ failure, (ofFile tree directory file config).outcome = .error failure ↔
        (ofFile other directory file config).outcome = .error failure) ∧
      ∀ record twin, (ofFile tree directory file config).outcome = .ok record →
        (ofFile other directory file config).outcome = .ok twin →
        record.SameCensus twin ∧ record.length = first.length ∧ twin.length = second.length ∧
          (record.error = 1 → record.digest = first.clip config.digestLength ∧
            twin.digest = second.clip config.digestLength) ∧
          (record.error ≠ 1 → record.digest = [] ∧ twin.digest = []) := by
  refine ⟨?_, fun label => Stylesheet.read_congr first second label same, ?_⟩
  · rw [Source.replaced_eq_normalize]
    exact Source.normalize_normalize first
  intro tree other directory file config decoded decodedToo
  have told := ofFile_retold same decoded decodedToo
  refine ⟨?_, ?_⟩
  · intro failure
    rw [told]
    cases (ofFile tree directory file config).outcome with
    | error other => rfl
    | ok record =>
        constructor
        · intro impossible
          cases impossible
        · intro impossible
          cases impossible
  · intro record twin made madeToo
    have consistent := isConsistent_of_content decoded made
    obtain rfl : record.retold second config.digestLength = twin := by
      rw [told, made] at madeToo
      exact Except.ok.inj madeToo
    refine ⟨record.retold_sameCensus _ _, consistent.length_eq, rfl, ?_, ?_⟩
    · intro failed
      -- Retold with its own text a record stays the same.
      have alone := ofFile_retold (rfl : Source.replaced first = _) decoded decoded
      rw [made] at alone
      have digest := congrArg Record.digest (Except.ok.inj alone)
      unfold Record.retold at digest ⊢
      dsimp only at digest ⊢
      rw [if_pos failed] at digest ⊢
      exact ⟨digest, rfl⟩
    · intro clean
      have bare := (consistent.no_error (consistent.error_flag.resolve_right clean)).1
      unfold Record.retold
      dsimp only
      rw [if_neg clean]
      exact ⟨bare, bare⟩

/-- A stray bracket in front of a line end of two characters and of one: the digests differ. -/
theorem ofFile_sameLines_at_stray_bracket :
    Source.replaced ['}', '\r', '\n'] = Source.replaced ['}', '\x0c'] ∧
      ∃ record twin,
        (ofFile ⟨[([['c']], .directory), ([['c'], ['7']], .file [0x7d, 0x0d, 0x0a])], []⟩
          ⟨[], [['c']]⟩ ['7'] ⟨['c'], 1, 50, ['u', 't', 'f', '8']⟩).outcome = .ok record ∧
        (ofFile ⟨[([['c']], .directory), ([['c'], ['7']], .file [0x7d, 0x0c])], []⟩
          ⟨[], [['c']]⟩ ['7'] ⟨['c'], 1, 50, ['u', 't', 'f', '8']⟩).outcome = .ok twin ∧
        record.SameCensus twin ∧ record.error = 1 ∧ record.digest = ['}', '\r', '\n'] ∧
          twin.digest = ['}', '\x0c'] := by
  have same : Source.replaced ['}', '\r', '\n'] = Source.replaced ['}', '\x0c'] := rfl
  obtain ⟨_, _, agree⟩ := ofFile_sameLines ['}', '\r', '\n'] ['}', '\x0c'] same
  obtain ⟨census, _, _, digests, _⟩ :=
    (agree ⟨[([['c']], .directory), ([['c'], ['7']], .file [0x7d, 0x0d, 0x0a])], []⟩
      ⟨[([['c']], .directory), ([['c'], ['7']], .file [0x7d, 0x0c])], []⟩
      ⟨[], [['c']]⟩ ['7'] ⟨['c'], 1, 50, ['u', 't', 'f', '8']⟩ rfl rfl).2 _ _ rfl rfl
  exact ⟨same, _, _, rfl, rfl, census, rfl, digests rfl⟩

end Attempt

end SheetCensus
