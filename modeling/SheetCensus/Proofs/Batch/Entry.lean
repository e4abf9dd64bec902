import Mathlib.Data.List.TakeWhile
import SheetCensus.Batch.Entry
import SheetCensus.Proofs.Census.Count
import SheetCensus.Proofs.Text.Ascii

set_option autoImplicit false

/-! The record of one file. A file has a record when its name has an event id and its content is
read and decoded; the record then is a count or a failure (`Attempt.ofFile_ok`), and on both ways
its fields agree with the name, the content and the number of rules
(`Attempt.ofFile_isConsistent`). -/

namespace SheetCensus

/-! ### The event id -/

/-- The longest beginning of a name that is made of digits, if it is not empty. -/
structure IsEventId (id name : Text) : Prop where
  ne_nil : id ≠ []
  begins : id <+: name
  digits : ∀ c ∈ id, IsAsciiDigit c
  longest : ∀ other, other <+: name → (∀ c ∈ other, IsAsciiDigit c) → other <+: id

theorem eventId_ok (name id : Text) (found : eventId name = .ok id) : IsEventId id name := by
  have same : name.takeWhile Char.isDigit = id ∧ id ≠ [] := by
    unfold eventId at found
    cases digits : name.takeWhile Char.isDigit with
    | nil =>
        rw [digits] at found
        cases found
    | cons c rest =>
        rw [digits] at found
        cases found
        exact ⟨rfl, List.cons_ne_nil c rest⟩
  obtain ⟨rfl, some⟩ := same
  refine ⟨some, List.takeWhile_prefix _, ?_, ?_⟩
  · intro c member
    exact (isDigit_iff c).mp (List.mem_takeWhile_imp member)
  · intro other begins digits
    obtain ⟨rest, rfl⟩ := begins
    rw [List.takeWhile_append_of_pos (fun c member => (isDigit_iff c).mpr (digits c member))]
    exact List.prefix_append other _

/-! ### The ways to a record -/

theorem Attempt.ofContent_ok (id file label content : Text) (digestLength : Int) (record : Record)
    (made : (ofContent id file label content digestLength).outcome = .ok record) :
    (∃ sheet, Stylesheet.read content (some label) = .ok sheet ∧
        record = (Record.initial id content.length).countSheet sheet) ∨
      ∃ fault, Stylesheet.read content (some label) = .error (.fault fault) ∧
        record = (Record.initial id content.length).failed content
          fault.diagnostic.text digestLength := by
  unfold ofContent at made
  dsimp only at made
  cases read : Stylesheet.read content (some label) with
  | ok sheet =>
      rw [read] at made
      exact Or.inl ⟨sheet, rfl, (Except.ok.inj made).symm⟩
  | error refusal =>
      rw [read] at made
      cases refusal with
      | fault fault => exact Or.inr ⟨fault, rfl, (Except.ok.inj made).symm⟩
      | oversized digits => cases made

theorem Attempt.ofFile_ok [Codecs] (tree : Tree) (directory : Path) (file : Text) (config : Config)
    (record : Record) (made : (ofFile tree directory file config).outcome = .ok record) :
    ∃ id text, eventId file = .ok id ∧
      content tree (directory.join (Path.ofText file)) config.encoding = .ok text ∧
        (ofContent id file (directory.join (Path.ofText file)).text text
          config.digestLength).outcome = .ok record := by
  unfold ofFile at made
  cases named : eventId file with
  | error failure =>
      rw [named] at made
      cases made
  | ok id =>
      rw [named] at made
      dsimp only at made
      cases decoded : content tree (directory.join (Path.ofText file)) config.encoding with
      | error failure =>
          rw [decoded] at made
          cases made
      | ok text =>
          rw [decoded] at made
          exact ⟨id, text, rfl, rfl, made⟩

/-! ### Fields that agree -/

/-- The number of top-level rules that are counted: none in a text that is refused or empty. -/
def ruleCount (content : Text) (label : Option Text) : Nat :=
  match Stylesheet.read content label with
  | .ok sheet => sheet.ruleList.length
  | .error _ => 0

/-- A record agrees with the name and the content of its file, with the length of digests and with
the number of counted rules. -/
structure Record.IsConsistent (record : Record) (file content : Text) (digestLength : Int)
    (rules : Nat) : Prop where
  isEventId : IsEventId record.eventId file
  length_eq : record.length = content.length
  error_flag : record.error = 0 ∨ record.error = 1
  empty_flag : record.emptyStylesheet = 0 ∨ record.emptyStylesheet = 1
  one_flag : ¬ (record.error = 1 ∧ record.emptyStylesheet = 1)
  counters_zero : record.error = 1 ∨ record.emptyStylesheet = 1 →
    record.backgroundSelectors = 0 ∧ record.colorSelectors = 0 ∧
      record.backgroundIsOverriddenWithImage = 0
  digest_from_front : record.error = 1 → 0 ≤ digestLength →
    record.digest = content.take digestLength.toNat
  digest_from_back : record.error = 1 → digestLength < 0 →
    record.digest = content.take (content.length - digestLength.natAbs)
  errorStack_ne_nil : record.error = 1 → record.errorStack ≠ []
  no_error : record.error = 0 → record.digest = [] ∧ record.errorStack = []
  overridden_nonneg : 0 ≤ record.backgroundIsOverriddenWithImage
  overridden_le : record.backgroundIsOverriddenWithImage ≤ record.backgroundSelectors
  background_le : record.backgroundSelectors ≤ rules
  color_nonneg : 0 ≤ record.colorSelectors
  color_le : record.colorSelectors ≤ rules

namespace Record

private theorem stackText_ne_nil (message : Text) : stackText message ≠ [] := by
  unfold stackText
  dsimp only
  intro none
  have dropped := List.dropWhile_eq_nil_iff.mp (List.reverse_eq_nil_iff.mp none)
  have letter : 's' ∈ errorClass := by decide
  have impossible := dropped 's' (List.mem_reverse.mpr (List.mem_append_left _ letter))
  cases impossible

private theorem clip_of_nonneg (text : Text) (count : Int) (front : 0 ≤ count) :
    text.clip count = text.take count.toNat := by
  cases count with
  | ofNat number => rfl
  | negSucc number => exact absurd front (Int.negSucc_not_nonneg number).mp

private theorem clip_of_neg (text : Text) (count : Int) (back : count < 0) :
    text.clip count = text.take (text.length - count.natAbs) := by
  cases count with
  | ofNat number => exact absurd back (Int.not_lt.mpr (Int.natCast_nonneg number))
  | negSucc number => rfl

theorem failed_isConsistent (id file content message : Text) (digestLength : Int)
    (named : IsEventId id file) :
    ((initial id content.length).failed content message digestLength).IsConsistent
      file content digestLength 0 where
  isEventId := named
  length_eq := rfl
  error_flag := Or.inr rfl
  empty_flag := Or.inl rfl
  one_flag := by
    rintro ⟨_, impossible⟩
    cases impossible
  counters_zero := fun _ => ⟨rfl, rfl, rfl⟩
  digest_from_front := fun _ front => clip_of_nonneg content digestLength front
  digest_from_back := fun _ back => clip_of_neg content digestLength back
  errorStack_ne_nil := fun _ => stackText_ne_nil message
  no_error := by
    intro impossible
    cases impossible
  overridden_nonneg := Int.le_refl 0
  overridden_le := Int.le_refl 0
  background_le := Int.le_refl 0
  color_nonneg := Int.le_refl 0
  color_le := Int.le_refl 0

private theorem isConsistent_of_clean (record : Record) (file content : Text) (digestLength : Int)
    (rules : Nat) (named : IsEventId record.eventId file)
    (length_eq : record.length = content.length) (clean : record.error = 0)
    (bare : record.digest = [] ∧ record.errorStack = [])
    (flag : record.emptyStylesheet = 0 ∨ record.emptyStylesheet = 1 ∧
      record.backgroundSelectors = 0 ∧ record.colorSelectors = 0 ∧
        record.backgroundIsOverriddenWithImage = 0)
    (overridden : 0 ≤ record.backgroundIsOverriddenWithImage ∧
      record.backgroundIsOverriddenWithImage ≤ record.backgroundSelectors)
    (background : record.backgroundSelectors ≤ rules)
    (color : 0 ≤ record.colorSelectors ∧ record.colorSelectors ≤ rules) :
    record.IsConsistent file content digestLength rules := by
  have never : record.error ≠ 1 := by
    rw [clean]
    decide
  exact
    { isEventId := named
      length_eq := length_eq
      error_flag := Or.inl clean
      empty_flag := flag.imp id And.left
      one_flag := fun both => never both.1
      counters_zero := by
        rintro (failed | isEmpty)
        · exact absurd failed never
        · rcases flag with filled | ⟨_, zeros⟩
          · rw [filled] at isEmpty
            cases isEmpty
          · exact zeros
      digest_from_front := fun failed => absurd failed never
      digest_from_back := fun failed => absurd failed never
      errorStack_ne_nil := fun failed => absurd failed never
      no_error := fun _ => bare
      overridden_nonneg := overridden.1
      overridden_le := overridden.2
      background_le := background
      color_nonneg := color.1
      color_le := color.2 }

theorem count_isConsistent (id file content : Text) (digestLength : Int) (rules : List Rule)
    (named : IsEventId id file) :
    ((initial id content.length).count rules).IsConsistent file content digestLength
      rules.length := by
  by_cases some : rules = []
  · subst some
    apply isConsistent_of_clean _ _ _ _ _ named rfl rfl ⟨rfl, rfl⟩ (Or.inr ⟨rfl, rfl, rfl, rfl⟩)
    · exact ⟨Int.le_refl 0, Int.le_refl 0⟩
    · exact Int.le_refl 0
    · exact ⟨Int.le_refl 0, Int.le_refl 0⟩
  · have overridden := countP_isOverridden_le rules
    have background : rules.countP Rule.hasBackground ≤ rules.length := List.countP_le_length
    have color : rules.countP Rule.hasColor ≤ rules.length := List.countP_le_length
    rw [count_of_ne_nil _ rules some]
    apply isConsistent_of_clean _ _ _ _ _ named rfl rfl ⟨rfl, rfl⟩ (Or.inl rfl)
    · change (0 : Int) ≤ 0 + _ ∧ (0 : Int) + _ ≤ 0 + _
      omega
    · change (0 : Int) + _ ≤ _
      omega
    · change (0 : Int) ≤ 0 + _ ∧ (0 : Int) + _ ≤ _
      omega

end Record

theorem Attempt.isConsistent_of_content [Codecs] {tree : Tree} {directory : Path} {file text : Text}
    {config : Config} {record : Record}
    (decoded : content tree (directory.join (Path.ofText file)) config.encoding = .ok text)
    (made : (ofFile tree directory file config).outcome = .ok record) :
    record.IsConsistent file text config.digestLength
      (ruleCount text (some (directory.join (Path.ofText file)).text)) := by
  obtain ⟨id, found, named, again, made⟩ := ofFile_ok tree directory file config record made
  rw [decoded] at again
  cases again
  have begins := eventId_ok file id named
  unfold ruleCount
  rcases ofContent_ok _ _ _ _ _ _ made with ⟨sheet, read, rfl⟩ | ⟨fault, read, rfl⟩
  · rw [read]
    exact Record.count_isConsistent id file text config.digestLength sheet.ruleList begins
  · rw [read]
    exact Record.failed_isConsistent id file text _ config.digestLength begins

/-- Every record that a file has agrees with its name and its decoded content. -/
theorem Attempt.ofFile_isConsistent [Codecs] (tree : Tree) (directory : Path) (file : Text)
    (config : Config) (record : Record)
    (made : (ofFile tree directory file config).outcome = .ok record) :
    ∃ text, content tree (directory.join (Path.ofText file)) config.encoding = .ok text ∧
      record.IsConsistent file text config.digestLength
        (ruleCount text (some (directory.join (Path.ofText file)).text)) := by
  obtain ⟨id, text, named, decoded, ends⟩ := ofFile_ok tree directory file config record made
  exact ⟨text, decoded, isConsistent_of_content decoded made⟩

/-- A file in UTF-8 that ends inside a block, with digests that leave off the last character. -/
theorem Attempt.ofFile_isConsistent_at_open_block :
    ∃ record, (ofFile
        ⟨[([['c']], .directory), ([['c'], ['7', 'x']], .file [0x61, 0xc3, 0xa9, 0x7b])], []⟩
        ⟨[], [['c']]⟩ ['7', 'x'] ⟨['c'], 1, -1, ['u', 't', 'f', '8']⟩).outcome = .ok record ∧
      record.error = 1 ∧ record.digest = ['a', 'é'] ∧
        record.IsConsistent ['7', 'x'] ['a', 'é', '{'] (-1) 0 := by
  refine ⟨_, rfl, rfl, rfl, ?_⟩
  obtain ⟨text, decoded, agrees⟩ := ofFile_isConsistent
    ⟨[([['c']], .directory), ([['c'], ['7', 'x']], .file [0x61, 0xc3, 0xa9, 0x7b])], []⟩
    ⟨[], [['c']]⟩ ['7', 'x'] ⟨['c'], 1, -1, ['u', 't', 'f', '8']⟩ _ rfl
  cases decoded
  exact agrees

end SheetCensus
