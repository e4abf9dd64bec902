import SheetCensus.Proofs.Batch.Completion
import SheetCensus.Proofs.Css.Filler
import SheetCensus.Proofs.Source.Normalization

set_option autoImplicit false

/-! Style sheets without rules. A text has no rules exactly when it is void: no lexeme of it is of
the kind that a construct begins with, no integer stands in it, and the check of the end passes it
unless a comment has no end (`Reading.hasNoRules_iff`). So the flag of an empty style sheet is set
for the void texts and for no other ones (`Attempt.empty_iff_isVoid`). -/

namespace SheetCensus

namespace Css

/-- Comments hold nothing, so a text comes to a construct with them or without them. -/
theorem forall_mem_withoutComments_iff (lexemes : List (Position × Lexeme)) :
    (∀ entry ∈ withoutComments lexemes, entry.2.IsFiller) ↔
      ∀ entry ∈ lexemes, entry.2.IsFiller := by
  unfold withoutComments
  constructor
  · intro fillers entry member
    cases comment : entry.2.isComment with
    | true =>
        obtain ⟨position, lexeme⟩ := entry
        cases lexeme with
        | comment body closed => trivial
        | _ => cases comment
    | false => exact fillers entry (List.mem_filter.mpr ⟨member, by rw [comment]; rfl⟩)
  · intro fillers entry member
    exact fillers entry (List.mem_filter.mp member).1

end Css

open Css

/-! ### The check of the end -/

namespace Ending

theorem blocks_ofToken_of_isBetween (token : Token)
    (between : Construct.isBetween token = true) : (ofToken token).blocks = [] := by
  cases token with
  | leaf position leaf => cases leaf <;> rfl
  | block position opener content => cases between

/-- Only blocks can be refused at the end of a complete text, and here are none. -/
theorem fault?_of_isVoid (text : Text) (label : Option Text) (void : IsVoid text) :
    (ofText text).fault? text label = none := by
  have pieces_filler := pieces_of_isVoid void
  have bare : ¬ (Nest.ofLexemes (lexemes text)).IsFilled := by
    unfold Nest.ofLexemes
    rw [Nest.isFilled_foldl_step]
    rintro ((opened | ⟨token, impossible, _⟩) | ⟨entry, member, holds⟩)
    · exact opened rfl
    · cases impossible
    · exact holds ((forall_mem_placed_iff Lexeme.IsFiller .start (pieces text)).mpr
        (fun piece member => (pieces_filler piece member).1) entry member)
  obtain ⟨shut, between⟩ := not_or.mp bare
  have closed : openFrames text = [] := not_not.mp shut
  have complete : IsComplete text := by
    refine ⟨closed, ?_⟩
    rintro ⟨piece, member, body, opened⟩
    exact (pieces_filler piece member).2 body opened
  have blocks : (ofText text).blocks = [] := by
    rw [ofText_eq, closed, List.map_nil, List.append_nil]
    cases recent : (Nest.ofLexemes (lexemes text)).recent with
    | nil => rfl
    | cons token rest =>
        rw [ofRecent_cons]
        apply blocks_ofToken_of_isBetween
        rw [recent] at between
        by_contra holds
        exact between ⟨token, List.mem_cons_self, Bool.not_eq_true _ ▸ holds⟩
  rw [fault?_eq_none_iff_of_isComplete text label complete]
  refine ⟨Or.inr blocks, .curly, ?_⟩
  rw [blocks]
  simp

/-- A comment without an end after nothing is told from one that ends: the star of its opening mark
is not the end of another one. -/
theorem not_marks_suffix (read body : Text) (void : IsVoid read)
    (endless : Lexeme.commentEnd? body = none) :
    ¬ ['/', '*', '/', '*', '/'] <:+ read ++ '/' :: '*' :: body := by
  intro marked
  have opened : '/' :: '*' :: body <:+ read ++ '/' :: '*' :: body := List.suffix_append _ _
  have tail : ['*', '/'] <:+ read ++ '/' :: '*' :: body := List.IsSuffix.trans (by decide) marked
  match body with
  | [] => exact absurd (List.suffix_of_suffix_length_le opened tail (Nat.le_refl 2)) (by decide)
  | [last] =>
      obtain ⟨front, whole⟩ := marked
      have parted : front ++ ['/', '*'] ++ ['/', '*', '/'] = read ++ ['/', '*', last] := by
        rw [← whole]
        simp
      have same := (List.append_inj' parted rfl).1
      apply void.getLast?_ne_star
      rw [← same, List.getLast?_append]
      rfl
  | first :: second :: more =>
      have inBody : ['*', '/'] <:+ first :: second :: more :=
        List.suffix_of_suffix_length_le tail ((List.suffix_append ['/', '*'] _).trans opened)
          (by simp)
      obtain ⟨front, ends⟩ := inBody
      rw [← ends] at endless
      exact absurd endless (commentEnd?_append_ne_none front [])

theorem fault?_ne_none_of_endsInComment (text : Text) (label : Option Text)
    (ends : EndsInComment text) (read body : Text) (void : IsVoid read)
    (cut : text = read ++ '/' :: '*' :: body) (endless : Lexeme.commentEnd? body = none) :
    (ofText text).fault? text label ≠ none := by
  rw [Ne, fault?_eq_none_iff_of_not_isComplete text label (fun complete => complete.2 ends)]
  rintro (⟨_, _, marked⟩ | ⟨outside, _⟩)
  · rw [cut] at marked
    exact not_marks_suffix read body void endless marked
  · exact outside ends

end Ending

/-! ### The three stages -/

namespace Reading

theorem rules_eq_nil_iff (source : Source) (label : Option Text) (constructs : List Construct) :
    rules source label constructs = .ok [] ↔ constructs = [] := by
  cases constructs with
  | nil => exact ⟨fun _ => rfl, fun _ => rfl⟩
  | cons construct rest =>
      refine ⟨?_, fun impossible => by cases impossible⟩
      intro made
      unfold rules at made
      split at made
      · cases made
      · split at made <;> cases made

theorem rulesIn_eq_nil_iff (text : Text) (label : Option Text) :
    rulesIn text label = .ok [] ↔ ∀ piece ∈ pieces text, piece.lexeme.IsFiller := by
  unfold rulesIn
  rw [rules_eq_nil_iff, constructs_nest_eq_nil_iff, forall_mem_withoutComments_iff]
  exact forall_mem_placed_iff Lexeme.IsFiller .start (pieces text)

theorem oversized?_of_isFiller (lexeme : Lexeme) (filler : lexeme.IsFiller) :
    oversized? lexeme = none := by
  cases lexeme with
  | leaf leaf =>
      cases leaf with
      | number numeral => cases filler
      | percentage numeral => cases filler
      | dimension numeral unit => cases filler
      | _ => rfl
  | _ => rfl

/-- No stage refuses a void text and the last one finds no rule in it; any other text is refused by
one of them or has a rule. -/
theorem hasNoRules_iff (text : Text) (label : Option Text) :
    (oversizedIn? text = none ∧ (Ending.ofText text).fault? text label = none ∧
      rulesIn text label = .ok []) ↔ IsVoid text := by
  rw [rulesIn_eq_nil_iff]
  constructor
  · rintro ⟨_, passes, fillers⟩
    rcases isVoid_or_endsInComment text fillers with void | ⟨ends, read, body, void, cut, endless⟩
    · exact void
    · exact absurd passes
        (Ending.fault?_ne_none_of_endsInComment text label ends read body void cut endless)
  · intro void
    have fillers (piece : Piece) (member : piece ∈ pieces text) : piece.lexeme.IsFiller :=
      (pieces_of_isVoid void piece member).1
    refine ⟨?_, Ending.fault?_of_isVoid text label void, fillers⟩
    rw [oversizedIn?_eq_none_iff]
    exact fun piece member => oversized?_of_isFiller piece.lexeme (fillers piece member)

end Reading

/-! ### Empty style sheets -/

theorem Stylesheet.exists_rules_none_iff (text : Text) (label : Option Text) :
    (∃ sheet, read text label = .ok sheet ∧ sheet.rules = none) ↔
      IsVoid (Source.normalize text) := by
  rw [← Reading.hasNoRules_iff _ label]
  constructor
  · rintro ⟨sheet, made, bare⟩
    obtain ⟨small, passes, rules, found, rfl⟩ := (read_eq_ok_iff text label sheet).mp made
    refine ⟨small, passes, ?_⟩
    cases rules with
    | nil => exact found
    | cons rule others => cases bare
  · rintro ⟨small, passes, found⟩
    exact ⟨_, (read_eq_ok_iff text label _).mpr ⟨small, passes, [], found, rfl⟩, rfl⟩

/-- A list of rules that is there is not empty. -/
theorem Stylesheet.rules_of_read (text : Text) (label : Option Text) (sheet : Stylesheet)
    (made : read text label = .ok sheet) :
    sheet.rules = none ∨ ∃ rule others, sheet.rules = some (rule :: others) := by
  obtain ⟨_, _, rules, _, rfl⟩ := (read_eq_ok_iff text label sheet).mp made
  cases rules with
  | nil => exact Or.inl rfl
  | cons rule others => exact Or.inr ⟨rule, others, rfl⟩

theorem Record.emptyStylesheet_countSheet (id : Text) (length : Int) (sheet : Stylesheet) :
    ((initial id length).countSheet sheet).emptyStylesheet = 1 ↔ sheet.ruleList = [] := by
  unfold countSheet
  rw [count_eq]
  change (if sheet.ruleList = [] then (1 : Int) else 0) = 1 ↔ _
  by_cases bare : sheet.ruleList = []
  · rw [if_pos bare]
    exact iff_of_true rfl bare
  · rw [if_neg bare]
    exact iff_of_false Int.zero_ne_one bare

namespace Attempt

theorem exists_empty_iff (id file label text : Text) (digestLength : Int) :
    (∃ record, (ofContent id file label text digestLength).outcome = .ok record ∧
        record.emptyStylesheet = 1) ↔
      ∃ sheet, Stylesheet.read text (some label) = .ok sheet ∧ sheet.rules = none := by
  constructor
  · rintro ⟨record, made, flag⟩
    rcases ofContent_ok id file label text digestLength record made with
      ⟨sheet, read, rfl⟩ | ⟨fault, _, rfl⟩
    · refine ⟨sheet, read, ?_⟩
      have bare := (Record.emptyStylesheet_countSheet id text.length sheet).mp flag
      rcases Stylesheet.rules_of_read text (some label) sheet read with none | ⟨rule, others, some⟩
      · exact none
      · rw [Stylesheet.ruleList, some] at bare
        cases bare
    · exact absurd flag Int.zero_ne_one
  · rintro ⟨sheet, read, none⟩
    refine ⟨(Record.initial id text.length).countSheet sheet, ?_, ?_⟩
    · unfold ofContent
      dsimp only
      rw [read]
    · rw [Record.emptyStylesheet_countSheet, Stylesheet.ruleList, none]
      rfl

/-- A text is read as a sheet without a list of rules exactly when it is void once its line ends and
null characters are replaced; a sheet of any other text has a rule. The flag in the record of a file
is set exactly for the void texts. -/
theorem empty_iff_isVoid [Codecs] (text : Text) :
    (∀ label, (∃ sheet, Stylesheet.read text label = .ok sheet ∧ sheet.rules = none) ↔
      IsVoid (Source.replaced text)) ∧
    (∀ label sheet, Stylesheet.read text label = .ok sheet → ¬ IsVoid (Source.replaced text) →
      ∃ rule others, sheet.rules = some (rule :: others)) ∧
    ∀ (tree : Tree) (directory : Path) (file : Text) (config : Config),
      HasText tree directory config.encoding file text →
      ((∃ record, (ofFile tree directory file config).outcome = .ok record ∧
        record.emptyStylesheet = 1) ↔ IsVoid (Source.replaced text)) := by
  rw [Source.replaced_eq_normalize]
  refine ⟨Stylesheet.exists_rules_none_iff text, ?_, ?_⟩
  · intro label sheet made filled
    rcases Stylesheet.rules_of_read text label sheet made with none | some
    · exact absurd ((Stylesheet.exists_rules_none_iff text label).mp ⟨sheet, made, none⟩) filled
    · exact some
  · intro tree directory file config has
    obtain ⟨id, taken⟩ := has.ofFile_eq
    rw [taken, exists_empty_iff, Stylesheet.exists_rules_none_iff]

/-- A line end of two characters, a comment with a slash in it and a mark of an enclosing document
are nothing; an at-rule without a block is something. -/
theorem empty_iff_isVoid_at_comment :
    IsVoid (Source.replaced ['\r', '\n', '/', '*', '/', '*', '/', '-', '-', '>']) ∧
      (∃ record, (ofFile
        ⟨[([['c']], .directory),
          ([['c'], ['7']], .file [0x0d, 0x0a, 0x2f, 0x2a, 0x2f, 0x2a, 0x2f, 0x2d, 0x2d, 0x3e])], []⟩
        ⟨[], [['c']]⟩ ['7'] ⟨['c'], 1, 50, ['u', 't', 'f', '8']⟩).outcome = .ok record ∧
          record.emptyStylesheet = 1) ∧
      ∃ sheet rule others, Stylesheet.read ['@', 'm', ';'] none = .ok sheet ∧
        ¬ IsVoid (Source.replaced ['@', 'm', ';']) ∧ sheet.rules = some (rule :: others) := by
  have void : IsVoid (Source.replaced ['\r', '\n', '/', '*', '/', '*', '/', '-', '-', '>']) :=
    ⟨[['\n'], '/' :: '*' :: ['/'] ++ ['*', '/'], ['-', '-', '>']], by
      simp only [List.forall_mem_cons]
      exact ⟨.space '\n' (Or.inr (Or.inr rfl)), .comment ['/'] (by decide), .closing, by simp⟩, rfl⟩
  obtain ⟨_, _, files⟩ := empty_iff_isVoid ['\r', '\n', '/', '*', '/', '*', '/', '-', '-', '>']
  have filled : ¬ IsVoid (Source.replaced ['@', 'm', ';']) := by
    intro impossible
    obtain ⟨sheet, made, bare⟩ := ((empty_iff_isVoid ['@', 'm', ';']).1 none).mpr impossible
    cases made
    cases bare
  obtain ⟨rule, others, found⟩ := (empty_iff_isVoid ['@', 'm', ';']).2.1 none _ rfl filled
  refine ⟨void, ?_, _, rule, others, rfl, filled, found⟩
  apply (files _ ⟨[], [['c']]⟩ ['7'] ⟨['c'], 1, 50, ['u', 't', 'f', '8']⟩ _).mpr void
  exact ⟨⟨'7', [], rfl, by decide, by decide⟩, _, rfl, rfl⟩

end Attempt

end SheetCensus
