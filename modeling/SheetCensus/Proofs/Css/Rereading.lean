import SheetCensus.Proofs.Css.Filler
import SheetCensus.Proofs.Css.Neighbours
import SheetCensus.Proofs.Css.Spacing

set_option autoImplicit false

/-! Lexemes written one after the other and read again. A leaf ends in front of what is written
behind it (`Lexeme.endsBefore_written`), so that the lexemes that are written are those that are
read. -/

namespace SheetCensus.Css

open EscapedRun (EndsName)

namespace Lexeme

/-- The lexeme behind a mark of one character is the first of the others, unless something goes
between the two. -/
def GoesOn (behind : Text) (others : List Lexeme) : Prop :=
  ∀ mark c rest, behind = mark :: c :: rest →
    (scan mark (c :: rest)).1 = .leaf (.literal [mark]) →
      c = '/' ∨ ∃ more, others = (scan c rest).1 :: more ∧
        ∀ kind, (scan c rest).1.kind? = some kind → (Kind.literal [mark]).runsInto kind = false

namespace Meets

variable {behind : Text} {others : List Lexeme}

/-! ### Names -/

theorem scan_plus_of_none {rest : Text} (none : numeralWidth ('+' :: rest) = 0) :
    (scan '+' rest).1 = .leaf (.literal ['+']) := by
  rw [scan_eq_scanMark rfl (startsUnicodeRange_of_ne rfl rest) (by simp) rfl none]
  rfl

/-- No range of code points begins with a name that is written in front of other lexemes. -/
theorem not_startsUnicodeRange {name : Text} (filled : name ≠ [])
    (meets : Meets (.ident name) behind others) (goesOn : GoesOn behind others) :
    startsUnicodeRange (identText name ++ behind) = false := by
  rw [← Bool.not_eq_true]
  intro range
  obtain ⟨letter, c, rest, rfl, begins⟩ := exists_of_startsUnicodeRange filled range
  have plus := scan_plus_of_none (meets.numeralWidth_eq (Or.inl rfl))
  have unfused := (meets '+' (c :: rest) rfl).unfused
  rw [plus] at unfused
  rcases goesOn '+' c rest rfl plus with rfl | ⟨more, rfl, apart⟩
  · rcases begins with digit | impossible
    · cases digit
    · cases impossible
  · apply unfused
    apply Fuses.range letter
    rcases begins with hexadecimal | rfl
    · right
      cases digit : isDigit c with
      | true =>
          have numeral := scan_beginsLikeNumeral (numeralWidth_digit digit rest)
          generalize (scan c rest).1 = third at numeral apart
          cases numeral <;> cases apart _ rfl
      | false =>
          have named := scan_hexLetter hexadecimal digit rest
          have begins : BeginsWithHexDigit (c :: EscapedRun.name.value rest) :=
            ⟨c, _, rfl, hexadecimal⟩
          generalize (scan c rest).1 = third at named
          cases named with
          | ident => exact .ident begins
          | function => exact .function begins
    · exact Or.inl (scan_alone '?' (by decide) rest)

theorem endsBefore_ident {name : Text} (filled : name ≠ [])
    (meets : Meets (.ident name) behind others) (goesOn : GoesOn behind others) :
    EndsBefore behind (.leaf (.ident name)) := by
  refine ⟨meets.endsName (Or.inl rfl), ?_, meets.not_startsUnicodeRange filled goesOn, ?_⟩
  · intro round
    obtain ⟨rest, rfl⟩ := List.head?_eq_some_iff.mp round
    have opens : (scan '(' rest).1 = .opener (.bracket .round) :=
      congrArg Prod.fst (scan_opening .round rest)
    cases (meets '(' rest rfl).apart (.block .round) (congrArg kind? opens)
  · intro arrow
    obtain ⟨rfl, closing⟩ := eq_hyphens_of_take_three filled arrow
    obtain ⟨rest, rfl⟩ := List.head?_eq_some_iff.mp closing
    exact (meets '>' rest rfl).unfused (scan_alone '>' (by decide) rest ▸ .closing)

/-! ### Numerals and ranges -/

theorem endsBefore_number {numeral : Text} (meets : Meets (.number numeral) behind others) :
    EndsBefore behind (.leaf (.number numeral)) := by
  have alone := meets.not_startsIdent (Or.inl rfl)
  have none := meets.numeralWidth_eq (Or.inr (Or.inl rfl))
  refine ⟨⟨beginsOutside_digit none, ?_, ?_⟩, alone, ?_⟩
  · rintro rest rfl c first
    obtain ⟨more, rfl⟩ := List.head?_eq_some_iff.mp first
    rw [← Bool.not_eq_true]
    intro digit
    apply numeralWidth_of_mantissa ?_ none
    exact (mantissaWidth_point _).mpr (digitsWidth_digit digit more)
  · cases behind with
    | nil => rfl
    | cons c rest =>
        apply exponentWidth_of_ne
        rintro (rfl | rfl) <;> cases alone
  · intro percent
    obtain ⟨rest, rfl⟩ := List.head?_eq_some_iff.mp percent
    exact (meets '%' rest rfl).unfused (scan_alone '%' (by decide) rest ▸ .percent)

/-- A range of code points parts from what begins like a name, but for an address. -/
theorem not_isNamed {first last : Nat} (meets : Meets (.unicodeRange first last) behind others)
    {c : Char} {rest name : Text} (written : behind = c :: rest) :
    ¬ IsNamed name (scan c rest).1 := by
  intro named
  have apart := (meets c rest written).apart
  generalize (scan c rest).1 = next at named apart
  cases named with
  | ident => cases apart .ident rfl
  | function => cases apart .function rfl

theorem endsBefore_unicodeRange {first last : Nat}
    (meets : Meets (.unicodeRange first last) behind others) : EndsRange behind := by
  have none := meets.numeralWidth_eq (Or.inr (Or.inr (Or.inl rfl)))
  constructor
  · intro c begins
    obtain ⟨rest, rfl⟩ := List.head?_eq_some_iff.mp begins
    rw [← Bool.not_eq_true]
    intro hexadecimal
    exact meets.not_isNamed rfl (scan_hexLetter hexadecimal (beginsOutside_digit none c rfl) rest)
  · intro c begins
    obtain ⟨rest, rfl⟩ := List.head?_eq_some_iff.mp begins
    rw [beq_eq_false_iff_ne]
    rintro rfl
    exact (meets '?' rest rfl).not_literal rfl (scan_alone '?' (by decide) rest)
  · rintro rest rfl c begins
    obtain ⟨more, rfl⟩ := List.head?_eq_some_iff.mp begins
    rw [← Bool.not_eq_true]
    intro hexadecimal
    cases digit : isDigit c with
    | true =>
        exact (numeralWidth_sign (Or.inr rfl) _).mpr (mantissaWidth_digit digit more) none
    | false =>
        have start := isNameStart_of_isHexDigit hexadecimal digit
        apply meets.not_isNamed rfl
        apply scan_isNamed ?_ (startsUnicodeRange_of_ne rfl _) ?_ rfl (by decide)
        · simp [startsIdent, start]
        · intro arrow
          obtain ⟨_, later⟩ := List.cons.inj arrow
          obtain ⟨rfl, _⟩ := List.cons.inj later
          cases start

/-! ### Marks -/

theorem eq_hyphen_of_startsIdent {c : Char} (isMark : IsMark c) (shown : c ≠ '\\')
    (starts : startsIdent (c :: behind) = true) : c = '-' := by
  by_contra other
  have start := isMark.start
  simp [startsIdent, startsEscape, start, shown] at starts

/-- Two hyphens in a row are not written by a mark in front of something else. -/
theorem alone_hyphen (meets : Meets (.literal ['-']) behind others) :
    startsIdent ('-' :: behind) = false := by
  have alone := meets.not_startsIdent (Or.inl rfl)
  have none := meets.numeralWidth_eq (Or.inr (Or.inr (Or.inr rfl)))
  rw [← Bool.not_eq_true]
  intro starts
  cases behind with
  | nil => cases starts
  | cons c rest =>
      have begins : isNameStart c = true ∨ c = '-' ∨ startsEscape (c :: rest) = true := by
        simpa [startsIdent, or_assoc] using starts
      rcases begins with start | rfl | escape
      · rw [startsIdent_of_isNameStart start rest] at alone
        cases alone
      · have hyphen := scan_hyphen_of_none alone none
        exact (meets '-' rest rfl).unfused (hyphen ▸ .hyphen (Or.inr rfl))
      · rw [startsIdent_of_startsEscape escape] at alone
        cases alone

/-- The lexeme behind the two marks does not begin with two hyphens. -/
theorem not_opening (meets : Meets (.literal ['<']) behind others) (goesOn : GoesOn behind others) :
    behind.take 3 ≠ ['!', '-', '-'] := by
  intro opening
  have whole := List.take_append_drop 3 behind
  rw [opening] at whole
  obtain ⟨rest, rfl⟩ : ∃ rest, behind = '!' :: '-' :: '-' :: rest := ⟨_, whole.symm⟩
  have mark := scan_alone '!' (by decide) ('-' :: '-' :: rest)
  have unfused := (meets '!' ('-' :: '-' :: rest) rfl).unfused
  rw [mark] at unfused
  rcases goesOn '!' '-' _ rfl mark with impossible | ⟨more, rfl, _⟩
  · cases impossible
  · apply unfused
    apply Fuses.opening
    by_cases arrow : ('-' :: '-' :: rest).take 3 = ['-', '-', '>']
    · exact Or.inl (scan_arrow arrow)
    · right
      have named := scan_isNamed rfl (startsUnicodeRange_of_ne rfl _) arrow rfl (by decide)
      rw [EscapedRun.value_name_cons rfl] at named
      have begins : BeginsWithHyphens ('-' :: '-' :: EscapedRun.name.value rest) := ⟨_, rfl⟩
      generalize (scan '-' ('-' :: rest)).1 = third at named
      cases named with
      | ident => exact .ident begins
      | function => exact .function begins

theorem endsBefore_mark {c : Char} (isMark : IsMark c) (shown : c ≠ '\\')
    (meets : Meets (.literal [c]) behind others) (goesOn : GoesOn behind others) :
    MarkEnds c behind where
  ident := by
    rw [← Bool.not_eq_true]
    intro starts
    obtain rfl := eq_hyphen_of_startsIdent isMark shown starts
    rw [meets.alone_hyphen] at starts
    cases starts
  numeral := by
    apply numeralWidth_mark isMark.digit
    intro listed
    apply meets.numeralWidth_eq
    simp only [List.mem_cons, List.not_mem_nil, or_false] at listed
    rcases listed with rfl | rfl | rfl <;> exact Or.inr (Or.inr (Or.inr rfl))
  arrow := by
    intro arrow
    obtain ⟨rfl, later⟩ := List.cons.inj arrow
    cases behind with
    | nil => cases later
    | cons d rest =>
        obtain ⟨rfl, _⟩ := List.cons.inj later
        cases meets.alone_hyphen
  keyword := by
    rintro rfl
    exact meets.not_startsIdent (Or.inl rfl)
  hash := by
    rintro rfl
    have ends := meets.endsName (Or.inr rfl)
    rw [ends.escape, Bool.or_false]
    cases first : behind.head? with
    | none => rfl
    | some d => exact ends.char d first
  comment := by
    rintro rfl star
    obtain ⟨rest, rfl⟩ := List.head?_eq_some_iff.mp star
    have touches := meets '*' rest rfl
    rcases scan_star rest with mark | mark
    · exact touches.not_literal rfl mark
    · exact touches.unfused (mark ▸ .comment)
  opening := by
    rintro rfl
    exact meets.not_opening goesOn
  column := by
    rintro rfl bar
    obtain ⟨rest, rfl⟩ := List.head?_eq_some_iff.mp bar
    have touches := meets '|' rest rfl
    rcases scan_bar rest with mark | ⟨long, mark, isLong⟩
    · exact touches.not_literal rfl mark
    · exact touches.unfused (mark ▸ .column isLong)
  match_ := by
    intro listed equals
    obtain ⟨rest, rfl⟩ := List.head?_eq_some_iff.mp equals
    apply (meets '=' rest rfl).not_literal ?_ (scan_alone '=' (by decide) rest)
    simp only [List.mem_cons, List.not_mem_nil, or_false] at listed
    rcases listed with rfl | rfl | rfl | rfl | rfl <;> rfl

end Meets

/-! ### What is written behind a leaf -/

inductive BeginsWithString : List Lexeme → Prop
  | here {value : Text} {others : List Lexeme} :
      BeginsWithString (.leaf (.string value true) :: others)
  | behindSpace {spelling value : Text} {others : List Lexeme}
      (spaces : ∀ c ∈ spelling, isSpace c = true) :
      BeginsWithString (.leaf (.whitespace spelling) :: .leaf (.string value true) :: others)

def IsQuoted (lexeme : Lexeme) (others : List Lexeme) : Prop :=
  ∀ name, lexeme = .opener (.function name) → name.lower = ['u', 'r', 'l'] → BeginsWithString others

/-- What is written for the lexeme in front of the others is read as the lexeme. -/
structure IsKept (lexeme : Lexeme) (others : List Lexeme) : Prop where
  spelled : lexeme.IsSpelled
  faithful : lexeme.isFaithful = true
  unfused : ¬ lexeme.Fuses others
  parted : lexeme.isWhitespace = true → ∀ next, others.head? = some next → next.isWhitespace = false
  quoted : lexeme.IsQuoted others

def AllFirst : List Lexeme → Prop
  | [] => True
  | lexeme :: others =>
      IsFirst (lexeme.text ++ written (some lexeme) others) lexeme lexeme.text.length ∧
        AllFirst others

inductive IsWrittenBehind (left : Leaf) : List Lexeme → Text → Prop
  | nothing : IsWrittenBehind left [] []
  | parted {others : List Lexeme} (rest : Text) :
      IsWrittenBehind left others ('/' :: '*' :: '*' :: '/' :: rest)
  | touching {next : Lexeme} {others : List Lexeme}
      (apart : ∀ kind, next.kind? = some kind → (Kind.ofLeaf left).runsInto kind = false)
      (first : IsFirst (next.text ++ written (some next) others) next next.text.length) :
      IsWrittenBehind left (next :: others) (next.text ++ written (some next) others)

theorem isWrittenBehind (left : Leaf) {others : List Lexeme} (first : AllFirst others) :
    IsWrittenBehind left others (written (some (.leaf left)) others) := by
  cases others with
  | nil => exact .nothing
  | cons next more =>
      cases found : next.kind? with
      | none =>
          have nothing : spacing (some (.leaf left)) next = [] := by simp [spacing, found]
          rw [written, nothing]
          exact .touching (fun kind same => nomatch found.symm.trans same) first.1
      | some kind =>
          have between : spacing (some (.leaf left)) next =
              separator (some (Kind.ofLeaf left)) kind := by simp [spacing, found]
          rw [written, between]
          cases runs : (Kind.ofLeaf left).runsInto kind with
          | true =>
              unfold separator
              rw [Option.any_some, runs, if_pos rfl]
              exact .parted _
          | false =>
              rw [separator_of_not_runsInto runs]
              refine .touching ?_ first.1
              intro other same
              cases found.symm.trans same
              exact runs

theorem scan_separator (rest : Text) :
    (scan '/' ('*' :: '*' :: '/' :: rest)).1 = .comment [] true :=
  (Piece.first_comment [] rest (by decide)).1

theorem meets_written (left : Leaf) {others : List Lexeme}
    (unfused : ¬ (Lexeme.leaf left).Fuses others) (whole : ∀ next ∈ others, next.isFaithful = true)
    (first : AllFirst others) :
    Meets left (written (some (.leaf left)) others) others.tail := by
  intro c rest begins
  have behind := isWrittenBehind left first
  generalize written (some (.leaf left)) others = text at behind begins
  cases behind with
  | nothing => cases begins
  | parted rest =>
      cases begins
      rw [scan_separator]
      exact ⟨nofun, nofun, nofun⟩
  | touching apart here =>
      obtain ⟨d, others, same, scanned⟩ := here
      cases same.symm.trans begins
      rw [scanned]
      refine ⟨apart, unfused, ?_⟩
      rintro leaf error rfl
      cases whole _ List.mem_cons_self

theorem goesOn_written (left : Leaf) {others : List Lexeme} (first : AllFirst others) :
    GoesOn (written (some (.leaf left)) others) others.tail := by
  intro mark c rest begins scanned
  have behind := isWrittenBehind left first
  generalize written (some (.leaf left)) others = text at behind begins
  cases behind with
  | nothing => cases begins
  | parted rest =>
      cases begins
      rw [scan_separator] at scanned
      cases scanned
  | @touching next more apart here =>
      obtain ⟨d, left, same, width⟩ := here
      obtain ⟨rfl, rfl⟩ := List.cons.inj (same.symm.trans begins)
      rw [width] at scanned
      subst scanned
      -- The mark is the next lexeme itself, so the same holds of what is written behind it.
      have later : written (some (.leaf (.literal [d]))) more = c :: rest :=
        (List.cons.inj begins).2
      have behind := isWrittenBehind (.literal [d]) first.2
      rw [later] at behind
      generalize written : c :: rest = text at behind
      cases behind with
      | nothing => cases written
      | parted rest =>
          cases written
          exact Or.inl rfl
      | touching apart third =>
          obtain ⟨e, others, same, scanned⟩ := third
          cases written.trans same
          right
          rw [scanned]
          exact ⟨_, rfl, apart⟩

/-! ### All lexemes -/

theorem isFaithful_of_mem {lexemes : List Lexeme} (kept : EachInFront IsKept lexemes) :
    ∀ lexeme ∈ lexemes, lexeme.isFaithful = true := by
  induction lexemes with
  | nil => exact nofun
  | cons lexeme others ih => exact List.forall_mem_cons.mpr ⟨kept.1.faithful, ih kept.2⟩

theorem quoteFollows_written {left : Lexeme} {others : List Lexeme}
    (opens : ∃ opener, left = .opener opener)
    (begins : BeginsWithString others) : quoteFollows (written (some left) others) = true := by
  obtain ⟨opener, rfl⟩ := opens
  cases begins with
  | here => rfl
  | @behindSpace spelling value more spaces =>
      change quoteFollows (spelling ++ '"' :: _) = true
      unfold quoteFollows
      rw [List.dropWhile_append_of_pos spaces]
      rfl

theorem isWhitespace_scan {c : Char} (space : isSpace c = true) (rest : Text) :
    (scan c rest).1.isWhitespace = true := by
  unfold scan
  rw [if_pos space]
  rfl

theorem beginsOutside_space {spelling : Text} {others : List Lexeme}
    (parted : ∀ next, others.head? = some next → next.isWhitespace = false)
    (first : AllFirst others) :
    BeginsOutside isSpace (written (some (.leaf (.whitespace spelling))) others) := by
  intro c begins
  have behind := isWrittenBehind (.whitespace spelling) first
  generalize written (some (.leaf (.whitespace spelling))) others = text at behind begins
  cases behind with
  | nothing => cases begins
  | parted rest =>
      cases begins
      rfl
  | touching apart here =>
      obtain ⟨d, rest, same, scanned⟩ := here
      rw [same] at begins
      cases begins
      rw [← Bool.not_eq_true]
      intro space
      have solid := parted _ rfl
      have found := isWhitespace_scan space rest
      rw [scanned, solid] at found
      cases found

theorem endsBefore_leaf {left : Leaf} {others : List Lexeme}
    (kept : (Lexeme.leaf left).IsKept others)
    (whole : ∀ next ∈ others, next.isFaithful = true) (first : AllFirst others) :
    EndsBefore (written (some (.leaf left)) others) (.leaf left) := by
  have meets := meets_written left kept.unfused whole first
  have goesOn := goesOn_written left first
  have spelled := kept.spelled
  cases left with
  | whitespace spelling => exact beginsOutside_space (kept.parted rfl) first
  | ident name => exact meets.endsBefore_ident spelled goesOn
  | atKeyword name => exact meets.endsName (Or.inl rfl)
  | hash name isIdentifier => exact meets.endsName (Or.inl rfl)
  | dimension numeral unit => exact meets.endsName (Or.inl rfl)
  | number numeral => exact meets.endsBefore_number
  | unicodeRange start last => exact meets.endsBefore_unicodeRange
  | literal spelling =>
      rcases spelled with ⟨c, rfl, isMark⟩ | long
      · have shown : c ≠ '\\' := by
          simpa [isFaithful, Leaf.isFaithful] using kept.faithful
        exact meets.endsBefore_mark isMark shown goesOn
      · simp only [longMarks, List.mem_cons, List.not_mem_nil, or_false] at long
        rcases long with rfl | rfl | rfl | rfl | rfl | rfl | rfl | rfl <;> trivial
  | _ => trivial

theorem endsBefore_written {lexeme : Lexeme} {others : List Lexeme} (kept : lexeme.IsKept others)
    (whole : ∀ next ∈ others, next.isFaithful = true) (first : AllFirst others) :
    EndsBefore (written (some lexeme) others) lexeme := by
  cases lexeme with
  | leaf left => exact endsBefore_leaf kept whole first
  | opener opener =>
      cases opener with
      | bracket bracket => trivial
      | function name =>
          intro address
          exact quoteFollows_written ⟨_, rfl⟩ (kept.quoted name rfl address)
  | _ => trivial

theorem allFirst_of_kept {lexemes : List Lexeme} (kept : EachInFront IsKept lexemes) :
    AllFirst lexemes := by
  induction lexemes with
  | nil => trivial
  | cons lexeme others ih =>
      obtain ⟨here, later⟩ := kept
      -- Where a lexeme ends depends on what is read behind it, so the last ones come first.
      have first := ih later
      refine ⟨?_, first⟩
      exact isFirst_text lexeme _ here.spelled here.faithful
        (endsBefore_written here (isFaithful_of_mem later) first)

theorem text_ne_nil {lexeme : Lexeme} (spelled : lexeme.IsSpelled)
    (faithful : lexeme.isFaithful = true) : lexeme.text ≠ [] := by
  cases lexeme with
  | leaf found =>
      cases found with
      | whitespace spelling => exact spelled.1
      | comment body => cases faithful
      | literal spelling =>
          rcases spelled with ⟨c, rfl, _⟩ | long
          · exact List.cons_ne_nil _ _
          · rintro rfl
            revert long
            decide
      | ident name =>
          intro none
          have starts := startsIdent_identText name [] spelled
          rw [show identText name = [] from none] at starts
          cases starts
      | number numeral => exact spelled.filled
      | percentage numeral => exact List.append_ne_nil_of_left_ne_nil spelled.filled _
      | dimension numeral unit => exact List.append_ne_nil_of_left_ne_nil spelled.1.filled _
      | error error =>
          have bad : error = .badUrl := by
            simpa [isFaithful, Leaf.isFaithful] using faithful
          subst bad
          exact List.cons_ne_nil _ _
      | _ => exact List.cons_ne_nil _ _
  | opener opener =>
      cases opener with
      | bracket bracket => exact List.cons_ne_nil _ _
      | function name => exact List.append_ne_nil_of_right_ne_nil _ (List.cons_ne_nil _ _)
  | closer bracket => exact List.cons_ne_nil _ _
  | brokenOff leaf error => cases faithful
  | comment body closed => cases faithful

def solids (text : Text) : List Lexeme :=
  ((pieces text).map Piece.lexeme).filter (fun lexeme => !lexeme.isComment)

theorem map_snd_withoutComments (text : Text) :
    (withoutComments (lexemes text)).map Prod.snd = solids text := by
  have placing (position : Position) (pieces : List Piece) :
      (placed position pieces).map Prod.snd = pieces.map Piece.lexeme := by
    induction pieces generalizing position with
    | nil => rfl
    | cons piece rest ih => exact congrArg (piece.lexeme :: ·) (ih _)
  unfold withoutComments solids
  rw [← placing .start, List.filter_map]
  rfl

theorem solids_separator (rest : Text) :
    solids ('/' :: '*' :: '*' :: '/' :: rest) = solids rest := by
  obtain ⟨found, behind⟩ := Piece.first_comment [] rest (by decide)
  have cut : pieces ('/' :: '*' :: '*' :: '/' :: rest) =
      Piece.first '/' ('*' :: '*' :: '/' :: rest) :: pieces rest := by
    rw [pieces_eq_first]
    exact congrArg (fun text => _ :: pieces text) behind
  unfold solids
  rw [cut, List.map_cons, List.filter_cons_of_neg]
  rw [show (Piece.first '/' ('*' :: '*' :: '/' :: rest)).lexeme = _ from found]
  exact Bool.false_ne_true

theorem solids_of_isFirst {lexeme : Lexeme} {behind : Text} (filled : lexeme.text ≠ [])
    (faithful : lexeme.isFaithful = true)
    (first : IsFirst (lexeme.text ++ behind) lexeme lexeme.text.length) :
    solids (lexeme.text ++ behind) = lexeme :: solids behind := by
  obtain ⟨c, rest, written, scanned⟩ := first
  have left : rest.drop (lexeme.text.length - 1) = behind := by
    cases front : lexeme.text with
    | nil => exact absurd front filled
    | cons d more =>
        rw [front] at written
        obtain ⟨_, rfl⟩ := List.cons.inj written
        exact List.drop_left
  have solid : lexeme.isComment = false := by
    cases lexeme with
    | comment body closed => cases faithful
    | _ => rfl
  unfold solids
  rw [written, pieces_cons, scanned, left, List.map_cons, List.filter_cons_of_pos]
  rw [solid]
  rfl

/-- What is written for lexemes that are kept is read as these lexemes. -/
theorem solids_written {left : Option Lexeme} {lexemes : List Lexeme}
    (kept : EachInFront IsKept lexemes) :
    solids (written left lexemes) = lexemes := by
  induction lexemes generalizing left with
  | nil => rfl
  | cons lexeme others ih =>
      obtain ⟨first, _⟩ := allFirst_of_kept kept
      obtain ⟨here, later⟩ := kept
      have read := solids_of_isFirst (text_ne_nil here.spelled here.faithful) here.faithful first
      rw [ih later] at read
      rw [written, List.append_assoc]
      rcases spacing_cases left lexeme with nothing | comment
      · rw [nothing]
        exact read
      · rw [comment]
        exact (solids_separator _).trans read

end Lexeme

end SheetCensus.Css
