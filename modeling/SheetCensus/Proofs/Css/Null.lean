import SheetCensus.Proofs.Css.Flattening
import SheetCensus.Proofs.Css.Numeral
import SheetCensus.Proofs.Text.Ascii

set_option autoImplicit false

/-! The null character. A text without it has none in its lexemes (`Lexeme.scan_noNull`), since no
escape stands for it, and none is written for a lexeme that holds none (`Lexeme.noNull_text`). -/

namespace SheetCensus.Css

def NoNull (text : Text) : Prop :=
  '\x00' ∉ text

instance (text : Text) : Decidable (NoNull text) :=
  inferInstanceAs (Decidable (¬ _))

theorem NoNull.nil : NoNull [] :=
  List.not_mem_nil

theorem NoNull.of_subset {text other : Text} (none : NoNull other) (within : text ⊆ other) :
    NoNull text :=
  fun member => none (within member)

theorem NoNull.append {text other : Text} (none : NoNull text) (noneToo : NoNull other) :
    NoNull (text ++ other) :=
  fun member => (List.mem_append.mp member).elim none noneToo

theorem NoNull.flatMap {text : Text} (none : NoNull text) (write : Char → Text)
    (kept : ∀ c, '\x00' ∈ write c → c = '\x00') : NoNull (text.flatMap write) := by
  intro member
  obtain ⟨c, within, here⟩ := List.mem_flatMap.mp member
  rw [kept c here] at within
  exact none within

/-! ### Escapes -/

theorem scalarOf_ne_null (number : Nat) : scalarOf number ≠ '\x00' := by
  fun_cases scalarOf number with
  | case1 => decide
  | case2 named =>
      simp only [not_or, not_and] at named
      intro null
      have same := toNat_ofNat number (by omega)
      rw [null] at same
      exact named.1 same.symm

theorem escapedChar_ne_null {text : Text} (none : NoNull text) : escapedChar text ≠ '\x00' := by
  unfold escapedChar
  split
  · cases text with
    | nil => decide
    | cons c rest =>
        intro null
        exact none (null ▸ List.mem_cons_self)
  · exact scalarOf_ne_null _

namespace EscapedRun

theorem noNull_value {run : EscapedRun} (atEnd : NoNull run.atEnd)
    (before : ∀ kept skip, run.beforeLineFeed = some (kept, skip) → NoNull kept) {text : Text}
    (none : NoNull text) : NoNull (run.value text) := by
  have from_ (skip : Nat) : NoNull (run.valueFrom skip text) := by
    induction text generalizing skip with
    | nil => cases skip <;> exact .nil
    | cons c rest ih =>
        have noneLater : NoNull rest := none.of_subset (List.subset_cons_self c rest)
        have later := ih noneLater
        cases skip with
        | succ skip => exact later skip
        | zero =>
            unfold valueFrom
            split
            · split
              · exact atEnd
              · split
                · cases same : run.beforeLineFeed with
                  | none => exact .nil
                  | some meant => exact (before meant.1 meant.2 same).append (later meant.2)
                · exact fun member => (List.mem_cons.mp member).elim
                    (fun null => escapedChar_ne_null noneLater null.symm) (later _)
            · split
              · exact fun member => (List.mem_cons.mp member).elim
                  (fun null => none (null ▸ List.mem_cons_self)) (later 0)
              · exact .nil
  exact from_ 0

theorem noNull_name {text : Text} (none : NoNull text) : NoNull (name.value text) := by
  apply noNull_value ?_ ?_ none
  · decide
  · intro kept skip impossible
    cases impossible

theorem noNull_string (quote : Char) {text : Text} (none : NoNull text) :
    NoNull ((string quote).value text) := by
  apply noNull_value .nil ?_ none
  intro kept skip same
  cases same
  exact .nil

theorem noNull_url {text : Text} (none : NoNull text) : NoNull (url.value text) := by
  apply noNull_value ?_ ?_ none
  · decide
  · intro kept skip same
    cases same
    decide

end EscapedRun

/-! ### Lexemes -/

def Leaf.NoNull : Leaf → Prop
  | .whitespace spelling => Css.NoNull spelling
  | .comment body => Css.NoNull body
  | .literal spelling => Css.NoNull spelling
  | .ident name => Css.NoNull name
  | .atKeyword name => Css.NoNull name
  | .hash name _ => Css.NoNull name
  | .string value _ => Css.NoNull value
  | .url value _ => Css.NoNull value
  | .number numeral => Css.NoNull numeral
  | .percentage numeral => Css.NoNull numeral
  | .dimension numeral unit => Css.NoNull numeral ∧ Css.NoNull unit
  | .unicodeRange _ _ => True
  | .error _ => True

namespace Lexeme

def NoNull : Lexeme → Prop
  | .leaf found => found.NoNull
  | .brokenOff found _ => found.NoNull
  | .comment body _ => Css.NoNull body
  | .opener (.function name) => Css.NoNull name
  | .opener (.bracket _) => True
  | .closer _ => True

private theorem scanUrl_noNull {text : Text} (none : Css.NoNull text) :
    (scanUrl text).1.NoNull := by
  have value (count : Nat) := EscapedRun.noNull_url (none.of_subset (List.drop_subset count text))
  unfold scanUrl
  dsimp only
  split
  · exact value _
  · split
    · exact value _
    · split <;> trivial

private theorem scanIdent_noNull {text : Text} (none : Css.NoNull text) :
    (scanIdent text).1.NoNull := by
  have value := EscapedRun.noNull_name none
  have left := none.of_subset (List.drop_subset (EscapedRun.name.width text) text)
  fun_cases scanIdent text with
  | case1 width name rest same address lexeme reach found =>
      rw [same] at left
      have whole := scanUrl_noNull (left.of_subset (List.subset_cons_self _ _))
      rw [found] at whole
      exact whole
  | case2 => exact value
  | case3 => exact value

private theorem scanNumeric_noNull {text : Text} (none : Css.NoNull text) (width : Nat) :
    (scanNumeric text width).1.NoNull := by
  have numeral := none.of_subset (List.take_subset width text)
  unfold scanNumeric
  dsimp only
  split
  · exact ⟨numeral, EscapedRun.noNull_name (none.of_subset (List.drop_subset width text))⟩
  · split <;> exact numeral

private theorem scanString_noNull (quote : Char) {text : Text} (none : Css.NoNull text) :
    (scanString quote text).1.NoNull := by
  have value := EscapedRun.noNull_string quote none
  unfold scanString
  dsimp only
  split
  · exact value
  · split
    · exact value
    · trivial

private theorem scanComment_noNull {text : Text} (none : Css.NoNull text) :
    (scanComment text).1.NoNull := by
  unfold scanComment
  split
  · exact none.of_subset (List.take_subset _ _)
  · exact none

private theorem scanLiteral_noNull {first : Char} {rest : Text} (other : first ≠ '\x00') :
    (scanLiteral first rest).1.NoNull := by
  have alone (more : Text) (none : '\x00' ∉ more) : Css.NoNull (first :: more) :=
    fun member => (List.mem_cons.mp member).elim (fun null => other null.symm) none
  unfold scanLiteral
  split
  · exact (by decide : Css.NoNull ['<', '!', '-', '-'])
  · split
    · exact (by decide : Css.NoNull ['|', '|'])
    · split
      · exact alone _ (by decide)
      · exact alone _ (by decide)

private theorem scanMark_noNull {first : Char} {rest : Text} (none : Css.NoNull (first :: rest)) :
    (scanMark first rest).1.NoNull := by
  have noneLater := none.of_subset (List.subset_cons_self first rest)
  have name := EscapedRun.noNull_name noneLater
  unfold scanMark
  split
  · unfold scanAt
    split
    · exact name
    · exact (by decide : Css.NoNull ['@'])
  split
  · unfold scanHash
    split
    · exact name
    · exact (by decide : Css.NoNull ['#'])
  split
  · exact scanString_noNull first noneLater
  split
  · exact scanComment_noNull (noneLater.of_subset (List.drop_subset 1 rest))
  · split
    · trivial
    · trivial
    · exact scanLiteral_noNull (fun null => none (null ▸ List.mem_cons_self))

theorem scan_noNull {first : Char} {rest : Text} (none : Css.NoNull (first :: rest)) :
    (scan first rest).1.NoNull := by
  unfold scan
  dsimp only
  split
  · exact none.of_subset (List.takeWhile_subset _)
  split
  · trivial
  split
  · exact (by decide : Css.NoNull ['-', '-', '>'])
  split
  · exact scanIdent_noNull none
  split
  · exact scanNumeric_noNull none _
  · exact scanMark_noNull none

end Lexeme

/-! ### What is written -/

theorem noNull_escapedBreak {c : Char} {spelling : Text}
    (isBreak : escapedBreak? c = some spelling) :
    NoNull spelling := by
  unfold escapedBreak? at isBreak
  split at isBreak
  · cases isBreak
    decide
  · split at isBreak
    · cases isBreak
      decide
    · split at isBreak
      · cases isBreak
        decide
      · cases isBreak

/-- What stands in place of a line end, or else this text. -/
theorem mem_escapedBreak {c : Char} {other : Text}
    (member : '\x00' ∈ (escapedBreak? c).getD other) : '\x00' ∈ other := by
  cases isBreak : escapedBreak? c with
  | none =>
      rw [isBreak] at member
      exact member
  | some spelling =>
      rw [isBreak] at member
      exact absurd member (noNull_escapedBreak isBreak)

theorem eq_null_of_mem_nameCharText (c : Char) (member : '\x00' ∈ nameCharText c) : c = '\x00' := by
  unfold nameCharText at member
  split at member
  · exact (List.mem_singleton.mp member).symm
  · have behind := mem_escapedBreak member
    simp only [List.mem_cons, List.not_mem_nil, or_false] at behind
    exact (behind.resolve_left (by decide)).symm

theorem eq_null_of_mem_firstCharText (c : Char) (member : '\x00' ∈ firstCharText c) :
    c = '\x00' := by
  unfold firstCharText at member
  split at member
  · exact (List.mem_singleton.mp member).symm
  · split at member
    · simp only [List.mem_cons, List.not_mem_nil, or_false] at member
      rcases member with impossible | impossible | null | impossible
      · cases impossible
      · cases impossible
      · exact null.symm
      · cases impossible
    · have behind := mem_escapedBreak member
      simp only [List.mem_cons, List.not_mem_nil, or_false] at behind
      exact (behind.resolve_left (by decide)).symm

theorem eq_null_of_mem_stringCharText (c : Char) (member : '\x00' ∈ stringCharText c) :
    c = '\x00' := by
  unfold stringCharText at member
  split at member
  · simp only [List.mem_cons, List.not_mem_nil, or_false] at member
    exact (member.resolve_left (by decide)).symm
  · exact (List.mem_singleton.mp (mem_escapedBreak member)).symm

theorem eq_null_of_mem_urlCharText (c : Char) (member : '\x00' ∈ urlCharText c) : c = '\x00' := by
  unfold urlCharText at member
  split at member
  · simp only [List.mem_cons, List.not_mem_nil, or_false] at member
    exact (member.resolve_left (by decide)).symm
  · split at member
    · exact absurd member (by decide)
    · exact (List.mem_singleton.mp (mem_escapedBreak member)).symm

theorem noNull_nameText {name : Text} (none : NoNull name) : NoNull (nameText name) :=
  none.flatMap nameCharText eq_null_of_mem_nameCharText

theorem noNull_firstCharText {c : Char} {rest : Text} (none : NoNull (c :: rest)) :
    NoNull (firstCharText c) :=
  fun member => none (eq_null_of_mem_firstCharText c member ▸ List.mem_cons_self)

theorem noNull_identText {name : Text} (none : NoNull name) : NoNull (identText name) := by
  have later {c : Char} {rest : Text} (none : NoNull (c :: rest)) : NoNull rest :=
    none.of_subset (List.subset_cons_self c rest)
  have hyphen : NoNull ['-'] := by decide
  unfold identText
  split
  · exact .nil
  · decide
  · exact hyphen.append (hyphen.append (noNull_nameText (later (later none))))
  · exact (hyphen.append (noNull_firstCharText (later none))).append
      (noNull_nameText (later (later none)))
  · exact (noNull_firstCharText none).append (noNull_nameText (later none))

theorem noNull_unitText {unit : Text} (none : NoNull unit) : NoNull (unitText unit) := by
  fun_cases unitText unit with
  | case1 => exact .nil
  | case2 c rest =>
      apply NoNull.append ?_ (noNull_nameText (none.of_subset (List.subset_cons_self c rest)))
      decide
  | case3 => exact noNull_identText none

theorem noNull_codePointText (number : Nat) : NoNull (codePointText number) := by
  intro member
  cases isHexDigit_of_mem_codePointText number _ member

theorem Leaf.noNull_text {leaf : Leaf} (none : leaf.NoNull) : Css.NoNull (leafText leaf) := by
  cases leaf with
  | whitespace spelling => exact none
  | comment body =>
      have opening : Css.NoNull ['/', '*'] := by decide
      have closing : Css.NoNull ['*', '/'] := by decide
      exact (opening.append none).append closing
  | literal spelling => exact none
  | ident name => exact noNull_identText none
  | atKeyword name =>
      have sign : Css.NoNull ['@'] := by decide
      exact sign.append (noNull_identText none)
  | hash name isIdentifier =>
      have sign : Css.NoNull ['#'] := by decide
      cases isIdentifier with
      | true => exact sign.append (noNull_identText none)
      | false => exact sign.append (noNull_nameText none)
  | string value closed =>
      have quote : Css.NoNull ['"'] := by decide
      have begun := quote.append (none.flatMap stringCharText eq_null_of_mem_stringCharText)
      cases closed with
      | true => exact begun.append quote
      | false => exact begun.append .nil
  | url value closed =>
      have opening : Css.NoNull ['u', 'r', 'l', '('] := by decide
      have closing : Css.NoNull [')'] := by decide
      have begun := opening.append (none.flatMap urlCharText eq_null_of_mem_urlCharText)
      cases closed with
      | true => exact begun.append closing
      | false => exact begun.append .nil
  | unicodeRange first last =>
      have opening : Css.NoNull ['U', '+'] := by decide
      have hyphen : Css.NoNull ['-'] := by decide
      apply (opening.append (noNull_codePointText first)).append
      split
      · exact .nil
      · exact hyphen.append (noNull_codePointText last)
  | number numeral => exact none
  | percentage numeral =>
      have percent : Css.NoNull ['%'] := by decide
      exact NoNull.append none percent
  | dimension numeral unit => exact none.1.append (noNull_unitText none.2)
  | error error =>
      cases error with
      | unmatched bracket => cases bracket <;> decide
      | _ => decide

theorem Lexeme.noNull_text {lexeme : Lexeme} (none : lexeme.NoNull) : Css.NoNull lexeme.text := by
  cases lexeme with
  | leaf found => exact Leaf.noNull_text none
  | brokenOff found error => exact Leaf.noNull_text none
  | comment body closed => exact Leaf.noNull_text (show (Leaf.comment body).NoNull from none)
  | opener opener =>
      cases opener with
      | bracket bracket => cases bracket <;> decide
      | function name =>
          have round : Css.NoNull ['('] := by decide
          exact (noNull_identText none).append round
  | closer bracket => cases bracket <;> decide

theorem Lexeme.noNull_written (left : Option Lexeme) {lexemes : List Lexeme}
    (none : ∀ lexeme ∈ lexemes, lexeme.NoNull) : Css.NoNull (written left lexemes) := by
  induction lexemes generalizing left with
  | nil => exact .nil
  | cons lexeme others ih =>
      obtain ⟨here, later⟩ := List.forall_mem_cons.mp none
      have between : Css.NoNull (spacing left lexeme) := by
        rcases spacing_cases left lexeme with nothing | comment
        · rw [nothing]
          exact .nil
        · rw [comment]
          decide
      exact (between.append (noNull_text here)).append (ih _ later)

theorem Token.StandsIn.noNull {text : Text} {token : Token} (none : Css.NoNull text)
    (stands : token.StandsIn text) : token.first.NoNull := by
  obtain ⟨read, c, rest, cut, plain, isFrom⟩ := stands
  have within : c :: rest ⊆ text := by
    rw [cut.text_eq]
    exact List.subset_append_right read (c :: rest)
  have found := Lexeme.scan_noNull (none.of_subset within)
  have whole (leaf : Leaf) (here : leaf.NoNull) : leaf.lexeme.NoNull := by
    rcases leaf.lexeme_cases with same | ⟨bracket, rfl⟩
    · rw [same]
      exact here
    · trivial
  generalize (Lexeme.scan c rest).1 = lexeme at plain isFrom found
  cases isFrom with
  | leaf => exact whole _ found
  | brokenOff => exact whole _ found
  | breaking => exact whole _ trivial
  | comment => cases plain
  | opener => exact found
  | closer => trivial

end SheetCensus.Css
