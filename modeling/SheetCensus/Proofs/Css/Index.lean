import SheetCensus.Proofs.Css.Place

set_option autoImplicit false

/-! Indices of tokens. Places are counted while the text is cut, character by character; the table
of line starts is made from the text in one pass. At the first character of every token, at any
depth and with the comments or without them, the two lead to each other
(`Token.isFoundAt_of_isPart`). -/

namespace SheetCensus.Css

/-- The table lists the line of the token and leads with its column to the index. Cutting the text
comes to the index and finds the token there, and counting up to it gives the place again. -/
structure Token.IsFoundAt (source : Source) (index : Nat) (token : Token) : Prop where
  offset_eq : source.offset token.position = index
  lt_length : index < source.text.length
  begins : token.BeginsAt source.text index
  counted : Position.start.after (source.text.take index) = token.position
  line_pos : 1 ≤ token.position.line
  column_pos : 1 ≤ token.position.column
  listed : ∃ lineStart, source.lineStarts[token.position.line - 1]? = some lineStart ∧
    lineStart + (token.position.column - 1) = index

theorem Token.BeginsAt.isFoundAt {text : Text} {index : Nat} {token : Token}
    (begins : token.BeginsAt text index) : token.IsFoundAt (Source.ofNormalized text) index := by
  have within := begins.lt_length
  have counted := begins.position_eq
  have positive := Position.after_start_pos (text.take index)
  have whole : text.take index ++ text.drop index = text := List.take_append_drop index text
  obtain ⟨lineStart, found, distance⟩ :=
    Source.exists_lineStart_append (text.take index) (text.drop index)
  rw [whole, ← counted] at found
  rw [← counted] at positive distance
  have front : (text.take index).length = index :=
    List.length_take_of_le (Nat.le_of_lt within)
  have same : lineStart + (token.position.column - 1) = index := by omega
  have offset : (Source.ofNormalized text).offset token.position = index := by
    unfold Source.offset
    rw [List.getD_eq_getElem?_getD, found, Option.getD_some]
    omega
  exact ⟨offset, within, begins, counted.symm, positive.1, positive.2, lineStart, found, same⟩

/-- Place and index of a token lead to each other. -/
theorem Token.isFoundAt_of_isPart (text : Text) (token part : Token)
    (member : token ∈ nest (lexemes (Source.ofText text).text) ∨
      token ∈ nest (withoutComments (lexemes (Source.ofText text).text)))
    (isPart : part.IsPart token) : ∃ index, part.IsFoundAt (Source.ofText text) index := by
  rcases member with commented | bare
  · have all := beginsAt_of_mem _ token commented
    exact ⟨_, (all part isPart).isFoundAt⟩
  · have kept : withoutComments (lexemes (Source.ofText text).text) ⊆
        lexemes (Source.ofText text).text := List.filter_sublist.subset
    have all := beginsAt_of_subset _ _ kept token bare
    exact ⟨_, (all part isPart).isFoundAt⟩

/-- A name in a block, behind a line end of two characters and a comment over two lines. -/
theorem Token.isFoundAt_of_isPart_behind_comment :
    nest (withoutComments (lexemes
        (Source.ofText ['(', '\r', '\n', '/', '*', '\n', '*', '/', 'b', ')']).text)) =
        [.block ⟨1, 1⟩ (.bracket .round)
          [.leaf ⟨1, 2⟩ (.whitespace ['\n']), .leaf ⟨3, 3⟩ (.ident ['b'])]] ∧
      (Token.leaf ⟨3, 3⟩ (.ident ['b'])).IsFoundAt
        (Source.ofText ['(', '\r', '\n', '/', '*', '\n', '*', '/', 'b', ')']) 7 := by
  refine ⟨rfl, ?_⟩
  obtain ⟨index, found⟩ := isFoundAt_of_isPart
    ['(', '\r', '\n', '/', '*', '\n', '*', '/', 'b', ')']
    (.block ⟨1, 1⟩ (.bracket .round)
      [.leaf ⟨1, 2⟩ (.whitespace ['\n']), .leaf ⟨3, 3⟩ (.ident ['b'])])
    (.leaf ⟨3, 3⟩ (.ident ['b'])) (Or.inr List.mem_cons_self)
    (.inside (List.mem_cons_of_mem _ List.mem_cons_self) .self)
  have seven : 7 = index := found.offset_eq
  rw [seven]
  exact found

end SheetCensus.Css
