import SheetCensus.Proofs.Report.Grammar

set_option autoImplicit false

/-! Reading a report as programs do that take a carriage return for a line end. Such a reader never
gains a carriage return, and outside quotes it loses each one that it meets
(`Reader.returns_foldl_lt`), so counting them tells whether a table has come through. What is lost
are the fields with a carriage return and nothing for which they are quoted
(`readTable_report_iff`). -/

namespace SheetCensus

namespace Csv

/-! ### The reader -/

inductive Mode where
  | rowStart
  | fieldStart
  | bare
  | quoted
  /-- Behind a quote inside a quoted field: the field ends here, or a second quote follows. -/
  | quoteSeen
deriving DecidableEq

structure Reader where
  rows : List (List Text)
  fields : List Text
  field : Text
  mode : Mode
deriving DecidableEq

namespace Reader

def start : Reader :=
  ⟨[], [], [], .rowStart⟩

def add (reader : Reader) (c : Char) (mode : Mode) : Reader :=
  ⟨reader.rows, reader.fields, reader.field ++ [c], mode⟩

def endField (reader : Reader) : Reader :=
  ⟨reader.rows, reader.fields ++ [reader.field], [], .fieldStart⟩

def endRow (reader : Reader) : Reader :=
  ⟨reader.rows ++ [reader.fields ++ [reader.field]], [], [], .rowStart⟩

def stepQuote (reader : Reader) : Reader :=
  match reader.mode with
  | .rowStart => { reader with mode := .quoted }
  | .fieldStart => { reader with mode := .quoted }
  | .bare => reader.add '"' .bare
  | .quoted => { reader with mode := .quoteSeen }
  | .quoteSeen => reader.add '"' .quoted

/-- Reads any other character outside quotes. A line end ends the row; where no row has begun it is
passed over, and so is the second half of a line end of two characters. -/
def stepOutside (reader : Reader) (c : Char) : Reader :=
  if c = '\r' ∨ c = '\n' then if reader.mode = .rowStart then reader else reader.endRow
  else if c = ',' then reader.endField
  else reader.add c .bare

def step (reader : Reader) (c : Char) : Reader :=
  if c = '"' then reader.stepQuote
  else if reader.mode = .quoted then reader.add c .quoted
  else reader.stepOutside c

def finish (reader : Reader) : List (List Text) :=
  if reader.mode = .rowStart then reader.rows else reader.endRow.rows

end Reader

/-- The rows of a text in which a carriage return, a line feed or both in a pair end a row, unless
they stand between quotes. Lines with nothing in them are no rows. -/
def readTable (text : Text) : List (List Text) :=
  (text.foldl Reader.step .start).finish

/-! ### Carriage returns are never gained -/

namespace Reader

def returns (reader : Reader) : Nat :=
  reader.rows.flatten.flatten.count '\r' + reader.fields.flatten.count '\r' +
    reader.field.count '\r'

theorem returns_endField (reader : Reader) : reader.endField.returns = reader.returns := by
  simp only [returns, endField, List.flatten_append, List.count_append, List.flatten_cons,
    List.flatten_nil, List.count_nil]
  omega

theorem returns_endRow (reader : Reader) : reader.endRow.returns = reader.returns := by
  simp only [returns, endRow, List.flatten_append, List.count_append, List.flatten_cons,
    List.flatten_nil, List.count_nil]
  omega

theorem returns_add (reader : Reader) (c : Char) (mode : Mode) :
    (reader.add c mode).returns = reader.returns + [c].count '\r' := by
  simp only [returns, add, List.count_append]
  omega

theorem returns_stepQuote (reader : Reader) : reader.stepQuote.returns = reader.returns := by
  unfold stepQuote
  split
  · rfl
  · rfl
  · exact returns_add reader '"' .bare
  · rfl
  · exact returns_add reader '"' .quoted

theorem returns_step_le (reader : Reader) (c : Char) :
    (reader.step c).returns ≤ reader.returns + [c].count '\r' := by
  unfold step stepOutside
  split
  · rw [returns_stepQuote]
    exact Nat.le_add_right _ _
  split
  · exact Nat.le_of_eq (returns_add reader c .quoted)
  split
  · split
    · exact Nat.le_add_right _ _
    · rw [returns_endRow]
      exact Nat.le_add_right _ _
  split
  · rw [returns_endField]
    exact Nat.le_add_right _ _
  · exact Nat.le_of_eq (returns_add reader c .bare)

theorem returns_foldl_le (reader : Reader) (text : Text) :
    (text.foldl step reader).returns ≤ reader.returns + text.count '\r' := by
  induction text generalizing reader with
  | nil => exact Nat.le_refl _
  | cons c rest ih =>
      have first := returns_step_le reader c
      have others := ih (reader.step c)
      have parts : (c :: rest).count '\r' = [c].count '\r' + rest.count '\r' := by
        rw [← List.singleton_append, List.count_append]
      rw [List.foldl_cons]
      omega

theorem count_finish_le (reader : Reader) :
    reader.finish.flatten.flatten.count '\r' ≤ reader.returns := by
  unfold finish
  split
  · unfold returns
    omega
  · rw [← returns_endRow]
    unfold returns
    omega

theorem step_mode_ne_quoted (reader : Reader) (c : Char) (outside : reader.mode ≠ .quoted)
    (other : c ≠ '"') : (reader.step c).mode ≠ .quoted := by
  unfold step stepOutside
  rw [if_neg other, if_neg outside]
  split
  · split
    · exact outside
    · exact nofun
  · split <;> exact nofun

/-- A carriage return outside quotes is lost. -/
theorem returns_foldl_lt (reader : Reader) (text : Text) (outside : reader.mode ≠ .quoted)
    (unquoted : '"' ∉ text) (member : '\r' ∈ text) :
    (text.foldl step reader).returns < reader.returns + text.count '\r' := by
  induction text generalizing reader with
  | nil => exact absurd member List.not_mem_nil
  | cons c rest ih =>
      have other : c ≠ '"' := fun same => unquoted (same ▸ List.mem_cons_self)
      rw [List.foldl_cons]
      by_cases returned : c = '\r'
      · subst returned
        have kept : (reader.step '\r').returns = reader.returns := by
          unfold step stepOutside
          rw [if_neg other, if_neg outside, if_pos (Or.inl rfl)]
          split
          · rfl
          · exact returns_endRow reader
        have others := returns_foldl_le (reader.step '\r') rest
        rw [List.count_cons_self]
        omega
      · have later : '\r' ∈ rest :=
          (List.mem_cons.mp member).resolve_left (fun same => returned same.symm)
        have first := returns_step_le reader c
        have others := ih (reader.step c) (step_mode_ne_quoted reader c outside other)
          (fun inside => unquoted (List.mem_cons_of_mem c inside)) later
        rw [List.count_cons_of_ne returned]
        rw [List.count_cons_of_ne returned, List.count_nil] at first
        omega

end Reader

/-! ### Fields and rows that come through -/

/-- A field with a carriage return has something else for which it is quoted. -/
def KeepsReturns (field : Text) : Prop :=
  '\r' ∈ field → ',' ∈ field ∨ '"' ∈ field ∨ '\n' ∈ field

theorem needsQuotes_iff (field : Text) :
    needsQuotes field = true ↔ ',' ∈ field ∨ '"' ∈ field ∨ '\n' ∈ field := by
  unfold needsQuotes
  rw [List.any_eq_true]
  constructor
  · intro found
    rcases found with ⟨c, member, special⟩
    simp only [Bool.or_eq_true, beq_iff_eq] at special
    rcases special with (rfl | rfl) | rfl
    · exact Or.inl member
    · exact Or.inr (Or.inl member)
    · exact Or.inr (Or.inr member)
  · intro found
    rcases found with member | member | member
    · exact ⟨',', member, rfl⟩
    · exact ⟨'"', member, rfl⟩
    · exact ⟨'\n', member, rfl⟩

namespace Reader

variable (rows : List (List Text)) (fields : List Text)

theorem foldl_bare (field text : Text) (mode : Mode) (outside : mode ≠ .quoted)
    (plain : ∀ c ∈ text, IsPlain c ∧ c ≠ '\r') :
    text.foldl step ⟨rows, fields, field, mode⟩ =
      ⟨rows, fields, field ++ text, if text = [] then mode else .bare⟩ := by
  induction text generalizing field mode with
  | nil => rw [List.foldl_nil, List.append_nil, if_pos rfl]
  | cons c rest ih =>
      obtain ⟨⟨⟨comma, quote, feed⟩, returned⟩, others⟩ := List.forall_mem_cons.mp plain
      have noBreak : ¬ (c = '\r' ∨ c = '\n') := fun breaks => breaks.elim returned feed
      have stepped : step ⟨rows, fields, field, mode⟩ c = ⟨rows, fields, field ++ [c], .bare⟩ := by
        unfold step stepOutside
        rw [if_neg quote, if_neg outside, if_neg noBreak, if_neg comma]
        rfl
      rw [List.foldl_cons, stepped, ih (field ++ [c]) .bare (by decide) others, List.append_assoc,
        List.singleton_append, ite_self, if_neg (List.cons_ne_nil _ _)]

theorem foldl_doubled (field text : Text) :
    (doubled text).foldl step ⟨rows, fields, field, .quoted⟩ =
      ⟨rows, fields, field ++ text, .quoted⟩ := by
  induction text generalizing field with
  | nil =>
      rw [List.append_nil]
      rfl
  | cons c rest ih =>
      have stepped : (if c = '"' then ['"', '"'] else [c]).foldl step
          ⟨rows, fields, field, .quoted⟩ = ⟨rows, fields, field ++ [c], .quoted⟩ := by
        by_cases quote : c = '"'
        · subst quote
          rfl
        · rw [if_neg quote, List.foldl_cons, List.foldl_nil]
          unfold step
          rw [if_neg quote, if_pos rfl]
          rfl
      unfold doubled at ih ⊢
      rw [List.flatMap_cons, List.foldl_append, stepped, ih, List.append_assoc,
        List.singleton_append]

/-- A field that keeps its carriage returns is read back, and the reader stands outside quotes. -/
theorem exists_foldl_fieldText (field : Text) (mode : Mode)
    (begins : mode = .rowStart ∨ mode = .fieldStart) (keeps : KeepsReturns field) :
    ∃ behind, (fieldText field).foldl step ⟨rows, fields, [], mode⟩ =
        ⟨rows, fields, field, behind⟩ ∧
      behind ≠ .quoted ∧ (mode = .fieldStart → behind ≠ .rowStart) := by
  unfold fieldText
  by_cases quotes : needsQuotes field = true
  · rw [if_pos quotes]
    have opened : step ⟨rows, fields, [], mode⟩ '"' = ⟨rows, fields, [], .quoted⟩ := by
      rcases begins with rfl | rfl <;> rfl
    refine ⟨.quoteSeen, ?_, by decide, fun _ => by decide⟩
    rw [List.cons_append, List.foldl_cons, opened, List.foldl_append, foldl_doubled]
    rfl
  · rw [if_neg quotes]
    rw [needsQuotes_iff] at quotes
    have plain : ∀ c ∈ field, IsPlain c ∧ c ≠ '\r' := by
      intro c member
      refine ⟨⟨?_, ?_, ?_⟩, ?_⟩
      · exact fun same => quotes (Or.inl (same ▸ member))
      · exact fun same => quotes (Or.inr (Or.inl (same ▸ member)))
      · exact fun same => quotes (Or.inr (Or.inr (same ▸ member)))
      · exact fun same => quotes (keeps (same ▸ member))
    have outside : mode ≠ .quoted := by
      rcases begins with rfl | rfl <;> decide
    refine ⟨_, foldl_bare rows fields [] field mode outside plain, ?_, ?_⟩
    · split
      · exact outside
      · decide
    · rintro rfl
      split <;> decide

/-- A field that does not keep its carriage returns loses one. -/
theorem returns_foldl_fieldText_lt (field : Text) (mode : Mode)
    (begins : mode = .rowStart ∨ mode = .fieldStart) (loses : ¬ KeepsReturns field) :
    ((fieldText field).foldl step ⟨rows, fields, [], mode⟩).returns <
      returns ⟨rows, fields, [], mode⟩ + (fieldText field).count '\r' := by
  obtain ⟨member, bare⟩ := Classical.not_imp.mp loses
  have outside : mode ≠ .quoted := by
    rcases begins with rfl | rfl <;> decide
  unfold fieldText
  rw [if_neg (fun quoted => bare ((needsQuotes_iff field).mp quoted))]
  exact returns_foldl_lt _ field outside (fun quote => bare (Or.inr (Or.inl quote))) member

end Reader

/-! ### Rows -/

theorem rowText_singleton (field : Text) : rowText [field] = fieldText field ++ ['\n'] :=
  rfl

theorem rowText_cons_cons (field second : Text) (others : List Text) :
    rowText (field :: second :: others) = fieldText field ++ ',' :: rowText (second :: others) := by
  change
    fieldText field ++ [','] ++ Text.join [','] ((second :: others).map fieldText) ++ ['\n'] = _
  rw [List.append_assoc, List.append_assoc]
  rfl

namespace Reader

/-- What is lost in front stays lost. -/
theorem returns_foldl_append_lt (reader : Reader) (front back : Text)
    (lost : (front.foldl step reader).returns < reader.returns + front.count '\r') :
    ((front ++ back).foldl step reader).returns < reader.returns + (front ++ back).count '\r' := by
  have others := returns_foldl_le (front.foldl step reader) back
  rw [List.foldl_append, List.count_append]
  omega

/-- What is lost behind is not made up for by what stands in front. -/
theorem returns_foldl_append_lt_of_back (reader : Reader) (front back : Text)
    (lost : (back.foldl step (front.foldl step reader)).returns <
      (front.foldl step reader).returns + back.count '\r') :
    ((front ++ back).foldl step reader).returns < reader.returns + (front ++ back).count '\r' := by
  have first := returns_foldl_le reader front
  rw [List.foldl_append, List.count_append]
  omega

variable (rows : List (List Text)) (fields : List Text)

theorem foldl_fieldText_comma (field : Text) (mode : Mode)
    (begins : mode = .rowStart ∨ mode = .fieldStart) (keeps : KeepsReturns field) :
    (fieldText field ++ [',']).foldl step ⟨rows, fields, [], mode⟩ =
      ⟨rows, fields ++ [field], [], .fieldStart⟩ := by
  obtain ⟨behind, read, outside, _⟩ := exists_foldl_fieldText rows fields field mode begins keeps
  rw [List.foldl_append, read, List.foldl_cons, List.foldl_nil]
  unfold step
  rw [if_neg (by decide), if_neg outside]
  rfl

theorem foldl_fieldText_lineFeed (field : Text) (keeps : KeepsReturns field) :
    (fieldText field ++ ['\n']).foldl step ⟨rows, fields, [], .fieldStart⟩ =
      ⟨rows ++ [fields ++ [field]], [], [], .rowStart⟩ := by
  obtain ⟨behind, read, outside, begun⟩ :=
    exists_foldl_fieldText rows fields field .fieldStart (Or.inr rfl) keeps
  rw [List.foldl_append, read, List.foldl_cons, List.foldl_nil]
  unfold step stepOutside
  rw [if_neg (by decide), if_neg outside, if_pos (Or.inr rfl), if_neg (begun rfl)]
  rfl

/-- A row begins here, or the rest of one. Where nothing is read yet a single empty field would be
an empty line, so a row by itself has a second field. -/
def Opens (mode : Mode) (row : List Text) : Prop :=
  (mode = .rowStart ∧ 2 ≤ row.length) ∨ (mode = .fieldStart ∧ row ≠ [])

theorem Opens.begins {mode : Mode} {row : List Text} (opens : Opens mode row) :
    mode = .rowStart ∨ mode = .fieldStart :=
  opens.imp And.left And.left

theorem Opens.ne_nil {mode : Mode} (opens : Opens mode []) : False := by
  rcases opens with ⟨_, long⟩ | ⟨_, filled⟩
  · exact absurd long (by decide)
  · exact filled rfl

theorem Opens.fieldStart_of_singleton {mode : Mode} {field : Text} (opens : Opens mode [field]) :
    mode = .fieldStart := by
  rcases opens with ⟨_, long⟩ | ⟨here, _⟩
  · exact absurd long (Nat.lt_irrefl 1)
  · exact here

theorem opens_cons (field : Text) (others : List Text) : Opens .fieldStart (field :: others) :=
  Or.inr ⟨rfl, List.cons_ne_nil _ _⟩

theorem foldl_rowText (row : List Text) (mode : Mode) (opens : Opens mode row)
    (keep : ∀ field ∈ row, KeepsReturns field) :
    (rowText row).foldl step ⟨rows, fields, [], mode⟩ =
      ⟨rows ++ [fields ++ row], [], [], .rowStart⟩ := by
  induction row generalizing fields mode with
  | nil => exact absurd opens Opens.ne_nil
  | cons field others ih =>
      obtain ⟨first, later⟩ := List.forall_mem_cons.mp keep
      cases others with
      | nil =>
          rw [opens.fieldStart_of_singleton]
          exact foldl_fieldText_lineFeed rows fields field first
      | cons second more =>
          rw [rowText_cons_cons, List.append_cons, List.foldl_append,
            foldl_fieldText_comma rows fields field mode opens.begins first,
            ih (fields ++ [field]) .fieldStart (opens_cons second more) later, List.append_assoc,
            List.singleton_append]

theorem returns_foldl_rowText_lt (row : List Text) (mode : Mode) (opens : Opens mode row)
    (lossy : ∃ field ∈ row, ¬ KeepsReturns field) :
    ((rowText row).foldl step ⟨rows, fields, [], mode⟩).returns <
      returns ⟨rows, fields, [], mode⟩ + (rowText row).count '\r' := by
  induction row generalizing fields mode with
  | nil => exact absurd opens Opens.ne_nil
  | cons field others ih =>
      by_cases first : KeepsReturns field
      · have later := (List.or_exists_of_exists_mem_cons lossy).resolve_left (not_not_intro first)
        cases others with
        | nil => exact absurd later (by simp)
        | cons second more =>
            rw [rowText_cons_cons, List.append_cons]
            apply returns_foldl_append_lt_of_back
            rw [foldl_fieldText_comma rows fields field mode opens.begins first]
            exact ih (fields ++ [field]) .fieldStart (opens_cons second more) later
      · have lost := returns_foldl_fieldText_lt rows fields field mode opens.begins first
        cases others with
        | nil => exact returns_foldl_append_lt _ _ _ lost
        | cons second more =>
            rw [rowText_cons_cons]
            exact returns_foldl_append_lt _ _ _ lost

end Reader

/-! ### Tables -/

theorem count_fieldText (field : Text) : (fieldText field).count '\r' = field.count '\r' := by
  have kept : (doubled field).count '\r' = field.count '\r' := by
    unfold doubled
    induction field with
    | nil => rfl
    | cons c rest ih =>
        rw [List.flatMap_cons, List.count_append, ih]
        by_cases quote : c = '"'
        · subst quote
          rw [if_pos rfl, List.count_cons_of_ne (by decide)]
          exact Nat.zero_add _
        · rw [if_neg quote]
          rw [← List.count_append, List.singleton_append]
  unfold fieldText
  split
  · rw [List.cons_append, List.count_cons_of_ne (by decide), List.count_append, kept]
    rfl
  · rfl

theorem count_rowText (row : List Text) : (rowText row).count '\r' = row.flatten.count '\r' := by
  induction row with
  | nil => rfl
  | cons field others ih =>
      rw [List.flatten_cons, List.count_append, ← ih]
      cases others with
      | nil => rw [rowText_singleton, List.count_append, count_fieldText]; rfl
      | cons second more =>
          rw [rowText_cons_cons, List.count_append, count_fieldText,
            List.count_cons_of_ne (by decide)]

theorem count_tableText (table : List (List Text)) :
    (tableText table).count '\r' = table.flatten.flatten.count '\r' := by
  unfold tableText
  induction table with
  | nil => rfl
  | cons row others ih =>
      rw [List.flatMap_cons, List.flatten_cons, List.flatten_append, List.count_append,
        List.count_append, count_rowText, ih]

namespace Reader

variable (rows : List (List Text))

theorem foldl_tableText (table : List (List Text)) (long : ∀ row ∈ table, 2 ≤ row.length)
    (keep : ∀ row ∈ table, ∀ field ∈ row, KeepsReturns field) :
    (tableText table).foldl step ⟨rows, [], [], .rowStart⟩ =
      ⟨rows ++ table, [], [], .rowStart⟩ := by
  unfold tableText
  induction table generalizing rows with
  | nil => rw [List.append_nil]; rfl
  | cons row others ih =>
      obtain ⟨first, later⟩ := List.forall_mem_cons.mp long
      obtain ⟨firstKeep, laterKeep⟩ := List.forall_mem_cons.mp keep
      rw [List.flatMap_cons, List.foldl_append,
        foldl_rowText rows [] row .rowStart (Or.inl ⟨rfl, first⟩) firstKeep, List.nil_append,
        ih (rows ++ [row]) later laterKeep, List.append_assoc, List.singleton_append]

theorem returns_foldl_tableText_lt (table : List (List Text)) (long : ∀ row ∈ table, 2 ≤ row.length)
    (lossy : ∃ row ∈ table, ∃ field ∈ row, ¬ KeepsReturns field) :
    ((tableText table).foldl step ⟨rows, [], [], .rowStart⟩).returns <
      returns ⟨rows, [], [], .rowStart⟩ + (tableText table).count '\r' := by
  unfold tableText
  induction table generalizing rows with
  | nil => exact absurd lossy (by simp)
  | cons row others ih =>
      obtain ⟨first, later⟩ := List.forall_mem_cons.mp long
      rw [List.flatMap_cons]
      have opens : Reader.Opens .rowStart row := Or.inl ⟨rfl, first⟩
      by_cases lossyFirst : ∃ field ∈ row, ¬ KeepsReturns field
      · exact returns_foldl_append_lt _ _ _
          (returns_foldl_rowText_lt rows [] row .rowStart opens lossyFirst)
      · have lossyLater := (List.or_exists_of_exists_mem_cons lossy).resolve_left lossyFirst
        have keep : ∀ field ∈ row, KeepsReturns field := by
          intro field member
          by_contra loses
          exact lossyFirst ⟨field, member, loses⟩
        apply returns_foldl_append_lt_of_back
        rw [foldl_rowText rows [] row .rowStart opens keep]
        exact ih (rows ++ [row]) later lossyLater

end Reader

/-- A table whose rows have two fields or more comes through exactly when all its fields keep their
carriage returns. -/
theorem readTable_tableText_iff (table : List (List Text)) (long : ∀ row ∈ table, 2 ≤ row.length) :
    readTable (tableText table) = table ↔ ∀ row ∈ table, ∀ field ∈ row, KeepsReturns field := by
  constructor
  · intro same
    by_contra lossy
    push Not at lossy
    have lost := Reader.returns_foldl_tableText_lt [] table long lossy
    have read := Reader.count_finish_le ((tableText table).foldl Reader.step .start)
    change (readTable (tableText table)).flatten.flatten.count '\r' ≤ _ at read
    rw [same, ← count_tableText] at read
    change Reader.returns _ < 0 + _ at lost
    rw [Nat.zero_add] at lost
    exact absurd read (Nat.not_le.mpr lost)
  · intro keep
    unfold readTable
    rw [Reader.start, Reader.foldl_tableText [] table long keep]
    rfl

end Csv

/-! ### The report -/

open Csv (KeepsReturns readTable)

theorem Text.keepsReturns_ofInt (number : Int) : KeepsReturns (Text.ofInt number) := by
  have digits (count : Nat) : '\r' ∉ Text.ofNat count := by
    intro member
    have digit := Nat.isDigit_of_mem_toDigits (by decide) (by decide) member
    cases digit
  intro member
  cases number with
  | ofNat count => exact absurd member (digits count)
  | negSucc count =>
      rcases List.mem_cons.mp member with sign | inside
      · cases sign
      · exact absurd inside (digits (count + 1))

theorem Record.keepReturns_columns : ∀ column ∈ Record.columns, KeepsReturns column := by
  unfold KeepsReturns
  decide

/-- A report is read back as its columns and the fields of every record exactly when each event
number, digest and error text with a carriage return also holds a comma, a quote or a line feed. -/
theorem readTable_report_iff (records : List Record) :
    readTable (report records) = Record.columns :: records.map Record.fields ↔
      ∀ record ∈ records, KeepsReturns record.eventId ∧ KeepsReturns record.digest ∧
        KeepsReturns record.errorStack := by
  have rows : records.map Record.row = records.map Record.fields :=
    List.map_congr_left (fun record _ => record.row_eq_fields)
  have long : ∀ row ∈ Record.columns :: records.map Record.row, 2 ≤ row.length := by
    intro row member
    rcases List.mem_cons.mp member with rfl | written
    · decide
    · obtain ⟨record, _, rfl⟩ := List.mem_map.mp written
      exact Nat.le_add_left 2 7
  rw [← rows]
  unfold report
  rw [Csv.readTable_tableText_iff _ long, List.forall_mem_cons,
    and_iff_right Record.keepReturns_columns, List.forall_mem_map]
  apply forall₂_congr
  intro record _
  simp [Record.row, Text.keepsReturns_ofInt]

/-- The digest is a text cut off between the two halves of a line end. -/
theorem readTable_report_at_cut_line_end :
    readTable (report [⟨['1'], 3, 0, 0, 0, 0, 1, Text.clip ['}', '\r', '\n'] 2, ['E']⟩]) =
        [Record.columns, [['1'], ['3'], ['0'], ['0'], ['0'], ['0'], ['1'], ['}']], [[], ['E']]] ∧
      readTable (report [⟨['1'], 3, 0, 0, 0, 0, 1, Text.clip ['}', '\r', '\n'] 2, ['E']⟩]) ≠
        Record.columns ::
          [⟨['1'], 3, 0, 0, 0, 0, 1, Text.clip ['}', '\r', '\n'] 2, ['E']⟩].map Record.fields := by
  have read :
      readTable (report [⟨['1'], 3, 0, 0, 0, 0, 1, Text.clip ['}', '\r', '\n'] 2, ['E']⟩]) =
        [Record.columns, [['1'], ['3'], ['0'], ['0'], ['0'], ['0'], ['1'], ['}']], [[], ['E']]] := by
    unfold readTable report Csv.tableText
    rw [List.flatMap_cons, List.foldl_append, Csv.Reader.start,
      Csv.Reader.foldl_rowText [] [] Record.columns .rowStart (Or.inl ⟨rfl, by decide⟩)
        Record.keepReturns_columns]
    rfl
  refine ⟨read, ?_⟩
  rw [read]
  intro same
  exact absurd (congrArg List.length same) (by simp)

end SheetCensus
