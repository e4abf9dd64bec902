import Mathlib.Data.List.Basic
import SheetCensus.Report.Csv

set_option autoImplicit false

/-! The grammar of comma-separated values and the report in it. The grammar is unambiguous: a text
is the spelling of one table at most (`TableSpelling.eq_of_same`). Whatever stands in its fields, a
table without empty rows is written as one of its spellings (`tableText_isSpelling`), so reading a
report by the grammar gives back the columns and the fields of every record, and a report belongs
to one list of records only (`report_readsBack`). -/

namespace SheetCensus

namespace Csv

/-! ### The grammar -/

/-- A field that stands between quotes, with each quote inside written twice. -/
inductive Doubled : Text → Text → Prop
  | nil : Doubled [] []
  | other {c : Char} {field spelled : Text} (plain : c ≠ '"') (later : Doubled field spelled) :
      Doubled (c :: field) (c :: spelled)
  | quote {field spelled : Text} (later : Doubled field spelled) :
      Doubled ('"' :: field) ('"' :: '"' :: spelled)

def IsPlain (c : Char) : Prop :=
  c ≠ ',' ∧ c ≠ '"' ∧ c ≠ '\n'

inductive FieldSpelling : Text → Text → Prop
  | bare {field : Text} (plain : ∀ c ∈ field, IsPlain c) : FieldSpelling field field
  | quoted {field spelled : Text} (inner : Doubled field spelled) :
      FieldSpelling field ('"' :: spelled ++ ['"'])

inductive RowSpelling : List Text → Text → Prop
  | last {field spelled : Text} (first : FieldSpelling field spelled) :
      RowSpelling [field] (spelled ++ ['\n'])
  | more {field spelled rest : Text} {fields : List Text} (first : FieldSpelling field spelled)
      (others : RowSpelling fields rest) :
      RowSpelling (field :: fields) (spelled ++ ',' :: rest)

inductive TableSpelling : List (List Text) → Text → Prop
  | nil : TableSpelling [] []
  | cons {row : List Text} {rows : List (List Text)} {spelled rest : Text}
      (first : RowSpelling row spelled) (others : TableSpelling rows rest) :
      TableSpelling (row :: rows) (spelled ++ rest)

/-! ### One reading -/

def IsEnd (c : Char) : Prop :=
  c = ',' ∨ c = '\n'

theorem IsEnd.ne_quote {c : Char} (ends : IsEnd c) : c ≠ '"' := by
  rcases ends with rfl | rfl <;> decide

theorem IsEnd.not_isPlain {c : Char} (ends : IsEnd c) : ¬ IsPlain c := by
  intro plain
  rcases ends with rfl | rfl
  · exact plain.1 rfl
  · exact plain.2.2 rfl

theorem Doubled.eq_of_same {field other spelled twin : Text} (reads : Doubled field spelled)
    (readsToo : Doubled other twin) (c d : Char) (rest more : Text) (ends : c ≠ '"')
    (endsToo : d ≠ '"') (same : spelled ++ '"' :: c :: rest = twin ++ '"' :: d :: more) :
    field = other ∧ c :: rest = d :: more := by
  induction reads generalizing other twin with
  | nil =>
      cases readsToo with
      | nil => exact ⟨rfl, (List.cons.inj same).2⟩
      | other plain _ => exact absurd (List.cons.inj same).1.symm plain
      | quote _ => exact absurd (List.cons.inj (List.cons.inj same).2).1 ends
  | other plain _ ih =>
      cases readsToo with
      | nil => exact absurd (List.cons.inj same).1 plain
      | other _ later =>
          obtain ⟨rfl, left⟩ := List.cons.inj same
          obtain ⟨rfl, behind⟩ := ih later left
          exact ⟨rfl, behind⟩
      | quote _ => exact absurd (List.cons.inj same).1 plain
  | quote _ ih =>
      cases readsToo with
      | nil => exact absurd (List.cons.inj (List.cons.inj same).2).1.symm endsToo
      | other plain _ => exact absurd (List.cons.inj same).1.symm plain
      | quote later =>
          obtain ⟨rfl, behind⟩ := ih later (List.cons.inj (List.cons.inj same).2).2
          exact ⟨rfl, behind⟩

theorem bare_eq_of_same (field other : Text) (plain : ∀ c ∈ field, IsPlain c)
    (plainToo : ∀ c ∈ other, IsPlain c) (c d : Char) (rest more : Text) (ends : IsEnd c)
    (endsToo : IsEnd d) (same : field ++ c :: rest = other ++ d :: more) :
    field = other ∧ c :: rest = d :: more := by
  induction field generalizing other with
  | nil =>
      cases other with
      | nil => exact ⟨rfl, same⟩
      | cons e others =>
          obtain ⟨rfl, _⟩ := List.cons.inj same
          exact absurd (plainToo c List.mem_cons_self) ends.not_isPlain
  | cons e field ih =>
      cases other with
      | nil =>
          obtain ⟨rfl, _⟩ := List.cons.inj same
          exact absurd (plain e List.mem_cons_self) endsToo.not_isPlain
      | cons f others =>
          obtain ⟨rfl, left⟩ := List.cons.inj same
          obtain ⟨rfl, behind⟩ := ih others
            (fun g member => plain g (List.mem_cons_of_mem e member))
            (fun g member => plainToo g (List.mem_cons_of_mem e member)) left
          exact ⟨rfl, behind⟩

theorem bare_ne_quoted (field spelled : Text) (plain : ∀ c ∈ field, IsPlain c) (c : Char)
    (rest more : Text) (ends : IsEnd c) : field ++ c :: rest ≠ '"' :: spelled ++ more := by
  intro same
  cases field with
  | nil => exact ends.ne_quote (List.cons.inj same).1
  | cons e field => exact (plain e List.mem_cons_self).2.1 (List.cons.inj same).1

theorem FieldSpelling.eq_of_same {field other spelled twin : Text}
    (reads : FieldSpelling field spelled) (readsToo : FieldSpelling other twin) (c d : Char)
    (rest more : Text) (ends : IsEnd c) (endsToo : IsEnd d)
    (same : spelled ++ c :: rest = twin ++ d :: more) :
    field = other ∧ c :: rest = d :: more := by
  cases reads with
  | bare plain =>
      cases readsToo with
      | bare plainToo =>
          exact bare_eq_of_same field other plain plainToo c d rest more ends endsToo same
      | quoted _ =>
          exact absurd same (bare_ne_quoted field _ plain c rest _ ends)
  | quoted inner =>
      cases readsToo with
      | bare plainToo =>
          exact absurd same.symm (bare_ne_quoted other _ plainToo d more _ endsToo)
      | quoted innerToo =>
          rw [List.append_assoc, List.append_assoc] at same
          exact inner.eq_of_same innerToo c d rest more ends.ne_quote endsToo.ne_quote
            (List.cons.inj same).2

theorem RowSpelling.eq_of_same {row other : List Text} {spelled twin : Text}
    (reads : RowSpelling row spelled) (readsToo : RowSpelling other twin) (rest more : Text)
    (same : spelled ++ rest = twin ++ more) : row = other ∧ rest = more := by
  induction reads generalizing other twin with
  | last first =>
      -- The field ends at the same place in both readings, and so with the same character.
      cases readsToo with
      | last firstToo =>
          rw [List.append_assoc, List.append_assoc] at same
          obtain ⟨rfl, behind⟩ := first.eq_of_same firstToo '\n' '\n' rest more (Or.inr rfl)
            (Or.inr rfl) same
          exact ⟨rfl, (List.cons.inj behind).2⟩
      | more firstToo _ =>
          rw [List.append_assoc, List.append_assoc] at same
          obtain ⟨_, behind⟩ := first.eq_of_same firstToo '\n' ',' _ _ (Or.inr rfl) (Or.inl rfl)
            same
          exact absurd (List.cons.inj behind).1 (by decide)
  | more first _ ih =>
      cases readsToo with
      | last firstToo =>
          rw [List.append_assoc, List.append_assoc] at same
          obtain ⟨_, behind⟩ := first.eq_of_same firstToo ',' '\n' _ _ (Or.inl rfl) (Or.inr rfl)
            same
          exact absurd (List.cons.inj behind).1 (by decide)
      | more firstToo others =>
          rw [List.append_assoc, List.append_assoc] at same
          obtain ⟨rfl, behind⟩ := first.eq_of_same firstToo ',' ',' _ _ (Or.inl rfl) (Or.inl rfl)
            same
          obtain ⟨rfl, left⟩ := ih others (List.cons.inj behind).2
          exact ⟨rfl, left⟩

theorem RowSpelling.ne_nil {row : List Text} {spelled : Text} (reads : RowSpelling row spelled) :
    spelled ≠ [] := by
  cases reads with
  | last _ => exact List.append_ne_nil_of_right_ne_nil _ (List.cons_ne_nil _ _)
  | more _ _ => exact List.append_ne_nil_of_right_ne_nil _ (List.cons_ne_nil _ _)

theorem TableSpelling.eq_of_same {table other : List (List Text)} {text : Text}
    (reads : TableSpelling table text) (readsToo : TableSpelling other text) : table = other := by
  induction reads generalizing other with
  | nil =>
      generalize empty : ([] : Text) = text at readsToo
      cases readsToo with
      | nil => rfl
      | cons first _ => exact absurd (List.append_eq_nil_iff.mp empty.symm).1 first.ne_nil
  | @cons row rows spelled rest first _ ih =>
      generalize whole : spelled ++ rest = text at readsToo
      cases readsToo with
      | nil => exact absurd (List.append_eq_nil_iff.mp whole).1 first.ne_nil
      | cons firstToo others =>
          obtain ⟨rfl, rfl⟩ := first.eq_of_same firstToo _ _ whole
          rw [ih others]

/-! ### Writing -/

theorem doubled_isSpelling (field : Text) : Doubled field (doubled field) := by
  induction field with
  | nil => exact .nil
  | cons c rest ih =>
      unfold doubled at ih ⊢
      rw [List.flatMap_cons]
      by_cases quote : c = '"'
      · subst quote
        exact .quote ih
      · rw [if_neg quote]
        exact .other quote ih

theorem fieldText_isSpelling (field : Text) : FieldSpelling field (fieldText field) := by
  fun_cases fieldText field with
  | case1 => exact .quoted (doubled_isSpelling field)
  | case2 bare =>
      apply FieldSpelling.bare
      intro c member
      unfold needsQuotes at bare
      rw [List.any_eq_true] at bare
      refine ⟨?_, ?_, ?_⟩
      all_goals
        rintro rfl
        exact bare ⟨_, member, rfl⟩

theorem rowText_isSpelling (fields : List Text) (some : fields ≠ []) :
    RowSpelling fields (rowText fields) := by
  unfold rowText
  induction fields with
  | nil => exact absurd rfl some
  | cons field rest ih =>
      cases rest with
      | nil => exact .last (fieldText_isSpelling field)
      | cons second others =>
          have later := ih (List.cons_ne_nil _ _)
          change RowSpelling _ (fieldText field ++ [','] ++
            Text.join [','] ((second :: others).map fieldText) ++ ['\n'])
          rw [List.append_assoc, List.append_assoc]
          exact .more (fieldText_isSpelling field) later

theorem tableText_isSpelling (rows : List (List Text)) (some : ∀ row ∈ rows, row ≠ []) :
    TableSpelling rows (tableText rows) := by
  unfold tableText
  induction rows with
  | nil => exact .nil
  | cons row rest ih =>
      rw [List.flatMap_cons]
      apply TableSpelling.cons (rowText_isSpelling row (some row List.mem_cons_self))
      exact ih (fun other member => some other (List.mem_cons_of_mem row member))

theorem tableSpelling_tableText_iff (rows table : List (List Text))
    (some : ∀ row ∈ rows, row ≠ []) : TableSpelling table (tableText rows) ↔ table = rows := by
  constructor
  · intro reads
    exact reads.eq_of_same (tableText_isSpelling rows some)
  · rintro rfl
    exact tableText_isSpelling table some

end Csv

/-! ### Decimal texts -/

theorem Text.ofInt_eq_toString (number : Int) : Text.ofInt number = (toString number).toList := by
  cases number with
  | ofNat number =>
      change Text.ofNat number = (toString number).toList
      rw [Nat.toString_eq_ofList_toDigits, String.toList_ofList]
      rfl
  | negSucc number =>
      change '-' :: Text.ofNat (number + 1) = ("-" ++ toString (number + 1)).toList
      rw [Nat.toString_eq_ofList_toDigits, String.toList_append, String.toList_ofList,
        String.toList_ofList]
      rfl

theorem Text.ofNat_injective : Function.Injective Text.ofNat := by
  intro number other same
  calc
    number = Nat.ofDigitChars 10 (Text.ofNat number) 0 := Nat.ofDigitChars_ten_toDigits.symm
    _ = Nat.ofDigitChars 10 (Text.ofNat other) 0 := by rw [same]
    _ = other := Nat.ofDigitChars_ten_toDigits

theorem Text.ofNat_ne_signed (number : Nat) (rest : Text) : Text.ofNat number ≠ '-' :: rest := by
  intro same
  have member : '-' ∈ Text.ofNat number := by
    rw [same]
    exact List.mem_cons_self
  have digit := Nat.isDigit_of_mem_toDigits (by decide) (by decide) member
  cases digit

theorem Text.ofInt_injective : Function.Injective Text.ofInt := by
  intro number other same
  cases number with
  | ofNat number =>
      cases other with
      | ofNat other => rw [Text.ofNat_injective same]
      | negSucc other => exact absurd same (Text.ofNat_ne_signed number _)
  | negSucc number =>
      cases other with
      | ofNat other => exact absurd same.symm (Text.ofNat_ne_signed other _)
      | negSucc other =>
          have next := Text.ofNat_injective (List.cons.inj same).2
          rw [Nat.succ.inj next]

/-! ### The report -/

namespace Record

def fields (record : Record) : List Text :=
  [record.eventId, (toString record.length).toList, (toString record.emptyStylesheet).toList,
    (toString record.backgroundSelectors).toList, (toString record.colorSelectors).toList,
    (toString record.backgroundIsOverriddenWithImage).toList, (toString record.error).toList,
    record.digest, record.errorStack]

theorem row_eq_fields (record : Record) : record.row = record.fields := by
  unfold row fields
  simp only [Text.ofInt_eq_toString]

theorem row_injective : Function.Injective row := by
  intro record other same
  obtain ⟨eventId, length, empty, background, color, overridden, error, digest, stack⟩ := record
  simp only [row, List.cons.injEq, and_true] at same
  obtain ⟨rfl, length, empty, background, color, overridden, error, rfl, rfl⟩ := same
  rw [Text.ofInt_injective length, Text.ofInt_injective empty, Text.ofInt_injective background,
    Text.ofInt_injective color, Text.ofInt_injective overridden, Text.ofInt_injective error]

end Record

theorem tableSpelling_report_iff (records : List Record) (table : List (List Text)) :
    Csv.TableSpelling table (report records) ↔
      table = Record.columns :: records.map Record.fields := by
  have rows : records.map Record.row = records.map Record.fields :=
    List.map_congr_left (fun record _ => record.row_eq_fields)
  unfold report
  rw [rows]
  apply Csv.tableSpelling_tableText_iff
  intro row member
  rcases List.mem_cons.mp member with rfl | written
  · exact List.cons_ne_nil _ _
  · obtain ⟨record, _, rfl⟩ := List.mem_map.mp written
    exact List.cons_ne_nil _ _

/-- Reading a report by the grammar gives its nine columns and then the nine fields of each record,
in order and in no other way, so a report belongs to one list of records only. -/
theorem report_readsBack :
    (∀ records table, Csv.TableSpelling table (report records) ↔
      table = Record.columns :: records.map Record.fields) ∧
    Record.columns.length = 9 ∧
    (∀ record : Record, record.fields.length = 9) ∧
    Function.Injective report := by
  refine ⟨tableSpelling_report_iff, rfl, fun _ => rfl, ?_⟩
  intro records others same
  have reads := (tableSpelling_report_iff records _).mpr rfl
  rw [same, tableSpelling_report_iff] at reads
  have fields := (List.cons.inj reads).2
  apply List.map_injective_iff.mpr Record.row_injective
  rw [funext Record.row_eq_fields]
  exact fields

end SheetCensus
