import Mathlib.Algebra.GroupWithZero.Nat
import SheetCensus.Proofs.Census.Count

set_option autoImplicit false

/-! Records of texts that are taken in one after the other. A text is counted, found empty or
refused, and each of these changes fields of its own only, so what a record holds can be told from
the texts up to its own (`Record.takeIn_isAfter`); from one step to the next this gives every record
of a whole run (`Record.takeInAll_isAfter`). -/

namespace SheetCensus

/-! ### What became of some texts -/

def sheetsOf (texts : List Text) : List Stylesheet :=
  texts.filterMap (fun text => (Stylesheet.read text none).toOption)

def faultOf? (text : Text) : Option Fault :=
  match Stylesheet.read text none with
  | .error (.fault fault) => some fault
  | _ => none

def refusalsOf (texts : List Text) : List (Text × Fault) :=
  texts.filterMap (fun text => (faultOf? text).map (fun fault => (text, fault)))

def matching (test : Rule → Bool) (texts : List Text) : Nat :=
  ((sheetsOf texts).map (fun sheet => sheet.ruleList.countP test)).sum

namespace Record

/-- What a record holds when some texts have been taken in on top of an initial record. -/
structure IsAfter (initial : Record) (digestLength : Int) (texts : List Text)
    (record : Record) : Prop where
  eventId_eq : record.eventId = initial.eventId
  length_eq : record.length = initial.length
  background_eq : record.backgroundSelectors =
    initial.backgroundSelectors + matching Rule.hasBackground texts
  color_eq : record.colorSelectors = initial.colorSelectors + matching Rule.hasColor texts
  overridden_eq : record.backgroundIsOverriddenWithImage =
    initial.backgroundIsOverriddenWithImage + matching Rule.isOverridden texts
  emptied : (∃ sheet ∈ sheetsOf texts, sheet.ruleList = []) → record.emptyStylesheet = 1
  not_emptied : (∀ sheet ∈ sheetsOf texts, sheet.ruleList ≠ []) →
    record.emptyStylesheet = initial.emptyStylesheet
  failed : ∀ text fault, (refusalsOf texts).getLast? = some (text, fault) →
    record.error = 1 ∧ record.digest = text.clip digestLength ∧
      record.errorStack = stackText fault.diagnostic.text
  not_failed : refusalsOf texts = [] →
    record.error = initial.error ∧ record.digest = initial.digest ∧
      record.errorStack = initial.errorStack

/-! ### One step -/

theorem isAfter_nil (initial : Record) (digestLength : Int) :
    IsAfter initial digestLength [] initial where
  eventId_eq := rfl
  length_eq := rfl
  background_eq := (Int.add_zero _).symm
  color_eq := (Int.add_zero _).symm
  overridden_eq := (Int.add_zero _).symm
  emptied := by
    rintro ⟨sheet, impossible, _⟩
    cases impossible
  not_emptied := fun _ => rfl
  failed := by
    intro text fault impossible
    cases impossible
  not_failed := fun _ => ⟨rfl, rfl, rfl⟩

theorem sheetsOf_concat (texts : List Text) (text : Text) :
    sheetsOf (texts ++ [text]) =
      sheetsOf texts ++ (Stylesheet.read text none).toOption.toList := by
  unfold sheetsOf
  rw [List.filterMap_append]
  cases read : Stylesheet.read text none with
  | error refusal => simp [read, Except.toOption]
  | ok sheet => simp [read, Except.toOption]

theorem refusalsOf_concat (texts : List Text) (text : Text) :
    refusalsOf (texts ++ [text]) =
      refusalsOf texts ++ ((faultOf? text).map (fun fault => (text, fault))).toList := by
  unfold refusalsOf
  rw [List.filterMap_append]
  cases found : faultOf? text with
  | none => simp [found]
  | some fault => simp [found]

theorem matching_concat (test : Rule → Bool) (texts : List Text) (text : Text) (sheet : Stylesheet)
    (read : Stylesheet.read text none = .ok sheet) :
    matching test (texts ++ [text]) = matching test texts + sheet.ruleList.countP test := by
  unfold matching
  rw [sheetsOf_concat, read]
  simp [Except.toOption]

variable {initial record : Record} {digestLength : Int} {texts : List Text} {text : Text}

/-- A text that is read changes the counters and the flag of an empty sheet only. -/
theorem IsAfter.count (before : IsAfter initial digestLength texts record) (sheet : Stylesheet)
    (read : Stylesheet.read text none = .ok sheet) :
    IsAfter initial digestLength (texts ++ [text]) (record.countSheet sheet) := by
  have sheets : sheetsOf (texts ++ [text]) = sheetsOf texts ++ [sheet] := by
    rw [sheetsOf_concat, read]
    rfl
  have refusals : refusalsOf (texts ++ [text]) = refusalsOf texts := by
    rw [refusalsOf_concat, faultOf?, read]
    exact List.append_nil _
  have grown (test : Rule → Bool) := matching_concat test texts text sheet read
  rw [countSheet, count_eq]
  constructor
  · exact before.eventId_eq
  · exact before.length_eq
  · rw [grown, before.background_eq, Int.natCast_add, Int.add_assoc]
  · rw [grown, before.color_eq, Int.natCast_add, Int.add_assoc]
  · rw [grown, before.overridden_eq, Int.natCast_add, Int.add_assoc]
  · rintro ⟨other, member, bare⟩
    dsimp only
    by_cases filled : sheet.ruleList = []
    · rw [if_pos filled]
    · rw [if_neg filled]
      rw [sheets] at member
      rcases List.mem_append.mp member with earlier | last
      · exact before.emptied ⟨other, earlier, bare⟩
      · rw [List.mem_singleton.mp last] at bare
        exact absurd bare filled
  · intro filled
    rw [sheets] at filled
    dsimp only
    rw [if_neg (filled sheet (List.mem_append_right _ List.mem_cons_self))]
    exact before.not_emptied (fun other member => filled other (List.mem_append_left _ member))
  · rw [refusals]
    exact before.failed
  · rw [refusals]
    exact before.not_failed

/-- A text that is refused changes the flag of an error and what is told of it only. -/
theorem IsAfter.fail (before : IsAfter initial digestLength texts record) (fault : Fault)
    (read : Stylesheet.read text none = .error (.fault fault)) :
    IsAfter initial digestLength (texts ++ [text])
      (record.failed text fault.diagnostic.text digestLength) := by
  have sheets : sheetsOf (texts ++ [text]) = sheetsOf texts := by
    rw [sheetsOf_concat, read]
    exact List.append_nil _
  have refusals : refusalsOf (texts ++ [text]) = refusalsOf texts ++ [(text, fault)] := by
    rw [refusalsOf_concat, faultOf?, read]
    rfl
  have kept (test : Rule → Bool) : matching test (texts ++ [text]) = matching test texts := by
    unfold matching
    rw [sheets]
  constructor
  · exact before.eventId_eq
  · exact before.length_eq
  · rw [kept]
    exact before.background_eq
  · rw [kept]
    exact before.color_eq
  · rw [kept]
    exact before.overridden_eq
  · rw [sheets]
    exact before.emptied
  · rw [sheets]
    exact before.not_emptied
  · intro last found known
    rw [refusals, List.getLast?_concat] at known
    cases known
    exact ⟨rfl, rfl, rfl⟩
  · intro none
    rw [refusals] at none
    exact absurd none (List.append_ne_nil_of_right_ne_nil _ (List.cons_ne_nil _ _))

theorem takeIn_isAfter (before : IsAfter initial digestLength texts record)
    (small : ∀ digits, Stylesheet.read text none ≠ .error (.oversized digits)) :
    ∃ next, record.takeIn text digestLength = .ok next ∧
      IsAfter initial digestLength (texts ++ [text]) next := by
  unfold takeIn
  cases read : Stylesheet.read text none with
  | ok sheet => exact ⟨_, rfl, before.count sheet read⟩
  | error refusal =>
      cases refusal with
      | fault fault => exact ⟨_, rfl, before.fail fault read⟩
      | oversized digits => exact absurd read (small digits)

/-! ### A whole run -/

theorem takeInAll_isAfter_of_isAfter (others : List Text)
    (before : IsAfter initial digestLength texts record)
    (small : ∀ text ∈ others, ∀ digits, Stylesheet.read text none ≠ .error (.oversized digits)) :
    ∃ records, record.takeInAll digestLength others = .ok records ∧
      records.length = others.length ∧
        ∀ index next, records[index]? = some next →
          IsAfter initial digestLength (texts ++ others.take (index + 1)) next := by
  induction others generalizing record texts with
  | nil =>
      refine ⟨[], rfl, rfl, ?_⟩
      intro index next impossible
      cases impossible
  | cons text others ih =>
      obtain ⟨next, taken, here⟩ := takeIn_isAfter before (small text List.mem_cons_self)
      obtain ⟨records, later, length, each⟩ :=
        ih here (fun other member => small other (List.mem_cons_of_mem text member))
      refine ⟨next :: records, ?_, congrArg (· + 1) length, ?_⟩
      · rw [takeInAll, taken]
        dsimp only
        rw [later]
      · intro index other found
        cases index with
        | zero =>
            cases found
            exact here
        | succ index =>
            have behind := each index other found
            rw [List.append_assoc] at behind
            exact behind

/-- Texts without an oversized integer have one record each, and the record of each text holds what
the texts up to it come to on top of the initial record. -/
theorem takeInAll_isAfter (initial : Record) (digestLength : Int) (texts : List Text)
    (small : ∀ text ∈ texts, ∀ digits, Stylesheet.read text none ≠ .error (.oversized digits)) :
    ∃ records, initial.takeInAll digestLength texts = .ok records ∧
      records.length = texts.length ∧
        ∀ index record, records[index]? = some record →
          IsAfter initial digestLength (texts.take (index + 1)) record :=
  takeInAll_isAfter_of_isAfter texts (isAfter_nil initial digestLength) small

/-- A text that is refused, an empty one and one with two selectors that count. The last record
tells of all. -/
theorem takeInAll_isAfter_at_three_texts :
    let counted : Text :=
      ['c', 'o', 'l', 'o', 'r', '-', '1', '-', 'b', 'a', 'c', 'k', 'g', 'r', 'o', 'u', 'n', 'd',
        ',',
        'c', 'o', 'l', 'o', 'r', '-', '1', 'a', '{', '}']
    (∀ text ∈ [['}'], [], counted], ∀ digits,
      Stylesheet.read text none ≠ .error (.oversized digits)) ∧
      ∃ records,
        (Record.initial ['7'] 3).takeInAll (-1) [['}'], [], counted] = .ok records ∧
        ∃ record, records[2]? = some record ∧ record.eventId = ['7'] ∧ record.error = 1 ∧
          record.digest = [] ∧ record.emptyStylesheet = 1 ∧ record.backgroundSelectors = 1 ∧
          record.colorSelectors = 1 ∧ record.backgroundIsOverriddenWithImage = 0 := by
  intro counted
  have small : ∀ text ∈ [['}'], [], counted], ∀ digits,
      Stylesheet.read text none ≠ .error (.oversized digits) := by
    intro text member digits
    simp only [List.mem_cons, List.not_mem_nil, or_false] at member
    rcases member with rfl | rfl | rfl
    all_goals
      intro impossible
      cases impossible
  obtain ⟨records, taken, length, each⟩ := takeInAll_isAfter (Record.initial ['7'] 3) (-1) _ small
  have third : 2 < records.length := by
    rw [length]
    decide
  have after := each 2 _ (List.getElem?_eq_getElem third)
  have told := after.failed ['}'] ⟨.blockMissing, ⟨1, 1⟩, none⟩ rfl
  refine ⟨small, records, taken, records[2], List.getElem?_eq_getElem third, after.eventId_eq,
    told.1, told.2.1, after.emptied ⟨⟨none, none⟩, ?_, rfl⟩, after.background_eq, after.color_eq,
    after.overridden_eq⟩
  exact List.mem_cons_self

end Record

end SheetCensus
