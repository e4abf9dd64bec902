import SheetCensus.CommandLine.Command
import SheetCensus.Proofs.Text.Terminal

set_option autoImplicit false

/-! What a command prints. A command that fails prints nothing, and one that is asked for a report
succeeds exactly when the batch does; then it prints the report, less the control sequences in it
(`command_agrees`). A null character in the name of a directory stops the command early, and it
would stop the batch as well (`Batch.run_of_null`). -/

namespace SheetCensus

/-! ### Null characters in a path -/

theorem Text.exists_mem_splitAt (separator : Char) (text : Text) (c : Char)
    (member : c ∈ text) (other : c ≠ separator) : ∃ piece ∈ splitAt separator text, c ∈ piece := by
  induction text with
  | nil => cases member
  | cons first rest ih =>
      unfold splitAt
      rcases List.mem_cons.mp member with rfl | later
      · rw [if_neg other]
        split
        · exact ⟨[c], List.mem_cons_self, List.mem_cons_self⟩
        · exact ⟨_, List.mem_cons_self, List.mem_cons_self⟩
      · obtain ⟨piece, inside, found⟩ := ih later
        by_cases parts : first = separator
        · rw [if_pos parts]
          exact ⟨piece, List.mem_cons_of_mem _ inside, found⟩
        rw [if_neg parts]
        cases pieces : splitAt separator rest with
        | nil =>
            rw [pieces] at inside
            cases inside
        | cons head others =>
            rw [pieces] at inside
            rcases List.mem_cons.mp inside with rfl | behind
            · exact ⟨_, List.mem_cons_self, List.mem_cons_of_mem _ found⟩
            · exact ⟨piece, List.mem_cons_of_mem _ behind, found⟩

theorem Text.mem_join (separator : Text) (texts : List Text) (piece : Text)
    (member : piece ∈ texts) (c : Char) (inside : c ∈ piece) : c ∈ join separator texts := by
  induction texts with
  | nil => cases member
  | cons text others ih =>
      cases others with
      | nil =>
          obtain rfl := List.mem_singleton.mp member
          exact inside
      | cons second more =>
          unfold join
          rcases List.mem_cons.mp member with rfl | later
          · exact List.mem_append_left _ (List.mem_append_left _ inside)
          · exact List.mem_append_right _ (ih later)

/-- A path keeps every character of its text other than slashes and single dots. -/
theorem Path.mem_text_ofText (text : Text) (c : Char) (member : c ∈ text) (notSlash : c ≠ '/')
    (notDot : c ≠ '.') : c ∈ (ofText text).text := by
  obtain ⟨piece, inside, found⟩ := Text.exists_mem_splitAt '/' text c member notSlash
  have part : isPart piece = true := by
    have notEmpty : piece ≠ [] := List.ne_nil_of_mem found
    have notHere : piece ≠ ['.'] := by
      rintro rfl
      exact notDot (List.mem_singleton.mp found)
    simp [isPart, notEmpty, notHere]
  have kept : piece ∈ (ofText text).parts := List.mem_filter.mpr ⟨inside, part⟩
  have named : ¬ ((ofText text).root = [] ∧ (ofText text).parts = []) := by
    rintro ⟨_, none⟩
    rw [none] at kept
    cases kept
  unfold Path.text
  rw [if_neg named]
  exact List.mem_append_right _ (Text.mem_join _ _ piece kept c found)

theorem Batch.run_of_null [Codecs] (tree : Tree) (directory : Text) (config : Config)
    (null : '\x00' ∈ directory) :
    run tree (some directory) config = .error (.noDirectory (Path.ofText directory).text) := by
  have inside := Path.mem_text_ofText directory '\x00' null (by decide) (by decide)
  have found : tree.find (Path.ofText directory) = .error .nullCharacter := by
    unfold Tree.find Tree.follow
    rw [if_pos (List.contains_iff_mem.mpr inside)]
  unfold run
  rw [Option.getD_some]
  dsimp only
  unfold listing
  rw [found]

/-! ### Commands -/

/-- Arguments that ask for a report: for neither help nor version, on one directory at most, which
is no file, by one worker at least. -/
structure Arguments.AskForReport (arguments : Arguments) (tree : Tree) (directory : Option Text)
    (workers : Int) (encoding : Text) : Prop where
  no_request : arguments.request = none
  positional_eq : arguments.positional = directory.toList
  not_file : ∀ path ∈ directory, tree.leadsToFile path = false
  workers_eq : arguments.workerCount Config.standard.workers = .ok workers
  encoding_eq : encoding = arguments.encoding.getD Config.standard.encoding

theorem Arguments.workerCount_pos (arguments : Arguments) (workers : Int)
    (counted : arguments.workerCount Config.standard.workers = .ok workers) : 1 ≤ workers := by
  unfold workerCount at counted
  split at counted
  · cases counted
    decide
  · split at counted
    · cases counted
    next number _ =>
      by_cases few : number < 1
      · rw [if_pos few] at counted
        cases counted
      · rw [if_neg few] at counted
        cases counted
        exact Int.not_lt.mp few

namespace Outcome

theorem ofFailure_eq (notices : List Notice) (failure : Failure) :
    (ofFailure notices failure).exitCode = 1 ∧ (ofFailure notices failure).stdout = [] := by
  unfold ofFailure
  split
  · exact ⟨rfl, rfl⟩
  · exact ⟨rfl, rfl⟩

end Outcome

theorem Task.perform_report_of_ok [Codecs] (tree : Tree) (directory : Option Text) (config : Config)
    (quiet : Bool) (result : Batch.Result) (runs : Batch.run tree directory config = .ok result) :
    (report directory config quiet).perform tree = .ofResult quiet result := by
  rw [perform, runs]

theorem Task.perform_report_of_error [Codecs] (tree : Tree) (directory : Option Text)
    (config : Config)
    (quiet : Bool) (failure : Failure) (stops : Batch.run tree directory config = .error failure) :
    ∃ notices, (report directory config quiet).perform tree = .ofFailure notices failure := by
  rw [perform, stops]
  exact ⟨_, rfl⟩

/-- Nothing is printed of a report that is not whole. -/
theorem stdout_of_exitCode_ne_zero [Codecs] (tree : Tree) (texts : List Text)
    (failed : (command tree texts).exitCode ≠ 0) : (command tree texts).stdout = [] := by
  unfold command at failed ⊢
  cases asked : Task.ofTexts tree texts with
  | error error =>
      cases error with
      | nullInDirectory => exact (Outcome.ofFailure_eq _ _).2
      | _ => rfl
  | ok task =>
      rw [asked] at failed
      cases task with
      | grant request => exact absurd rfl failed
      | report directory config quiet =>
          cases runs : Batch.run tree directory config with
          | ok result =>
              have printed := Task.perform_report_of_ok tree directory config quiet result runs
              exact absurd (congrArg Outcome.exitCode printed) failed
          | error failure =>
              obtain ⟨notices, silent⟩ :=
                Task.perform_report_of_error tree directory config quiet failure runs
              dsimp only
              rw [silent]
              exact (Outcome.ofFailure_eq notices failure).2

section

variable {tree : Tree} {texts : List Text} {arguments : Arguments} {directory : Option Text}
  {workers : Int} {encoding : Text} (reads : Arguments.read texts = .ok arguments)
  (asks : arguments.AskForReport tree directory workers encoding)

include reads asks

theorem ofTexts_of_asks :
    Task.ofTexts tree texts = (arguments.directory tree).map (fun directory =>
      .report directory { Config.standard with workers := workers, encoding := encoding }
        arguments.quiet) := by
  rw [Task.ofTexts, reads, asks.encoding_eq]
  dsimp only
  rw [Task.ofArguments, asks.no_request, asks.workers_eq]

theorem command_of_null [Codecs] (path : Text) (named : directory = some path)
    (null : '\x00' ∈ path) :
    command tree texts = .ofFailure [] (.unreadable .nullCharacter []) := by
  have refused : arguments.directory tree = .error .nullInDirectory := by
    unfold Arguments.directory
    rw [asks.positional_eq, named]
    exact if_pos (List.contains_iff_mem.mpr null)
  rw [command, ofTexts_of_asks reads asks, refused]
  rfl

theorem command_of_no_null [Codecs] (clean : ∀ path ∈ directory, '\x00' ∉ path) :
    command tree texts =
      (Task.report directory { Config.standard with workers := workers, encoding := encoding }
        arguments.quiet).perform tree := by
  have named : arguments.directory tree = .ok directory := by
    unfold Arguments.directory
    rw [asks.positional_eq]
    cases directory with
    | none => rfl
    | some path =>
        have unmarked : ¬ path.contains '\x00' = true :=
          fun marked => clean path rfl (List.contains_iff_mem.mp marked)
        have noFile : ¬ tree.leadsToFile path = true := by
          rw [asks.not_file path rfl]
          exact Bool.false_ne_true
        change (if path.contains '\x00' then _ else if tree.leadsToFile path then _ else _) = _
        rw [if_neg unmarked, if_neg noFile]
        rfl
  rw [command, ofTexts_of_asks reads asks, named]
  rfl

/-- A command that is asked for a report ends as the batch does. -/
theorem command_of_ok [Codecs] (result : Batch.Result)
    (runs : Batch.run tree directory
      { Config.standard with workers := workers, encoding := encoding } = .ok result) :
    command tree texts = .ofResult arguments.quiet result := by
  rw [command_of_no_null reads asks]
  · exact Task.perform_report_of_ok tree directory _ _ result runs
  · rintro path named null
    obtain rfl : directory = some path := named
    rw [Batch.run_of_null tree path _ null] at runs
    cases runs

theorem command_of_error [Codecs] (failure : Failure)
    (stops : Batch.run tree directory
      { Config.standard with workers := workers, encoding := encoding } = .error failure) :
    ∃ notices other, command tree texts = .ofFailure notices other := by
  by_cases clean : ∀ path ∈ directory, '\x00' ∉ path
  · rw [command_of_no_null reads asks clean]
    obtain ⟨notices, ends⟩ := Task.perform_report_of_error tree directory _ arguments.quiet
      failure stops
    exact ⟨notices, failure, ends⟩
  · push Not at clean
    obtain ⟨path, named, null⟩ := clean
    exact ⟨_, _, command_of_null reads asks path named null⟩

end

/-- A command that fails prints nothing. One that is asked for a report succeeds exactly when the
batch does, and otherwise ends with one; it prints the report without its control sequences, which
is the report itself as long as there are none in it. -/
theorem command_agrees [Codecs] (tree : Tree) (texts : List Text) :
    ((command tree texts).exitCode ≠ 0 → (command tree texts).stdout = []) ∧
    ∀ arguments directory workers encoding, Arguments.read texts = .ok arguments →
      arguments.AskForReport tree directory workers encoding →
      1 ≤ workers ∧
      ((command tree texts).exitCode = 0 ∨ (command tree texts).exitCode = 1) ∧
      ((command tree texts).exitCode = 0 ↔
        ∃ result, Batch.run tree directory
          { Config.standard with workers := workers, encoding := encoding } = .ok result) ∧
      ∀ result, Batch.run tree directory
          { Config.standard with workers := workers, encoding := encoding } = .ok result →
        (command tree texts).stdout = (report result.records).plain ∧
        ((command tree texts).stdout = report result.records ↔
          ∀ sequence, sequence <:+: report result.records → ¬ Text.IsControl sequence) := by
  refine ⟨stdout_of_exitCode_ne_zero tree texts, ?_⟩
  intro arguments directory workers encoding reads asks
  refine ⟨arguments.workerCount_pos workers asks.workers_eq, ?_⟩
  cases runs : Batch.run tree directory
      { Config.standard with workers := workers, encoding := encoding } with
  | error failure =>
      obtain ⟨notices, other, ends⟩ := command_of_error reads asks failure runs
      have code := (Outcome.ofFailure_eq notices other).1
      rw [ends, code]
      simp
  | ok result =>
      rw [command_of_ok reads asks result runs]
      refine ⟨Or.inl rfl, iff_of_true rfl ⟨result, rfl⟩, ?_⟩
      rintro _ ⟨rfl⟩
      exact ⟨rfl, Text.plain_eq_self_iff _⟩

def Tree.ofSheet (bytes : List UInt8) : Tree :=
  ⟨[([['c', 's', 's']], .directory), ([['c', 's', 's'], ['1', '.', 'c', 's', 's']], .file bytes)],
    []⟩

/-- One empty style sheet and two workers, and no directory at all. -/
theorem command_agrees_at_empty_sheet :
    (∃ result, Batch.run (Tree.ofSheet []) (some ['c', 's', 's'])
        { Config.standard with workers := 2, encoding := "utf-8".toList } = .ok result ∧
      (command (Tree.ofSheet []) [['-', '-', 'w', 'o', 'r', 'k', 'e', 'r', 's'], ['2'],
        ['-', '-', 'q', 'u', 'i', 'e', 't'], ['c', 's', 's']]).stdout = report result.records) ∧
      (command Tree.empty []).exitCode = 1 ∧ (command Tree.empty []).stdout = [] := by
  refine ⟨⟨_, rfl, ?_⟩, rfl, (command_agrees Tree.empty []).1 (by decide)⟩
  have agrees := (command_agrees (Tree.ofSheet [])
    [['-', '-', 'w', 'o', 'r', 'k', 'e', 'r', 's'], ['2'],
    ['-', '-', 'q', 'u', 'i', 'e', 't'], ['c', 's', 's']]).2
    ⟨[['c', 's', 's']], some ['2'], none, true, none⟩ (some ['c', 's', 's']) 2
    "utf-8".toList (by decide)
    ⟨rfl, rfl, by decide, by decide, rfl⟩
  rw [(agrees.2.2.2 _ rfl).1]
  exact Text.plain_eq_self _ (by decide)

/-- A style sheet that is refused and begins with a control sequence: the report shows the beginning
as it is, and the command prints the report without it. -/
theorem command_drops_control_sequence :
    Arguments.read [] = .ok Arguments.empty ∧
      Arguments.empty.AskForReport (Tree.ofSheet [0x1b, 0x5b, 0x6d]) none 8 "utf-8".toList ∧
      ∃ result, Batch.run (Tree.ofSheet [0x1b, 0x5b, 0x6d]) none
          { Config.standard with workers := 8, encoding := "utf-8".toList } = .ok result ∧
        (command (Tree.ofSheet [0x1b, 0x5b, 0x6d]) []).exitCode = 0 ∧
        (command (Tree.ofSheet [0x1b, 0x5b, 0x6d]) []).stdout ≠ report result.records := by
  refine ⟨rfl, ⟨rfl, rfl, by simp, rfl, rfl⟩, _, rfl, rfl, ?_⟩
  decide

end SheetCensus
