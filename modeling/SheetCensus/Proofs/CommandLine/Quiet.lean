import SheetCensus.Proofs.Batch.Telling
import SheetCensus.Proofs.CommandLine.Printing

set_option autoImplicit false

/-! What may be said and what is answered. Commands that ask for the same report end alike and
print the same report, whatever they are told about workers and about being quiet; a quiet command
leaves out the lines of level `INFO` and nothing else (`command_tells`). -/

namespace SheetCensus

/-! ### Lines -/

namespace Text

theorem not_mem_of_mem_splitAt (separator : Char) (text piece : Text)
    (member : piece ∈ splitAt separator text) : separator ∉ piece := by
  induction text generalizing piece with
  | nil =>
      obtain rfl := List.mem_singleton.mp member
      exact List.not_mem_nil
  | cons first rest ih =>
      unfold splitAt at member
      by_cases parts : first = separator
      · rw [if_pos parts] at member
        rcases List.mem_cons.mp member with rfl | later
        · exact List.not_mem_nil
        · exact ih piece later
      · rw [if_neg parts] at member
        cases pieces : splitAt separator rest with
        | nil =>
            rw [pieces] at member
            obtain rfl := List.mem_singleton.mp member
            exact fun found => parts (List.mem_singleton.mp found).symm
        | cons head others =>
            rw [pieces] at member ih
            rcases List.mem_cons.mp member with rfl | later
            · intro found
              rcases List.mem_cons.mp found with same | inside
              · exact parts same.symm
              · exact ih head List.mem_cons_self inside
            · exact ih piece (List.mem_cons_of_mem _ later)

theorem splitAt_append_cons (separator : Char) (piece rest : Text) (absent : separator ∉ piece) :
    splitAt separator (piece ++ separator :: rest) = piece :: splitAt separator rest := by
  induction piece with
  | nil =>
      change (if separator = separator then _ else _) = _
      rw [if_pos rfl]
  | cons first others ih =>
      rw [List.mem_cons, not_or] at absent
      rw [List.cons_append, splitAt, if_neg (Ne.symm absent.1), ih absent.2]

end Text

theorem Request.splitAt_lines (texts : List Text) (clean : ∀ text ∈ texts, '\n' ∉ text) :
    Text.splitAt '\n' (lines texts) = texts ++ [[]] := by
  induction texts with
  | nil => rfl
  | cons text others ih =>
      have first := Text.splitAt_append_cons '\n' text (lines others)
        (clean text List.mem_cons_self)
      have later := ih (fun other member => clean other (List.mem_cons_of_mem text member))
      have whole : lines (text :: others) = text ++ '\n' :: lines others := by
        rw [lines, List.flatMap_cons, List.append_assoc]
        rfl
      rw [whole, first, later, List.cons_append]

namespace Outcome

def noticeLines (notices : List Notice) : List Text :=
  notices.flatMap (fun notice => Text.splitAt '\n' notice.text.plain)

def infos (notices : List Notice) : List Notice :=
  notices.filter (Notice.hasLevel "INFO".toList)

theorem splitAt_noticeText (notices : List Notice) :
    (Text.splitAt '\n' (noticeText notices)).Perm (noticeLines notices ++ [[]]) := by
  have perm : (inOrder Text.precedes (noticeLines notices)).Perm (noticeLines notices) :=
    inOrder_perm Text.precedes _
  change (Text.splitAt '\n' (Request.lines (inOrder Text.precedes (noticeLines notices)))).Perm _
  rw [Request.splitAt_lines]
  · exact perm.append_right [[]]
  · intro line member
    obtain ⟨notice, _, inside⟩ := List.mem_flatMap.mp (perm.mem_iff.mp member)
    exact Text.not_mem_of_mem_splitAt '\n' notice.text.plain line inside

/-- Being quiet takes the lines of level `INFO` out of what is printed. -/
theorem splitAt_noticeText_heard (notices : List Notice) :
    (Text.splitAt '\n' (noticeText (heard false notices))).Perm
      (noticeLines (infos notices) ++ Text.splitAt '\n' (noticeText (heard true notices))) := by
  have others : infos notices = notices.filter (fun notice => !notice.isWarning) :=
    List.filter_congr (fun notice _ => notice.hasLevel_info)
  have apart : (noticeLines notices).Perm
      (noticeLines (infos notices) ++ noticeLines (heard true notices)) := by
    rw [others]
    unfold noticeLines
    rw [← List.flatMap_append]
    apply List.Perm.flatMap_right
    exact (List.filter_append_perm Notice.isWarning notices).symm.trans List.perm_append_comm
  refine (splitAt_noticeText notices).trans ?_
  refine (apart.append_right [[]]).trans ?_
  rw [List.append_assoc]
  exact (splitAt_noticeText (heard true notices)).symm.append_left _

end Outcome

/-! ### Commands that ask for the same -/

/-- Arguments that differ in the number of workers and in being quiet at most. -/
structure Arguments.AskAlike (arguments other : Arguments) : Prop where
  positional : arguments.positional = other.positional
  encoding : arguments.encoding = other.encoding
  request : arguments.request = other.request

inductive Arguments.ComesWith [Codecs] (arguments : Arguments) (tree : Tree) (workers : Int) :
    List Notice → Prop where
  | request (request : Request) (asked : arguments.request = some request) :
      ComesWith arguments tree workers []
  | report (directory : Option Text) (result : Batch.Result) (asked : arguments.request = none)
      (named : arguments.directory tree = .ok directory)
      (runs : Batch.run tree directory
        { Config.standard with
          workers := workers
          encoding := arguments.encoding.getD Config.standard.encoding } = .ok result) :
      ComesWith arguments tree workers result.notices

/-- The ends of two commands that ask for the same: they are told apart by what is printed beside
the report only, and when they succeed by the lines of level `INFO` only. -/
structure Outcome.DifferInNoticesOf (outcome other : Outcome) (quiet otherQuiet : Bool)
    (comes : List Notice → Prop) : Prop where
  exitCode : outcome.exitCode = other.exitCode
  stdout : outcome.stdout = other.stdout
  stderr : outcome.exitCode = 0 → ∃ notices, comes notices ∧
    (quiet = otherQuiet → outcome.stderr = other.stderr) ∧
      (quiet = false → otherQuiet = true →
        (Text.splitAt '\n' outcome.stderr).Perm
          (Outcome.noticeLines (Outcome.infos notices) ++ Text.splitAt '\n' other.stderr))

theorem Task.ofTexts_of_request (tree : Tree) (texts : List Text) (arguments : Arguments)
    (request : Request) (reads : Arguments.read texts = .ok arguments)
    (asked : arguments.request = some request) : ofTexts tree texts = .ok (.grant request) := by
  rw [ofTexts, reads]
  dsimp only
  rw [ofArguments, asked]

theorem Task.ofTexts_of_no_request (tree : Tree) (texts : List Text) (arguments : Arguments)
    (workers : Int) (reads : Arguments.read texts = .ok arguments)
    (asked : arguments.request = none)
    (counted : arguments.workerCount Config.standard.workers = .ok workers) :
    ofTexts tree texts = (arguments.directory tree).map (fun directory =>
      .report directory
        { Config.standard with
          workers := workers
          encoding := arguments.encoding.getD Config.standard.encoding } arguments.quiet) := by
  rw [ofTexts, reads]
  dsimp only
  rw [ofArguments, asked, counted]

theorem Outcome.differs_of_failed {outcome : Outcome} (failed : outcome.exitCode ≠ 0)
    (quiet otherQuiet : Bool) (comes : List Notice → Prop) :
    outcome.DifferInNoticesOf outcome quiet otherQuiet comes :=
  ⟨rfl, rfl, fun succeeded => absurd succeeded failed⟩

/-- Reports on the same directory in the same encoding. -/
theorem Task.perform_differs [Codecs] (tree : Tree) (directory : Option Text) (config : Config)
    (count : Int) (quiet otherQuiet : Bool) (comes : List Notice → Prop)
    (staffed : 1 ≤ config.workers) (staffedToo : 1 ≤ count)
    (heard : ∀ result, Batch.run tree directory config = .ok result → comes result.notices) :
    ((report directory config quiet).perform tree).DifferInNoticesOf
      ((report directory { config with workers := count } otherQuiet).perform tree)
      quiet otherQuiet comes := by
  have same := Batch.run_workers tree directory config count staffed staffedToo
  cases runs : Batch.run tree directory config with
  | error failure =>
      rw [runs] at same
      obtain ⟨notices, ends⟩ := perform_report_of_error tree directory _ quiet failure runs
      obtain ⟨others, endsToo⟩ := perform_report_of_error tree directory _ otherQuiet failure same
      have fails := Outcome.ofFailure_eq notices failure
      have failsToo := Outcome.ofFailure_eq others failure
      rw [ends, endsToo]
      refine ⟨fails.1.trans failsToo.1.symm, fails.2.trans failsToo.2.symm, ?_⟩
      intro impossible
      rw [fails.1] at impossible
      cases impossible
  | ok result =>
      rw [runs] at same
      rw [perform_report_of_ok tree directory _ quiet result runs,
        perform_report_of_ok tree directory _ otherQuiet result same]
      refine ⟨rfl, rfl, fun _ => ⟨result.notices, heard result runs, ?_, ?_⟩⟩
      · rintro rfl
        rfl
      · rintro rfl rfl
        exact Outcome.splitAt_noticeText_heard result.notices

theorem command_differs [Codecs] (tree : Tree) (texts others : List Text)
    (arguments other : Arguments)
    (workers count : Int) (reads : Arguments.read texts = .ok arguments)
    (readsToo : Arguments.read others = .ok other) (alike : arguments.AskAlike other)
    (counted : arguments.workerCount Config.standard.workers = .ok workers)
    (countedToo : other.workerCount Config.standard.workers = .ok count) :
    (command tree texts).DifferInNoticesOf (command tree others) arguments.quiet other.quiet
      (arguments.ComesWith tree workers) := by
  unfold command
  cases asked : arguments.request with
  | some request =>
      rw [Task.ofTexts_of_request tree texts arguments request reads asked,
        Task.ofTexts_of_request tree others other request readsToo (alike.request ▸ asked)]
      exact ⟨rfl, rfl, fun _ =>
        ⟨[], .request request asked, fun _ => rfl, fun _ _ => List.Perm.refl _⟩⟩
  | none =>
      have sameDirectory : other.directory tree = arguments.directory tree := by
        unfold Arguments.directory
        rw [alike.positional]
      rw [Task.ofTexts_of_no_request tree texts arguments workers reads asked counted,
        Task.ofTexts_of_no_request tree others other count readsToo (alike.request ▸ asked)
          countedToo, sameDirectory, ← alike.encoding]
      cases named : arguments.directory tree with
      | error error =>
          cases error with
          | nullInDirectory => exact Outcome.differs_of_failed (Nat.succ_ne_zero 0) _ _ _
          | _ => exact Outcome.differs_of_failed (Nat.succ_ne_zero 1) _ _ _
      | ok directory =>
          exact Task.perform_differs tree directory _ count _ _ _
            (arguments.workerCount_pos workers counted) (other.workerCount_pos count countedToo)
            (fun result runs => .report directory result asked named runs)

/-- The notices of a batch match its records, one by one, in whatever order the files are finished.
Commands that ask for the same and are told of different workers, or to be quiet or not, print the
same report and end alike; being quiet takes the lines of level `INFO` out of what is printed beside
the report, and nothing else. -/
theorem command_tells [Codecs] :
    (∀ tree directory config files result, files ≠ [] →
      listing tree (Batch.directoryOf directory config) = .ok files →
      Batch.run tree directory config = .ok result →
        Batch.TellsOf files result ∧
          ∀ finished, finished.Perm
              (Batch.attempts tree (Batch.directoryOf directory config) config files) →
            Batch.ofFinished finished = .ok result) ∧
    ∀ tree texts others arguments other workers count,
      Arguments.read texts = .ok arguments → Arguments.read others = .ok other →
      arguments.AskAlike other →
      arguments.workerCount Config.standard.workers = .ok workers →
      other.workerCount Config.standard.workers = .ok count →
        1 ≤ workers ∧ 1 ≤ count ∧
          (command tree texts).DifferInNoticesOf (command tree others) arguments.quiet other.quiet
            (arguments.ComesWith tree workers) := by
  constructor
  · intro tree directory config files result some listed runs
    exact Batch.run_tells result some listed runs
  · intro tree texts others arguments other workers count reads readsToo alike counted countedToo
    exact ⟨arguments.workerCount_pos workers counted, other.workerCount_pos count countedToo,
      command_differs tree texts others arguments other workers count reads readsToo alike counted
        countedToo⟩

/-- A style sheet that ends inside a block: the batch warns of it, and a quiet command with one
worker stands beside one that is told nothing. -/
theorem command_tells_at_open_block :
    (∃ result, Batch.run (Tree.ofSheet [0x61, 0x7b]) none Config.standard = .ok result ∧
      Batch.TellsOf [['1', '.', 'c', 's', 's']] result ∧
        result.notices.map (fun notice => (notice.level, notice.text)) =
          [("INFO".toList, "eventId=1, file=1.css: read 2 characters".toList),
            ("WARNING".toList,
              "Illegal CSS: \"a\x7b\"... css/1.css:1:2: missing '\x7d'".toList)]) ∧
      (command (Tree.ofSheet [0x61, 0x7b]) []).exitCode = 0 ∧
      (command (Tree.ofSheet [0x61, 0x7b]) []).DifferInNoticesOf
        (command (Tree.ofSheet [0x61, 0x7b])
          [['-', '-', 'w', 'o', 'r', 'k', 'e', 'r', 's'], ['1'],
            ['-', '-', 'q', 'u', 'i', 'e', 't']])
        false true (Arguments.empty.ComesWith (Tree.ofSheet [0x61, 0x7b]) 8) := by
  refine ⟨⟨_, rfl, ?_, rfl⟩, rfl, ?_⟩
  · exact (command_tells.1 (Tree.ofSheet [0x61, 0x7b]) none Config.standard
      [['1', '.', 'c', 's', 's']] _ (by decide) rfl rfl).1
  · exact (command_tells.2 (Tree.ofSheet [0x61, 0x7b]) []
      [['-', '-', 'w', 'o', 'r', 'k', 'e', 'r', 's'], ['1'], ['-', '-', 'q', 'u', 'i', 'e', 't']]
      Arguments.empty ⟨[], some ['1'], none, true, none⟩ 8 1 rfl (by decide) ⟨rfl, rfl, rfl⟩ rfl
      (by decide)).2.2

end SheetCensus
