import SheetCensus.CommandLine.Command
import SheetCensus.Proofs.Tree.History

set_option autoImplicit false

/-! Sessions of changes and questions. The reply to a question depends on what stands in the tree
alone, so two histories that end in the same tree have the same replies to everything that can be
asked, and questions that were asked before leave no trace (`session_replies`). -/

namespace SheetCensus

/-! ### What is answered from a tree -/

section

variable {start : Location} {tree other : Tree} (same : tree.SameNodes other)
  (sound : tree.IsSound start) (soundToo : other.IsSound start)

include same sound soundToo

theorem listing_congr : listing tree = listing other := by
  funext directory
  have names (here : Location) : tree.namesAt here = other.namesAt here :=
    (Tree.enumerates_childNames sound here).inOrder_eq (Tree.enumerates_childNames soundToo here)
      same
  rw [listing, listing, Tree.find_congr same sound soundToo]
  simp only [names]

theorem Attempt.ofFile_congr [Codecs] : Attempt.ofFile tree = Attempt.ofFile other := by
  funext directory file config
  have contents (path : Path) : content tree path config.encoding =
      content other path config.encoding := by
    rw [content, content, Tree.read_congr same sound soundToo]
  rw [ofFile, ofFile]
  simp only [contents]

theorem Batch.run_congr [Codecs] : Batch.run tree = Batch.run other := by
  funext directory config
  have work := Attempt.ofFile_congr same sound soundToo
  rw [run, run, listing_congr same sound soundToo]
  simp only [attempts, work]

theorem Batch.notices_congr [Codecs] : Batch.notices tree = Batch.notices other := by
  funext directory config
  have work := Attempt.ofFile_congr same sound soundToo
  rw [notices, notices, listing_congr same sound soundToo]
  simp only [attempts, work]

theorem command_congr [Codecs] : command tree = command other := by
  funext texts
  have directories (arguments : Arguments) :
      arguments.directory tree = arguments.directory other := by
    simp only [Arguments.directory, Tree.leadsToFile_congr same sound soundToo]
  have tasks : Task.ofTexts tree texts = Task.ofTexts other texts := by
    simp only [Task.ofTexts, Task.ofArguments, directories]
  have performs (task : Task) : task.perform tree = task.perform other := by
    cases task with
    | grant request => rfl
    | report directory config quiet =>
        rw [Task.perform, Task.perform, Batch.run_congr same sound soundToo,
          Batch.notices_congr same sound soundToo]
  rw [command, command, tasks]
  simp only [performs]

end

/-! ### Questions -/

inductive Query where
  | list (directory : Text)
  | process (directory file : Text) (config : Config)
  | run (directory : Option Text) (config : Config)
  | report (directory : Option Text) (config : Config)
  | command (texts : List Text)

inductive Reply where
  | names (names : Except Failure (List Text))
  | attempt (attempt : Attempt)
  | result (result : Except Failure Batch.Result)
  | report (report : Except Failure (Text × List Notice))
  | outcome (outcome : Outcome)

def Query.reply [Codecs] (tree : Tree) : Query → Reply
  | list directory => .names (listing tree (Path.ofText directory))
  | process directory file config =>
      .attempt (Attempt.ofFile tree (Path.ofText directory) file config)
  | run directory config => .result (Batch.run tree directory config)
  | report directory config =>
      .report ((Batch.run tree directory config).map (fun result =>
        (SheetCensus.report result.records, result.notices)))
  | command texts => .outcome (SheetCensus.command tree texts)

theorem Query.reply_congr [Codecs] {start : Location} {tree other : Tree}
    (same : tree.SameNodes other)
    (sound : tree.IsSound start) (soundToo : other.IsSound start) (query : Query) :
    query.reply tree = query.reply other := by
  cases query with
  | list directory => rw [reply, reply, listing_congr same sound soundToo]
  | process directory file config =>
      rw [reply, reply, Attempt.ofFile_congr same sound soundToo]
  | run directory config => rw [reply, reply, Batch.run_congr same sound soundToo]
  | report directory config => rw [reply, reply, Batch.run_congr same sound soundToo]
  | command texts => rw [reply, reply, command_congr same sound soundToo]

/-! ### Sessions -/

inductive Step where
  | edit (edit : Edit)
  | ask (query : Query)

namespace Session

variable [Codecs]

def step (tree : Tree) : Step → Tree × Option Reply
  | .edit edit => ((edit.change tree).tree, none)
  | .ask query => (tree, some (query.reply tree))

def run : Tree → List Step → Tree × List Reply
  | tree, [] => (tree, [])
  | tree, first :: rest =>
      let (next, reply) := step tree first
      let (last, replies) := run next rest
      (last, reply.toList ++ replies)

def edits (steps : List Step) : List Edit :=
  steps.filterMap (fun
    | .edit edit => some edit
    | .ask _ => none)

theorem run_append (tree : Tree) (steps more : List Step) :
    run tree (steps ++ more) =
      ((run (run tree steps).1 more).1, (run tree steps).2 ++ (run (run tree steps).1 more).2) := by
  induction steps generalizing tree with
  | nil => rfl
  | cons first rest ih =>
      simp only [List.cons_append, run, ih, List.append_assoc]

/-- Questions leave no trace in the tree. -/
theorem run_tree (tree : Tree) (steps : List Step) :
    (run tree steps).1 = tree.after (edits steps) := by
  induction steps generalizing tree with
  | nil => rfl
  | cons first rest ih =>
      cases first with
      | edit edit => exact ih (edit.change tree).tree
      | ask query => exact ih tree

theorem run_asks (tree : Tree) (queries : List Query) :
    run tree (queries.map .ask) = (tree, queries.map (Query.reply tree)) := by
  induction queries with
  | nil => rfl
  | cons query rest ih => simp only [List.map_cons, run, step, ih, Option.toList_some,
      List.singleton_append]

theorem run_isSound {start : Location} {tree : Tree} (sound : tree.IsSound start)
    (steps : List Step) : (run tree steps).1.IsSound start := by
  rw [run_tree]
  exact Tree.after_isSound (edits steps) sound

end Session

/-- The names of a directory are listed each once, strictly increasing by code point, and every
enumeration of the directory comes out as this list. -/
structure Tree.IsListedAs (tree : Tree) (location : Location) (names : List Text) : Prop where
  enumerates : tree.Enumerates location names
  increasing : names.Pairwise (fun name later => name.codePoints < later.codePoints)
  canonical : ∀ enumeration, tree.Enumerates location enumeration →
    inOrder Text.precedes enumeration = names

theorem Tree.namesAt_isListedAs {start : Location} {tree : Tree} (sound : tree.IsSound start)
    (location : Location) : tree.IsListedAs location (tree.namesAt location) where
  enumerates := namesAt_enumerates sound location
  increasing := namesAt_increasing sound location
  canonical := fun _ enumerates =>
    enumerates.inOrder_eq (enumerates_childNames sound location) (fun _ => rfl)

/-- Sessions that come to the same tree have the same replies to all questions that follow, and the
questions change nothing, so that asking again gives the same replies again. A directory is listed
by its names in their one order. -/
theorem session_replies [Codecs] {start : Location} {tree other : Tree} (sound : tree.IsSound start)
    (soundToo : other.IsSound start) (steps others : List Step)
    (same : (Session.run tree steps).1.SameNodes (Session.run other others).1) :
    (Session.run tree steps).1 = tree.after (Session.edits steps) ∧
    (∀ queries : List Query,
      (Session.run tree (steps ++ queries.map .ask)).1 = (Session.run tree steps).1 ∧
      (Session.run tree (steps ++ queries.map .ask)).2 =
        (Session.run tree steps).2 ++ queries.map (Query.reply (Session.run tree steps).1) ∧
      (Session.run other (others ++ queries.map .ask)).2 =
        (Session.run other others).2 ++ queries.map (Query.reply (Session.run tree steps).1)) ∧
    ∀ directory location,
      (Session.run tree steps).1.find (Path.ofText directory) = .ok (location, .directory) →
        ∃ names, Query.reply (Session.run tree steps).1 (.list directory) = .names (.ok names) ∧
          (Session.run tree steps).1.IsListedAs location names := by
  have ends := Session.run_isSound sound steps
  have endsToo := Session.run_isSound soundToo others
  refine ⟨Session.run_tree tree steps, ?_, ?_⟩
  · intro queries
    have replies : queries.map (Query.reply (Session.run tree steps).1) =
        queries.map (Query.reply (Session.run other others).1) :=
      List.map_congr_left (fun query _ => query.reply_congr same ends endsToo)
    rw [Session.run_append, Session.run_append, Session.run_asks, Session.run_asks]
    exact ⟨rfl, rfl, by rw [replies]⟩
  · intro directory location found
    refine ⟨(Session.run tree steps).1.namesAt location, ?_, Tree.namesAt_isListedAs ends location⟩
    rw [Query.reply, listing, found]

/-- A style sheet that is written twice and read in between, before another one, and the two written
the other way round. Both trees are listed by the two names, and the empty sheet has its record. -/
theorem session_replies_at_rewritten_sheet :
    let steps : List Step :=
      [.edit (.write ['c', '/', '1'] [0x7d]), .ask (.run (some ['c']) Config.standard),
        .edit (.write ['c', '/', '1'] []), .edit (.write ['c', '/', '2'] [0x7d])]
    let others : List Step :=
      [.edit (.write ['c', '/', '2'] [0x7d]), .edit (.write ['c', '/', '1'] [])]
    let queries : List Query := [.list ['c'], .process ['c'] ['1'] Config.standard]
    let replies : List Reply :=
      [.names (.ok [['1'], ['2']]),
        .attempt ⟨[.read ['1'] ['1'] 0], .ok { Record.initial ['1'] 0 with emptyStylesheet := 1 }⟩]
    (Session.run Tree.empty steps).1.nodes ≠ (Session.run Tree.empty others).1.nodes ∧
      (∃ earlier, (Session.run Tree.empty (steps ++ queries.map .ask)).2 = earlier ++ replies) ∧
      (Session.run Tree.empty (others ++ queries.map .ask)).2 = replies := by
  intro steps others queries replies
  have same : (Session.run Tree.empty steps).1.SameNodes (Session.run Tree.empty others).1 := by
    change Tree.SameNodes
      ⟨[([['c'], ['2']], .file [0x7d]), ([['c'], ['1']], .file []), ([['c']], .directory)], []⟩
      ⟨[([['c'], ['1']], .file []), ([['c'], ['2']], .file [0x7d]), ([['c']], .directory)], []⟩
    intro location
    by_cases first : location = [['c'], ['1']]
    · rw [first]
      rfl
    · have apart : (location == [['c'], ['1']]) = false := beq_eq_false_iff_ne.mpr first
      simp only [Tree.node?, List.lookup_cons, apart]
  obtain ⟨_, asked, _⟩ := session_replies Tree.empty_isSound Tree.empty_isSound steps others same
  obtain ⟨_, here, there⟩ := asked queries
  have said : queries.map (Query.reply (Session.run Tree.empty steps).1) = replies := rfl
  rw [said] at here there
  exact ⟨by decide, ⟨_, here⟩, there⟩

end SheetCensus
