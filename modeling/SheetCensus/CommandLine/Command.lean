import SheetCensus.Batch.Run
import SheetCensus.CommandLine.Arguments
import SheetCensus.Text.Terminal

set_option autoImplicit false

/-! The command: it prints the report on a directory, and notices beside it. A report is printed
whole or not at all. -/

namespace SheetCensus

/-- How a command ends. A failure that the command does not answer for is handed on, and then
nothing is printed. -/
structure Outcome where
  exitCode : Nat
  stdout : Text
  stderr : Text
  handedOn : Option Failure
deriving DecidableEq

inductive Task where
  | grant (request : Request)
  | report (directory : Option Text) (config : Config) (quiet : Bool)
deriving DecidableEq

namespace Task

def ofArguments (tree : Tree) (arguments : Arguments) : Except UsageError Task :=
  match arguments.request with
  | some request => .ok (.grant request)
  | none =>
      match arguments.workerCount Config.standard.workers with
      | .error error => .error error
      | .ok workers =>
          let encoding := arguments.encoding.getD Config.standard.encoding
          (arguments.directory tree).map (fun directory =>
            .report directory
              { Config.standard with workers := workers, encoding := encoding } arguments.quiet)

def ofTexts (tree : Tree) (texts : List Text) : Except UsageError Task :=
  match Arguments.read texts with
  | .error error => .error error
  | .ok arguments => ofArguments tree arguments

end Task

namespace Request

def helpLines : List Text :=
  ["Usage: stylestats [OPTIONS] [DIRECTORY]".toList,
    [],
    "  Print per-file stylesheet statistics for DIRECTORY as CSV.".toList,
    [],
    "  DIRECTORY defaults to ./css.  Every file name must start with a numeric event".toList,
    "  id.".toList,
    [],
    "Options:".toList,
    "  --workers INTEGER RANGE  Files processed concurrently  [default: 8; x>=1]".toList,
    "  --encoding TEXT          Encoding used to read stylesheet files  [default:".toList,
    "                           utf-8]".toList,
    "  --quiet                  Only report parse failures on stderr".toList,
    "  --version                Show the version and exit.".toList,
    "  --help                   Show this message and exit.".toList]

def lines (texts : List Text) : Text :=
  texts.flatMap (· ++ ['\n'])

def text : Request → Text
  | help => lines helpLines
  | version => lines ["stylestats, version 0.1.0".toList]

end Request

namespace Outcome

def errorMark : Text :=
  "Error: ".toList

def errorText (message : Text) : Text :=
  Text.plain (errorMark ++ message)

def errorLines (text : Text) : Text :=
  Text.join ['\n'] ((Text.splitAt '\n' text).filter errorMark.isPrefixOf)

def usageHint : List Text :=
  ["Usage: stylestats [OPTIONS] [DIRECTORY]".toList,
    "Try 'stylestats --help' for help.".toList, []]

def ofUsageError (error : UsageError) : Outcome :=
  let hint := if error.showsUsage then usageHint else []
  ⟨2, [], Request.lines (hint ++ [errorText error.message]), none⟩

def answersFor : Failure → Bool
  | .oversized _ => false
  | .noWorkers => false
  | .nullInEncoding => false
  | .codecFailed _ => false
  | .unreadable .nullCharacter _ => false
  | _ => true

/-- The notices that are printed. A quiet command prints only warnings. -/
def heard (quiet : Bool) (notices : List Notice) : List Notice :=
  if quiet then notices.filter Notice.isWarning else notices

/-- The end of a command whose batch fails after some notices. Of all that is said until then only
what tells of an error is printed. -/
def ofFailure (notices : List Notice) (failure : Failure) : Outcome :=
  if answersFor failure then
    let said := Request.lines (notices.map (fun notice => notice.text.plain))
    ⟨1, [], errorLines (said ++ errorText failure.message), none⟩
  else ⟨1, [], [], some failure⟩

def noticeText (notices : List Notice) : Text :=
  Request.lines
    (inOrder Text.precedes
      (notices.flatMap (fun notice => Text.splitAt '\n' notice.text.plain)))

def ofResult (quiet : Bool) (result : Batch.Result) : Outcome :=
  ⟨0, (report result.records).plain, noticeText (heard quiet result.notices), none⟩

end Outcome

def Task.perform [Codecs] (tree : Tree) : Task → Outcome
  | .grant request => ⟨0, request.text, [], none⟩
  | .report directory config quiet =>
      match Batch.run tree directory config with
      | .error failure =>
          .ofFailure (Outcome.heard quiet (Batch.notices tree directory config)) failure
      | .ok result => .ofResult quiet result

def requestedDirectory (texts : List Text) : Text :=
  match Arguments.read texts with
  | .ok arguments => arguments.positional.headD Config.standard.directory
  | .error _ => Config.standard.directory

def command [Codecs] (tree : Tree) (texts : List Text) : Outcome :=
  match Task.ofTexts tree texts with
  | .error .nullInDirectory => .ofFailure [] (.unreadable .nullCharacter [])
  | .error error => .ofUsageError error
  | .ok task => task.perform tree

end SheetCensus
