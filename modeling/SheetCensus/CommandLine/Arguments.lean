import SheetCensus.Text.Decimal
import SheetCensus.Text.Quoted
import SheetCensus.Text.Similarity
import SheetCensus.Tree.Basic

set_option autoImplicit false

/-! The arguments of a command. They are read from left to right; options may stand before or
after the directory, a later value of an option replaces an earlier one, and two hyphens end the
options. Errors in the form of the options come before everything, then a request for help or
version is granted, and only then are the values looked at. -/

namespace SheetCensus

inductive UsageError where
  | noSuchOption (name : Text) (alike : List Text)
  | takesNoValue (name : Text)
  | requiresArgument (name : Text)
  | notAnInteger (value : Text)
  | tooFewWorkers (number : Int)
  | nullInDirectory
  | directoryIsFile (path : Text)
  | extraArguments (extra : List Text)
deriving DecidableEq

namespace UsageError

def invalidValue (name reason : Text) : Text :=
  "Invalid value for ".toList ++ name.quoted ++ [':', ' '] ++ reason

def question : List Text → Text
  | [] => []
  | [option] => " Did you mean ".toList ++ option.quoted ++ ['?']
  | options =>
      " (Did you mean one of: ".toList ++ Text.join [',', ' '] (options.map Text.quoted) ++
        ['?', ')']

def message : UsageError → Text
  | noSuchOption name alike =>
      "No such option ".toList ++ name.quoted ++ ['.'] ++ question alike
  | takesNoValue name => "Option ".toList ++ name.quoted ++ " does not take a value.".toList
  | requiresArgument name => "Option ".toList ++ name.quoted ++ " requires an argument.".toList
  | notAnInteger value =>
      invalidValue "--workers".toList (value.quoted ++ " is not a valid integer range.".toList)
  | tooFewWorkers number =>
      invalidValue "--workers".toList
        (Text.ofInt number ++ " is not in the range x>=1.".toList)
  | nullInDirectory => "embedded null byte".toList
  | directoryIsFile path =>
      invalidValue "[DIRECTORY]".toList
        ("Directory ".toList ++ path.quoted ++ " is a file.".toList)
  | extraArguments extra =>
      "Got unexpected extra argument".toList ++ (if extra.length = 1 then [] else ['s']) ++
        [' ', '('] ++ Text.join [' '] extra ++ [')']

def showsUsage : UsageError → Bool
  | takesNoValue _ => false
  | requiresArgument _ => false
  | _ => true

end UsageError

inductive Request where
  | help
  | version
deriving DecidableEq

/-- The arguments of a command by their form, with the values not yet looked at. -/
structure Arguments where
  positional : List Text
  workers : Option Text
  encoding : Option Text
  quiet : Bool
  request : Option Request
deriving DecidableEq

namespace Arguments

def empty : Arguments :=
  ⟨[], none, none, false, none⟩

inductive Name where
  | workers
  | encoding
  | quiet
  | version
  | help
deriving DecidableEq

def Name.all : List Name :=
  [.workers, .encoding, .quiet, .version, .help]

def Name.spelling : Name → Text
  | .workers => "--workers".toList
  | .encoding => "--encoding".toList
  | .quiet => "--quiet".toList
  | .version => "--version".toList
  | .help => "--help".toList

def Name.ofText? (spelling : Text) : Option Name :=
  all.find? (·.spelling == spelling)

/-- An option is found under its own spelling. -/
theorem Name.ofText?_spelling (name : Name) : ofText? name.spelling = some name := by
  cases name <;> decide

def Name.hasValue : Name → Bool
  | .workers => true
  | .encoding => true
  | _ => false

def addPositional (arguments : Arguments) (argument : Text) : Arguments :=
  { arguments with positional := arguments.positional ++ [argument] }

def addValue (arguments : Arguments) (name : Name) (value : Text) : Arguments :=
  match name with
  | .workers => { arguments with workers := some value }
  | .encoding => { arguments with encoding := some value }
  | _ => arguments

/-- Adds an option without a value. Of several requests the first one counts. -/
def addFlag (arguments : Arguments) (name : Name) : Arguments :=
  match name with
  | .quiet => { arguments with quiet := true }
  | .version => { arguments with request := arguments.request.or (some .version) }
  | .help => { arguments with request := arguments.request.or (some .help) }
  | _ => arguments

def splitValue (argument : Text) : Text × Option Text :=
  let spelling := argument.takeWhile (· != '=')
  match argument.drop spelling.length with
  | [] => (spelling, none)
  | _ :: value => (spelling, some value)

/-- How an unknown option is refused: a long one by all of its spelling and with up to three
known options that are like it, a short one by its first letter alone. -/
def refusal (argument spelling : Text) : UsageError :=
  if argument.take 2 = ['-', '-'] then
    .noSuchOption spelling (Text.mostLike 3 spelling (Name.all.map Name.spelling))
  else .noSuchOption (argument.take 2) []

def isOption (argument : Text) : Bool :=
  argument.head? == some '-' && 1 < argument.length

def readFrom (arguments : Arguments) : List Text → Except UsageError Arguments
  | [] => .ok arguments
  | argument :: rest =>
      if argument = ['-', '-'] then .ok (rest.foldl addPositional arguments)
      else if isOption argument then
        let (spelling, attached) := splitValue argument
        match Name.ofText? spelling with
        | none => .error (refusal argument spelling)
        | some name =>
            if name.hasValue then
              match attached with
              | some value => readFrom (arguments.addValue name value) rest
              | none =>
                  match rest with
                  | [] => .error (.requiresArgument spelling)
                  | value :: others => readFrom (arguments.addValue name value) others
            else if attached.isSome then .error (.takesNoValue spelling)
            else readFrom (arguments.addFlag name) rest
      else readFrom (arguments.addPositional argument) rest

def read (arguments : List Text) : Except UsageError Arguments :=
  readFrom empty arguments

def workerCount (arguments : Arguments) (default : Int) : Except UsageError Int :=
  match arguments.workers with
  | none => .ok default
  | some value =>
      match Text.readInt? value with
      | none => .error (.notAnInteger value)
      | some number => if number < 1 then .error (.tooFewWorkers number) else .ok number

/-- The directory that was asked for. It must not be a file and must be the only positional
argument. -/
def directory (arguments : Arguments) (tree : Tree) : Except UsageError (Option Text) :=
  match arguments.positional with
  | [] => .ok none
  | path :: extra =>
      if path.contains '\x00' then .error .nullInDirectory
      else if tree.leadsToFile path then .error (.directoryIsFile path)
      else if extra.isEmpty then .ok (some path)
      else .error (.extraArguments extra)

end Arguments

end SheetCensus
