import SheetCensus.Css.Character

set_option autoImplicit false

/-! Backslash escapes. Names, strings and addresses are each a run of plain characters and
escapes; they differ in which characters are plain and in what a backslash means before a line
feed or at the end of the text. Width and value of a run are kept apart: the width says how far
the run reaches, the value decodes the characters up to there. -/

namespace SheetCensus.Css

def replacement : Char :=
  '\uFFFD'

/-- The character with a given number. Zero, surrogates and numbers beyond Unicode name none. -/
def scalarOf (number : Nat) : Char :=
  if number = 0 ∨ (0xd800 ≤ number ∧ number ≤ 0xdfff) ∨ 0x10ffff < number then replacement
  else Char.ofNat number

def escapeDigits (rest : Text) : Text :=
  (rest.take 6).takeWhile isHexDigit

/-- How many of the characters after a backslash belong to its escape. One space character
after the digits is part of the escape. -/
def escapeWidth (rest : Text) : Nat :=
  match escapeDigits rest with
  | [] => (rest.take 1).length
  | digits => digits.length + if (rest.drop digits.length).head?.any isSpace then 1 else 0

def escapedChar (rest : Text) : Char :=
  match escapeDigits rest with
  | [] => rest.headD replacement
  | digits => scalarOf (hexValue digits)

structure EscapedRun where
  /-- The characters, other than the backslash, that stand for themselves. -/
  plain : Char → Bool
  /-- What a backslash before a line feed stands for, and how many of the characters after it
  it takes along. Without a value it ends the run. -/
  beforeLineFeed : Option (Text × Nat)
  /-- What a backslash at the end of the text stands for. -/
  atEnd : Text

namespace EscapedRun

def name : EscapedRun where
  plain := isNameChar
  beforeLineFeed := none
  atEnd := [replacement]

def string (quote : Char) : EscapedRun where
  plain := fun c => c != quote && c != '\n'
  beforeLineFeed := some ([], 1)
  atEnd := []

def isBadInUrl (c : Char) : Bool :=
  c == '"' || c == '\'' || c == '(' || c.toNat ≤ 0x08 || c.toNat == 0x0b ||
    (0x0e ≤ c.toNat && c.toNat ≤ 0x1f) || c.toNat == 0x7f

def url : EscapedRun where
  plain := fun c => c != ')' && !isSpace c && !isBadInUrl c
  beforeLineFeed := some (['\\'], 0)
  atEnd := [replacement]

/-- The length of the run at the start of the text, when the first `skip` characters belong to
an escape already seen. -/
def widthFrom (run : EscapedRun) : Nat → Text → Nat
  | _, [] => 0
  | skip + 1, _ :: rest => run.widthFrom skip rest + 1
  | 0, c :: rest =>
      if c = '\\' then
        if rest.head? = some '\n' then
          match run.beforeLineFeed with
          | none => 0
          | some (_, skip) => run.widthFrom skip rest + 1
        else run.widthFrom (escapeWidth rest) rest + 1
      else if run.plain c then run.widthFrom 0 rest + 1
      else 0

def width (run : EscapedRun) (text : Text) : Nat :=
  run.widthFrom 0 text

/-- What the run at the start of the text stands for, when the first `skip` characters belong to
an escape already decoded. It ends where `widthFrom` ends, and it looks at the same text, because
what a backslash means depends on the character after it even where that one is outside the
run. -/
def valueFrom (run : EscapedRun) : Nat → Text → Text
  | _, [] => []
  | skip + 1, _ :: rest => run.valueFrom skip rest
  | 0, c :: rest =>
      if c = '\\' then
        if rest = [] then run.atEnd
        else if rest.head? = some '\n' then
          match run.beforeLineFeed with
          | none => []
          | some (kept, skip) => kept ++ run.valueFrom skip rest
        else escapedChar rest :: run.valueFrom (escapeWidth rest) rest
      else if run.plain c then c :: run.valueFrom 0 rest
      else []

def value (run : EscapedRun) (text : Text) : Text :=
  run.valueFrom 0 text

theorem widthFrom_le_length (run : EscapedRun) (skip : Nat) (text : Text) :
    run.widthFrom skip text ≤ text.length := by
  induction text generalizing skip with
  | nil => cases skip <;> exact Nat.le_refl 0
  | cons c rest ih =>
      cases skip with
      | succ skip => exact Nat.succ_le_succ (ih skip)
      | zero =>
          simp only [widthFrom, List.length_cons]
          split
          · split
            · split
              · exact Nat.zero_le _
              · exact Nat.succ_le_succ (ih _)
            · exact Nat.succ_le_succ (ih _)
          · split
            · exact Nat.succ_le_succ (ih _)
            · exact Nat.zero_le _

theorem width_le_length (run : EscapedRun) (text : Text) : run.width text ≤ text.length :=
  run.widthFrom_le_length 0 text

end EscapedRun

end SheetCensus.Css
