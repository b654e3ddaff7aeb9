import PageTree.Text.Basic
import PageTree.Vocabulary

/-!
# Arguments

Arguments are options and operands. An option is written with two dashes and its name, or with one
dash and its letter. Its value is attached, after an equals sign, which may be left out after a
letter, or it is the next argument, which then may not look like an option. After two dashes alone
all arguments are operands. A single dash is an operand or a value. Nothing may be given twice.

## Main definitions

* `Lexeme`, `Lexeme.ofArgument`
* `Form`, `Form.read?`: the options that a command takes, and what was given for them
* `Form.leading?`: the options in front of the first operand
-/

namespace PageTree

/-- An argument by its looks. -/
inductive Lexeme where
  /-- Two dashes alone. -/
  | terminator
  /-- An option by its name, with the value attached to it. -/
  | named (name : String) (value : Option String)
  /-- An option by its letter, with the value attached to it. -/
  | lettered (letter : Char) (value : Option String)
  /-- Anything else. -/
  | word (text : String)
  deriving DecidableEq, Repr

namespace Lexeme

/-- The lexeme of an argument. -/
def ofChars : List Char → Lexeme
  | ['-', '-'] => .terminator
  | '-' :: '-' :: text =>
    match Text.cut? ['='] text with
    | some (name, value) => .named (String.ofList name) (some (String.ofList value))
    | none => .named (String.ofList text) none
  | ['-', letter] => .lettered letter none
  | '-' :: letter :: '=' :: value => .lettered letter (some (String.ofList value))
  | '-' :: letter :: value => .lettered letter (some (String.ofList value))
  | text => .word (String.ofList text)

/-- The lexeme of an argument. -/
def ofArgument (argument : String) : Lexeme := ofChars argument.toList

end Lexeme

/-- What was given to a command. -/
structure Given where
  /-- Options with their values. -/
  values : List (String × String) := []
  /-- Options without value. -/
  flags : List String := []
  /-- Operands. -/
  operands : List String := []
  deriving DecidableEq, Repr

/-- What a command takes. -/
structure Form where
  /-- The names of options with a value. -/
  valued : List String := []
  /-- The names of options without value. -/
  flags : List String := []
  /-- Letters of options. -/
  letters : List (Char × String) := []
  deriving DecidableEq, Repr

namespace Given

/-- Adds an option with its value unless it was given already. -/
def addValue? (name value : String) (given : Given) : Option Given :=
  if (given.values.lookup name).isSome then none
  else some { given with values := (name, value) :: given.values }

/-- Adds an option without value unless it was given already. -/
def addFlag? (name : String) (given : Given) : Option Given :=
  if given.flags.contains name then none
  else some { given with flags := name :: given.flags }

/-- Adds an operand in front. -/
def addOperand (text : String) (given : Given) : Given :=
  { given with operands := text :: given.operands }

end Given

namespace Form

variable (form : Form)

/-- An argument with the letter of an option replaced by its name; a letter of no option stands
for a name that no option has. -/
def spellOut : Lexeme → Lexeme
  | .lettered letter value => .named ((form.letters.lookup letter).getD "") value
  | lexeme => lexeme

/-- What spelled-out arguments give, of which `originals` are the texts. -/
def give? : List (Lexeme × String) → Option Given
  | [] => some {}
  | (.terminator, _) :: rest => some { operands := rest.map (·.2) }
  | (.word text, _) :: rest => (give? rest).map (Given.addOperand text)
  | (.lettered _ _, _) :: _ => none
  | (.named name (some value), _) :: rest =>
    if form.valued.contains name then (give? rest).bind (Given.addValue? name value) else none
  | (.named name none, _) :: rest =>
    if form.flags.contains name then (give? rest).bind (Given.addFlag? name)
    else if form.valued.contains name then
      match rest with
      | (.word value, _) :: rest => (give? rest).bind (Given.addValue? name value)
      | _ => none
    else none

/-- What arguments give, if the command takes them. -/
def read? (arguments : List String) : Option Given :=
  form.give? (arguments.map fun argument =>
    (form.spellOut (Lexeme.ofArgument argument), argument))

/-- The arguments before the first operand, that operand, and the arguments behind it. -/
def leading? : List String → Option (List String × String × List String)
  | [] => none
  | argument :: rest =>
    match form.spellOut (Lexeme.ofArgument argument) with
    | .word text => some ([], text, rest)
    | .named name none =>
      if form.valued.contains name then
        match rest with
        | value :: rest =>
          (leading? rest).map fun (before, text, after) =>
            (argument :: value :: before, text, after)
        | [] => none
      else none
    | .named _ (some _) =>
      (leading? rest).map fun (before, text, after) => (argument :: before, text, after)
    | _ => none

end Form

end PageTree
