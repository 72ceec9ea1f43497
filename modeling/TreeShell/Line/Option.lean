import TreeShell.OrderedMap
import TreeShell.Text.Cut

/-!
# Options

Words that begin with a dash are options: one letter each after a single dash, a name and perhaps a
value after two. Two dashes alone end the options; one dash alone is an argument. Of an option that
is given twice the last value counts.
-/

namespace TreeShell

/-- What an option is given. -/
inductive OptionValue where
  /-- Nothing but the option itself. -/
  | flag
  /-- A value. -/
  | text (value : String)
  deriving DecidableEq, Repr

/-- Whether an option counts as set: an empty value does not. -/
def OptionValue.isSet : OptionValue → Bool
  | .flag => true
  | .text value => value ≠ ""

/-- Options by name. -/
abbrev Options := OrderedMap String OptionValue

namespace Options

/-- Set one option for each letter. -/
def setLetters (options : Options) (letters : List Char) : Options :=
  letters.foldl (fun options c => options.set c.toString .flag) options

/-- Set a long option, from what follows its dashes. -/
def setLong (options : Options) (body : List Char) : Options :=
  match Text.cutFirst '=' body with
  | (name, none) => options.set (String.ofList name) .flag
  | (name, some value) => options.set (String.ofList name) (.text (String.ofList value))

/-- Sort words into arguments and options, with the options that are known before them. -/
def sortFrom (options : Options) : List String → List String × Options
  | [] => ([], options)
  | word :: rest =>
    match word.toList with
    | ['-', '-'] => (rest, options)
    | '-' :: '-' :: body => sortFrom (options.setLong body) rest
    | '-' :: letter :: letters => sortFrom (options.setLetters (letter :: letters)) rest
    | _ => let (arguments, options) := sortFrom options rest; (word :: arguments, options)

/-- Sort words into arguments and options. -/
def sort (words : List String) : List String × Options := sortFrom ∅ words

end Options

end TreeShell
