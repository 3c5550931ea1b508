import LoxLang.Settings
import LoxLang.Text.DecimalDigit
import LoxLang.Text.Quoted

/-!
The arguments of the command line.

Every word before the marker `--` is first told to be an option or a plain argument. A long option may
be shortened to a beginning that no other option has, and may carry its value after an equals sign.
The short option may carry letters. The words are then taken in order: the first plain argument is
the file, and what nothing takes is left over.
-/

set_option autoImplicit false
set_option relaxedAutoImplicit false

namespace LoxLang

inductive Flag
  | help
  | ast
  | logLevel
  | noColor
  | prompt
  deriving DecidableEq, Repr

namespace Flag

def all : List Flag := [help, ast, logLevel, noColor, prompt]

def long : Flag → String
  | help => "--help"
  | ast => "--ast"
  | logLevel => "--log-level"
  | noColor => "--no-color"
  | prompt => "--prompt"

/-- The name of an option in an error. -/
def name : Flag → String
  | help => "-h/--help"
  | f => f.long

def takesValue : Flag → Bool
  | logLevel => true
  | prompt => true
  | _ => false

def short : String := "-h"

def ofWord? (word : String) : Option Flag :=
  if word = short then some help else all.find? (·.long == word)

end Flag

namespace Arguments

/-- A word and what it is told to be. A value may be attached to a long option after an equals sign,
and letters to the short one, after an equals sign or at once. -/
inductive Word
  | plain (text : String)
  | marker
  | unknown (text : String)
  | flag (f : Flag) (attached : Option (List Char))
  | cluster (letters : List Char)
  deriving DecidableEq, Repr

/-- What is wrong with the arguments. -/
inductive Fault
  | ambiguous (word : String) (candidates : List Flag)
  | ignoredValue (f : Flag) (value : List Char)
  | missingValue (f : Flag)
  | unrecognized (words : List String)
  | rejected (reason : String)
  deriving DecidableEq, Repr

def Fault.message : Fault → String
  | ambiguous word candidates =>
    "ambiguous option: " ++ word ++ " could match " ++ ", ".intercalate (candidates.map Flag.long)
  | ignoredValue f value =>
    "argument " ++ f.name ++ ": ignored explicit argument " ++ Text.quoted (String.ofList value)
  | missingValue f => "argument " ++ f.name ++ ": expected one argument"
  | unrecognized words => "unrecognized arguments: " ++ " ".intercalate words
  | rejected reason => reason

/-! ### Telling the words -/

/-- The word after which every word is a plain argument. -/
def marker : String := "--"

/-- The text after the first equals sign, if there is one. -/
def valueAfterEquals? (cs : List Char) : Option (List Char) :=
  match cs.dropWhile (· != '=') with
  | _ :: value => some value
  | [] => none

/-- A minus sign before digits, with at most one point, which has a digit after it. One newline may
follow. -/
def isNegativeNumber (cs : List Char) : Bool :=
  let isDigit := fun c => (Text.digitValue? c).isSome
  let digits := if cs.getLast? = some '\n' then cs.dropLast else cs
  match digits with
  | '-' :: ds =>
    let after := ds.dropWhile isDigit
    match after with
    | [] => !ds.isEmpty
    | '.' :: fraction => !fraction.isEmpty && fraction.all isDigit
    | _ => false
  | _ => false

def unknownOrPlain (word : String) : Word :=
  if isNegativeNumber word.toList || word.toList.contains ' ' then .plain word else .unknown word

/-- A word that begins with a minus sign and is not spelled as an option. -/
def tellInexact (word : String) : Except Fault Word :=
  let cs := word.toList
  if cs.take 2 = ['-', '-'] then
    let stem := cs.takeWhile (· != '=')
    match Flag.all.filter fun f => stem.isPrefixOf f.long.toList with
    | [] => .ok (unknownOrPlain word)
    | [f] => .ok (.flag f (valueAfterEquals? cs))
    | candidates => .error (.ambiguous word candidates)
  else if cs.take 2 = Flag.short.toList then
    .ok (.cluster (cs.drop 2))
  else
    .ok (unknownOrPlain word)

def tell (word : String) : Except Fault Word :=
  let cs := word.toList
  if cs.head? ≠ some '-' then .ok (.plain word)
  else if let some f := Flag.ofWord? word then .ok (.flag f none)
  else if cs.length = 1 then .ok (.plain word)
  else
    let stem := String.ofList (cs.takeWhile (· != '='))
    match valueAfterEquals? cs, Flag.ofWord? stem with
    | some value, some f => .ok (if stem = Flag.short then .cluster value else .flag f (some value))
    | _, _ => tellInexact word

/-- Tells all words. Those after the marker are plain. -/
def tellAll : List String → Except Fault (List Word)
  | [] => .ok []
  | word :: words =>
    if word = marker then .ok (.marker :: words.map .plain)
    else do
      let w ← tell word
      .ok (w :: (← tellAll words))

/-! ### Taking the words -/

/-- The options and the file so far, and the words that nothing took, last first. -/
structure Taken where
  options : Options := {}
  file : Option String := none
  extras : List String := []

/-- The arguments ask for help, or are at fault. -/
inductive Ending
  | help
  | fault (f : Fault)
  deriving DecidableEq, Repr

def Taken.leave (t : Taken) (words : List String) : Taken :=
  { t with extras := words.reverse ++ t.extras }

def Taken.take (t : Taken) (word : String) : Taken :=
  if t.file.isNone then { t with file := some word } else t.leave [word]

/-- Sets an option. The marker is no value: in the place of a level it gives none, and in the place
of a prompt no text. -/
def Taken.set (t : Taken) (f : Flag) (value : String) : Taken :=
  let given := if value = marker then none else some value
  match f with
  | .help => t
  | .ast => { t with options := { t.options with showsTree := true } }
  | .noColor => { t with options := { t.options with noColor := true } }
  | .logLevel => { t with options := { t.options with logLevel := given } }
  | .prompt => { t with options := { t.options with prompt := some (given.elim .void .text) } }

/-- Takes an option to which a value is attached. -/
def takeAttached (t : Taken) (f : Flag) (value : List Char) : Except Ending Taken :=
  if f.takesValue then .ok (t.set f (String.ofList value))
  else .error (.fault (.ignoredValue f value))

/-- How the letters after the short option end the call: they may only repeat it, and are refused from
the first other letter on. An equals sign with no letters after it is refused, too. -/
def endCluster (letters : List Char) : Ending :=
  match letters, letters.dropWhile (· == 'h') with
  | _ :: _, [] => .help
  | _, refused => .fault (.ignoredValue .help refused)

def Word.text : Word → String
  | plain text => text
  | marker => Arguments.marker
  | unknown text => text
  | flag f _ => f.long
  | cluster letters => Flag.short ++ String.ofList letters

/-- Takes the words after the marker; the marker counts as left over unless the file is among them. -/
def takeAfterMarker (t : Taken) (words : List Word) : Taken :=
  if t.file.isSome then t.leave (marker :: words.map Word.text)
  else
    match words with
    | [] => t
    | w :: rest => { t with file := some w.text }.leave (rest.map Word.text)

def takeAll (t : Taken) : List Word → Except Ending Taken
  | [] => .ok t
  | .marker :: words => .ok (takeAfterMarker t words)
  | .plain text :: .marker :: words =>
    if t.file.isNone then .ok ((t.take text).leave (words.map Word.text))
    else .ok (takeAfterMarker (t.take text) words)
  | .plain text :: words => takeAll (t.take text) words
  | .unknown text :: words => takeAll (t.leave [text]) words
  | .flag f (some value) :: words => do takeAll (← takeAttached t f value) words
  | .cluster letters :: _ => .error (endCluster letters)
  | .flag .help none :: _ => .error .help
  | .flag f none :: words =>
    if f.takesValue then
      match words with
      | .plain value :: rest => takeAll (t.set f value) rest
      | _ => .error (.fault (.missingValue f))
    else takeAll (t.set f "") words

def read (words : List String) : Except Ending (Options × Option String) := do
  let told ← (tellAll words).mapError .fault
  let taken ← takeAll {} told
  if taken.extras.isEmpty then .ok (taken.options, taken.file)
  else .error (.fault (.unrecognized taken.extras.reverse))

/-! ### Texts -/

def usage : String :=
  "usage: lox [-h] [--ast] [--log-level LOG_LEVEL] [--no-color] [--prompt PROMPT]\n" ++
  "           [file]\n"

def helpText : String :=
  usage ++ "\n" ++
  "Lox scanner, parser and tree-walking interpreter.\n\n" ++
  "positional arguments:\n" ++
  "  file                  file to interpret and run (if empty, goes to command-\n" ++
  "                        line mode)\n\n" ++
  "options:\n" ++
  "  -h, --help            show this help message and exit\n" ++
  "  --ast                 print each statement's syntax tree instead of running\n" ++
  "                        it\n" ++
  "  --log-level LOG_LEVEL\n" ++
  "                        logging level (default: $LOX_LOG or WARNING)\n" ++
  "  --no-color            do not color diagnostics\n" ++
  "  --prompt PROMPT       command-line mode prompt (default: '>>> ')\n"

def Fault.report (f : Fault) : String :=
  usage ++ "lox: error: " ++ f.message ++ "\n"

def Fault.exitCode : Nat := 2

end Arguments

end LoxLang
