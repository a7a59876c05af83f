import PLang.Checker.Basic
import PLang.Number.Integer

/-!
# Command line arguments

Arguments are read from left to right. Options may stand before or after the input; after `--` there
are no more options. Everything that is missing, unknown, malformed or given twice is refused.
-/

namespace PLang.CommandLine

/-- What the arguments ask for. -/
structure Options where
  input : String
  showTree : Bool
  showSymbols : Bool
  limit : Nat
  quiet : Bool

/-- What is to be done. -/
inductive Request where
  | check (options : Options)
  | version
  | help

/-- The arguments read so far. -/
structure Given where
  input : Option String
  showTree : Bool
  showSymbols : Bool
  limit : Option Nat
  quiet : Bool

namespace Given

/-- No arguments. -/
def nothing : Given := ⟨none, false, false, none, false⟩

/-- Takes an input, which is not empty. -/
def takeInput? (g : Given) (path : String) : Option Given :=
  if g.input.isSome || path.isEmpty then none else some { g with input := some path }

/-- Takes a nesting limit: a natural below 2^64 with an optional plus sign. -/
def takeLimit? (g : Given) (text : String) : Option Given :=
  let digits :=
    match text.toList with
    | '+' :: digits => digits
    | digits => digits
  match natural? digits with
  | some n =>
    if g.limit.isSome || 0x10000000000000000 ≤ n then none else some { g with limit := some n }
  | none => none

/-- Asks for the program tree. -/
def takeShowTree? (g : Given) : Option Given :=
  if g.showTree then none else some { g with showTree := true }

/-- Asks for the symbol table. -/
def takeShowSymbols? (g : Given) : Option Given :=
  if g.showSymbols then none else some { g with showSymbols := true }

/-- Asks for diagnostics only. -/
def takeQuiet? (g : Given) : Option Given :=
  if g.quiet then none else some { g with quiet := true }

/-- The request when there are no more arguments. -/
def finish? (g : Given) : Option Request :=
  g.input.map fun input =>
    .check ⟨input, g.showTree, g.showSymbols, g.limit.getD defaultLimit, g.quiet⟩

end Given

/-- One step of reading arguments: refused, answered, or to go on. -/
inductive Step where
  | refused
  | answered (request : Request)
  | goOn (given : Given)

/-- Goes on, unless what was given is refused. -/
def Step.ofGiven? : Option Given → Step
  | some g => .goOn g
  | none => .refused

/-- The letters of a group of short options. -/
def shortOptions (g : Given) : List Char → Step
  | [] => .goOn g
  | 'q' :: letters =>
    match g.takeQuiet? with
    | some g => shortOptions g letters
    | none => .refused
  | 'V' :: _ => .answered .version
  | 'h' :: _ => .answered .help
  | _ :: _ => .refused

/-- A long option without a value. -/
def longOption (g : Given) (name : String) : Step :=
  match name with
  | "dump-ast" => .ofGiven? g.takeShowTree?
  | "dump-symbols" => .ofGiven? g.takeShowSymbols?
  | "quiet" => .ofGiven? g.takeQuiet?
  | "version" => .answered .version
  | "help" => .answered .help
  | _ => .refused

/-- A long option with a value after an equals sign. -/
def valuedOption (g : Given) (name value : String) : Step :=
  if name = "max-depth" then .ofGiven? (g.takeLimit? value) else .refused

/-- An option or an input, without the value that may follow it. -/
def argument (g : Given) (text : String) : Step :=
  match text.toList with
  | '-' :: '-' :: option =>
    match option.span (· != '=') with
    | (name, []) => longOption g (String.ofList name)
    | (name, _ :: value) => valuedOption g (String.ofList name) (String.ofList value)
  | '-' :: letter :: letters => shortOptions g (letter :: letters)
  | _ => .ofGiven? (g.takeInput? text)

/-- Whether an argument is taken for an option and not for a value. -/
def looksLikeOption (text : String) : Bool :=
  match text.toList with
  | '-' :: _ :: _ => true
  | _ => false

/-- The request after arguments that are all inputs. -/
def readInputs (g : Given) : List String → Option Request
  | [] => g.finish?
  | path :: paths => (g.takeInput? path).bind fun g => readInputs g paths

/-- The request of a list of arguments after those already read, or `none` if it is refused. -/
def readArguments (g : Given) : List String → Option Request
  | [] => g.finish?
  | "--" :: paths => readInputs g paths
  | ["--max-depth"] => none
  | "--max-depth" :: value :: arguments =>
    if looksLikeOption value then none
    else (g.takeLimit? value).bind fun g => readArguments g arguments
  | text :: arguments =>
    match argument g text with
    | .refused => none
    | .answered request => some request
    | .goOn g => readArguments g arguments

/-- The request of a list of arguments, or `none` if it is refused. -/
def request? (arguments : List String) : Option Request := readArguments .nothing arguments

end PLang.CommandLine
