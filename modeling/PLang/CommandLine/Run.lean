import PLang.CommandLine.Arguments
import PLang.FrontEnd
import PLang.Tree.Lowering
import PLang.Tree.Render

/-!
# The command

What the command prints and how it ends, given its arguments and how to read a file.
-/

namespace PLang.CommandLine

/-- Why a file cannot be read. -/
inductive ReadFault where
  | missing
  | directory
  | other (text : String)

/-- The wording of a fault. -/
def ReadFault.text : ReadFault → String
  | missing => "No such file or directory (os error 2)"
  | directory => "Is a directory (os error 21)"
  | other text => text

/-- What a run of the command leaves. -/
structure Outcome where
  exit : Nat
  stdout : String
  stderr : String

/-- The name and the version of the command. -/
def versionText : String := "pcc 0.1.0\n"

/-- How the command is used. -/
def usageText : String :=
  "Usage: pcc [OPTIONS] <INPUT>\n\n" ++
  "Options:\n" ++
  "      --dump-ast       Print the program tree after parsing\n" ++
  "      --dump-symbols   Print the symbol table every time a scope closes\n" ++
  "      --max-depth <N>  Nesting limit [default: 512]\n" ++
  "  -q, --quiet          Only print diagnostics\n" ++
  "  -h, --help           Print help\n" ++
  "  -V, --version        Print version\n"

/-- A message in a frame. -/
def banner (message : String) : String :=
  let rule := "|" ++ String.ofList (List.replicate (message.utf8ByteSize + 4) '-') ++ "|"
  "\n" ++ rule ++ "\n|  " ++ message ++ "  |\n" ++ rule ++ "\n"

/-- The message that all is well, unless only diagnostics are wanted. -/
def notice (options : Options) (message : String) : String :=
  if options.quiet then "" else banner message

/-- An error that stops the command, with the tip that goes with it. -/
def stopText (diagnostics : Diagnostics) (e : Error) : String :=
  diagnostics.render e ++ ((e.cause.tip?.map fun tip => "Tip: " ++ tip ++ "\n").getD "")

/-- Checks a program tree. -/
def checkTree (options : Options) (diagnostics : Diagnostics) (store : Store) (root : NodeId) :
    Outcome :=
  let parsed :=
    (if options.showTree then store.render root else "") ++
      notice options "There is no syntactic error!"
  match Check.visit root (.start store .empty diagnostics ⟨options.showSymbols, options.limit⟩) with
  | .error e c =>
    ⟨1, parsed ++ c.shown, c.diagnostics.echoed ++ stopText c.diagnostics e⟩
  | .ok found c =>
    let errors := found + c.store.compile root
    if 0 < errors then
      ⟨1, parsed ++ c.shown, c.diagnostics.echoed ++ toString errors ++
        " semantic error(s) found\n"⟩
    else
      ⟨0, parsed ++ c.shown ++ notice options "There is no semantic error!", c.diagnostics.echoed⟩

/-- Checks a source text. -/
def checkText (options : Options) (source : String) : Outcome :=
  let diagnostics := Diagnostics.ofSource source
  match parseSource source options.limit with
  | .error e => ⟨1, "", stopText diagnostics e⟩
  | .ok (store, root) => checkTree options diagnostics store root

/-- The text of a file, which is encoded in UTF-8. -/
def readText (read : String → Except ReadFault ByteArray) (path : String) :
    Except ReadFault String :=
  match read path with
  | .error fault => .error fault
  | .ok bytes =>
    match String.fromUTF8? bytes with
    | some text => .ok text
    | none => .error (.other "stream did not contain valid UTF-8")

/-- Checks a file. -/
def checkFile (read : String → Except ReadFault ByteArray) (options : Options) : Outcome :=
  match readText read options.input with
  | .error fault =>
    ⟨1, "", "Error: could not read '" ++ options.input ++ "': " ++ fault.text ++ "\n"⟩
  | .ok source => checkText options source

/-- Runs the command. -/
def run (read : String → Except ReadFault ByteArray) (arguments : List String) : Outcome :=
  match request? arguments with
  | none => ⟨2, "", usageText⟩
  | some .version => ⟨0, versionText, ""⟩
  | some .help => ⟨0, usageText, ""⟩
  | some (.check options) => checkFile read options

end PLang.CommandLine
