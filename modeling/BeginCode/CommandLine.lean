import BeginCode.Program
import BeginCode.Text.Quoted

/-!
# Command line

The command runs a script, or lists its tokens. The script is given in the arguments or in a file
that they name.
-/

namespace BeginCode.CommandLine

structure Options where
  /-- The contents name a file. -/
  file : Bool := false
  /-- The tokens are listed instead of running the script. -/
  tokens : Bool := false
  contents : String
  deriving DecidableEq, Repr

inductive Request where
  | execute (options : Options)
  | version
  | help
  deriving DecidableEq, Repr

/-- The arguments read so far. -/
structure Draft where
  file : Bool := false
  tokens : Bool := false
  contents : Option String := none

/-- A flag is given at most once. -/
def Draft.setFile (draft : Draft) : Option Draft :=
  if draft.file then none else some { draft with file := true }

def Draft.setTokens (draft : Draft) : Option Draft :=
  if draft.tokens then none else some { draft with tokens := true }

/-- The contents are given exactly once. -/
def Draft.setContents (draft : Draft) (contents : String) : Option Draft :=
  if draft.contents.isSome then none else some { draft with contents := some contents }

def Draft.finish (draft : Draft) : Option Request := do
  let contents ← draft.contents
  return .execute { file := draft.file, tokens := draft.tokens, contents }

/-- Flags of one letter, several of which can share a dash. Asking for the version or for help
settles the request at once. -/
def readLetters (draft : Draft) : List Char → Option (Request ⊕ Draft)
  | [] => some (.inr draft)
  | 'f' :: rest => do readLetters (← draft.setFile) rest
  | 't' :: rest => do readLetters (← draft.setTokens) rest
  | 'V' :: _ => some (.inl .version)
  | 'h' :: _ => some (.inl .help)
  | _ => none

/-- One argument before the flags have ended. -/
def readArgument (draft : Draft) (argument : String) : Option (Request ⊕ Draft) :=
  match argument.toList with
  | '-' :: '-' :: word =>
      if word = "file".toList then draft.setFile.map .inr
      else if word = "tokens".toList then draft.setTokens.map .inr
      else if word = "version".toList then some (.inl .version)
      else if word = "help".toList then some (.inl .help)
      else none
  | '-' :: letter :: letters => readLetters draft (letter :: letters)
  | _ => (draft.setContents argument).map .inr

/-- The arguments after `--`. -/
def readContents (draft : Draft) : List String → Option Request
  | [] => draft.finish
  | argument :: rest => do readContents (← draft.setContents argument) rest

def readArguments (draft : Draft) : List String → Option Request
  | [] => draft.finish
  | "--" :: rest => readContents draft rest
  | argument :: rest => do
      match ← readArgument draft argument with
      | .inl request => return request
      | .inr draft => readArguments draft rest

/-- The request that a list of arguments makes, unless it is wrong. -/
def request? (arguments : List String) : Option Request := readArguments {} arguments

structure Response where
  exit : Nat
  stdout : List UInt8
  /-- Nothing where the text is not settled here. -/
  stderr : Option (List UInt8)
  deriving DecidableEq, Repr

namespace Response

def usageError : Response := ⟨2, [], none⟩

/-- Text on standard output and no error. -/
def success (stdout : List UInt8) : Response := ⟨0, stdout, some []⟩

def failure (exit : Nat) (stdout : List UInt8) (message : String) : Response :=
  ⟨exit, stdout, some (Console.utf8 (message ++ "\n"))⟩

end Response

def versionText : String := "codelang 0.1.0\n"

def helpText : String :=
  "codelang runs programs written in CODE, a small typed teaching language\n\n" ++
    "Usage: codelang [OPTIONS] <CONTENTS>\n\n" ++
    "Arguments:\n" ++
    "  <CONTENTS>  \n\n" ++
    "Options:\n" ++
    "  -f, --file     Tells codelang to look at a file instead of a script\n" ++
    "  -t, --tokens   Prints the scanned tokens instead of running the program\n" ++
    "  -h, --help     Print help\n" ++
    "  -V, --version  Print version\n"

/-- A number of up to four digits takes four columns. -/
def lineColumn (line : Nat) : List Char :=
  let digits := Number.toDigits line
  List.replicate (4 - digits.length) ' ' ++ digits

def tokenRow (token : Token) : String :=
  String.ofList (lineColumn token.line) ++ " " ++ token.kind.name ++ " " ++
    String.ofList (Text.quoted token.lexeme.toList) ++ "\n"

def listTokens (script : String) : Response :=
  let scanned := scan script
  let listing := Console.utf8 (String.join (scanned.tokens.map tokenRow))
  if scanned.report.isEmpty then .success listing else .failure 65 listing scanned.report.text

def mentions (kind : Token.Kind) (script : String) : Bool :=
  (scan script).tokens.any fun token => token.kind == kind

/-- A clean run of a script that displays nothing ends with a note. -/
def closingNote (script : String) : String :=
  if mentions .kwDisplay script then "" else "No error\n"

def execute (bound : Nat) (script : String) (input : List UInt8) : Option Response := do
  let run ← Program.run bound script { unread := input }
  if run.report.isEmpty then
    return .success (run.console.output ++ Console.utf8 (closingNote script))
  else if run.report.hasStaticError then
    return .failure 65 run.console.output run.report.text
  else
    return .failure 70 run.console.output run.report.text

/-- The script that the options ask for; a file has to be readable as text. -/
def Options.script? (options : Options) (file : String → Option (List UInt8)) : Option String :=
  if options.file then (file options.contents).bind Console.decode? else some options.contents

def unreadable (path : String) : Response :=
  .failure 66 []
    ("Failed to read the input file '" ++ path ++ "'. Perhaps this file does not exist?")

/-- Answers a request; `file` gives the bytes of a file that can be read. There is no answer when
the script loops for too many rounds. -/
def answer (bound : Nat) (file : String → Option (List UInt8)) (input : List UInt8) :
    Request → Option Response
  | .version => some (.success (Console.utf8 versionText))
  | .help => some (.success (Console.utf8 helpText))
  | .execute options =>
      match options.script? file with
      | none => some (unreadable options.contents)
      | some script =>
          if options.tokens then some (listTokens script) else execute bound script input

def respond (bound : Nat) (file : String → Option (List UInt8)) (input : List UInt8)
    (arguments : List String) : Option Response :=
  match request? arguments with
  | some request => answer bound file input request
  | none => some .usageError

end BeginCode.CommandLine
