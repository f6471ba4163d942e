import BeginCode.CommandLine

/-!
# The executable

Gathers the file and the input that the arguments ask for, and writes the answer.
-/

namespace BeginCode

/-- More rounds than any loop completes. -/
def roundLimit : Nat := Nat.pow 2 62

def readBytes? (path : String) : IO (Option (List UInt8)) := do
  try
    return some (← IO.FS.readBinFile path).data.toList
  catch _ =>
    return none

/-- Standard input is read only when the script may ask for it. -/
def readInput (options : CommandLine.Options) (script? : Option String) : IO (List UInt8) := do
  match script? with
  | some script =>
      if options.tokens || !CommandLine.mentions .kwScan script then
        return []
      else
        return (← (← IO.getStdin).readBinToEnd).data.toList
  | none => return []

def gather (request : CommandLine.Request) : IO (Option CommandLine.Response) := do
  match request with
  | .execute options =>
      let bytes? ← if options.file then readBytes? options.contents else pure none
      let file := fun _ => bytes?
      let input ← readInput options (options.script? file)
      return CommandLine.answer roundLimit file input request
  | _ => return CommandLine.answer roundLimit (fun _ => none) [] request

/-- A response without an error text of its own is a usage error. It is delivered with the help
text, in place of a message about the argument that was wrong. -/
def deliver (response : CommandLine.Response) : IO UInt32 := do
  (← IO.getStdout).write ⟨response.stdout.toArray⟩
  match response.stderr with
  | some bytes => (← IO.getStderr).write ⟨bytes.toArray⟩
  | none => (← IO.getStderr).putStr CommandLine.helpText
  return .ofNat response.exit

end BeginCode

def main (arguments : List String) : IO UInt32 := do
  let response? ←
    match BeginCode.CommandLine.request? arguments with
    | some request => BeginCode.gather request
    | none => pure (some .usageError)
  match response? with
  | some response => BeginCode.deliver response
  | none => return 70
