import SmallLisp.CommandLine

/-!
# The program

The command line on a real system. A step is performed on the store as it stands; when it asks
for a file, the file is read and the step performed once more with that knowledge, so that what
it does to the store and prints is done once. After each step its output is written out, and
what was known of files is forgotten.

## Main definitions

* `Program.perform`: a step, with the files that it asks for
* `Program.converse`: a conversation over the standard input
* `Program.Editor`: what is left to a line editor
* `main`: the program
-/

namespace SmallLisp.Program

/-- More fuel than any run can spend. -/
def fuel : Nat := Nat.pow 10 18

/-- The fault that an error of the system stands for. -/
def faultOf : IO.Error → FileFault
  | .noFileOrDirectory .. => .notFound
  | .permissionDenied _ 13 _ => .permissionDenied
  | .inappropriateType _ 20 _ => .notDirectory
  | .inappropriateType _ 21 _ => .isDirectory
  | .invalidArgument _ 36 _ => .nameTooLong
  | error => .other error.toString

/-- Why a path cannot be handed to the system as it is. -/
def pathFault? (path : String) : Option FileFault :=
  if path.toList.contains '\x00' then some .nulInPath else none

/-- What reading a file gives. -/
def readText (path : String) : IO (Except FileFault String) := do
  match pathFault? path with
  | some fault => return .error fault
  | none =>
    try
      let file ← IO.FS.Handle.mk path .read
      match String.fromUTF8? (← file.readBinToEnd) with
      | some text => return .ok text
      | none => return .error .notText
    catch error => return .error (faultOf error)

/-- Writes a file, or tells why that cannot be done. -/
def writeText (path text : String) : IO (Option FileFault) := do
  match pathFault? path with
  | some fault => return some fault
  | none =>
    try
      IO.FS.writeBinFile path text.toUTF8
      return none
    catch error => return some (faultOf error)

/-- Performs a step, reading the files it asks for, and writes out what it prints. The result is
`none` only when the fuel runs out, for a step hands on its errors. -/
partial def perform {α : Type} (step : Eval α) (store : Store) : IO (Option α × Store) := do
  let ended (result : Option α) (store : Store) : IO (Option α × Store) := do
    let output ← IO.getStdout
    output.putStr store.output
    output.flush
    return (result, store.refreshed)
  match step store with
  | .ok result store => ended (some result) store
  | .error (.awaiting path) _ => perform step (store.tell path (← readText path))
  | .error _ store => ended none store

/-- The next line of the input; `none` at its end. An input that cannot be read ends there. -/
def nextLine (input : IO.FS.Stream) : IO (Option String) := do
  try
    let line ← input.getLine
    if line.isEmpty then return none else return some line
  catch error =>
    IO.eprintln ("Error: " ++ error.toString)
    return none

/-- Holds a conversation over the lines of an input. -/
partial def converse (input : IO.FS.Stream) (shows : Bool) (settings : Settings)
    (session : Repl.Session) (store : Store) : IO Repl.Session := do
  let (_, store) ← perform (CommandLine.showPrompt shows settings session) store
  match ← nextLine input with
  | none => return session
  | some line =>
    let text := String.ofList (Repl.chomp line.toList)
    let (next, store) ← perform (Repl.feed fuel session text) store
    converse input shows settings (next.getD session) store

/-- What a line editor settles. -/
structure Editor where
  /-- Whether prompts are shown. -/
  showsPrompts : IO Bool
  /-- Saves submissions in a file, or tells why that cannot be done. -/
  saveHistory : (path : String) → (submissions : List String) → IO (Option FileFault)

/-- Lines as they come: prompts are shown on a terminal, and submissions are kept as they were
entered. -/
def Editor.plain : Editor where
  showsPrompts := do (← IO.getStdin).isTty
  saveHistory path submissions := do
    let earlier := ((← readText path).toOption).getD ""
    writeText path (earlier ++ String.join submissions)

/-- Saves the history of a session and ends the program. -/
def conclude (editor : Editor) (settings : Settings) (session : Repl.Session) :
    IO CommandLine.Exit := do
  match CommandLine.savedHistory? settings session with
  | none => return CommandLine.finish settings session fun _ => none
  | some path =>
    let fault ← editor.saveHistory path session.submissions.reverse
    return CommandLine.finish settings session fun _ => fault

/-- The variables of the environment that the program looks at. -/
def variableNames : List String := ["WISP_PROMPT", "WISP_HISTORY", "WISP_NO_PRELUDE"]

/-- The environment, as far as the program looks at it. -/
def environment : IO (String → Option String) := do
  let values ← variableNames.mapM fun name => return (name, ← IO.getEnv name)
  return fun name => (values.lookup name).join

/-- Runs the program, with a line editor. -/
def run (editor : Editor) (arguments : List String) : IO CommandLine.Exit := do
  let environment ← environment
  let (beginning, store) ←
    perform (CommandLine.begin fuel environment arguments) (Store.initial fun _ => none)
  match beginning with
  | none => return .failure "out of fuel"
  | some (.ended exit) => return exit
  | some (.conversing settings) =>
    let session ← converse (← IO.getStdin) (← editor.showsPrompts) settings .fresh store
    conclude editor settings session

end SmallLisp.Program

/-- The program: its arguments are the command line's, and its result is the exit code. -/
def main (arguments : List String) : IO UInt32 := do
  let exit ← SmallLisp.Program.run .plain arguments
  IO.eprint exit.complaint
  return exit.code.toUInt32
