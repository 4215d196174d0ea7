import SmallLisp.Repl

/-!
# The command line

The program runs a file, holds a conversation over its standard input, or tells about itself.
The arguments are taken in order: options come first, and the first argument that is none
names the file, with all that follow left to the program in it.

All that is written to the standard output, by the program run or by the command line itself,
is in the store's output, in order.

On a real system the lines of a conversation are read one at a time. Where they are known as a
whole, as in a test, `CommandLine.execute` is the program from beginning to end.

## Main definitions

* `CommandLine.Command`, `CommandLine.parse`: what the arguments ask for
* `CommandLine.Exit`: how the program ends
* `CommandLine.begin`: everything up to the first line of a conversation
* `CommandLine.savedHistory?`, `CommandLine.finish`: the end of a conversation
* `CommandLine.converse`, `CommandLine.execute`: the program on an input known as a whole
-/

namespace SmallLisp.CommandLine

/-- The version of the program. -/
def version : String := "0.1.0"

/-- What the arguments ask for. -/
inductive Command where
  /-- Tell the version. -/
  | version
  /-- List the native functions. -/
  | catalogue
  /-- Complain that an option lacks its path. -/
  | missingPath
  /-- Run a file. -/
  | runFile (settingsFile : Option String) (file : String) (arguments : List String)
  /-- Hold a conversation. -/
  | converse (settingsFile : Option String)
  deriving DecidableEq, Repr

/-- What the arguments ask for, given the settings file named so far. -/
def parseAfter (settingsFile : Option String) : List String → Command
  | [] => .converse settingsFile
  | ["--config"] => .missingPath
  | "--config" :: path :: rest => parseAfter (some path) rest
  | "--version" :: _ => .version
  | "--builtins" :: _ => .catalogue
  | file :: arguments => .runFile settingsFile file arguments

/-- What the arguments ask for. -/
def parse (arguments : List String) : Command := parseAfter none arguments

/-- How the program ends: its code, and what it writes to the standard error. -/
structure Exit where
  code : Nat
  complaint : String
  deriving DecidableEq, Repr

/-- The end of a program that did what it was asked for. -/
def Exit.success : Exit := ⟨0, ""⟩

/-- The end of a program that could not begin or end properly. -/
def Exit.failure (complaint : String) : Exit := ⟨2, "wisp: " ++ complaint ++ "\n"⟩

/-- A text filled up with spaces to a width. -/
def padded (width : Nat) (text : String) : String :=
  text ++ String.ofList (List.replicate (width - text.length) ' ')

/-- A line about a native function. -/
def catalogueLine (f : Native) : String := padded 12 f.name ++ " " ++ f.description

/-- The settings that a file gives; `none` when its text gives none. -/
def settingsIn (path : String) : Eval (Option Settings) :=
  return Settings.ofText? (← Eval.readFile path)

/-- The settings for a session: those of a file, if one is named, with the variables of the
environment applied; or the complaint that the file is of no use. -/
def loadSettings (environment : String → Option String) (settingsFile : Option String) :
    Eval (Except String Settings) := do
  match settingsFile with
  | none => return .ok (Settings.standard.override environment)
  | some path =>
    let opening := "loading config " ++ path ++ ": "
    match ← Eval.attempt (settingsIn path) with
    | .ok (some settings) => return .ok (settings.override environment)
    | .ok none => return .error (opening ++ "Runtime error: Failed to parse config JSON")
    | .error error => return .error (opening ++ (← Eval.errorText error))

/-- Runs a file. The value of its last form, or the error, is told. -/
def runFile (fuel : Nat) (file : String) : Eval Exit := do
  match ← Eval.attempt (TopLevel.evaluateFile fuel file) with
  | .ok value =>
    Eval.printLine (← Eval.readableText value)
    return .success
  | .error error => return ⟨1, (← Eval.errorText error) ++ "\n"⟩

/-- Sets up the world as the settings say. -/
def setUp (fuel : Nat) (settings : Settings) (arguments : List String) : Eval Unit := do
  TopLevel.start fuel settings.loadPrelude
  TopLevel.setArguments arguments

/-- Greets, if that is wanted. -/
def greet (settings : Settings) : Eval Unit := do
  if settings.printBanner then
    Eval.printLine ("Wisp " ++ version)
    Eval.printLine "Ctrl+D to exit."

/-- What the program comes to before it reads any line: its end, or a conversation. -/
inductive Beginning where
  | ended (exit : Exit)
  | conversing (settings : Settings)

/-- Does everything up to the first line of a conversation. -/
def begin (fuel : Nat) (environment : String → Option String) (arguments : List String) :
    Eval Beginning := do
  match parse arguments with
  | .version =>
    Eval.printLine ("wisp " ++ version)
    return .ended .success
  | .catalogue =>
    Native.sorted.forM fun f => Eval.printLine (catalogueLine f)
    return .ended .success
  | .missingPath => return .ended (.failure "--config requires a path")
  | .runFile settingsFile file arguments =>
    match ← loadSettings environment settingsFile with
    | .error complaint => return .ended (.failure complaint)
    | .ok settings =>
      setUp fuel settings arguments
      return .ended (← runFile fuel file)
  | .converse settingsFile =>
    match ← loadSettings environment settingsFile with
    | .error complaint => return .ended (.failure complaint)
    | .ok settings =>
      setUp fuel settings []
      greet settings
      return .conversing settings

/-- The file that the history of a session is saved in: the one that is set, unless nothing has
been submitted. -/
def savedHistory? (settings : Settings) (session : Repl.Session) : Option String :=
  if session.submissions.isEmpty then none else settings.historyFile

/-- The end of a conversation, where `createFault?` tells why no file can be written at a
path. -/
def finish (settings : Settings) (session : Repl.Session)
    (createFault? : String → Option FileFault) : Exit :=
  match savedHistory? settings session with
  | none => .success
  | some path =>
    match createFault? path with
    | none => .success
    | some fault =>
      .failure ("saving history to " ++ path ++ ": " ++ fault.message ++ ": " ++ fault.message)

/-- Shows the prompt for the next line, if prompts are shown. -/
def showPrompt (shows : Bool) (settings : Settings) (session : Repl.Session) : Eval Unit :=
  if shows then Eval.print (Repl.prompt settings session) else pure ()

/-- A conversation over lines that are known as a whole. -/
def converse (fuel : Nat) (shows : Bool) (settings : Settings) :
    Repl.Session → List String → Eval Repl.Session
  | session, [] => do
    showPrompt shows settings session
    return session
  | session, line :: rest => do
    showPrompt shows settings session
    converse fuel shows settings (← Repl.feed fuel session line) rest

/-- The program on an input that is known as a whole. Whether prompts are shown for such an input is
up to the line editor. -/
def execute (fuel : Nat) (environment : String → Option String)
    (createFault? : String → Option FileFault) (arguments input : List String)
    (shows : Bool := false) : Eval Exit := do
  match ← begin fuel environment arguments with
  | .ended exit => return exit
  | .conversing settings =>
    let session ← converse fuel shows settings .fresh input
    return finish settings session createFault?

end SmallLisp.CommandLine
