import SmallLisp.Settings.Json

/-!
# Settings

What a session can be told: the prompt, a file to keep the history in, whether to load the
prelude, and whether to greet. Settings come from a file, where each may be missing, and are
then overridden by variables of the environment.

A settings file holds an object, or an array of the settings in their order. Members of other
names are passed over; a setting given twice or of the wrong kind makes the file useless, and
only the history file may be `null`.

## Main definitions

* `Settings`: the settings, with their standard values
* `Settings.ofText?`: the settings a file's text gives
* `Settings.override`: settings with variables of the environment applied
-/

namespace SmallLisp

/-- What a session can be told. -/
structure Settings where
  prompt : String
  historyFile : Option String
  loadPrelude : Bool
  printBanner : Bool
  deriving DecidableEq, Repr

namespace Settings

/-- The settings where none is given. -/
def standard : Settings :=
  { prompt := "user> ", historyFile := none, loadPrelude := true, printBanner := true }

/-- A text, or the standard one where none is given. -/
def text? (otherwise : String) : Option Json → Option String
  | none => some otherwise
  | some (.string (some text)) => some text
  | some _ => none

/-- The name of a file, where none may be given or `null`. -/
def file? : Option Json → Option (Option String)
  | none => some none
  | some .null => some none
  | some (.string (some text)) => some (some text)
  | some _ => none

/-- A truth value, or the standard one where none is given. -/
def flag? (otherwise : Bool) : Option Json → Option Bool
  | none => some otherwise
  | some (.bool b) => some b
  | some _ => none

/-- The settings that four values give, each of which may be missing. -/
def ofValues? (prompt history prelude banner : Option Json) : Option Settings := do
  let prompt ← text? standard.prompt prompt
  let historyFile ← file? history
  let loadPrelude ← flag? standard.loadPrelude prelude
  let printBanner ← flag? standard.printBanner banner
  return { prompt, historyFile, loadPrelude, printBanner }

/-- The value of the member of a name, if there is one; fails when there are several. -/
def only? (members : List (Option String × Json)) (name : String) : Option (Option Json) :=
  match members.filter fun member => member.1 == some name with
  | [] => some none
  | [member] => some (some member.2)
  | _ => none

/-- The settings that a value of the file format gives. -/
def ofJson? : Json → Option Settings
  | .object members => do
    if members.any fun member => member.1.isNone then none
    ofValues? (← only? members "prompt") (← only? members "history_file")
      (← only? members "load_prelude") (← only? members "print_banner")
  | .array items =>
    if items.length ≤ 4 then ofValues? items[0]? items[1]? items[2]? items[3]? else none
  | _ => none

/-- The settings that the text of a file gives. -/
def ofText? (text : String) : Option Settings := do ofJson? (← Json.ofText? text)

/-- Whether the value of the variable that turns the prelude off leaves it on. -/
def leavesPrelude (value : String) : Bool := value == "" || value == "0" || value == "false"

/-- Settings with variables of the environment applied. An empty name of a history file counts
as none given. -/
def override (settings : Settings) (environment : String → Option String) : Settings :=
  { settings with
    prompt := (environment "WISP_PROMPT").getD settings.prompt
    historyFile :=
      match environment "WISP_HISTORY" with
      | some file => if file = "" then settings.historyFile else some file
      | none => settings.historyFile
    loadPrelude := ((environment "WISP_NO_PRELUDE").map leavesPrelude).getD settings.loadPrelude }

end Settings

end SmallLisp
