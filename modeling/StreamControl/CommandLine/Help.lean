import StreamControl.CommandLine.Arguments

/-!
# Help

What the program says about itself and its commands: what it is for, how it is called, and tables of
commands and options.
-/

namespace StreamControl

namespace CommandLine

def programName : String := "sluice"

def programVersion : String := "0.1.0"

/-- The text with blanks behind it up to a width. -/
def padRight (width : Nat) (s : String) : String :=
  s ++ String.ofList (List.replicate (width - s.length) ' ')

/-- A table with a heading, its second column in line. -/
def table (heading : String) (rows : List (String × String)) : List String :=
  let width := (rows.map (·.1.length)).foldl max 0
  if rows.isEmpty then []
  else "" :: heading :: rows.map fun (name, text) => s!"  {padRight width name}  {text}"

def Verb.summary : Verb → String
  | .status => "Queue offsets and size"
  | .pending => "Requests recorded but not yet acknowledged"
  | .failures => "Requests that failed terminally"
  | .compact => "Drop acknowledged requests from the log"
  | .checkConfig => "Validate a controller configuration file"

/-- The options that ask. -/
def questionRows : List (String × String) :=
  [("-h, --help", "Print help"), ("-V, --version", "Print version")]

def Verb.optionRows : Verb → List (String × String)
  | .pending => [("    --json", "Print as JSON lines")]
  | .failures =>
    [("-l, --ledger <LEDGER>", s!"Path to the failed-request ledger [default: {defaultLedger}]"),
      ("    --json", "Print as JSON lines")]
  | _ => []

def Verb.argumentRows : Verb → List (String × String)
  | .checkConfig => [("<PATH>", "Path to the JSON configuration")]
  | _ => []

def Verb.help (verb : Verb) : List String :=
  let options := if verb.optionRows.isEmpty then "" else " [OPTIONS]"
  let arguments := String.join (verb.argumentRows.map fun (name, _) => " " ++ name)
  [verb.summary, "", s!"Usage: {programName} {verb.name}{options}{arguments}"] ++
    table "Arguments:" verb.argumentRows ++ table "Options:" (verb.optionRows ++ questionRows)

def helpSummary : String := "Print this message or the help of the given subcommand(s)"

def programHelp : List String :=
  ["Operator CLI for inspecting a sluice request queue", "",
    s!"Usage: {programName} [OPTIONS] <COMMAND>"] ++
    table "Commands:" (Verb.all.map (fun verb => (verb.name, verb.summary)) ++
      [(helpWord, helpSummary)]) ++
    table "Options:"
      ([("-q, --queue-dir <QUEUE_DIR>",
          s!"Path to the request queue directory [default: {defaultQueue}]"),
        ("-v, --verbose", "Enable verbose logging")] ++ questionRows)

/-- What help says about a topic. -/
def Topic.lines : Topic → List String
  | .program => programHelp
  | .command verb => verb.help
  | .help =>
    [helpSummary, "", s!"Usage: {programName} {helpWord} [COMMAND]..."] ++
      table "Arguments:" [("[COMMAND]...", "Print help for the subcommand(s)")]

/-- The version of the program, under its name or under that of a command. -/
def version : Option Verb → String
  | none => s!"{programName} {programVersion}"
  | some verb => s!"{programName}-{verb.name} {programVersion}"

end CommandLine

end StreamControl
