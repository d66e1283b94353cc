/-!
# Command line arguments

Options of the program stand before the command, options of a command behind it. An option's value
is the next argument or is attached to it, behind `=` for the long name; a value that is empty, or
that begins with a hyphen and goes on, is none. No option may be given twice. Behind `--` everything
is a value.

Arguments are read from the left, up to the first question for help or for the version: what stands
behind that is not looked at, and what is wrong in front of it counts.
-/

namespace StreamControl

namespace CommandLine

/-- The name of a command. -/
inductive Verb
  | status
  | pending
  | failures
  | compact
  | checkConfig
  deriving DecidableEq, Repr

def Verb.all : List Verb := [.status, .pending, .failures, .compact, .checkConfig]

def Verb.name : Verb → String
  | .status => "status"
  | .pending => "pending"
  | .failures => "failures"
  | .compact => "compact"
  | .checkConfig => "check-config"

def Verb.ofName? (name : String) : Option Verb := Verb.all.find? (·.name = name)

inductive Command
  | status
  | pending (json : Bool)
  | failures (ledger : String) (json : Bool)
  | compact
  | checkConfig (path : String)
  deriving DecidableEq, Repr

inductive Question
  | help
  | version
  deriving DecidableEq, Repr

/-- What help is asked about: the program, a command, or the word for help itself. -/
inductive Topic
  | program
  | command (verb : Verb)
  | help
  deriving DecidableEq, Repr

/-- What a command line asks for: a command, help, or the version of the program or a command. -/
inductive Task
  | run (command : Command)
  | help (topic : Topic)
  | version (verb : Option Verb)
  deriving DecidableEq, Repr

/-- A question about the program, or about one command. -/
def Question.task : Question → Option Verb → Task
  | .help, verb => .help (verb.elim .program .command)
  | .version, verb => .version verb

structure Arguments where
  queueDirectory : String
  verbose : Bool
  task : Task
  deriving DecidableEq, Repr

def defaultQueue : String := "./data/queue"
def defaultLedger : String := "./data/failed.jsonl"

/-- An option that may be given: a letter, a name, and whether it takes a value or asks. -/
structure Flag where
  letter : Option Char
  name : String
  takesValue : Bool := false
  asks : Option Question := none

/-- What one argument is. -/
inductive Token
  /-- An option by name, with its value if one is attached. -/
  | long (name : String) (value : Option String)
  | short (letters : List Char)
  | plain (text : String)
  | rest
  deriving DecidableEq, Repr

/-- Cuts a text at the first equals sign. -/
def cut (cs : List Char) : List Char × Option (List Char) :=
  match cs.span (· ≠ '=') with
  | (name, []) => (name, none)
  | (name, _ :: value) => (name, some value)

def Token.of (arg : String) : Token :=
  match arg.toList with
  | ['-', '-'] => .rest
  | '-' :: '-' :: cs =>
    let (name, value) := cut cs
    .long (String.ofList name) (value.map String.ofList)
  | '-' :: c :: cs => .short (c :: cs)
  | _ => .plain arg

/-- Whether an argument can be the value of an option. -/
def isValue (arg : String) : Bool :=
  !arg.isEmpty && match Token.of arg with
    | .plain _ => true
    | _ => false

/-! ## One argument -/

/-- Options that were given, by name. -/
abbrev Options := List (String × String)

def Options.has (options : Options) (name : String) : Bool := options.any (·.1 = name)

def Options.get? (options : Options) (name : String) : Option String :=
  (options.find? (·.1 = name)).map (·.2)

/-- What comes of an argument with options: the options so far and whether the next argument was
used as a value, or a question. -/
inductive Taken
  | refused
  | asked (question : Question)
  | options (given : Options) (used : Bool)

/-- Notes an option, unless it is there already or its value is empty. -/
def note (given : Options) (flag : Flag) (value : String) (used : Bool) : Taken :=
  if given.has flag.name || (flag.takesValue && value.isEmpty) then .refused
  else .options ((flag.name, value) :: given) used

/-- Takes an option whose value is the next argument. -/
def takeNext (given : Options) (flag : Flag) (next : Option String) : Taken :=
  match next.filter isValue with
  | some value => note given flag value true
  | none => .refused

/-- Reads a cluster of letters; the value of an option is what follows its letter, or the next
argument. -/
def readLetters (flags : List Flag) (next : Option String) : List Char → Options → Taken
  | [], given => .options given false
  | c :: cs, given =>
    match flags.find? (·.letter = some c) with
    | none => .refused
    | some flag =>
      match flag.asks, flag.takesValue, cs with
      | some question, _, _ => .asked question
      | none, true, [] => takeNext given flag next
      | none, true, '=' :: value => note given flag (String.ofList value) false
      | none, true, value => note given flag (String.ofList value) false
      | none, false, cs =>
        match note given flag "" false with
        | .options given _ => readLetters flags next cs given
        | taken => taken

/-- Reads an option by its name. -/
def readLong (flags : List Flag) (next attached : Option String) (name : String)
    (given : Options) : Taken :=
  match flags.find? (·.name = name) with
  | none => .refused
  | some flag =>
    match flag.asks, flag.takesValue, attached with
    | some question, _, none => .asked question
    | none, true, some value => note given flag value false
    | none, true, none => takeNext given flag next
    | none, false, none => note given flag "" false
    | _, _, some _ => .refused

/-! ## All arguments -/

/-- What options lead up to: the arguments that are left, which are all plain behind `--`, or a
question. -/
structure Given where
  options : Options
  question : Option Question := none
  rest : List String := []
  escaped : Bool := false
  deriving Repr

/-- Reads options up to the first argument that is none. -/
def readOptions? (flags : List Flag) (given : Options) : List String → Option Given
  | [] => some { options := given }
  | arg :: args =>
    let taken := match Token.of arg with
      | .short letters => readLetters flags args.head? letters given
      | .long name attached => readLong flags args.head? attached name given
      | _ => .refused
    match Token.of arg, taken with
    | .plain _, _ => some { options := given, rest := arg :: args }
    | .rest, _ => some { options := given, rest := args, escaped := true }
    | _, .refused => none
    | _, .asked question => some { options := given, question }
    | _, .options given used => readOptions? flags given (args.drop used.toNat)
  termination_by args => args.length
  decreasing_by simp only [List.length_drop, List.length_cons]; omega

/-- Reads options and at most so many plain arguments, in any order. The plain ones go behind those
that are there already. -/
def readAll? (flags : List Flag) : Nat → Options → List String → List String → Option Given
  | slots, given, plain, args =>
    match readOptions? flags given args with
    | none => none
    | some g =>
      match g.question, g.escaped, g.rest, slots with
      | some _, _, _, _ => some g
      | none, true, rest, slots =>
        if rest.length ≤ slots && rest.all (!·.isEmpty) then some { g with rest := plain ++ rest }
        else none
      | none, false, [], _ => some { g with rest := plain }
      | none, false, _ :: _, 0 => none
      | none, false, arg :: rest, slots + 1 =>
        if arg.isEmpty then none else readAll? flags slots g.options (plain ++ [arg]) rest

def helpFlag : Flag := { letter := some 'h', name := "help", asks := some .help }
def versionFlag : Flag := { letter := some 'V', name := "version", asks := some .version }
def jsonFlag : Flag := { letter := none, name := "json" }
def ledgerFlag : Flag := { letter := some 'l', name := "ledger", takesValue := true }
def queueFlag : Flag := { letter := some 'q', name := "queue-dir", takesValue := true }
def verboseFlag : Flag := { letter := some 'v', name := "verbose" }

/-- The options of a command, beside the questions. -/
def Verb.flags : Verb → List Flag
  | .pending => [jsonFlag]
  | .failures => [ledgerFlag, jsonFlag]
  | _ => []

/-- How many plain arguments a command has. -/
def Verb.slots : Verb → Nat
  | .checkConfig => 1
  | _ => 0

/-- The command that a verb makes with its options and plain arguments. -/
def Verb.command? (verb : Verb) (options : Options) (plain : List String) : Option Command :=
  let json := options.has jsonFlag.name
  match verb, plain with
  | .status, _ => some .status
  | .pending, _ => some (.pending json)
  | .failures, _ => some (.failures ((options.get? ledgerFlag.name).getD defaultLedger) json)
  | .compact, _ => some .compact
  | .checkConfig, [path] => some (.checkConfig path)
  | .checkConfig, _ => none

/-- Reads what stands behind a verb. -/
def Verb.task? (verb : Verb) (args : List String) : Option Task := do
  let g ← readAll? (helpFlag :: versionFlag :: verb.flags) verb.slots [] [] args
  match g.question with
  | some question => some (question.task (some verb))
  | none => .run <$> verb.command? g.options g.rest

/-- The word that asks for help like a command. -/
def helpWord : String := "help"

/-- What a word that stands behind the word for help names. -/
def Topic.ofName? (name : String) : Option Topic :=
  if name = helpWord then some .help else .command <$> Verb.ofName? name

/-- Reads a command and what stands behind it. -/
def task? : List String → Option Task
  | [] => none
  | name :: args =>
    if name = helpWord then
      match args with
      | [] => some (.help .program)
      | [topic] => .help <$> Topic.ofName? topic
      | _ => none
    else do (← Verb.ofName? name).task? args

/-- Reads a command line; nothing if it does not make sense. -/
def Arguments.of? (args : List String) : Option Arguments := do
  let g ← readOptions? [queueFlag, verboseFlag, helpFlag, versionFlag] [] args
  let task ← match g.question with
    | some question => some (question.task none)
    | none => if g.escaped then none else task? g.rest
  some ⟨(g.options.get? queueFlag.name).getD defaultQueue, g.options.has verboseFlag.name, task⟩

end CommandLine

end StreamControl
