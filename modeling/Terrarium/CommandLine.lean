import Terrarium.Release
import Terrarium.Workload

namespace Terrarium.CommandLine

def programName : String := "worldsim-cli"

/-- The options of a run. -/
structure RunOptions where
  ticks : Nat
  config : Option String
  brushes : Nat
  json : Bool
deriving DecidableEq, Repr

/-- What help is asked on. -/
inductive Topic where
  | program
  | info
  | defaultConfig
  | run
  | help
deriving DecidableEq, Repr

/-- What arguments ask for. -/
inductive Request where
  | info
  | defaultConfig
  | run (options : RunOptions)
  | help (topic : Topic)
  | misuse
deriving DecidableEq, Repr

/-- An option that can be given: its long name, its short name if it has one, and whether a value
belongs to it. -/
structure Switch where
  long : String
  short : Option Char
  takesValue : Bool

/-- What one argument says. -/
inductive Argument where
  | option (long value : String)
  | help
  | word (text : String)
  | divider
  | faulty
deriving DecidableEq, Repr

def programSwitches : List Switch := [⟨"verbose", some 'v', false⟩]

def runSwitches : List Switch :=
  [⟨"ticks", some 't', true⟩, ⟨"config", some 'c', true⟩, ⟨"brushes", some 'b', true⟩,
    ⟨"json", none, false⟩]

/-- Whether an argument looks like an option; a lone dash does not. -/
def looksLikeOption (s : String) : Bool := s.startsWith "-" && s ≠ "-"

/-- An option whose value is the next argument. -/
def withNext (long : String) : List String → List Argument × List String
  | [] => ([.faulty], [])
  | value :: rest => if looksLikeOption value then ([.faulty], rest) else ([.option long value], rest)

/-- Reads the letters after a single dash. Each is an option; from one that takes a value on, the
rest is the value, and an equals sign before it does not count. -/
def readShort (switches : List Switch) (next : List String) :
    List Char → List Argument × List String
  | [] => ([], next)
  | c :: cs =>
      if c = 'h' then ([.help], next)
      else
        match switches.find? fun s => s.short = some c with
        | none => ([.faulty], next)
        | some s =>
            if s.takesValue then
              if cs.isEmpty then withNext s.long next
              else
                ([.option s.long (String.ofList (if cs.head? = some '=' then cs.drop 1 else cs))],
                  next)
            else
              let (more, next) := readShort switches next cs
              (.option s.long "" :: more, next)

/-- Reads what stands after two dashes: a name, and maybe a value after an equals sign. -/
def readLong (switches : List Switch) (next : List String) (cs : List Char) :
    List Argument × List String :=
  let name := String.ofList (cs.takeWhile (· ≠ '='))
  let value := cs.dropWhile (· ≠ '=')
  if name = "help" then (if value.isEmpty then [.help] else [.faulty], next)
  else
    match switches.find? fun s => s.long = name with
    | none => ([.faulty], next)
    | some s =>
        match s.takesValue, value with
        | true, _ :: v => ([.option name (String.ofList v)], next)
        | true, [] => withNext name next
        | false, [] => ([.option name ""], next)
        | false, _ => ([.faulty], next)

/-- Reads one argument, with the next if that is its value. -/
def readOne (switches : List Switch) (s : String) (next : List String) :
    List Argument × List String :=
  match s.toList with
  | ['-', '-'] => ([.divider], next)
  | '-' :: '-' :: cs => readLong switches next cs
  | '-' :: c :: cs => readShort switches next (c :: cs)
  | _ => ([.word s], next)

/-- Reads all arguments; after a divider they are words. -/
def readAll (switches : List Switch) : Nat → List String → List Argument
  | 0, _ => []
  | _, [] => []
  | fuel + 1, s :: next =>
      match readOne switches s next with
      | ([.divider], next) => next.map .word
      | (found, next) => found ++ readAll switches fuel next

/-- The options of a run found so far. -/
structure RunFound where
  ticks : Option Nat
  config : Option String
  brushes : Option Nat
  json : Option Unit

/-- Decimal digits of a number below a limit, with a sign that may be in front. -/
def wholeBelow? (limit : Nat) (signs : List Char) (s : String) : Option Nat :=
  let negative := s.startsWith "-"
  let digits := if (s.toList.take 1).any (· ∈ signs) then s.toList.drop 1 else s.toList
  match Yaml.digitsIn? 10 digits with
  | none => none
  | some n => if limit ≤ n || negative && n ≠ 0 then none else some n

/-- Takes an option of a run; none is given twice. -/
def RunFound.take (f : RunFound) (long value : String) : Option RunFound :=
  match long with
  | "ticks" =>
      (Settings.fill f.ticks (wholeBelow? UInt64.size ['+'] value)).map fun v => { f with ticks := v }
  | "config" =>
      (Settings.fill f.config (if value.isEmpty then none else some value)).map
        fun v => { f with config := v }
  | "brushes" =>
      (Settings.fill f.brushes (wholeBelow? UInt32.size ['+', '-'] value)).map
        fun v => { f with brushes := v }
  | "json" => (Settings.fill f.json (some ())).map fun v => { f with json := v }
  | _ => none

/-- What the arguments of a run ask for. -/
def runRequest (f : RunFound) : List Argument → Request
  | [] => .run ⟨f.ticks.getD 120, f.config, f.brushes.getD 1, f.json.isSome⟩
  | .help :: _ => .help .run
  | .option long value :: rest =>
      match f.take long value with
      | none => .misuse
      | some f => runRequest f rest
  | _ => .misuse

/-- What the arguments of a command without options ask for. -/
def plainRequest (request : Request) (topic : Topic) : List Argument → Request
  | [] => request
  | .help :: _ => .help topic
  | _ => .misuse

/-- The topic of a command's help. -/
def topic? : String → Option Topic
  | "info" => some .info
  | "default-config" => some .defaultConfig
  | "run" => some .run
  | "help" => some .help
  | _ => none

/-- What help is asked on after the word for it. -/
def helpRequest : List String → Request
  | [] => .help .program
  | [name] =>
      match topic? name with
      | some topic => .help topic
      | none => .misuse
  | _ => .misuse

/-- What a command and its arguments ask for. -/
def commandRequest (name : String) (rest : List String) : Request :=
  match name with
  | "info" => plainRequest .info .info (readAll [] rest.length rest)
  | "default-config" => plainRequest .defaultConfig .defaultConfig (readAll [] rest.length rest)
  | "run" => runRequest ⟨none, none, none, none⟩ (readAll runSwitches rest.length rest)
  | "help" => helpRequest rest
  | _ => .misuse

/-- Reads arguments up to the command; `verbose` says whether that option was given. -/
def readProgram (verbose : Bool) : Nat → List String → Request
  | 0, _ => .misuse
  | _, [] => .misuse
  | fuel + 1, s :: rest =>
      match readOne programSwitches s rest with
      | ([.word name], rest) => commandRequest name rest
      | ([.option ..], rest) => if verbose then .misuse else readProgram true fuel rest
      | ([.help], _) => .help .program
      | (.option .. :: .help :: _, _) => if verbose then .misuse else .help .program
      | _ => .misuse

/-- What the arguments of the program ask for. -/
def request (args : List String) : Request := readProgram false (args.length + 1) args

/-- The text of a table: each row has a heading, and the explanations stand in one column. -/
def table (rows : List (String × String)) : String :=
  let width := (rows.map fun r => r.1.length).foldl max 0
  String.join (rows.map fun r => "  " ++ r.1 ++ "".pushn ' ' (width + 2 - r.1.length) ++ r.2 ++ "\n")

/-- What is said of a topic. -/
def Topic.about : Topic → String
  | .program => "Headless runner for the world simulation"
  | .info => "Print crate versions"
  | .defaultConfig => "Print the default server configuration as YAML"
  | .run => "Run the server for a number of ticks with a scripted workload"
  | .help => "Print this message or the help of the given subcommand(s)"

/-- The commands and what they do. -/
def commands : String :=
  "Commands:\n" ++ table
    [("info", Topic.about .info), ("default-config", Topic.about .defaultConfig),
      ("run", Topic.about .run), ("help", Topic.about .help)]

/-- The option that every command has. -/
def helpRow : String × String := ("-h, --help", "Print help")

/-- What stands after the description in the help on a topic. -/
def Topic.usage : Topic → String
  | .program =>
      " [OPTIONS] <COMMAND>\n\n" ++ commands ++ "\nOptions:\n" ++
        table [("-v, --verbose", "Enable verbose logging"), helpRow]
  | .info => " info\n\nOptions:\n" ++ table [helpRow]
  | .defaultConfig => " default-config\n\nOptions:\n" ++ table [helpRow]
  | .run =>
      " run [OPTIONS]\n\nOptions:\n" ++
        table
          [("-t, --ticks <TICKS>", "Number of ticks to simulate [default: 120]"),
            ("-c, --config <CONFIG>", "YAML server configuration"),
            ("-b, --brushes <BRUSHES>", "Terraform brushes submitted per tick [default: 1]"),
            ("    --json", "Print the final statistics as JSON"), helpRow]
  | .help =>
      " help [COMMAND]...\n\nArguments:\n" ++
        table [("[COMMAND]...", "Print help for the subcommand(s)")]

def Topic.text (t : Topic) : String := t.about ++ "\n\nUsage: " ++ programName ++ t.usage

def versions : String :=
  programName ++ " " ++ version ++ "\n" ++
    String.join (Component.all.map fun c => c.name ++ ": " ++ c.release ++ "\n")

/-- How the program ends. -/
inductive Ending where
  | printed (text : String)
  | ran (report : Report) (json : Bool)
  | failed
  | crashed
  | misused

/-- The exit code of the program. -/
def Ending.code : Ending → UInt8
  | .printed _ => 0
  | .ran .. => 0
  | .failed => 1
  | .misused => 2
  | .crashed => 101

/-- The settings of a run: standard ones, or those in a file, whose contents are given if it can be
read. -/
def settings (config : Option (Option (List UInt8))) : Except SettingsError Settings :=
  match config with
  | none => .ok .standard
  | some contents => Settings.ofFile contents

def runEnding (o : RunOptions) (contents : String → Option (List UInt8)) : Ending :=
  match settings (o.config.map contents) with
  | .error _ => .failed
  | .ok s =>
      match Workload.run s o.ticks o.brushes with
      | .error (.settings _) => .failed
      | .error .tooLarge => .crashed
      | .error .thresholdOutOfRange => .crashed
      | .ok report => .ran report o.json

/-- What comes of the program's arguments, given the contents of the files that can be read. -/
def ending (args : List String) (contents : String → Option (List UInt8)) : Ending :=
  match request args with
  | .info => .printed versions
  | .defaultConfig => .printed Settings.standard.text
  | .help topic => .printed topic.text
  | .misuse => .misused
  | .run o => runEnding o contents

end Terrarium.CommandLine
