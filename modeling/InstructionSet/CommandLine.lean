import InstructionSet.Definition.Source
import InstructionSet.Report

/-!
# The command line

The program compiles the set below a directory and prints a report on it. Arguments are taken
from left to right, and the first that is wrong or asks for the version decides.
-/

namespace InstructionSet.CommandLine

inductive Format where
  | text
  | json
  deriving DecidableEq, Repr

/-- What has been asked for so far. -/
structure Options where
  root : Option String := none
  format : Option Format := none
  quiet : Bool := false
  deriving DecidableEq, Repr

inductive Request where
  | report (options : Options)
  | version
  | help
  | misuse (argument : String)
  deriving DecidableEq, Repr

def defaultRoot : String := "."

def format? : String → Option Format
  | "text" => some .text
  | "json" => some .json
  | _ => none

/-- The options after some arguments, or the request that one of them has settled. -/
abbrev Step := Except Request Options

namespace Options

def setQuiet (o : Options) (argument : String) : Step :=
  if o.quiet then .error (.misuse argument) else .ok { o with quiet := true }

def setFormat (o : Options) (name : String) : Step :=
  match o.format, format? name with
  | none, some format => .ok { o with format := some format }
  | _, _ => .error (.misuse name)

def setRoot (o : Options) (path : String) : Step :=
  if o.root.isSome || path.isEmpty then .error (.misuse path) else .ok { o with root := some path }

/-- Short options, one letter each, behind a single dash. -/
def setShort (o : Options) : List Char → Step
  | [] => .ok o
  | 'q' :: rest => do (← o.setQuiet "-q").setShort rest
  | 'v' :: rest => o.setShort rest
  | 'V' :: _ => .error .version
  | 'h' :: _ => .error .help
  | c :: _ => .error (.misuse (String.ofList ['-', c]))

/-- A long option that takes no value from the next argument. -/
def setLong (o : Options) (argument : String) : Step :=
  match argument with
  | "--quiet" => o.setQuiet argument
  | "--verbose" => .ok o
  | "--version" => .error .version
  | "--help" => .error .help
  | argument =>
      if "--format=".toList.isPrefixOf argument.toList then
        o.setFormat (String.ofList (argument.toList.drop "--format=".length))
      else .error (.misuse argument)

/-- Takes `arguments` one after the other; after `--` all of them are paths. -/
def takeAll (o : Options) (optionsEnded : Bool) : List String → Step
  | [] => .ok o
  | argument :: rest =>
      if optionsEnded then do (← o.setRoot argument).takeAll true rest
      else if argument = "--" then o.takeAll true rest
      else if argument = "--format" then
        match rest with
        | name :: rest => do (← o.setFormat name).takeAll false rest
        | [] => .error (.misuse argument)
      else if "--".toList.isPrefixOf argument.toList then do
        (← o.setLong argument).takeAll false rest
      else if "-".toList.isPrefixOf argument.toList && argument != "-" then do
        (← o.setShort (argument.toList.drop 1)).takeAll false rest
      else do (← o.setRoot argument).takeAll false rest

end Options

def parse (arguments : List String) : Request :=
  match Options.takeAll {} false arguments with
  | .ok options => .report options
  | .error request => request

/-- What the program prints, what it warns of, and the code with which it ends. -/
structure Response where
  exitCode : UInt32
  output : String := ""
  errors : String := ""
  warnings : List Warning := []
  deriving Repr, DecidableEq

def versionText : String := "isadef 0.1.0\n"

def helpText : String :=
  "Usage: isadef [OPTIONS] [ROOT]\n\nOptions:\n" ++
    "      --format <FORMAT>  text or json\n" ++
    "  -q, --quiet            leave the listing out\n" ++
    "  -v, --verbose          accepted and ignored\n" ++
    "  -h, --help             print this text\n" ++
    "  -V, --version          print the version\n"

/-- The report asked for. A quiet JSON report is no different. -/
def Options.render (o : Options) (d : Definition) : String :=
  match o.format.getD .text with
  | .text => d.report o.quiet
  | .json => d.reportJson.pretty ++ "\n"

def Options.rootPath (o : Options) : String := o.root.getD defaultRoot

def respond (files : Files) : Request → Response
  | .version => { exitCode := 0, output := versionText }
  | .help => { exitCode := 0, output := helpText }
  | .misuse argument => { exitCode := 2, errors := s!"error: unexpected argument '{argument}'\n" }
  | .report options =>
      let outcome := Definition.ofDirectory files options.rootPath
      let warnings := outcome.warnings
      match outcome.result with
      | .ok d => { exitCode := 0, output := options.render d, warnings }
      | .error e => { exitCode := 1, errors := s!"error: {e.message}\n", warnings }

/-- Runs the program on its arguments. -/
def run (files : Files) (arguments : List String) : Response := respond files (parse arguments)

end InstructionSet.CommandLine
