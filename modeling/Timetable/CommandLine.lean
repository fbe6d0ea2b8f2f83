import Timetable.Document.Config
import Timetable.Document.Planning
import Timetable.Json.Parser
import Timetable.Json.Printer
import Timetable.Outcome

/-!
The command line: what the arguments ask for, and the reply. The input document is the first
argument and the configuration the second; a configuration may also be named by the environment.
-/

namespace Timetable.CommandLine

inductive Request where
  | version
  /-- A text about the program. -/
  | help
  /-- A text about its documents. -/
  | describe
  | plan (input : String) (config : Option String)
deriving DecidableEq, Repr

inductive UsageError where
  | unknownFlag (argument : String)
  | flagWithValue (argument : String)
  | repeatedFlag (argument : String)
  | emptyPath
  | tooManyPaths (argument : String)
  | missingInput
  | describeWithInput
deriving DecidableEq, Repr

/-- What has been read of the arguments: paths in order, and the flag for descriptions. -/
structure Arguments where
  paths : List String
  describe : Bool

/-- An answer that stands before the last argument is read: an error, or a request that needs no
further arguments. -/
inductive Early where
  | error (error : UsageError)
  | request (request : Request)

def addPath (read : Arguments) (argument : String) : Except Early Arguments :=
  if 2 ≤ read.paths.length then .error (.error (.tooManyPaths argument))
  else if argument.isEmpty then .error (.error .emptyPath)
  else .ok { read with paths := read.paths ++ [argument] }

/-- A flag by its whole name. A value behind an equals sign is refused, as no flag takes one. -/
def addLongFlag (read : Arguments) (argument : String) : Except Early Arguments :=
  let name := String.ofList (argument.toList.takeWhile (· ≠ '='))
  let known := name = "--schema" || name = "--version" || name = "--help"
  if !known then .error (.error (.unknownFlag argument))
  else if name ≠ argument then .error (.error (.flagWithValue argument))
  else if name = "--version" then .error (.request .version)
  else if name = "--help" then .error (.request .help)
  else if read.describe then .error (.error (.repeatedFlag argument))
  else .ok { read with describe := true }

/-- One argument in front of the mark that ends the flags. A single hyphen is a path. -/
def addArgument (read : Arguments) (argument : String) : Except Early Arguments :=
  match argument.toList with
  | '-' :: '-' :: _ => addLongFlag read argument
  | '-' :: 'V' :: _ => .error (.request .version)
  | '-' :: 'h' :: _ => .error (.request .help)
  | '-' :: _ :: _ => .error (.error (.unknownFlag argument))
  | _ => addPath read argument

/-- Reads arguments from the left; behind `--` all of them are paths. -/
def readArguments (read : Arguments) : List String → Except Early Arguments
  | [] => .ok read
  | "--" :: rest => rest.foldlM addPath read
  | argument :: rest => do readArguments (← addArgument read argument) rest

/-- The configuration that the environment names counts where the arguments name none. -/
def configPath (read : Arguments) (environment : Option String) :
    Except UsageError (Option String) :=
  match read.paths[1]?, environment with
  | some path, _ => .ok (some path)
  | none, some path => if path.isEmpty then .error .emptyPath else .ok (some path)
  | none, none => .ok none

def requestOf (read : Arguments) (environment : Option String) : Except UsageError Request := do
  let config ← configPath read environment
  match read.paths.head?, read.describe with
  | some _, true => throw .describeWithInput
  | some input, false => return .plan input config
  | none, true => return .describe
  | none, false => throw .missingInput

/-- What the arguments ask for. -/
def parse (arguments : List String) (environment : Option String) : Except UsageError Request :=
  match readArguments ⟨[], false⟩ arguments with
  | .ok read => requestOf read environment
  | .error (.error error) => .error error
  | .error (.request request) => .ok request

structure Reply where
  code : Nat
  output : String
deriving DecidableEq, Repr

def Reply.failure (code : Nat) : Reply := ⟨code, ""⟩

def versionText : String := "planner 0.1.0\n"

/-- The outcome document as text. -/
def outcomeText (outcome : Outcome) : String := (outcome.toJson Json.ofDouble).pretty ++ "\n"

/-- A document of a file. -/
def document? {α : Type} (files : String → Option String) (read : Json → Option α) (path : String) :
    Option α :=
  files path >>= Json.parse? >>= read

/-- Plans the documents of two files. Unreadable files, documents that are none and refused inputs
end with code 1; a fault ends with code 101. -/
def planFiles (files : String → Option String) (input : String) (config : Option String) : Reply :=
  let documents := do
    let input ← document? files PlanningInput.ofJson? input
    let config ← match config with
      | some path => document? files Config.ofJson? path
      | none => some {}
    return (input, config)
  match documents with
  | none => .failure 1
  | some (input, config) => match plan input config with
    | .ok outcome => ⟨0, outcomeText outcome⟩
    | .error (.fault _) => .failure 101
    | .error _ => .failure 1

/-- The reply to a request. The texts about the program and its documents are left empty. -/
def reply (files : String → Option String) : Request → Reply
  | .version => ⟨0, versionText⟩
  | .help | .describe => ⟨0, ""⟩
  | .plan input config => planFiles files input config

/-- The reply to a command line. Wrong usage ends with code 2. -/
def run (files : String → Option String) (environment : Option String) (arguments : List String) :
    Reply :=
  match parse arguments environment with
  | .ok request => reply files request
  | .error _ => .failure 2

/-- The files that a request reads. -/
def Request.files : Request → List String
  | .plan input config => input :: config.toList
  | _ => []

end Timetable.CommandLine
