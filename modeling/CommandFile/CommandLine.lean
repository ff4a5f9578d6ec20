import CommandFile.Arguments
import CommandFile.Log
set_option autoImplicit false

namespace CommandFile.CommandLine

def usage : String := "usage: cmdfile [-h] [-o OUTPUT] [--max-passes MAX_PASSES] [-v] source\n"

def help : String :=
  usage ++
  "\n" ++
  "Command file macro expander\n" ++
  "\n" ++
  "positional arguments:\n" ++
  "  source                Input command file\n" ++
  "\n" ++
  "options:\n" ++
  "  -h, --help            show this help message and exit\n" ++
  "  -o OUTPUT             Write expanded command lines here\n" ++
  "  --max-passes MAX_PASSES\n" ++
  "                        Expansion pass cap (default 10)\n" ++
  "  -v, --verbose         Debug logging on stderr\n"

structure Output where
  exitCode : Nat
  stdout : String
  stderr : String
  deriving DecidableEq

/-- Why a run ends without an exit code. -/
inductive Abort where
  | endlessInclusion (path : String)
  | capWithoutValue
  | nulInOutputPath
  deriving DecidableEq

def Abort.message : Abort → String
  | .endlessInclusion path => (ScanError.endlessInclusion path).message
  | .capWithoutValue => "--max-passes has no value"
  | .nulInOutputPath => FileError.nulInPath.message

inductive Plan where
  | done (output : Output)
  | write (path text stderr : String)
  | abort (reason : Abort)
  deriving DecidableEq

def commandText (commands : List (List String)) : String :=
  String.ofList (commands.flatMap fun command => Quoting.quoteTokens command ++ ['\n'])

def failed (message stderr : String) : Output := ⟨1, "Error: " ++ message ++ "\n", stderr⟩

def planRequest (openFile : Opener) (limit : Nat) (environment : Option String) :
    Request → Plan
  | .help => .done ⟨0, help, ""⟩
  | .capWithoutValue => .abort .capWithoutValue
  | .expand source output maxPasses verbose =>
    match PassCap.choose maxPasses environment with
    | .error e => .done (failed e.message "")
    | .ok cap =>
      let reading := scan openFile limit source
      let stderr := if verbose then String.join ((reading.log cap).map LogRecord.text) else ""
      match reading.schedule cap (collector none) .empty with
      | (_, some (.parse (.scan (.endlessInclusion path)))) => .abort (.endlessInclusion path)
      | (_, some (.parse e)) => .done (failed e.message stderr)
      | (_, some (.refused e)) => .done (failed e.message stderr)
      | (collected, none) =>
        let text := commandText collected.commands.toList
        match output with
        | none => .done ⟨0, text, stderr⟩
        | some path => if path = "" then .done ⟨0, text, stderr⟩ else .write path text stderr

def plan (openFile : Opener) (limit : Nat) (environment : Option String)
    (arguments : List String) : Plan :=
  match Request.ofArguments arguments with
  | .error e => .done ⟨2, "", usage ++ "cmdfile: error: " ++ e.message ++ "\n"⟩
  | .ok request => planRequest openFile limit environment request

def source? (environment : Option String) (arguments : List String) : Option String :=
  match Request.ofArguments arguments with
  | .ok (.expand source _ maxPasses _) =>
    match PassCap.choose maxPasses environment with
    | .ok _ => some source
    | .error _ => none
  | _ => none

def written (path stderr : String) : Option WriteError → Except Abort Output
  | none => .ok ⟨0, "", stderr⟩
  | some (.file .nulInPath) => .error .nulInOutputPath
  | some e => .ok (failed ("cannot write " ++ path ++ ": " ++ e.message) stderr)

/-- Runs the program over the files of a store, and gives the store that it leaves. If nothing else
is said, the system writes what the store takes. -/
def run (files : Store) (environment : Option String) (arguments : List String)
    (fault : Option WriteFault := none) : Except Abort (Output × Store) :=
  match plan files.opener (nestingLimit files.textFiles) environment arguments with
  | .done output => .ok (output, files)
  | .abort reason => .error reason
  | .write path text stderr =>
    let (error, left) := files.write path (Text.Utf8.encode text.toList) fault
    (written path stderr error).map (·, left)

end CommandFile.CommandLine
