import CommandFile.CommandLine
set_option autoImplicit false

/-!
The program on real files. It loads the source and all that is included from it, works on what it
has loaded, and then writes what is to be written.
-/
namespace CommandFile.Program

/-- The refusal by a code, which some system calls give negated. -/
def ofCode (code : UInt32) (text : String) : Refusal :=
  Refusal.ofCode (if code < 0x80000000 then code else 0 - code).toNat text

def refusal : IO.Error → Refusal
  | .alreadyExists _ code text | .invalidArgument _ code text | .permissionDenied _ code text
  | .resourceExhausted _ code text | .inappropriateType _ code text | .noSuchThing _ code text
  | .interrupted _ code text | .noFileOrDirectory _ code text | .otherError code text
  | .resourceBusy code text | .resourceVanished code text | .unsupportedOperation code text
  | .hardwareFault code text | .unsatisfiedConstraints code text | .illegalOperation code text
  | .protocolError code text | .timeExpired code text => ofCode code text
  | .unexpectedEof => .other 5 "Input/output error"
  | .userError text => .other 5 text

def readFile (path : String) : IO (Except ReadError TextFile) := do
  if path.contains '\x00' then return .error (.file .nulInPath)
  try
    match TextFile.ofOctets (← IO.FS.readBinFile path).toList with
    | .ok file => return .ok file
    | .error fault => return .error (.undecodable fault)
  catch e => return .error (.file (.refused (refusal e) path))

def openForWriting (path : String) : IO (Except FileError IO.FS.Handle) := do
  if path.contains '\x00' then return .error .nulInPath
  try return .ok (← IO.FS.Handle.mk path .write)
  catch e => return .error (.refused (refusal e) path)

def writeFile (path text : String) : IO (Option WriteError) := do
  match ← openForWriting path with
  | .error e => return some (.file e)
  | .ok handle =>
    try
      handle.write (Text.Utf8.encode text.toList).toByteArray
      handle.flush
      return none
    catch e => return some (.brokenOff (refusal e))

abbrev Loaded := List (String × Except ReadError TextFile)

partial def load (loaded : Loaded) : List String → IO Loaded
  | [] => return loaded
  | path :: rest => do
    if (loaded.lookup path).isSome then load loaded rest
    else
      let file ← readFile path
      let included :=
        match file with
        | .ok text => (CommandFile.readFile path text).inclusions
        | .error _ => []
      load ((path, file) :: loaded) (included ++ rest)

def finish : Except CommandLine.Abort CommandLine.Output → IO UInt32
  | .ok output => do
    IO.print output.stdout
    IO.eprint output.stderr
    return output.exitCode.toUInt32
  | .error reason => do
    IO.eprintln reason.message
    return 1

def run (arguments : List String) : IO UInt32 := do
  let environment ← IO.getEnv "CMDFILE_MAX_PASSES"
  let loaded ← load [] (CommandLine.source? environment arguments).toList
  let openFile : Opener := fun path =>
    (loaded.lookup path).getD (.error (.file (.refused .notFound path)))
  let limit := nestingLimit (loaded.filterMap fun (_, file) => file.toOption)
  match CommandLine.plan openFile limit environment arguments with
  | .done output => finish (.ok output)
  | .abort reason => finish (.error reason)
  | .write path text stderr => do
    finish (CommandLine.written path stderr (← writeFile path text))

end CommandFile.Program

def main (arguments : List String) : IO UInt32 := CommandFile.Program.run arguments
