import CommandFile.TextFile
import CommandFile.Text.Literal
set_option autoImplicit false

/-!
A store of files below one directory, which is where relative paths start. What lies outside of it
is not known: no name is found there.
-/
namespace CommandFile

inductive Refusal where
  | notFound
  | notDirectory
  | isDirectory
  | nameTooLong
  | other (code : Nat) (text : String)
  deriving DecidableEq

def Refusal.code : Refusal → Nat
  | .notFound => 2
  | .notDirectory => 20
  | .isDirectory => 21
  | .nameTooLong => 36
  | .other code _ => code

def Refusal.text : Refusal → String
  | .notFound => "No such file or directory"
  | .notDirectory => "Not a directory"
  | .isDirectory => "Is a directory"
  | .nameTooLong => "File name too long"
  | .other _ text => text

def Refusal.message (reason : Refusal) : String :=
  "[Errno " ++ toString reason.code ++ "] " ++ reason.text

def Refusal.ofCode (code : Nat) (text : String) : Refusal :=
  match [notFound, notDirectory, isDirectory, nameTooLong].find? (·.code == code) with
  | some reason => reason
  | none => .other code text

inductive FileError where
  | nulInPath
  | refused (reason : Refusal) (path : String)
  deriving DecidableEq

def FileError.message : FileError → String
  | .nulInPath => "embedded null byte"
  | .refused reason path => reason.message ++ ": " ++ Text.literal path

/-- What the system does when it does not write a file that the store would take: it refuses to open
the file, or it gives up after some octets have got into it. -/
inductive WriteFault where
  | unopened (reason : Refusal)
  | brokenOff (kept : Nat) (reason : Refusal)
  deriving DecidableEq

def WriteFault.reason : WriteFault → Refusal
  | .unopened reason => reason
  | .brokenOff _ reason => reason

inductive WriteError where
  | file (error : FileError)
  | brokenOff (reason : Refusal)
  deriving DecidableEq

/-- A write that breaks off does not tell the path. -/
def WriteError.message : WriteError → String
  | .file error => error.message
  | .brokenOff reason => reason.message

inductive ReadError where
  | file (error : FileError)
  | undecodable (fault : Text.Utf8.Fault)
  deriving DecidableEq

def ReadError.message : ReadError → String
  | .file error => error.message
  | .undecodable fault => fault.message

abbrev Opener := String → Except ReadError TextFile

inductive Node where
  | file (octets : List UInt8)
  | directory
  deriving DecidableEq

/-- Files and directories by the names that lead to them. The directories above an entry need no
entry of their own. -/
structure Store where
  entries : List (List String × Node)
  deriving DecidableEq

/-- Where a path leads. A vacant place is a name that its directory does not hold; outside of the
store it has no address. -/
inductive Place where
  | directory
  | file (address : List String) (octets : List UInt8)
  | vacant (address : Option (List String))

def pathNames (path : String) : List String :=
  ((path.toList.splitOn '/').map String.ofList).filter (· != "")

def endsInSlash (path : String) : Bool := path.toList.getLast? == some '/'

/-- The longest name, in octets. -/
def maxName : Nat := 255

def pathLimit : Nat := 4096

namespace Store

def empty : Store := ⟨[]⟩

def node? (s : Store) (address : List String) : Option Node :=
  match s.entries.lookup address with
  | some node => some node
  | none => if s.entries.any fun e => address.isPrefixOf e.1 then some .directory else none

def put (s : Store) (address : List String) (node : Node) : Store :=
  ⟨(address, node) :: s.entries.filter (·.1 != address)⟩

def walk (s : Store) (directory : Option (List String)) : List String → Except Refusal Place
  | [] => .ok .directory
  | name :: rest =>
    if name = "." then s.walk directory rest
    else if name = ".." then
      s.walk (directory.bind fun names => if names.isEmpty then none else some names.dropLast) rest
    else if maxName < name.utf8ByteSize then .error .nameTooLong
    else
      let address := directory.map (· ++ [name])
      match address.bind s.node?, rest with
      | some .directory, _ => s.walk address rest
      | some (.file octets), [] => .ok (.file (address.getD []) octets)
      | some (.file _), _ :: _ => .error .notDirectory
      | none, [] => .ok (.vacant address)
      | none, _ :: _ => .error .notFound

/-- The place at the end of the names along a path. The walk starts outside of the store if the path
starts with a slash. -/
def locate (s : Store) (path : String) (names : List String) : Except FileError Place :=
  if '\x00' ∈ path.toList then .error .nulInPath
  else if path = "" then .error (.refused .notFound path)
  else if pathLimit ≤ path.utf8ByteSize then .error (.refused .nameTooLong path)
  else
    let directory := if path.toList.head? = some '/' then none else some []
    match s.walk directory names with
    | .ok place => .ok place
    | .error reason => .error (.refused reason path)

/-- The octets of a file. A path that ends in a slash asks for a directory. -/
def read (s : Store) (path : String) : Except FileError (List UInt8) :=
  match s.locate path (pathNames path ++ if endsInSlash path then ["."] else []) with
  | .ok (.file _ octets) => .ok octets
  | .ok .directory => .error (.refused .isDirectory path)
  | .ok (.vacant _) => .error (.refused .notFound path)
  | .error e => .error e

def namesDirectory (path : String) : Bool :=
  endsInSlash path ||
    match (pathNames path).getLast? with
    | some name => name = "." || name = ".."
    | none => true

/-- The address where a file can be written: the directory above it must exist, and it must not be
a directory itself. -/
def writeAddress (s : Store) (path : String) : Except FileError (List String) :=
  match s.locate path ((pathNames path).dropLast ++ ["."]) with
  | .error e => .error e
  | .ok _ =>
    if namesDirectory path then .error (.refused .isDirectory path)
    else match s.locate path (pathNames path) with
      | .ok (.file address _) => .ok address
      | .ok (.vacant (some address)) => .ok address
      | .ok (.vacant none) => .error (.refused .notFound path)
      | .ok .directory => .error (.refused .isDirectory path)
      | .error e => .error e

/-- Opens a file to be written. It is there from then on, and holds nothing. -/
def create (s : Store) (path : String) (fault : Option WriteFault) :
    Except FileError (List String × Store) :=
  match s.writeAddress path, fault with
  | .error e, _ => .error e
  | .ok _, some (.unopened reason) => .error (.refused reason path)
  | .ok address, _ => .ok (address, s.put address (.file []))

def fill (s : Store) (address : List String) (octets : List UInt8) :
    Option WriteFault → Option WriteError × Store
  | some (.brokenOff kept reason) =>
    (some (.brokenOff reason), s.put address (.file (octets.take kept)))
  | _ => (none, s.put address (.file octets))

def write (s : Store) (path : String) (octets : List UInt8) (fault : Option WriteFault) :
    Option WriteError × Store :=
  match s.create path fault with
  | .error e => (some (.file e), s)
  | .ok (address, opened) => opened.fill address octets fault

def opener (s : Store) : Opener := fun path =>
  match s.read path with
  | .error e => .error (.file e)
  | .ok octets =>
    match TextFile.ofOctets octets with
    | .ok file => .ok file
    | .error fault => .error (.undecodable fault)

def textFiles (s : Store) : List TextFile :=
  s.entries.filterMap fun (_, node) =>
    match node with
    | .file octets => (TextFile.ofOctets octets).toOption
    | .directory => none

end Store
end CommandFile
