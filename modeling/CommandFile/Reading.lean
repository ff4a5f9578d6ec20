import CommandFile.Item
import CommandFile.Store
set_option autoImplicit false

/-!
Reading command files. A file is first read into items by itself. The items of the files that it
includes are then put behind the inclusions, so that one list of items tells all that a scan reads,
in the order in which it is read.
-/
namespace CommandFile

inductive ScanError where
  | unreadable (error : ReadError)
  | unmatchedQuotes (path : String) (lineNumber : Nat) (error : UnmatchedQuotes)
  | unterminatedMacro (name : String)
  | endlessInclusion (path : String)
  deriving DecidableEq

def ScanError.message : ScanError → String
  | .unreadable error => error.message
  | .unmatchedQuotes path lineNumber error =>
    path ++ ":" ++ toString lineNumber ++ ": " ++ error.message
  | .unterminatedMacro name =>
    "Syntax error: Unexpected EOF while reading definition for LONG MACRO " ++ name ++ "."
  | .endlessInclusion path => "Endless inclusion: " ++ path

/-- The items that have been completed, and what stopped the reading before its end. -/
structure Reading where
  items : List Item
  failure : Option ScanError
  deriving DecidableEq

namespace Reading

def failed (e : ScanError) : Reading := ⟨[], some e⟩

def cons (item : Item) (r : Reading) : Reading := { r with items := item :: r.items }

def inclusions (r : Reading) : List String := r.items.filterMap Item.includedPath?

end Reading

def endMacro : String := "END MACRO"

/-- A long macro whose end has not been reached, with its lines newest first. -/
structure OpenMacro where
  name : String
  body : List (List String)

def endOfLines (tailFault : Option Text.Utf8.Fault) (begun : Option OpenMacro) : Reading :=
  match tailFault, begun with
  | some fault, _ => .failed (.unreadable (.undecodable fault))
  | none, some m => .failed (.unterminatedMacro m.name)
  | none, none => ⟨[], none⟩

/-- The items of the lines from `number` on, where a long macro may have begun before. Inside a long
macro no line is a definition or an inclusion. -/
def readLines (path : String) (tailFault : Option Text.Utf8.Fault) (number : Nat) :
    Option OpenMacro → List String → Reading
  | begun, [] => endOfLines tailFault begun
  | some m, raw :: rest =>
    let line := Text.strip raw
    if line = endMacro then
      (readLines path tailFault (number + 1) none rest).cons (.longMacro m.name m.body.reverse)
    else if isContent line then
      match tokenize line with
      | .ok tokens =>
        readLines path tailFault (number + 1) (some ⟨m.name, tokens :: m.body⟩) rest
      | .error e => .failed (.unmatchedQuotes path number e)
    else readLines path tailFault (number + 1) (some m) rest
  | none, raw :: rest =>
    let line := Text.strip raw
    if isContent line then
      match tokenize line with
      | .ok tokens =>
        match classify tokens with
        | .shortMacro name replacement =>
          (readLines path tailFault (number + 1) none rest).cons (.shortMacro name replacement)
        | .longMacro name => readLines path tailFault (number + 1) (some ⟨name, []⟩) rest
        | .inclusion included =>
          (readLines path tailFault (number + 1) none rest).cons (.inclusion included)
        | .command tokens =>
          (readLines path tailFault (number + 1) none rest).cons (.command tokens)
      | .error e => .failed (.unmatchedQuotes path number e)
    else readLines path tailFault (number + 1) none rest

def readFile (path : String) (file : TextFile) : Reading :=
  readLines path file.tailFault 1 none file.lines

/-- The items, each inclusion followed by what `read` gives for its path. The first failure ends the
reading. -/
def inlineItems (read : String → Reading) : List Item → Reading
  | [] => ⟨[], none⟩
  | .inclusion path :: rest =>
    match read path with
    | ⟨items, none⟩ =>
      let after := inlineItems read rest
      ⟨.inclusion path :: items ++ after.items, after.failure⟩
    | ⟨items, some e⟩ => ⟨.inclusion path :: items, some e⟩
  | item :: rest => (inlineItems read rest).cons item

/-- Reads a file and the files it includes. No more than `limit` files may be open at a time. -/
def scan (openFile : Opener) : Nat → String → Reading
  | 0, path => .failed (.endlessInclusion path)
  | limit + 1, path =>
    match openFile path with
    | .error e => .failed (.unreadable e)
    | .ok file =>
      let own := readFile path file
      match inlineItems (scan openFile limit) own.items with
      | ⟨items, none⟩ => ⟨items, own.failure⟩
      | stopped => stopped

def openedPaths (path : String) (r : Reading) : List String := path :: r.inclusions

def inclusionPaths (files : List TextFile) : List String :=
  (files.flatMap fun file => (readFile "" file).inclusions).eraseDups

/-- A limit that only an endless chain of inclusions exceeds: along any other chain the paths differ,
and all but the first are among those that the files include. -/
def nestingLimit (files : List TextFile) : Nat := (inclusionPaths files).length + 2

def Store.scan (s : Store) (path : String) : Reading :=
  CommandFile.scan s.opener (nestingLimit s.textFiles) path

end CommandFile
