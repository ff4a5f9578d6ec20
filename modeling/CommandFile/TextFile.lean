import CommandFile.Text.Lines
import CommandFile.Text.Utf8
set_option autoImplicit false

/-!
A text file as its reader meets it: octets that encode no text are found before the first line, but
octets left over at the end only after the last one.
-/
namespace CommandFile

/-- The lines that can be read, and the fault that is met after the last of them, if any. -/
structure TextFile where
  lines : List String
  tailFault : Option Text.Utf8.Fault
  deriving DecidableEq

def TextFile.ofOctets (octets : List UInt8) : Except Text.Utf8.Fault TextFile :=
  match Text.Utf8.decode octets with
  | .error fault => .error fault
  | .ok ⟨text, none⟩ => .ok ⟨(Text.lines text).map String.ofList, none⟩
  | .ok ⟨text, some fault⟩ => .ok ⟨(Text.endedLines text).map String.ofList, some fault⟩

end CommandFile
