import CommandFile.Text.Unprintable
set_option autoImplicit false

namespace CommandFile.Text

/-- Single quotes, unless the text holds single quotes and no double ones. -/
def delimiter (cs : List Char) : Char := if '\'' ∈ cs ∧ '"' ∉ cs then '"' else '\''

def hexDigits : Nat → Nat → List Char
  | 0, _ => []
  | width + 1, n => hexDigits width (n / 16) ++ [Nat.digitChar (n % 16)]

@[simp] theorem length_hexDigits (width n : Nat) : (hexDigits width n).length = width := by
  induction width generalizing n with
  | zero => rfl
  | succ width ih => simp [hexDigits, ih]

def codePointEscape (n : Nat) : List Char :=
  if n < 0x100 then '\\' :: 'x' :: hexDigits 2 n
  else if n < 0x10000 then '\\' :: 'u' :: hexDigits 4 n
  else '\\' :: 'U' :: hexDigits 8 n

def literalChar (quote c : Char) : List Char :=
  if c = quote ∨ c = '\\' then ['\\', c]
  else if c = '\t' then ['\\', 't']
  else if c = '\n' then ['\\', 'n']
  else if c = '\r' then ['\\', 'r']
  else if isUnprintable c then codePointEscape c.toNat
  else [c]

def literal (text : String) : String :=
  let cs := text.toList
  let quote := delimiter cs
  String.ofList (quote :: cs.flatMap (literalChar quote) ++ [quote])

def listLiteral (texts : List String) : String :=
  "[" ++ ", ".intercalate (texts.map literal) ++ "]"

end CommandFile.Text
