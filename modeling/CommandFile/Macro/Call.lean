set_option autoImplicit false

namespace CommandFile.Call

/-- The letters of the Latin alphabet, and the four characters that become one of them when case is
ignored: I with a dot above, i without one, long s, and the kelvin sign. -/
def isLetter (c : Char) : Bool :=
  c.isAlpha || c == '\u0130' || c == '\u0131' || c == '\u017F' || c == '\u212A'

def isNameChar (c : Char) : Bool := isLetter c || c.isDigit || c == '_' || c == '-'

def isName : List Char → Bool
  | [] => false
  | c :: cs => isLetter c && cs.all isNameChar

def token (name : String) : String := name ++ "()"

def name? (token : String) : Option String :=
  let name := token.toList.takeWhile isNameChar
  if isName name && token.toList.dropWhile isNameChar == ['(', ')'] then some (String.ofList name)
  else none

end CommandFile.Call
