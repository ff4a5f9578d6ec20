set_option autoImplicit false

/-!
The lines of a text. A line feed, a carriage return, and a carriage return with a line feed after
it each end a line, and nothing else does. No line holds either character.
-/
namespace CommandFile.Text

/-- The ended lines, without their ends, and what follows the last end. The beginning of the first
line stands in `begun`, newest first. -/
def splitLines (begun : List Char) : List Char → List (List Char) × List Char
  | [] => ([], begun.reverse)
  | '\r' :: '\n' :: rest =>
    let (lines, tail) := splitLines [] rest
    (begun.reverse :: lines, tail)
  | c :: rest =>
    if c = '\n' ∨ c = '\r' then
      let (lines, tail) := splitLines [] rest
      (begun.reverse :: lines, tail)
    else splitLines (c :: begun) rest

def lines (cs : List Char) : List (List Char) :=
  let (ended, tail) := splitLines [] cs
  if tail.isEmpty then ended else ended ++ [tail]

/-- The lines that are sure to have ended, whatever comes after the text: a carriage return at its
end does not end one, because a line feed may belong to it. -/
def endedLines (cs : List Char) : List (List Char) :=
  (splitLines [] (if cs.getLast? = some '\r' then cs.dropLast else cs)).1

end CommandFile.Text
