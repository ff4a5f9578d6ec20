set_option autoImplicit false

/-!
The quoting of command lines. Spaces and tabs separate tokens, except inside double quotes. The
quotes themselves are dropped; a backslash is special only right before a quote, where it makes the
quote an ordinary character. Quoting writes tokens so that tokenizing gives them back.
-/
namespace CommandFile

structure UnmatchedQuotes where
  line : String
  deriving DecidableEq

def UnmatchedQuotes.message (e : UnmatchedQuotes) : String := "Unmatched quotes: " ++ e.line

namespace Quoting

def isSeparator (c : Char) : Bool := c == ' ' || c == '\t'

/-- The token whose characters are given newest first, in front of other tokens. There are no empty
tokens. -/
def pushToken (token : List Char) (tokens : List String) : List String :=
  if token.isEmpty then tokens else String.ofList token.reverse :: tokens

@[simp] theorem pushToken_nil (tokens : List String) : pushToken [] tokens = tokens := rfl

@[simp] theorem pushToken_cons (c : Char) (cs : List Char) (tokens : List String) :
    pushToken (c :: cs) tokens = String.ofList (c :: cs).reverse :: tokens := rfl

/-- The tokens of the rest of a line. `quoted` tells whether it begins inside quotes, and `token`
is the token begun before it, newest character first. There are none if the line ends inside
quotes. -/
def split (quoted : Bool) (token : List Char) : List Char → Option (List String)
  | [] => if quoted then none else some (pushToken token [])
  | '\\' :: '"' :: rest => split quoted ('"' :: token) rest
  | c :: rest =>
    if c = '"' then split (!quoted) token rest
    else if isSeparator c && !quoted then (split false [] rest).map (pushToken token)
    else split quoted (c :: token) rest

def escape : List Char → List Char
  | [] => []
  | c :: cs => if c = '"' then '\\' :: '"' :: escape cs else c :: escape cs

theorem escape_append (as bs : List Char) : escape (as ++ bs) = escape as ++ escape bs := by
  induction as with
  | nil => rfl
  | cons c cs ih => by_cases h : c = '"' <;> simp [escape, h, ih]

def splitBackslashes (cs : List Char) : List Char × List Char :=
  ((cs.reverse.dropWhile (· == '\\')).reverse, (cs.reverse.takeWhile (· == '\\')).reverse)

/-- A token in quoted form. Quotes stand around it if it holds a separator; the backslashes at its
end come after the closing quote, which they would escape. -/
def quoteToken (token : List Char) : List Char :=
  let escaped := escape token
  if token.any isSeparator then
    let (body, backslashes) := splitBackslashes escaped
    '"' :: body ++ '"' :: backslashes
  else escaped

def quoteTokens : List String → List Char
  | [] => []
  | [token] => quoteToken token.toList
  | token :: tokens => quoteToken token.toList ++ ' ' :: quoteTokens tokens

end Quoting

def tokenize (line : String) : Except UnmatchedQuotes (List String) :=
  match Quoting.split false [] line.toList with
  | some tokens => .ok tokens
  | none => .error ⟨line⟩

def quoteLine (tokens : List String) : String := String.ofList (Quoting.quoteTokens tokens)

end CommandFile
