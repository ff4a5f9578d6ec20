import CommandFile.Text.Blank
import CommandFile.Text.DecimalDigit
set_option autoImplicit false

namespace CommandFile.Text

/-- More digits than this are no integer. Underscores do not count, leading zeros do. -/
def maxDigits : Nat := 4300

/-- The blanks that may surround an integer: all but the separators from U+001C to U+001F. -/
def isMargin (c : Char) : Bool := isBlank c && !(28 ≤ c.toNat && c.toNat ≤ 31)

def withoutMargins (cs : List Char) : List Char :=
  ((cs.dropWhile isMargin).reverse.dropWhile isMargin).reverse

/-- The digits' values, where `afterDigit` tells whether an underscore may come next. -/
def digits? (afterDigit : Bool) : List Char → Option (List Nat)
  | [] => if afterDigit then some [] else none
  | c :: rest =>
    if c = '_' then if afterDigit then digits? false rest else none
    else match digitValue? c with
      | some d => (digits? true rest).map (d :: ·)
      | none => none

def ofDigits (ds : List Nat) : Nat := ds.foldl (fun n d => n * 10 + d) 0

def natural? (cs : List Char) : Option Nat :=
  match digits? false cs with
  | some ds => if ds.length ≤ maxDigits then some (ofDigits ds) else none
  | none => none

def integer? (text : String) : Option Int :=
  match withoutMargins text.toList with
  | '-' :: rest => (natural? rest).map fun n => -(n : Int)
  | '+' :: rest => (natural? rest).map Int.ofNat
  | cs => (natural? cs).map Int.ofNat

end CommandFile.Text
