import CommandFile.Parse
set_option autoImplicit false

namespace CommandFile

inductive LogRecord where
  | longMacroRead (name : String) (lines : Nat)
  | inclusionMet (path : String)
  | passBegun (number : Nat)
  | shortReplaced (name : String) (replacement : List String)
  | expansionStopped (passes dirty : Nat)
  | commandAdded (tokens : List String)
  deriving DecidableEq

namespace LogRecord

def origin : LogRecord → String
  | .longMacroRead _ _ | .inclusionMet _ => "cmdfile.scanner"
  | .passBegun _ | .shortReplaced _ _ | .expansionStopped _ _ => "cmdfile.expander"
  | .commandAdded _ => "cmdfile.parser"

def message : LogRecord → String
  | .longMacroRead name lines =>
    "Parsed " ++ toString lines ++ "-line definition for long macro " ++ name
  | .inclusionMet path => "Got an include directive for file " ++ path
  | .passBegun number => "### Expansion iteration " ++ toString number
  | .shortReplaced name replacement =>
    "Expanding macro '" ++ name ++ "' to " ++ Text.listLiteral replacement
  | .expansionStopped passes dirty =>
    "Stopped after " ++ toString passes ++ " passes with " ++ toString dirty ++
      " line(s) still unexpanded"
  | .commandAdded tokens => "Adding line: " ++ Text.listLiteral tokens

def text (r : LogRecord) : String := r.origin ++ ": " ++ r.message ++ "\n"

end LogRecord

def Item.log? : Item → Option LogRecord
  | .longMacro name body => some (.longMacroRead name body.length)
  | .inclusion path => some (.inclusionMet path)
  | _ => none

def replacementLog? (short : Table (List String)) (token : String) : Option LogRecord := do
  let name ← Call.name? token
  let replacement ← short.find? name
  return .shortReplaced name replacement

/-- The replacements of one pass. A line with an unresolved call has none and ends the pass. -/
def passLog (m : Macros) : List PendingLine → List LogRecord
  | [] => []
  | line :: rest =>
    if line.dirty then
      match expandLine m line.tokens with
      | .ok _ => line.tokens.filterMap (replacementLog? m.short) ++ passLog m rest
      | .error _ => []
    else passLog m rest

def expansionLog (m : Macros) (passes : Nat) (lines : List PendingLine) : Nat → List LogRecord
  | 0 => if dirtyCount lines = 0 then [] else [.expansionStopped passes (dirtyCount lines)]
  | left + 1 =>
    if dirtyCount lines = 0 then []
    else .passBegun passes :: passLog m lines ++
      match Progress.run m ⟨[], dirtyCount lines⟩ lines with
      | .ok p => expansionLog m (passes + 1) p.done.reverse left
      | .error _ => []

def Reading.log (r : Reading) (cap : PassCap) : List LogRecord :=
  let scanned := r.items.filterMap Item.log?
  match r.failure with
  | some _ => scanned
  | none =>
    let c := Context.empty.store r.items
    let added :=
      match r.expand cap with
      | .ok lines => lines.map fun line => .commandAdded line.tokens
      | .error _ => []
    scanned ++ expansionLog c.macros 0 c.lines cap.passes ++ added

end CommandFile
