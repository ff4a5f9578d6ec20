import CommandFile.Context
import CommandFile.Macro.Call
set_option autoImplicit false

/-!
Macro expansion. It runs in passes over the pending lines. In a pass every dirty line has all its
short calls replaced once, and then its first call fanned out if that is a long one. A line that
needed neither becomes clean.
-/
namespace CommandFile

structure UnresolvedMacro where
  name : String
  deriving DecidableEq

def UnresolvedMacro.message (e : UnresolvedMacro) : String :=
  "Macro call '" ++ e.name ++ "' does not match any macro definitions."

def Table.called? {α : Type} (t : Table α) (token : String) : Option α :=
  (Call.name? token).bind t.find?

/-- Replaces the calls among the tokens. The tokens before them are given newest first; `changed`
tells whether one of these has been replaced. Replacements are not looked through. -/
def substituteFrom (short : Table (List String)) (before : List String) (changed : Bool) :
    List String → List String × Bool
  | [] => (before.reverse, changed)
  | token :: rest =>
    match short.called? token with
    | some replacement => substituteFrom short (replacement.reverse ++ before) true rest
    | none => substituteFrom short (token :: before) changed rest

def substitute (short : Table (List String)) (tokens : List String) : List String × Bool :=
  substituteFrom short [] false tokens

structure FirstCall where
  before : List String
  name : String
  after : List String
  deriving DecidableEq

def firstCallFrom (before : List String) : List String → Option FirstCall
  | [] => none
  | token :: rest =>
    match Call.name? token with
    | some name => some ⟨before.reverse, name, rest⟩
    | none => firstCallFrom (token :: before) rest

def firstCall (tokens : List String) : Option FirstCall := firstCallFrom [] tokens

/-- The lines that take the place of the tokens if their first call is that of a long macro: one for
each line of the body. A first call of no long macro is an error if definitions are required. -/
def fanOut (long : Table (List (List String))) (tokens : List String) (requireDefined : Bool) :
    Except UnresolvedMacro (Option (List (List String))) :=
  match firstCall tokens with
  | none => .ok none
  | some call =>
    match long.find? call.name with
    | some body => .ok (some (body.map fun line => call.before ++ line ++ call.after))
    | none => if requireDefined then .error ⟨call.name⟩ else .ok none

/-- The lines that take the place of a dirty line with the given tokens. An undefined call is
tolerated in a line that has just changed, which the next pass looks at again. -/
def expandLine (m : Macros) (tokens : List String) : Except UnresolvedMacro (List PendingLine) :=
  let (substituted, changed) := substitute m.short tokens
  match fanOut m.long substituted (!changed) with
  | .error e => .error e
  | .ok none => .ok [⟨substituted, changed⟩]
  | .ok (some lines) => .ok (lines.map fun line => ⟨line, true⟩)

/-- How far a pass has come: the lines it has left behind, newest first, and how many lines are
dirty altogether, those ahead of it included. -/
structure Progress where
  done : List PendingLine
  dirty : Nat

def Progress.step (m : Macros) (p : Progress) (line : PendingLine) :
    Except UnresolvedMacro Progress :=
  if line.dirty then
    match expandLine m line.tokens with
    | .ok lines => .ok ⟨lines.reverse ++ p.done, p.dirty - 1 + dirtyCount lines⟩
    | .error e => .error e
  else .ok ⟨line :: p.done, p.dirty⟩

structure Interrupted where
  error : UnresolvedMacro
  lines : List PendingLine
  deriving DecidableEq

def Progress.run (m : Macros) (p : Progress) : List PendingLine → Except Interrupted Progress
  | [] => .ok p
  | line :: rest =>
    match p.step m line with
    | .ok next => next.run m rest
    | .error e => .error ⟨e, p.done.reverse ++ line :: rest⟩

structure Expanded where
  lines : List PendingLine
  passes : Nat
  deriving DecidableEq

/-- Goes on after `passes` passes, for `left` more at most, as long as lines are dirty. -/
def expandFrom (m : Macros) (passes : Nat) (lines : List PendingLine) (dirty : Nat) :
    Nat → Except Interrupted Expanded
  | 0 => .ok ⟨lines, passes⟩
  | left + 1 =>
    if dirty = 0 then .ok ⟨lines, passes⟩
    else match Progress.run m ⟨[], dirty⟩ lines with
      | .ok p => expandFrom m (passes + 1) p.done.reverse p.dirty left
      | .error e => .error e

def expandLines (m : Macros) (lines : List PendingLine) (cap : Int) : Except Interrupted Expanded :=
  expandFrom m 0 lines (dirtyCount lines) cap.toNat

def defaultCap : Nat := 10

def Context.expand (c : Context) (cap : Int) : Context × Except UnresolvedMacro Nat :=
  match expandLines c.macros c.lines cap with
  | .ok e => ({ c with lines := e.lines }, .ok e.passes)
  | .error e => ({ c with lines := e.lines }, .error e.error)

end CommandFile
