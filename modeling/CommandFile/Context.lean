import CommandFile.Macro.Table
set_option autoImplicit false

namespace CommandFile

/-- A short macro stands for the tokens of its replacement, a long one for the lines of its body. -/
structure Macros where
  short : Table (List String)
  long : Table (List (List String))
  deriving DecidableEq

/-- A command line that waits for expansion. While it is dirty it may hold macro calls. -/
structure PendingLine where
  tokens : List String
  dirty : Bool
  deriving DecidableEq

def dirtyCount (lines : List PendingLine) : Nat := lines.countP (·.dirty)

@[simp] theorem dirtyCount_nil : dirtyCount [] = 0 := rfl

@[simp] theorem dirtyCount_cons (line : PendingLine) (lines : List PendingLine) :
    dirtyCount (line :: lines) = dirtyCount lines + if line.dirty then 1 else 0 := by
  simp [dirtyCount, List.countP_cons]

@[simp] theorem dirtyCount_append (as bs : List PendingLine) :
    dirtyCount (as ++ bs) = dirtyCount as + dirtyCount bs := List.countP_append

structure Context where
  macros : Macros
  lines : List PendingLine
  deriving DecidableEq

namespace Context

def empty : Context := ⟨⟨.empty, .empty⟩, []⟩

def defineShort (c : Context) (name : String) (replacement : List String) : Context :=
  { c with macros.short := c.macros.short.define name replacement }

def defineLong (c : Context) (name : String) (body : List (List String)) : Context :=
  { c with macros.long := c.macros.long.define name body }

def addLine (c : Context) (tokens : List String) : Context :=
  { c with lines := c.lines ++ [⟨tokens, true⟩] }

def mark (c : Context) (index : Nat) (dirty : Bool) : Context :=
  { c with lines := c.lines.modify index fun line => { line with dirty } }

end Context
end CommandFile
