import CommandFile.Context
import CommandFile.Quoting
import CommandFile.Text.Blank
set_option autoImplicit false

namespace CommandFile

inductive LineKind where
  | shortMacro (name : String) (replacement : List String)
  | longMacro (name : String)
  | inclusion (path : String)
  | command (tokens : List String)
  deriving DecidableEq

/-- A line that has the shape of no definition and no inclusion is a command, also where it nearly
has one. -/
def classify : List String → LineKind
  | "MACRO" :: name :: "=" :: token :: tokens => .shortMacro name (token :: tokens)
  | ["LONG", "MACRO", name] => .longMacro name
  | ["INCLUDE", path] => .inclusion path
  | tokens => .command tokens

def isContent (line : String) : Bool :=
  match Text.trim line.toList with
  | [] => false
  | c :: _ => c != '#'

inductive Item where
  | shortMacro (name : String) (replacement : List String)
  | longMacro (name : String) (body : List (List String))
  | inclusion (path : String)
  | command (tokens : List String)
  deriving DecidableEq

namespace Item

def includedPath? : Item → Option String
  | .inclusion path => some path
  | _ => none

def pendingLine? : Item → Option PendingLine
  | .command tokens => some ⟨tokens, true⟩
  | _ => none

def defineIn (m : Macros) : Item → Macros
  | .shortMacro name replacement => { m with short := m.short.define name replacement }
  | .longMacro name body => { m with long := m.long.define name body }
  | _ => m

end Item

/-- The context after the items have been read into it. An inclusion has no effect of its own: the
items of the file follow it. -/
def Context.store (c : Context) (items : List Item) : Context where
  macros := items.foldl Item.defineIn c.macros
  lines := c.lines ++ items.filterMap Item.pendingLine?

@[simp] theorem Context.store_nil (c : Context) : c.store [] = c := by
  simp [store]

theorem Context.store_append (c : Context) (as bs : List Item) :
    c.store (as ++ bs) = (c.store as).store bs := by
  simp [store]

end CommandFile
