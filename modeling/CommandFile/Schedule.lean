import CommandFile.Context
set_option autoImplicit false

namespace CommandFile

structure Scheduler (σ ε : Type) where
  add : σ → List String → σ × Option ε

def emit {σ ε : Type} (s : Scheduler σ ε) (state : σ) : List PendingLine → σ × Option ε
  | [] => (state, none)
  | line :: rest =>
    match s.add state line.tokens with
    | (next, none) => emit s next rest
    | (next, some e) => (next, some e)

structure Collected where
  commands : Array (List String)
  deriving DecidableEq

def Collected.empty : Collected := ⟨#[]⟩

structure CollectorFull where
  deriving DecidableEq

def CollectorFull.message (_ : CollectorFull) : String := "scheduler full"

/-- Collects commands. With a limit it still takes the command that reaches it, and then refuses. -/
def collector (limit : Option Nat) : Scheduler Collected CollectorFull where
  add state command :=
    let next : Collected := ⟨state.commands.push command⟩
    (next, if limit = some next.commands.size then some ⟨⟩ else none)

end CommandFile
