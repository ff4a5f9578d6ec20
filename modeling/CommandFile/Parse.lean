import CommandFile.Expansion
import CommandFile.PassCap
import CommandFile.Reading
import CommandFile.Schedule
set_option autoImplicit false

namespace CommandFile

inductive ParseError where
  | scan (error : ScanError)
  | unresolved (error : UnresolvedMacro)
  deriving DecidableEq

def ParseError.message : ParseError → String
  | .scan error => error.message
  | .unresolved error => error.message

def Reading.expand (r : Reading) (cap : PassCap) : Except ParseError (List PendingLine) :=
  match r.failure with
  | some e => .error (.scan e)
  | none =>
    match (Context.empty.store r.items).expand cap.passes with
    | (c, .ok _) => .ok c.lines
    | (_, .error e) => .error (.unresolved e)

inductive ParseFailure (ε : Type) where
  | parse (error : ParseError)
  | refused (error : ε)

def Reading.schedule {σ ε : Type} (r : Reading) (cap : PassCap) (s : Scheduler σ ε) (state : σ) :
    σ × Option (ParseFailure ε) :=
  match r.expand cap with
  | .error e => (state, some (.parse e))
  | .ok lines =>
    match emit s state lines with
    | (state, none) => (state, none)
    | (state, some e) => (state, some (.refused e))

def Store.parse {σ ε : Type} (files : Store) (path : String) (cap : PassCap) (s : Scheduler σ ε)
    (state : σ) : σ × Option (ParseFailure ε) :=
  (files.scan path).schedule cap s state

end CommandFile
