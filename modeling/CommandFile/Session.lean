import CommandFile.Parse
set_option autoImplicit false

namespace CommandFile.Session

inductive Step where
  | defineShort (name : String) (replacement : List String)
  | defineLong (name : String) (body : List (List String))
  | addLine (tokens : List String)
  | scan (path : String)
  | expand (cap : Int)
  | emit (limit : Option Nat)
  deriving DecidableEq

inductive Report where
  | changed
  | scanned (opened : List String) (failure : Option ScanError)
  | expanded (result : Except UnresolvedMacro Nat)
  | emitted (commands : List (List String)) (failure : Option CollectorFull)

def Step.run (files : Store) (c : Context) : Step → Context × Report
  | .defineShort name replacement => (c.defineShort name replacement, .changed)
  | .defineLong name body => (c.defineLong name body, .changed)
  | .addLine tokens => (c.addLine tokens, .changed)
  | .scan path =>
    let r := files.scan path
    (c.store r.items, .scanned (openedPaths path r) r.failure)
  | .expand cap =>
    let (next, result) := c.expand cap
    (next, .expanded result)
  | .emit limit =>
    let (collected, failure) := CommandFile.emit (collector limit) .empty c.lines
    (c, .emitted collected.commands.toList failure)

end CommandFile.Session
