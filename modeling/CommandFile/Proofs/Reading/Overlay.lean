import CommandFile.Proofs.Reading.Walk
import CommandFile.Proofs.Reading.Effects
import CommandFile.Session
set_option autoImplicit false

namespace CommandFile

/-- `result` is what `more` makes of `c` when it is laid over it. Its lines come behind the ones of
`c`, and all of them are dirty. Its definitions of a name hide the ones of `c`. -/
structure Context.Overlaid (c more result : Context) : Prop where
  lines : result.lines = c.lines ++ more.lines
  dirty : ∀ line ∈ more.lines, line.dirty = true
  short : ∀ name, result.macros.short.find? name =
    (more.macros.short.find? name).or (c.macros.short.find? name)
  long : ∀ name, result.macros.long.find? name =
    (more.macros.long.find? name).or (c.macros.long.find? name)

namespace Context

theorem overlaid_empty (c : Context) : c.Overlaid .empty c where
  lines := (List.append_nil c.lines).symm
  dirty := List.forall_mem_nil _
  short _ := rfl
  long _ := rfl

theorem Overlaid.store {c more result : Context} (h : c.Overlaid more result) (items : List Item) :
    c.Overlaid (more.store items) (result.store items) where
  lines := by simp only [Context.store, h.lines, List.append_assoc]
  dirty line hline :=
    (List.mem_append.mp hline).elim (h.dirty line) fun hmore => (mem_pendingLines.mp hmore).1
  short name := by rw [find?_short_store, find?_short_store, h.short, Option.or_assoc]
  long name := by rw [find?_long_store, find?_long_store, h.long, Option.or_assoc]

end Context

/-- A scan into a context opens the same files in the same order as one into an empty context, and
fails in the same way if it fails. Whether or not it fails, it leaves what the other one leaves, laid
over the context. A step of a session is such a scan. -/
theorem scan_ignores_context (c : Context) (path : String) :
    (∀ openFile limit opened, ∃ paths failure fresh result,
      walk openFile limit path ⟨.empty, []⟩ = (⟨fresh, paths⟩, failure) ∧
      walk openFile limit path ⟨c, opened⟩ = (⟨result, opened ++ paths⟩, failure) ∧
      c.Overlaid fresh result) ∧
    ∀ files : Store, ∃ paths failure fresh result,
      Session.Step.run files .empty (.scan path) = (fresh, .scanned paths failure) ∧
      Session.Step.run files c (.scan path) = (result, .scanned paths failure) ∧
      walk files.opener (nestingLimit files.textFiles) path ⟨c, []⟩ = (⟨result, paths⟩, failure) ∧
      c.Overlaid fresh result := by
  constructor
  · intro openFile limit opened
    exact ⟨_, _, _, _, walk_mk_eq openFile limit path .empty [],
      walk_mk_eq openFile limit path c opened, c.overlaid_empty.store _⟩
  · intro files
    exact ⟨_, _, _, _, rfl, rfl, walk_mk_eq files.opener _ path c [], c.overlaid_empty.store _⟩

end CommandFile
