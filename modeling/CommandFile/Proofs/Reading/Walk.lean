import CommandFile.Proofs.Reading.Steps
set_option autoImplicit false

/-!
Reading into a shared context. The files are read by one walk that stores each item when its line
has been read and goes into an included file before the next line. Whether it succeeds or fails, it
leaves what the items of a scan amount to, and has opened the files in the order of these items.
-/
namespace CommandFile

/-- What all files of a walk share: the context they are read into, and the paths opened so far. -/
structure Walk where
  context : Context
  opened : List String
  deriving DecidableEq

namespace Walk

def opening (w : Walk) (path : String) : Walk := { w with opened := w.opened ++ [path] }

def store (w : Walk) (items : List Item) : Walk := { w with context := w.context.store items }

def after (w : Walk) (r : Reading) : Walk × Option ScanError :=
  (⟨w.context.store r.items, w.opened ++ r.inclusions⟩, r.failure)

end Walk

def walkLines (visit : String → Walk → Walk × Option ScanError) (path : String)
    (tailFault : Option Text.Utf8.Fault) (number : Nat) :
    Option OpenMacro → List String → Walk → Walk × Option ScanError
  | begun, [], w => (w, (endOfLines tailFault begun).failure)
  | begun, raw :: rest, w =>
    match readLine begun raw with
    | .error e => (w, some (.unmatchedQuotes path number e))
    | .ok (next, item) =>
      match item.bind Item.includedPath? with
      | some included =>
        match visit included w with
        | (w, none) => walkLines visit path tailFault (number + 1) next rest w
        | stopped => stopped
      | none => walkLines visit path tailFault (number + 1) next rest (w.store item.toList)

/-- Walks along a file and the files that it includes. A path is noted before it is opened. -/
def walk (openFile : Opener) : Nat → String → Walk → Walk × Option ScanError
  | 0, path, w => (w.opening path, some (.endlessInclusion path))
  | limit + 1, path, w =>
    match openFile path with
    | .error e => (w.opening path, some (.unreadable e))
    | .ok file =>
      walkLines (walk openFile limit) path file.tailFault 1 none file.lines (w.opening path)

/-- A file's own reading with the inclusions inlined. A failure inside of an included file comes
before the one of the file itself. -/
def Reading.inlined (read : String → Reading) (own : Reading) : Reading :=
  match inlineItems read own.items with
  | ⟨items, none⟩ => ⟨items, own.failure⟩
  | stopped => stopped

theorem scan_succ (openFile : Opener) (limit : Nat) (path : String) :
    scan openFile (limit + 1) path =
      match openFile path with
      | .error e => .failed (.unreadable e)
      | .ok file => (readFile path file).inlined (scan openFile limit) := by
  rw [scan]
  cases openFile path <;> rfl

namespace Reading

variable {read : String → Reading} {own : Reading}

theorem inlined_of_nil {failure : Option ScanError} :
    inlined read ⟨[], failure⟩ = ⟨[], failure⟩ := rfl

theorem inlined_prepend_of_ne {item : Item} (h : item.includedPath? = none) :
    (own.prepend [item]).inlined read = (own.inlined read).prepend [item] := by
  simp only [inlined, items_prepend, failure_prepend, List.singleton_append, inlineItems_cons h,
    cons]
  cases inlineItems read own.items with
  | mk items failure => cases failure <;> rfl

theorem inlined_prepend_inclusion {path : String} (h : (read path).failure = none) :
    (own.prepend [.inclusion path]).inlined read =
      (own.inlined read).prepend (.inclusion path :: (read path).items) := by
  simp only [inlined, items_prepend, failure_prepend, List.singleton_append,
    inlineItems_inclusion_of_success h]
  cases inlineItems read own.items with
  | mk items failure => cases failure <;> rfl

theorem inlined_prepend_failure {path : String} {e : ScanError}
    (h : (read path).failure = some e) :
    (own.prepend [.inclusion path]).inlined read =
      ⟨.inclusion path :: (read path).items, some e⟩ := by
  simp [inlined, inlineItems_inclusion_of_failure h]

end Reading

namespace Walk

theorem after_prepend (w : Walk) {item : Item} (h : item.includedPath? = none) (r : Reading) :
    w.after (r.prepend [item]) = (w.store [item]).after r := by
  have hstore := w.context.store_cons item r.items
  simp [after, store, Reading.inclusions, hstore, h]

theorem after_inclusion (w : Walk) (path : String) (inner r : Reading) :
    w.after (r.prepend (.inclusion path :: inner.items)) =
      ((w.opening path).after inner).1.after r := by
  have hstore := w.context.store_append inner.items r.items
  simp [after, opening, Reading.inclusions, hstore, Item.includedPath?]

end Walk

theorem walkLines_eq {visit : String → Walk → Walk × Option ScanError} {read : String → Reading}
    (hvisit : ∀ path w, visit path w = (w.opening path).after (read path)) (path : String)
    (tailFault : Option Text.Utf8.Fault) (number : Nat) (begun : Option OpenMacro)
    (lines : List String) (w : Walk) :
    walkLines visit path tailFault number begun lines w =
      w.after ((readLines path tailFault number begun lines).inlined read) := by
  induction lines generalizing number begun w with
  | nil =>
    rw [readLines_nil]
    cases tailFault <;> cases begun <;>
      simp [walkLines, endOfLines, Reading.failed, Reading.inlined_of_nil, Walk.after,
        Reading.inclusions]
  | cons raw rest ih =>
    rw [readLines_cons]
    cases hl : readLine begun raw with
    | error e =>
      simp [walkLines, hl, Reading.failed, Reading.inlined_of_nil, Walk.after, Reading.inclusions]
    | ok step =>
      obtain ⟨next, item⟩ := step
      cases item with
      | none => simpa [walkLines, hl, Walk.store] using ih (number + 1) next w
      | some item =>
        obtain ⟨included, rfl⟩ | hitem := item.inclusion_or
        · simp only [walkLines, hl, Option.bind_some, Item.includedPath?, hvisit]
          cases hf : (read included).failure with
          | none =>
            rw [Option.toList_some, Reading.inlined_prepend_inclusion hf, Walk.after_inclusion,
              ← ih]
            simp [Walk.after, hf]
          | some e =>
            rw [Option.toList_some, Reading.inlined_prepend_failure hf]
            simp [Walk.after, hf, Walk.opening, Reading.inclusions, Item.includedPath?]
        · simp only [walkLines, hl, Option.bind_some, hitem, Option.toList_some]
          rw [Reading.inlined_prepend_of_ne hitem, Walk.after_prepend w hitem]
          exact ih (number + 1) next (w.store [item])

/-- One walk over a shared context leaves the context that a scan's items amount to, opens the files
in their order, and stops for the same reason. -/
theorem walk_eq (openFile : Opener) (limit : Nat) (path : String) (w : Walk) :
    walk openFile limit path w = (w.opening path).after (scan openFile limit path) := by
  induction limit generalizing path w with
  | zero => simp [walk, scan, Reading.failed, Walk.after, Reading.inclusions]
  | succ fewer ih =>
    rw [scan_succ, walk]
    cases openFile path with
    | error e => simp [Reading.failed, Walk.after, Reading.inclusions]
    | ok file => exact walkLines_eq ih path _ _ _ _ _

theorem walk_mk_eq (openFile : Opener) (limit : Nat) (path : String) (c : Context)
    (opened : List String) :
    walk openFile limit path ⟨c, opened⟩ =
      (⟨c.store (scan openFile limit path).items,
          opened ++ openedPaths path (scan openFile limit path)⟩,
        (scan openFile limit path).failure) := by
  simp [walk_eq, Walk.after, Walk.opening, openedPaths]

end CommandFile
