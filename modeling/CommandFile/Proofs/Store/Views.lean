import CommandFile.Store
set_option autoImplicit false

namespace CommandFile
variable {α : Type} (look : List UInt8 → α)

def Node.view : Node → Option α
  | .file octets => some (look octets)
  | .directory => none

def Place.view : Place → Option (Option α)
  | .directory => some none
  | .file _ octets => some (some (look octets))
  | .vacant _ => none

namespace Store

def view (s : Store) : List (List String × Option α) :=
  s.entries.map fun entry => (entry.1, entry.2.view look)

variable {look} {files other : Store}

theorem lookup_view (s : Store) (address : List String) :
    (s.view look).lookup address = (s.entries.lookup address).map (Node.view look) := by
  obtain ⟨entries⟩ := s
  induction entries with
  | nil => rfl
  | cons entry rest ih =>
    obtain ⟨key, node⟩ := entry
    simp only [view, List.map_cons, List.lookup_cons] at ih ⊢
    cases address == key with
    | true => rfl
    | false => exact ih

theorem node?_view (h : other.view look = files.view look) (address : List String) :
    (other.node? address).map (Node.view look) = (files.node? address).map (Node.view look) := by
  have hlookup : (other.entries.lookup address).map (Node.view look) =
      (files.entries.lookup address).map (Node.view look) := by
    rw [← lookup_view, ← lookup_view, h]
  have hbelow : (other.entries.any fun e => address.isPrefixOf e.1) =
      files.entries.any fun e => address.isPrefixOf e.1 := by
    have haddresses := congrArg (List.map Prod.fst) h
    simp only [view, List.map_map] at haddresses
    have hany := congrArg (List.any · (address.isPrefixOf ·)) haddresses
    simpa [List.any_map, Function.comp_def] using hany
  rw [node?, node?, hbelow]
  cases ho : other.entries.lookup address with
  | none =>
    cases hf : files.entries.lookup address with
    | none => rfl
    | some node => simp [ho, hf] at hlookup
  | some node =>
    cases hf : files.entries.lookup address with
    | none => simp [ho, hf] at hlookup
    | some found => simpa [ho, hf] using hlookup

theorem walk_view (h : other.view look = files.view look) (directory : Option (List String))
    (names : List String) :
    (other.walk directory names).map (Place.view look) =
      (files.walk directory names).map (Place.view look) := by
  induction names generalizing directory with
  | nil => rfl
  | cons name rest ih =>
    simp only [walk]
    split
    · exact ih _
    split
    · exact ih _
    split
    · rfl
    have hnode : ((directory.map (· ++ [name])).bind other.node?).map (Node.view look) =
        ((directory.map (· ++ [name])).bind files.node?).map (Node.view look) := by
      cases directory with
      | none => rfl
      | some names => exact node?_view h _
    -- Whether there is a node, and of which kind, is seen alike in both stores.
    cases ho : (directory.map (· ++ [name])).bind other.node? with
    | none =>
      cases hf : (directory.map (· ++ [name])).bind files.node? with
      | none => cases rest <;> rfl
      | some node => simp [ho, hf] at hnode
    | some node =>
      cases hf : (directory.map (· ++ [name])).bind files.node? with
      | none => simp [ho, hf] at hnode
      | some found =>
        have hview : node.view look = found.view look := by simpa [ho, hf] using hnode
        cases node with
        | directory =>
          cases found with
          | directory => exact ih _
          | file octets => cases hview
        | file octets =>
          cases found with
          | directory => cases hview
          | file others =>
            cases rest with
            | nil => simpa [Except.map, Place.view, Node.view] using hview
            | cons next others => rfl

theorem locate_view (h : other.view look = files.view look) (path : String)
    (names : List String) :
    (other.locate path names).map (Place.view look) =
      (files.locate path names).map (Place.view look) := by
  simp only [locate]
  split
  · rfl
  split
  · rfl
  split
  · rfl
  have hwalk := walk_view h (if path.toList.head? = some '/' then none else some []) names
  -- The two walks come to places that are seen alike, or are refused for the same reason.
  cases ho : other.walk (if path.toList.head? = some '/' then none else some []) names <;>
    cases hf : files.walk (if path.toList.head? = some '/' then none else some []) names <;>
    simp_all [Except.map]

def answer (path : String) : Except FileError (Option (Option α)) → Except FileError α
  | .ok (some (some seen)) => .ok seen
  | .ok (some none) => .error (.refused .isDirectory path)
  | .ok none => .error (.refused .notFound path)
  | .error e => .error e

theorem read_map (s : Store) (path : String) :
    (s.read path).map look =
      answer path ((s.locate path (pathNames path ++ if endsInSlash path then ["."] else [])).map
        (Place.view look)) := by
  unfold read
  cases s.locate path (pathNames path ++ if endsInSlash path then ["."] else []) with
  | error e => rfl
  | ok place => cases place <;> rfl

/-- A path leads to files that look the same, or to the same refusal. -/
theorem read_view (h : other.view look = files.view look) (path : String) :
    (other.read path).map look = (files.read path).map look := by
  rw [read_map, read_map, locate_view h]

end Store
end CommandFile
