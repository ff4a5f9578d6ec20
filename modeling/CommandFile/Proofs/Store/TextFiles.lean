import CommandFile.Proofs.Text.LineEnds
import CommandFile.Store
set_option autoImplicit false

namespace CommandFile

def UniversalNewlines (openFile : Opener) : Prop :=
  ∀ path file, openFile path = .ok file → ∀ raw ∈ file.lines, Text.Unbroken raw.toList

namespace Store
variable {s : Store} {octets : List UInt8} {path : String} {file : TextFile}

theorem opener_eq_ok (h : s.opener path = .ok file) :
    ∃ octets, s.read path = .ok octets ∧ TextFile.ofOctets octets = .ok file := by
  unfold opener at h
  cases hr : s.read path with
  | error e => simp [hr] at h
  | ok octets =>
    simp only [hr] at h
    cases ht : TextFile.ofOctets octets with
    | error fault => simp [ht] at h
    | ok text =>
      simp only [ht, Except.ok.injEq] at h
      exact ⟨octets, rfl, by rw [ht, h]⟩

theorem universalNewlines (s : Store) : UniversalNewlines s.opener := by
  intro path file h
  obtain ⟨octets, -, htext⟩ := opener_eq_ok h
  exact TextFile.lines_unbroken htext

theorem mem_entries_of_node? {address : List String} (h : s.node? address = some (.file octets)) :
    (address, .file octets) ∈ s.entries := by
  unfold node? at h
  cases hl : s.entries.lookup address with
  | none => simp [hl] at h
  | some node =>
    simp only [hl, Option.some.injEq] at h
    obtain ⟨before, after, he, -⟩ := List.lookup_eq_some_iff.mp hl
    rw [he, h]
    simp

theorem mem_entries_of_walk {names address : List String} {directory : Option (List String)}
    (h : s.walk directory names = .ok (.file address octets)) :
    ∃ address, (address, .file octets) ∈ s.entries := by
  induction names generalizing directory with
  | nil => simp [walk] at h
  | cons name rest ih =>
    simp only [walk] at h
    split at h
    · exact ih h
    split at h
    · exact ih h
    split at h
    · cases h
    -- Only a name that leads to a file, with no other name behind it, ends the walk at a file.
    cases hnode : (directory.map (· ++ [name])).bind s.node? with
    | none => cases rest <;> simp [hnode] at h
    | some node =>
      cases node with
      | directory =>
        simp only [hnode] at h
        exact ih h
      | file found =>
        cases rest with
        | cons next others => simp [hnode] at h
        | nil =>
          simp only [hnode, Except.ok.injEq, Place.file.injEq] at h
          obtain ⟨names, -, hfound⟩ := Option.bind_eq_some_iff.mp hnode
          exact ⟨names, h.2 ▸ mem_entries_of_node? hfound⟩

theorem walk_of_locate {names : List String} {place : Place} (h : s.locate path names = .ok place) :
    ∃ directory, s.walk directory names = .ok place := by
  simp only [locate] at h
  split at h
  · cases h
  split at h
  · cases h
  split at h
  · cases h
  cases hw : s.walk (if path.toList.head? = some '/' then none else some []) names with
  | error reason => simp [hw] at h
  | ok reached =>
    simp only [hw, Except.ok.injEq] at h
    exact ⟨_, h ▸ hw⟩

theorem mem_entries_of_read (h : s.read path = .ok octets) :
    ∃ address, (address, .file octets) ∈ s.entries := by
  unfold read at h
  split at h
  · rename_i address found hlocate
    cases h
    obtain ⟨directory, hwalk⟩ := walk_of_locate hlocate
    exact mem_entries_of_walk hwalk
  all_goals cases h

theorem mem_textFiles (h : s.opener path = .ok file) : file ∈ s.textFiles := by
  obtain ⟨octets, hread, htext⟩ := opener_eq_ok h
  obtain ⟨address, hentry⟩ := mem_entries_of_read hread
  refine List.mem_filterMap.mpr ⟨_, hentry, ?_⟩
  simp [htext, Except.toOption]

end Store
end CommandFile
