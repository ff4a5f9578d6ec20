import CommandFile.Proofs.Store.TextFiles
set_option autoImplicit false

namespace CommandFile

def Place.address? : Place → Option (List String)
  | .directory => none
  | .file address _ => some address
  | .vacant address => address

def Place.put (address : List String) (octets : List UInt8) : Place → Place
  | .file reached found => .file reached (if reached = address then octets else found)
  | .vacant (some reached) =>
    if reached = address then .file address octets else .vacant (some reached)
  | place => place

namespace Store
variable {s : Store} {address other : List String} {octets found : List UInt8} {path : String}
  {names : List String} {place : Place}

theorem lookup_put_of_ne (h : other ≠ address) (node : Node) :
    (s.put address node).entries.lookup other = s.entries.lookup other := by
  obtain ⟨entries⟩ := s
  have hother : (other == address) = false := by simpa using h
  simp only [put, List.lookup_cons, hother]
  induction entries with
  | nil => rfl
  | cons entry rest ih =>
    obtain ⟨key, held⟩ := entry
    by_cases hkey : key = address
    · simpa [hkey, List.lookup_cons, hother] using ih
    · simp only [List.filter_cons, bne_iff_ne, ne_eq, hkey, not_false_eq_true, if_true,
        List.lookup_cons, ih]

theorem node?_eq_file_iff :
    s.node? address = some (.file octets) ↔ s.entries.lookup address = some (.file octets) := by
  unfold node?
  cases s.entries.lookup address with
  | some node => rfl
  | none =>
    by_cases hbelow : s.entries.any (fun entry => address.isPrefixOf entry.1) = true <;>
      simp [hbelow]

@[simp] theorem node?_put_self (node : Node) : (s.put address node).node? address = some node := by
  simp [node?, put]

theorem node?_put_file_iff (h : other ≠ address) (node : Node) :
    (s.put address node).node? other = some (.file found) ↔
      s.node? other = some (.file found) := by
  rw [node?_eq_file_iff, node?_eq_file_iff, lookup_put_of_ne h]

theorem node?_put_directory (hother : s.node? other = some .directory) (h : other ≠ address)
    (node : Node) : (s.put address node).node? other = some .directory := by
  unfold node? at hother ⊢
  rw [lookup_put_of_ne h]
  cases hl : s.entries.lookup other with
  | some held => simpa [hl] using hother
  | none =>
    have hbelow : (s.put address node).entries.any (fun e => other.isPrefixOf e.1) = true := by
      simp only [hl, ite_eq_left_iff, reduceCtorEq, imp_false, Bool.not_eq_true,
        Bool.not_eq_false] at hother
      obtain ⟨entry, hentry, hfront⟩ := List.any_eq_true.mp hother
      rw [List.any_eq_true]
      by_cases hkey : entry.1 = address
      · exact ⟨(address, node), by simp [put], hkey ▸ hfront⟩
      · exact ⟨entry, by simp [put, hentry, hkey], hfront⟩
    simp [hbelow]

/-- A walk ends at the address of a directory only where it has none. -/
theorem not_directory_of_walk {directory : Option (List String)}
    (h : s.walk directory names = .ok place) (hplace : place.address? = some address) :
    s.node? address ≠ some .directory := by
  fun_induction s.walk directory names with
  | case1 =>
    cases h
    cases hplace
  | case2 directory rest ih => exact ih h
  | case3 directory rest hdot ih => exact ih h
  | case4 => cases h
  | case5 directory name rest hdot hup hlong reached hnode ih => exact ih h
  | case6 directory name hdot hup hlong reached found hnode =>
    cases h
    obtain ⟨names, hreached, hfile⟩ := Option.bind_eq_some_iff.mp hnode
    have hsame : names = address := by simpa [Place.address?, hreached] using hplace
    simp [← hsame, hfile]
  | case7 => cases h
  | case8 directory name hdot hup hlong reached hnode =>
    cases h
    have hsame : reached = some address := hplace
    rw [hsame, Option.bind_some] at hnode
    simp [hnode]
  | case9 => cases h

theorem walk_put {directory : Option (List String)} (h : s.walk directory names = .ok place)
    (hfree : s.node? address ≠ some .directory)
    (hplace : ∀ reached, place = .vacant (some reached) → reached = address) :
    (s.put address (.file octets)).walk directory names = .ok (place.put address octets) := by
  fun_induction s.walk directory names with
  | case1 =>
    cases h
    rfl
  | case2 directory rest ih => exact ih h
  | case3 directory rest hdot ih =>
    simp only [walk, hdot, if_false, if_true]
    exact ih h
  | case4 => cases h
  | case5 directory name rest hdot hup hlong reached hnode ih =>
    obtain ⟨inner, hreached, hdirectory⟩ := Option.bind_eq_some_iff.mp hnode
    -- A directory on the way is not the file that is written, and so it stays.
    have hne : inner ≠ address := fun he => hfree (he ▸ hdirectory)
    have hput : reached.bind (s.put address (.file octets)).node? = some .directory := by
      rw [hreached, Option.bind_some, node?_put_directory hdirectory hne]
    simp only [walk, hdot, hup, hlong, if_false]
    rw [show directory.map (· ++ [name]) = reached from rfl, hput]
    exact ih h
  | case6 directory name hdot hup hlong reached found hnode =>
    cases h
    obtain ⟨inner, hreached, hfile⟩ := Option.bind_eq_some_iff.mp hnode
    have hput : reached.bind (s.put address (.file octets)).node? =
        some (.file (if inner = address then octets else found)) := by
      rw [hreached, Option.bind_some]
      by_cases he : inner = address
      · simp [he]
      · simpa [he] using (node?_put_file_iff he _).mpr hfile
    simp only [walk, hdot, hup, hlong, if_false]
    rw [show directory.map (· ++ [name]) = reached from rfl, hput]
    simp [Place.put, hreached]
  | case7 => cases h
  | case8 directory name hdot hup hlong reached hnode =>
    cases h
    simp only [walk, hdot, hup, hlong, if_false]
    rw [show directory.map (· ++ [name]) = reached from rfl]
    cases hreached : reached with
    | none => rfl
    | some inner =>
      have hsame : inner = address := hplace inner (by rw [hreached])
      simp [hsame, Place.put]
  | case9 => cases h

theorem locate_put (h : s.locate path names = .ok place)
    (hfree : s.node? address ≠ some .directory)
    (hplace : ∀ reached, place = .vacant (some reached) → reached = address) :
    (s.put address (.file octets)).locate path names = .ok (place.put address octets) := by
  simp only [locate] at h ⊢
  split at h
  · cases h
  split at h
  · cases h
  split at h
  · cases h
  split at h
  · rename_i hnul hempty hlong _ reached hwalk
    cases h
    simp [hnul, hempty, hlong, walk_put hwalk hfree hplace]
  · cases h

theorem writeAddress_eq_ok (h : s.writeAddress path = .ok address) :
    namesDirectory path = false ∧
      ∃ place, s.locate path (pathNames path) = .ok place ∧ place.address? = some address := by
  unfold writeAddress at h
  split at h
  · cases h
  split at h
  · cases h
  rename_i hform
  refine ⟨by simpa using hform, ?_⟩
  split at h
  · rename_i hlocate
    cases h
    exact ⟨_, hlocate, rfl⟩
  · rename_i hlocate
    cases h
    exact ⟨_, hlocate, rfl⟩
  all_goals cases h

/-- The octets are all that the file holds which the path leads to. There are the same other files,
with what they held, and the same paths lead to them. -/
structure Saved (s after : Store) (path : String) (octets : List UInt8) (address : List String) :
    Prop where
  target : s.writeAddress path = .ok address
  content : after.node? address = some (.file octets)
  read : after.read path = .ok octets
  others : ∀ other ≠ address, ∀ found,
    after.node? other = some (.file found) ↔ s.node? other = some (.file found)
  paths : ∀ other names reached found, s.locate other names = .ok (.file reached found) →
    after.locate other names = .ok (.file reached (if reached = address then octets else found))

theorem saved_of_put (h : s.writeAddress path = .ok address) (octets : List UInt8) :
    s.Saved (s.put address (.file octets)) path octets address := by
  obtain ⟨hform, place, hlocate, hplace⟩ := writeAddress_eq_ok h
  obtain ⟨directory, hwalk⟩ := walk_of_locate hlocate
  have hfree := not_directory_of_walk hwalk hplace
  have hreached : (s.put address (.file octets)).locate path (pathNames path) =
      .ok (.file address octets) := by
    rw [locate_put hlocate hfree fun reached he => by simpa [he, Place.address?] using hplace]
    cases place with
    | directory => cases hplace
    | file reached found =>
      cases hplace
      simp [Place.put]
    | vacant reached =>
      have hsame : reached = some address := hplace
      simp [hsame, Place.put]
  refine ⟨h, node?_put_self _, ?_, fun other hne found => node?_put_file_iff hne _,
    fun other names reached found hl => ?_⟩
  · have hslash : endsInSlash path = false := (Bool.or_eq_false_iff.mp hform).1
    simp [read, hslash, hreached]
  · rw [locate_put hl hfree (by simp)]
    rfl

theorem put_put (first last : Node) :
    (s.put address first).put address last = s.put address last := by
  simp [put, List.filter_filter]

section Faults
variable {fault : Option WriteFault}

theorem create_eq_ok {opened : Store} (h : s.create path fault = .ok (address, opened)) :
    s.writeAddress path = .ok address ∧ opened = s.put address (.file []) ∧
      ∀ reason, fault ≠ some (.unopened reason) := by
  unfold create at h
  split at h
  · cases h
  · cases h
  · rename_i haddress hopens
    cases h
    exact ⟨haddress, rfl, fun _ => hopens _⟩

/-- What can become of a file that is to be written. If the write breaks off, the file is there all
the same, with the octets that have got into it in place of what it held. -/
inductive Written (s : Store) (path : String) (octets : List UInt8) (fault : Option WriteFault) :
    Option WriteError → Store → Prop where
  | unopened {e : FileError} : s.create path fault = .error e →
      Written s path octets fault (some (.file e)) s
  | brokenOff {kept : Nat} {reason : Refusal} {address : List String} {after : Store} :
      fault = some (.brokenOff kept reason) → s.Saved after path (octets.take kept) address →
      Written s path octets fault (some (.brokenOff reason)) after
  | whole {address : List String} {after : Store} : fault = none →
      s.Saved after path octets address → Written s path octets fault none after

theorem written_write (s : Store) (path : String) (octets : List UInt8)
    (fault : Option WriteFault) :
    s.Written path octets fault (s.write path octets fault).1 (s.write path octets fault).2 := by
  unfold write
  split
  · rename_i hcreate
    exact .unopened hcreate
  · rename_i address opened hcreate
    obtain ⟨haddress, rfl, hopens⟩ := create_eq_ok hcreate
    cases fault with
    | none =>
      simp only [fill, put_put]
      exact .whole rfl (saved_of_put haddress octets)
    | some fault =>
      cases fault with
      | unopened reason => exact absurd rfl (hopens reason)
      | brokenOff kept reason =>
        simp only [fill, put_put]
        exact .brokenOff rfl (saved_of_put haddress _)

end Faults

end Store
end CommandFile
