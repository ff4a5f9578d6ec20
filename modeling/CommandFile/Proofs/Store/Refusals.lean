import CommandFile.Store
set_option autoImplicit false

namespace CommandFile

inductive Refuses (path : String) : FileError → Prop where
  | nulInPath : '\x00' ∈ path.toList → Refuses path .nulInPath
  | refused {reason : Refusal} : (∀ code text, reason ≠ .other code text) →
      Refuses path (.refused reason path)

theorem Refuses.eq_refused {path : String} {e : FileError} (h : Refuses path e)
    (hnul : '\x00' ∉ path.toList) : ∃ reason, e = .refused reason path := by
  cases h with
  | nulInPath hmem => exact absurd hmem hnul
  | @refused reason => exact ⟨reason, rfl⟩

namespace Store
variable {s : Store} {names : List String} {path : String} {e : FileError}

theorem walk_error {directory : Option (List String)} {reason : Refusal}
    (h : s.walk directory names = .error reason) : ∀ code text, reason ≠ .other code text := by
  fun_induction s.walk directory names with
  | case1 => cases h
  | case2 directory rest ih => exact ih h
  | case3 directory rest hdot ih => exact ih h
  | case4 =>
    cases h
    simp
  | case5 directory name rest hdot hup hlong reached hnode ih => exact ih h
  | case6 => cases h
  | case7 =>
    cases h
    simp
  | case8 => cases h
  | case9 =>
    cases h
    simp

theorem refuses_of_locate (h : s.locate path names = .error e) : Refuses path e := by
  simp only [locate] at h
  split at h
  · rename_i hmem
    cases h
    exact .nulInPath hmem
  split at h
  · cases h
    exact .refused (by simp)
  split at h
  · cases h
    exact .refused (by simp)
  split at h
  · cases h
  · rename_i reason hwalk
    cases h
    exact .refused (walk_error hwalk)

theorem refuses_of_read (h : s.read path = .error e) : Refuses path e := by
  unfold read at h
  split at h
  · cases h
  · cases h
    exact .refused (by simp)
  · cases h
    exact .refused (by simp)
  · rename_i hlocate
    cases h
    exact refuses_of_locate hlocate

theorem refuses_of_writeAddress (h : s.writeAddress path = .error e) : Refuses path e := by
  unfold writeAddress at h
  split at h
  · rename_i hlocate
    cases h
    exact refuses_of_locate hlocate
  split at h
  · cases h
    exact .refused (by simp)
  split at h
  · cases h
  · cases h
  · cases h
    exact .refused (by simp)
  · cases h
    exact .refused (by simp)
  · rename_i hlocate
    cases h
    exact refuses_of_locate hlocate

theorem create_eq_error {fault : Option WriteFault} (h : s.create path fault = .error e) :
    s.writeAddress path = .error e ∨
      ∃ reason, fault = some (.unopened reason) ∧ e = .refused reason path := by
  unfold create at h
  split at h
  · rename_i haddress
    cases h
    exact .inl haddress
  · rename_i reason _
    cases h
    exact .inr ⟨reason, rfl, rfl⟩
  · cases h

theorem refused_of_create {fault : Option WriteFault} (h : s.create path fault = .error e)
    (hnul : '\x00' ∉ path.toList) : ∃ reason, e = .refused reason path := by
  obtain haddress | ⟨reason, -, rfl⟩ := create_eq_error h
  · exact (refuses_of_writeAddress haddress).eq_refused hnul
  · exact ⟨reason, rfl⟩

end Store
end CommandFile
