import CommandFile.Proofs.CommandLine.Messages
import CommandFile.Proofs.CommandLine.Transcript
import CommandFile.Proofs.CommandLine.Values
import CommandFile.Proofs.Reading.Nesting
set_option autoImplicit false

/-!
How a run ends. Nothing is written before everything has been read and expanded, so that a run
leaves the whole text of the commands in one place, or one message. With a message, no file is
changed unless the system breaks off the writing: the file has been opened by then, and is left with
a part of the text.
-/
namespace CommandFile

theorem Reading.expand_error_exceeded {r : Reading} {cap : PassCap} {path : String}
    (h : r.expand cap = .error (.scan (.endlessInclusion path))) : r.Exceeded := by
  unfold expand at h
  split at h
  · rename_i hfailure
    cases h
    exact ⟨path, hfailure⟩
  · split at h <;> cases h

namespace CommandLine

section Outcomes
variable (files : Store) (environment : Option String) (fault : Option WriteFault)

/-- What an expansion that is given up complains of, and what it leaves. Complaints about the cap,
the source or what it includes, a macro, or a file that does not open leave all files as they were.
If the writing breaks off, the file that has been opened holds the front of the text. -/
inductive Complaint (source : String) (output : Option String) (maxPasses : Option Int) :
    String → Store → Prop where
  | cap {e : CapError} : PassCap.choose maxPasses environment = .error e →
      Complaint source output maxPasses e.message files
  | parse {cap : PassCap} {e : ParseError} : PassCap.choose maxPasses environment = .ok cap →
      (files.scan source).expand cap = .error e → Complaint source output maxPasses e.message files
  | unopened {cap : PassCap} {lines : List PendingLine} {path : String} {e : FileError} :
      PassCap.choose maxPasses environment = .ok cap →
      (files.scan source).expand cap = .ok lines → output = some path → path ≠ "" →
      files.create path fault = .error e →
      Complaint source output maxPasses ("cannot write " ++ path ++ ": " ++ e.message) files
  | brokenOff {cap : PassCap} {lines : List PendingLine} {path : String} {kept : Nat}
      {reason : Refusal} {address : List String} {after : Store} :
      PassCap.choose maxPasses environment = .ok cap →
      (files.scan source).expand cap = .ok lines → output = some path → path ≠ "" →
      fault = some (.brokenOff kept reason) →
      files.Saved after path
        ((Text.Utf8.encode (commandText (lines.map (·.tokens))).toList).take kept) address →
      Complaint source output maxPasses ("cannot write " ++ path ++ ": " ++ reason.message) after

/-- The run prints a complaint. The message fills one line unless the source, the output path or the
system's own text does not. -/
inductive Failed : Except UsageError Request → Output → Store → Prop where
  | intro {source message : String} {output : Option String} {maxPasses : Option Int}
      {verbose : Bool} {after : Store} (stderr : String) :
      Complaint files environment fault source output maxPasses message after →
      (OneLine source → (∀ path ∈ output, OneLine path) → (∀ f ∈ fault, OneLine f.reason.text) →
        OneLine message) →
      Failed (.ok (.expand source output maxPasses verbose))
        ⟨1, "Error: " ++ message ++ "\n", stderr⟩ after

inductive Completed : Except UsageError Request → Output → Store → Prop where
  | intro {source : String} {output : Option String} {maxPasses : Option Int} {verbose : Bool}
      {cap : PassCap} {lines : List PendingLine} {out : Output} {after : Store} :
      PassCap.choose maxPasses environment = .ok cap →
      (files.scan source).expand cap = .ok lines →
      Delivered files (commandText (lines.map (·.tokens))) output out after →
      Completed (.ok (.expand source output maxPasses verbose)) out after

end Outcomes

section Running
variable {files after : Store} {environment : Option String} {fault : Option WriteFault}
  {source message : String} {output : Option String} {maxPasses : Option Int} {verbose : Bool}

theorem Complaint.oneLine
    (h : Complaint files environment fault source output maxPasses message after)
    (hsource : OneLine source) (houtput : ∀ path ∈ output, OneLine path)
    (hfault : ∀ f ∈ fault, OneLine f.reason.text) : OneLine message := by
  cases h with
  | cap hcap => exact CapError.oneLine _
  | parse hcap hexpand => exact Store.oneLine_of_expand hexpand hsource
  | unopened hcap hexpand hpath hne hcreate =>
    simp only [oneLine_append, and_assoc]
    exact ⟨by decide, houtput _ hpath, by decide, Store.oneLine_of_create hcreate hfault⟩
  | brokenOff hcap hexpand hpath hne hbroken hsaved =>
    simp only [oneLine_append, and_assoc]
    exact ⟨by decide, houtput _ hpath, by decide, Refusal.oneLine (hfault _ hbroken)⟩

theorem Complaint.failed
    (h : Complaint files environment fault source output maxPasses message after)
    (stderr : String) :
    Failed files environment fault (.ok (.expand source output maxPasses verbose))
      (failed message stderr) after :=
  .intro stderr h h.oneLine

/-- A request to expand a source whose inclusions end fails with a complaint, or is completed. -/
theorem run_expand {arguments : List String}
    (hrequest : Request.ofArguments arguments = .ok (.expand source output maxPasses verbose))
    (hnul : ∀ path ∈ output, '\x00' ∉ path.toList)
    (hends : ∀ cap, PassCap.choose maxPasses environment = .ok cap →
      ¬ (files.scan source).Exceeded) :
    ∃ out after, run files environment arguments fault = .ok (out, after) ∧
      (Failed files environment fault (.ok (.expand source output maxPasses verbose)) out after ∨
        Completed files environment (.ok (.expand source output maxPasses verbose)) out after) := by
  have hplan := plan_of_request hrequest files.opener (nestingLimit files.textFiles) environment
  cases hcap : PassCap.choose maxPasses environment with
  | error e =>
    have hrun : run files environment arguments fault = .ok (failed e.message "", files) := by
      simp only [run, hplan, planRequest, hcap]
    exact ⟨_, _, hrun, .inl ((Complaint.cap hcap).failed _)⟩
  | ok cap =>
    cases hexpand : (files.scan source).expand cap with
    | error e =>
      obtain ⟨stderr, hdone⟩ | ⟨path, rfl, -⟩ :=
        planRequest_of_expand_error hcap hexpand output verbose
      · have hrun : run files environment arguments fault =
            .ok (failed e.message stderr, files) := by
          simp only [run, hplan, hdone]
        exact ⟨_, _, hrun, .inl ((Complaint.parse hcap hexpand).failed _)⟩
      · exact absurd (Reading.expand_error_exceeded hexpand) (hends cap hcap)
    | ok lines =>
      -- All is known by now, and what can still fail is only to write it.
      obtain ⟨stderr, ⟨hprint, hrun⟩ | ⟨path, error, after, rfl, hpath, hwritten, hrun⟩⟩ :=
        run_of_expand hrequest hcap hexpand fault
      · exact ⟨_, _, hrun, .inr (.intro hcap hexpand (.printed stderr hprint))⟩
      cases hwritten with
      | unopened hcreate =>
        obtain ⟨reason, rfl⟩ := Store.refused_of_create hcreate (hnul path rfl)
        exact ⟨_, _, hrun, .inl ((Complaint.unopened hcap hexpand rfl hpath hcreate).failed _)⟩
      | brokenOff hbroken hsaved =>
        exact ⟨_, _, hrun,
          .inl ((Complaint.brokenOff hcap hexpand rfl hpath hbroken hsaved).failed _)⟩
      | whole hfault hsaved =>
        exact ⟨_, _, hrun, .inr (.intro hcap hexpand (.saved stderr hpath hsaved))⟩

end Running

end CommandLine
end CommandFile
