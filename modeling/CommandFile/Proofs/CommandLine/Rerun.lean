import CommandFile.Proofs.CommandLine.Outcome
import CommandFile.Proofs.CommandLine.Transcript
import CommandFile.Proofs.Reading.Hoisting
import CommandFile.Proofs.Reading.QuotedLines
import CommandFile.Proofs.Text.Utf8
set_option autoImplicit false

namespace CommandFile

@[mk_iff]
structure ReadsBack (command : List String) : Prop where
  callFree : CallFree command
  plain : classify command = .command command
  nonempty : quoteLine command ≠ ""
  stripped : Text.strip (quoteLine command) = quoteLine command
  uncommented : (quoteLine command).toList.head? ≠ some '#'

instance (command : List String) : Decidable (ReadsBack command) :=
  decidable_of_iff _ (readsBack_iff command).symm

section Reading
variable {command : List String} {commands : List (List String)} {openFile : Opener}
  {path : String}

theorem ReadsBack.isContent (h : ReadsBack command) : isContent (quoteLine command) = true :=
  (isContent_of_stripped h.stripped).mpr ⟨h.nonempty, h.uncommented⟩

theorem ReadsBack.readLine (h : ReadsBack command) (hempty : "" ∉ command) :
    readLine none (quoteLine command) = .ok (none, some (.command command)) := by
  have htokens : tokenize (quoteLine command) = .ok command := by
    rw [Quoting.tokenize_quoteLine, Quoting.filter_nonempty_eq_self hempty]
  simp [CommandFile.readLine, h.stripped, h.isContent, htokens, h.plain, Except.map]

theorem readAs_quoteLine (h : ∀ command ∈ commands, ReadsBack command)
    (hempty : ∀ command ∈ commands, "" ∉ command) :
    ReadAs none (commands.map quoteLine) (commands.map .command) := by
  induction commands with
  | nil => exact .nil
  | cons command rest ih =>
    obtain ⟨hcommand, hrest⟩ := List.forall_mem_cons.mp h
    obtain ⟨hne, hempty⟩ := List.forall_mem_cons.mp hempty
    exact (ih hrest hempty).cons (hcommand.readLine hne)

theorem scan_quoteLine (ho : openFile path = .ok ⟨commands.map quoteLine, none⟩)
    (h : ∀ command ∈ commands, ReadsBack command) (hempty : ∀ command ∈ commands, "" ∉ command)
    (limit : Nat) : scan openFile (limit + 1) path = ⟨commands.map .command, none⟩ := by
  have hread := (readAs_quoteLine h hempty).readFile_eq path
  rw [scan_of_no_inclusions ho _ limit, hread]
  rw [hread, Reading.inclusions, List.filterMap_map]
  exact List.filterMap_eq_nil_iff.mpr fun _ _ => rfl

theorem expand_commands (h : ∀ command ∈ commands, CallFree command) (cap : PassCap) :
    Reading.expand ⟨commands.map .command, none⟩ cap =
      .ok (commands.map fun command => ⟨command, false⟩) := by
  have hlines : (Context.empty.store (commands.map .command)).lines =
      commands.map fun command => ⟨command, true⟩ := by
    simp [Context.store, Context.empty, List.filterMap_map, Function.comp_def, Item.pendingLine?]
  have hfree : ∀ line ∈ (Context.empty.store (commands.map .command)).lines,
      CallFree line.tokens := by
    rw [hlines, List.forall_mem_map]
    exact h
  obtain ⟨left, hleft⟩ := Nat.exists_eq_succ_of_ne_zero (Nat.ne_of_gt cap.passes_pos)
  obtain ⟨ran, hran⟩ := expandFrom_of_callFree (Context.empty.store (commands.map .command)).macros
    0 left hfree
  have hcap : (cap.passes : Int).toNat = left + 1 := by rw [Int.toNat_natCast, hleft]
  rw [← hcap] at hran
  rw [Reading.expand, Context.expand_of_ok hran, hlines, List.map_map]
  rfl

end Reading

namespace CommandLine
variable {commands : List (List String)} {files : Store} {environment : Option String}
  {arguments : List String} {source : String} {output : Option String} {maxPasses : Option Int}
  {verbose : Bool} {cap : PassCap}

theorem ofOctets_commandText (h : ∀ command ∈ commands, ∀ token ∈ command, FitsLine token) :
    TextFile.ofOctets (Text.Utf8.encode (commandText commands).toList) =
      .ok ⟨commands.map quoteLine, none⟩ := by
  have hunbroken : ∀ line ∈ commands.map Quoting.quoteTokens, Text.Unbroken line := by
    intro line hline
    obtain ⟨command, hcommand, rfl⟩ := List.mem_map.mp hline
    exact Quoting.forall_quoteTokens (by decide) (by decide) (by decide) fun token ht =>
      (h command hcommand token ht).2
  have hending : ['\n'] ∈ Text.lineEnds := by decide
  have hsplit := Text.splitLines_joined hending hunbroken Text.unbroken_nil
  rw [List.append_nil, List.flatMap_map] at hsplit
  have hlines : Text.lines (commandText commands).toList = commands.map Quoting.quoteTokens := by
    rw [commandText, String.toList_ofList, Text.lines, hsplit]
    rfl
  simp only [TextFile.ofOctets, Text.Utf8.decode_encode, hlines, List.map_map]
  rfl

theorem expand_commandText
    (hfits : ∀ command ∈ commands, ∀ token ∈ command, FitsLine token)
    (h : ∀ command ∈ commands, ReadsBack command)
    (hread : files.read source = .ok (Text.Utf8.encode (commandText commands).toList))
    (cap : PassCap) :
    (files.scan source).expand cap = .ok (commands.map fun command => ⟨command, false⟩) := by
  have hopen : files.opener source = .ok ⟨commands.map quoteLine, none⟩ := by
    simp only [Store.opener, hread, ofOctets_commandText hfits]
  have hempty : ∀ command ∈ commands, "" ∉ command :=
    fun command hcommand hmem => (hfits command hcommand "" hmem).1 rfl
  have hscan : files.scan source = ⟨commands.map .command, none⟩ :=
    scan_quoteLine hopen h hempty _
  rw [hscan]
  exact expand_commands (fun command hcommand => (h command hcommand).callFree) cap

theorem delivered_of_expand {lines : List PendingLine}
    (hrequest : Request.ofArguments arguments = .ok (.expand source output maxPasses verbose))
    (hcap : PassCap.choose maxPasses environment = .ok cap)
    (houtput : ∀ path ∈ output, path ≠ "" → ∃ address, files.writeAddress path = .ok address)
    (hexpand : (files.scan source).expand cap = .ok lines) :
    ∃ out after, run files environment arguments = .ok (out, after) ∧
      Delivered files (commandText (lines.map (·.tokens))) output out after := by
  obtain ⟨stderr, ⟨hprint, hrun⟩ | ⟨path, error, after, rfl, hpath, hwritten, hrun⟩⟩ :=
    run_of_expand hrequest hcap hexpand none
  · exact ⟨_, _, hrun, .printed stderr hprint⟩
  cases hwritten with
  | whole hfault hsaved => exact ⟨_, _, hrun, .saved stderr hpath hsaved⟩
  | brokenOff hfault hsaved => cases hfault
  | unopened hcreate =>
    obtain ⟨address, haddress⟩ := houtput path rfl hpath
    simp [Store.create, haddress] at hcreate

/-- The text is left again by every run over a file that holds it, if the cap is accepted and the
output can be written. -/
def FixedText (text : String) : Prop :=
  ∀ (files : Store) environment arguments source output maxPasses verbose cap,
    Request.ofArguments arguments = .ok (.expand source output maxPasses verbose) →
    PassCap.choose maxPasses environment = .ok cap →
    files.read source = .ok (Text.Utf8.encode text.toList) →
    (∀ path ∈ output, path ≠ "" → ∃ address, files.writeAddress path = .ok address) →
    ∃ out after, run files environment arguments = .ok (out, after) ∧ out.exitCode = 0 ∧
      Delivered files text output out after

theorem fixedText_commandText
    (hfits : ∀ command ∈ commands, ∀ token ∈ command, FitsLine token)
    (h : ∀ command ∈ commands, ReadsBack command) : FixedText (commandText commands) := by
  intro files environment arguments source output maxPasses verbose cap hrequest hcap hread houtput
  have hexpand := expand_commandText hfits h hread cap
  obtain ⟨out, after, hrun, hdelivered⟩ := delivered_of_expand hrequest hcap houtput hexpand
  have htokens : (commands.map fun command => (⟨command, false⟩ : PendingLine)).map (·.tokens) =
      commands := by
    rw [List.map_map]
    exact List.map_id commands
  rw [htokens] at hdelivered
  exact ⟨out, after, hrun, hdelivered.exitCode, hdelivered⟩

/-- A run that exits well leaves a fixed text, as long as every command is read back from its line.
The tokens may hold quotes, backslashes and blanks of any kind. -/
theorem run_leaves_fixedText {fault : Option WriteFault} {out : Output} {after : Store}
    (hrequest : Request.ofArguments arguments = .ok (.expand source output maxPasses verbose))
    (hrun : run files environment arguments fault = .ok (out, after)) (hexit : out.exitCode = 0) :
    ∃ cap collected, PassCap.choose maxPasses environment = .ok cap ∧
      files.parse source cap (collector none) .empty = (collected, none) ∧
      Delivered files (commandText collected.commands.toList) output out after ∧
      ((∀ command ∈ collected.commands.toList, ReadsBack command) →
        FixedText (commandText collected.commands.toList)) := by
  obtain ⟨cap, collected, hcap, hparse, hdelivered⟩ := delivered_of_run hrequest hrun hexit
  have htranscript := transcript_of_schedule files.universalNewlines hparse
  exact ⟨cap, collected, hcap, hparse, hdelivered, fixedText_commandText htranscript.tokens⟩

def oddFiles : Store :=
  ⟨[(["main"], .file (Text.Utf8.encode
      "MACRO A = \"x\ty\"\\\\ \\\"\nrun A() tail\\\n\ufeff# a\u00a0b\u2028c\n".toList))]⟩

def oddText : String := "run \"x\ty\"\\\\ \\\" tail\\\n\ufeff# a\u00a0b\u2028c\n"

def oddCommands : List (List String) :=
  [["run", "x\ty\\\\", "\"", "tail\\"], ["\ufeff#", "a\u00a0b\u2028c"]]

theorem run_oddFiles_again :
    (∀ command ∈ oddCommands, ReadsBack command) ∧
    ∃ after, run oddFiles none ["main", "-oout"] = .ok (⟨0, "", ""⟩, after) ∧
      after.read "out" = .ok (Text.Utf8.encode oddText.toList) ∧
      ∃ stderr, run after none ["out", "--max-passes=1"] = .ok (⟨0, oddText, stderr⟩, after) := by
  have hback : ∀ command ∈ oddCommands, ReadsBack command := by decide +kernel
  refine ⟨hback, ?_⟩
  have hfirst : Request.ofArguments ["main", "-oout"] =
      .ok (.expand "main" (some "out") none false) := by decide +kernel
  have hsecond : Request.ofArguments ["out", "--max-passes=1"] =
      .ok (.expand "out" none (some 1) false) := by decide +kernel
  have hout : (run oddFiles none ["main", "-oout"]).map (·.1) = .ok ⟨0, "", ""⟩ := by
    decide +kernel
  have hcommands : (oddFiles.parse "main" .default (collector none) .empty).1 =
      ⟨oddCommands.toArray⟩ := by decide +kernel
  have htext : commandText oddCommands = oddText := by decide +kernel
  obtain ⟨out, after, hrun, rfl⟩ := exists_run_of_map hout
  obtain ⟨cap, collected, hcap, hparse, hdelivered, hfixed⟩ := run_leaves_fixedText hfirst hrun rfl
  cases hcap
  have hcollected : collected = ⟨oddCommands.toArray⟩ := by simpa [hparse] using hcommands
  rw [hcollected, htext] at hdelivered hfixed
  obtain ⟨address, hsaved⟩ := hdelivered.saved_of_some (by decide)
  obtain ⟨again, same, hagain, -, hprinted⟩ :=
    hfixed hback after none ["out", "--max-passes=1"] "out" none (some 1) false ⟨1, by decide⟩
      hsecond rfl hsaved.read (by simp)
  obtain ⟨stderr, rfl, rfl⟩ := hprinted.printed_of_none
  exact ⟨_, hrun, hsaved.read, stderr, hagain⟩

end CommandLine
end CommandFile
