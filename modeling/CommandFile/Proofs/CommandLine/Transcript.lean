import CommandFile.CommandLine
import CommandFile.Proofs.Expansion.Tokens
import CommandFile.Proofs.Quoting.Characters
import CommandFile.Proofs.Schedule.Noting
import CommandFile.Proofs.Store.Writing
set_option autoImplicit false

namespace CommandFile

def FitsLine (token : String) : Prop := token ≠ "" ∧ Text.Unbroken token.toList

theorem TokenOf.fitsLine {lines : List String} (hlines : ∀ raw ∈ lines, Text.Unbroken raw.toList)
    {token : String} (h : TokenOf lines token) : FitsLine token := by
  obtain ⟨raw, hraw, tokens, htokens, ht⟩ := h
  have hline : Text.Unbroken (Text.strip raw).toList := by
    rw [Text.toList_strip]
    exact (hlines raw hraw).trim
  exact ⟨ne_of_mem_of_not_mem ht (Quoting.empty_not_mem_tokenize htokens),
    Quoting.forall_tokenize htokens hline token ht⟩

theorem fitsLine_of_expand {openFile : Opener} (hopen : UniversalNewlines openFile) {limit : Nat}
    {path : String} {cap : PassCap} {lines : List PendingLine}
    (h : (scan openFile limit path).expand cap = .ok lines) :
    ∀ line ∈ lines, ∀ token ∈ line.tokens, FitsLine token := by
  intro line hline token ht
  obtain ⟨item, hitem, hstored⟩ := Reading.mem_tokens_expand h hline ht
  obtain ⟨opened, -, file, ho, hread⟩ := readFrom_scan hitem
  exact (hread.tokenOf hstored).fitsLine (hopen opened file ho)

/-- A text that tells commands: a line for each of them, with a line feed at its end, whose tokens
are the command. -/
structure Transcript (commands : List (List String)) (text : String) : Prop where
  lines : ∃ lines : List String, text.toList.splitOn '\n' = lines.map String.toList ++ [[]] ∧
    lines.map tokenize = commands.map .ok
  tokens : ∀ command ∈ commands, ∀ token ∈ command, FitsLine token

theorem splitOn_terminated {lines : List (List Char)} (h : ∀ line ∈ lines, ∀ c ∈ line, c ≠ '\n') :
    (lines.flatMap (· ++ ['\n'])).splitOn '\n' = lines ++ [[]] := by
  induction lines with
  | nil => rfl
  | cons line rest ih =>
    obtain ⟨hline, hrest⟩ := List.forall_mem_cons.mp h
    have hsplit : line.splitOnP (· == '\n') = [line] :=
      List.splitOnP_eq_singleton fun c hc => by simpa using hline c hc
    calc ((line :: rest).flatMap (· ++ ['\n'])).splitOn '\n'
        = (line ++ '\n' :: rest.flatMap (· ++ ['\n'])).splitOn '\n' := by simp
      _ = line.splitOnP (· == '\n') ++ (rest.flatMap (· ++ ['\n'])).splitOn '\n' :=
          List.splitOnP_append_cons _ _ rfl
      _ = line :: rest ++ [[]] := by rw [hsplit, ih hrest]; rfl

namespace CommandLine

theorem transcript_commandText {commands : List (List String)}
    (h : ∀ command ∈ commands, ∀ token ∈ command, FitsLine token) :
    Transcript commands (commandText commands) := by
  refine ⟨⟨commands.map quoteLine, ?_, ?_⟩, h⟩
  · have hlines : ∀ line ∈ commands.map Quoting.quoteTokens, ∀ c ∈ line, c ≠ '\n' := by
      intro line hline
      obtain ⟨command, hcommand, rfl⟩ := List.mem_map.mp hline
      exact Quoting.forall_quoteTokens (by decide) (by decide) (by decide) fun token ht c hc =>
        ((h command hcommand token ht).2 c hc).1
    have hsplit := splitOn_terminated hlines
    rw [List.flatMap_map] at hsplit
    rw [commandText, String.toList_ofList, hsplit]
    simp [quoteLine, Function.comp_def]
  · rw [List.map_map]
    refine List.map_congr_left fun command hcommand => ?_
    have hempty : "" ∉ command := fun hmem => (h command hcommand "" hmem).1 rfl
    rw [Function.comp_apply, Quoting.tokenize_quoteLine, Quoting.filter_nonempty_eq_self hempty]

theorem transcript_of_schedule {openFile : Opener} (hopen : UniversalNewlines openFile)
    {limit : Nat} {path : String} {cap : PassCap} {collected : Collected}
    (h : (scan openFile limit path).schedule cap (collector none) .empty = (collected, none)) :
    Transcript collected.commands.toList (commandText collected.commands.toList) := by
  obtain ⟨lines, hlines, hcommands⟩ := Reading.schedule_collector h
  refine transcript_commandText fun command hcommand => ?_
  rw [hcommands] at hcommand
  obtain ⟨line, hline, rfl⟩ := List.mem_map.mp hcommand
  exact fitsLine_of_expand hopen hlines line hline

section Planning
variable {openFile : Opener} {limit : Nat} {environment : Option String} {source : String}
  {maxPasses : Option Int} {cap : PassCap}

theorem planRequest_of_expand_error {e : ParseError}
    (hcap : PassCap.choose maxPasses environment = .ok cap)
    (hexpand : (scan openFile limit source).expand cap = .error e) (output : Option String)
    (verbose : Bool) :
    (∃ stderr, planRequest openFile limit environment (.expand source output maxPasses verbose) =
      .done (failed e.message stderr)) ∨
    ∃ path, e = .scan (.endlessInclusion path) ∧
      planRequest openFile limit environment (.expand source output maxPasses verbose) =
        .abort (.endlessInclusion path) := by
  have hschedule := Reading.schedule_of_error hexpand (collector none) .empty
  simp only [planRequest, hcap, hschedule]
  cases e with
  | unresolved e => exact .inl ⟨_, rfl⟩
  | scan e =>
    cases e with
    | endlessInclusion path => exact .inr ⟨path, rfl, rfl⟩
    | unreadable | unmatchedQuotes | unterminatedMacro => exact .inl ⟨_, rfl⟩

theorem planRequest_of_expand_ok {lines : List PendingLine}
    (hcap : PassCap.choose maxPasses environment = .ok cap)
    (hexpand : (scan openFile limit source).expand cap = .ok lines) (output : Option String)
    (verbose : Bool) :
    ∃ stderr, planRequest openFile limit environment (.expand source output maxPasses verbose) =
      if output.getD "" = "" then .done ⟨0, commandText (lines.map (·.tokens)), stderr⟩
      else .write (output.getD "") (commandText (lines.map (·.tokens))) stderr := by
  simp only [planRequest, hcap, Reading.schedule_of_ok hexpand]
  cases output with
  | none => exact ⟨_, rfl⟩
  | some path => exact ⟨_, rfl⟩

end Planning

inductive Delivered (files : Store) (text : String) : Option String → Output → Store → Prop where
  | printed {output : Option String} (stderr : String) : output.getD "" = "" →
      Delivered files text output ⟨0, text, stderr⟩ files
  | saved {path : String} {address : List String} {after : Store} (stderr : String) : path ≠ "" →
      files.Saved after path (Text.Utf8.encode text.toList) address →
      Delivered files text (some path) ⟨0, "", stderr⟩ after

section Delivery
variable {files after : Store} {text path : String} {output : Option String} {out : Output}

theorem Delivered.exitCode (h : Delivered files text output out after) : out.exitCode = 0 := by
  cases h <;> rfl

theorem Delivered.printed_of_none (h : Delivered files text none out after) :
    ∃ stderr, out = ⟨0, text, stderr⟩ ∧ after = files := by
  cases h with
  | printed stderr => exact ⟨stderr, rfl, rfl⟩

theorem Delivered.saved_of_some (h : Delivered files text (some path) out after)
    (hpath : path ≠ "") :
    ∃ address, files.Saved after path (Text.Utf8.encode text.toList) address := by
  cases h with
  | printed stderr hnone => exact absurd hnone hpath
  | saved stderr _ hsaved => exact ⟨_, hsaved⟩

end Delivery

section Runs
variable {files after : Store} {environment : Option String} {arguments : List String}
  {source : String} {output : Option String} {maxPasses : Option Int} {verbose : Bool}
  {fault : Option WriteFault} {out : Output}

theorem plan_of_request {request : Request} (h : Request.ofArguments arguments = .ok request)
    (openFile : Opener) (limit : Nat) (environment : Option String) :
    plan openFile limit environment arguments = planRequest openFile limit environment request := by
  rw [plan, h]

theorem exists_run_of_map {α : Type} {f : Output × Store → α} {a : α}
    (h : (run files environment arguments fault).map f = .ok a) :
    ∃ out after, run files environment arguments fault = .ok (out, after) ∧ f (out, after) = a := by
  cases hrun : run files environment arguments fault with
  | error reason => simp [hrun, Except.map] at h
  | ok result => exact ⟨result.1, result.2, rfl, by simpa [hrun, Except.map] using h⟩

/-- Once a source has been expanded, all that is left is to print the text or to write a file. -/
theorem run_of_expand {cap : PassCap} {lines : List PendingLine}
    (hrequest : Request.ofArguments arguments = .ok (.expand source output maxPasses verbose))
    (hcap : PassCap.choose maxPasses environment = .ok cap)
    (hexpand : (files.scan source).expand cap = .ok lines) (fault : Option WriteFault) :
    ∃ stderr, output.getD "" = "" ∧ run files environment arguments fault =
        .ok (⟨0, commandText (lines.map (·.tokens)), stderr⟩, files) ∨
      ∃ path error after, output = some path ∧ path ≠ "" ∧
        files.Written path (Text.Utf8.encode (commandText (lines.map (·.tokens))).toList) fault
          error after ∧
        run files environment arguments fault = (written path stderr error).map (·, after) := by
  obtain ⟨stderr, hready⟩ := planRequest_of_expand_ok hcap hexpand output verbose
  have hplan := plan_of_request hrequest files.opener (nestingLimit files.textFiles) environment
  rw [hready] at hplan
  refine ⟨stderr, ?_⟩
  by_cases hprint : output.getD "" = ""
  · rw [if_pos hprint] at hplan
    exact .inl ⟨hprint, by simp only [run, hplan]⟩
  · rw [if_neg hprint] at hplan
    obtain ⟨path, rfl⟩ : ∃ path, output = some path :=
      Option.ne_none_iff_exists'.mp fun hnone => hprint (by rw [hnone]; rfl)
    refine .inr ⟨path, _, _, rfl, hprint, files.written_write path _ fault, ?_⟩
    simp only [run, hplan, Option.getD_some]

theorem delivered_of_run
    (hrequest : Request.ofArguments arguments = .ok (.expand source output maxPasses verbose))
    (hrun : run files environment arguments fault = .ok (out, after)) (hexit : out.exitCode = 0) :
    ∃ cap collected, PassCap.choose maxPasses environment = .ok cap ∧
      files.parse source cap (collector none) .empty = (collected, none) ∧
      Delivered files (commandText collected.commands.toList) output out after := by
  have hplan := plan_of_request hrequest files.opener (nestingLimit files.textFiles) environment
  cases hcap : PassCap.choose maxPasses environment with
  | error e =>
    simp only [run, hplan, planRequest, hcap] at hrun
    cases hrun
    cases hexit
  | ok cap =>
    cases hexpand : (files.scan source).expand cap with
    | error e =>
      obtain ⟨stderr, hdone⟩ | ⟨path, -, habort⟩ :=
        planRequest_of_expand_error hcap hexpand output verbose
      · simp only [run, hplan, hdone] at hrun
        cases hrun
        cases hexit
      · simp only [run, hplan, habort] at hrun
        cases hrun
    | ok lines =>
      refine ⟨cap, _, rfl, Reading.schedule_of_ok hexpand, ?_⟩
      obtain ⟨stderr, ⟨hprint, hdone⟩ | ⟨path, error, left, rfl, hpath, hwritten, hdone⟩⟩ :=
        run_of_expand hrequest hcap hexpand fault
      · cases hdone.symm.trans hrun
        exact .printed stderr hprint
      rw [hdone] at hrun
      cases hwritten with
      | whole hfault hsaved =>
        cases hrun
        exact .saved stderr hpath hsaved
      | brokenOff hfault hsaved =>
        cases hrun
        cases hexit
      | @unopened e hcreate =>
        cases e with
        | nulInPath => cases hrun
        | refused reason path =>
          cases hrun
          cases hexit

end Runs

/-- What a parse hands over can be read back from its text, however deep the files are included and
the macros nested. A run that exits well, and has not been asked for help, leaves this text. -/
theorem run_leaves_transcript :
    (∀ openFile, UniversalNewlines openFile → ∀ limit path cap collected,
      (scan openFile limit path).schedule cap (collector none) .empty = (collected, none) →
      Transcript collected.commands.toList (commandText collected.commands.toList)) ∧
    ∀ (files : Store) environment arguments fault out after,
      run files environment arguments fault = .ok (out, after) → out.exitCode = 0 →
      Request.ofArguments arguments ≠ .ok .help →
      ∃ source output maxPasses verbose cap collected,
        Request.ofArguments arguments = .ok (.expand source output maxPasses verbose) ∧
        PassCap.choose maxPasses environment = .ok cap ∧
        files.parse source cap (collector none) .empty = (collected, none) ∧
        Delivered files (commandText collected.commands.toList) output out after ∧
        Transcript collected.commands.toList (commandText collected.commands.toList) := by
  refine ⟨fun openFile hopen limit path cap collected h => transcript_of_schedule hopen h,
    fun files environment arguments fault out after hrun hexit hhelp => ?_⟩
  cases hrequest : Request.ofArguments arguments with
  | error e =>
    simp only [run, plan, hrequest] at hrun
    cases hrun
    cases hexit
  | ok request =>
    cases request with
    | help => exact absurd hrequest hhelp
    | capWithoutValue =>
      simp only [run, plan, hrequest, planRequest] at hrun
      cases hrun
    | expand source output maxPasses verbose =>
      obtain ⟨cap, collected, hcap, hparse, hdelivered⟩ := delivered_of_run hrequest hrun hexit
      exact ⟨source, output, maxPasses, verbose, cap, collected, rfl, hcap, hparse, hdelivered,
        transcript_of_schedule files.universalNewlines hparse⟩

def quotedFiles : Store :=
  ⟨[(["main"], .file (Text.Utf8.encode
      "INCLUDE shared\r\nMACRO A = \"x y\" \\\"\r\nA() SAY()\r\n".toList)),
    (["shared"], .file (Text.Utf8.encode
      "LONG MACRO SAY\rsay \"a\tb\"\\\rsay\rEND MACRO".toList))]⟩

def quotedCommands : List (List String) :=
  [["x y", "\"", "say", "a\tb\\"], ["x y", "\"", "say"]]

def quotedText : String := "\"x y\" \\\" say \"a\tb\"\\\n\"x y\" \\\" say\n"

theorem run_quotedFiles :
    run quotedFiles none ["main"] = .ok (⟨0, quotedText, ""⟩, quotedFiles) ∧
      (∃ after, run quotedFiles none ["main", "-oout"] = .ok (⟨0, "", ""⟩, after) ∧
        after.read "out" = .ok (Text.Utf8.encode quotedText.toList)) ∧
      Transcript quotedCommands quotedText := by
  have hprints : run quotedFiles none ["main"] = .ok (⟨0, quotedText, ""⟩, quotedFiles) := by
    decide +kernel
  have hsaves : (run quotedFiles none ["main", "-oout"]).map (·.1) = .ok ⟨0, "", ""⟩ := by
    decide +kernel
  have hcommands : (quotedFiles.parse "main" .default (collector none) .empty).1 =
      ⟨quotedCommands.toArray⟩ := by decide +kernel
  have htext : commandText quotedCommands = quotedText := by decide +kernel
  have hleaves : ∀ arguments output out after,
      Request.ofArguments arguments = .ok (.expand "main" output none false) →
      run quotedFiles none arguments = .ok (out, after) → out.exitCode = 0 →
      Delivered quotedFiles quotedText output out after ∧
        Transcript quotedCommands quotedText := by
    intro arguments output out after hrequest hrun hexit
    obtain ⟨_, _, _, _, cap, collected, hexpand, hcap, hparse, hdelivered, htranscript⟩ :=
      run_leaves_transcript.2 quotedFiles none arguments none out after hrun hexit
        (by rw [hrequest]; simp)
    cases hrequest.symm.trans hexpand
    cases hcap
    have hcollected : collected = ⟨quotedCommands.toArray⟩ := by simpa [hparse] using hcommands
    rw [hcollected, htext] at hdelivered htranscript
    exact ⟨hdelivered, htranscript⟩
  obtain ⟨-, htranscript⟩ := hleaves ["main"] none _ _ (by decide +kernel) hprints rfl
  refine ⟨hprints, ?_, htranscript⟩
  obtain ⟨out, after, hrun, rfl⟩ := exists_run_of_map hsaves
  obtain ⟨hdelivered, -⟩ := hleaves ["main", "-oout"] (some "out") _ _ (by decide +kernel) hrun rfl
  obtain ⟨address, hsaved⟩ := hdelivered.saved_of_some (by decide)
  exact ⟨after, hrun, hsaved.read⟩

end CommandLine
end CommandFile
