import CommandFile.CommandLine
import CommandFile.Proofs.CommandLine.CapOption
import CommandFile.Proofs.Schedule.Noting
set_option autoImplicit false

namespace CommandFile

namespace PassCap
variable {n : Int}

theorem ofInt?_of_pos (h : 0 < n) :
    ∃ cap : PassCap, (cap.passes : Int) = n ∧ ofInt? n = some cap := by
  obtain ⟨m, rfl⟩ := Int.eq_ofNat_of_zero_le (Int.le_of_lt h)
  have hpos : 0 < m := by omega
  exact ⟨⟨m, hpos⟩, rfl, ofInt?_natCast m hpos⟩

theorem ofInt?_of_nonpos (h : n ≤ 0) : ofInt? n = none := by
  have hzero : ¬ 0 < n.toNat := by omega
  simp [ofInt?, hzero]

theorem ofEnvironment_toString (hn : (toString n.natAbs).length ≤ Text.maxDigits) :
    ofEnvironment (some (toString n)) =
      match ofInt? n with
      | some cap => .ok cap
      | none => .error (.notPositive n) := by
  have hstrip : Text.strip (toString n) ≠ "" := by
    rw [Text.strip_toString]
    exact Text.toString_ne_empty n
  have hinteger := Text.integer?_toString hn
  cases hint : ofInt? n with
  | none => simp only [ofEnvironment, if_neg hstrip, hinteger, hint]
  | some cap => simp only [ofEnvironment, if_neg hstrip, hinteger, hint]

end PassCap

namespace CommandLine
variable {environment other : Option String} {arguments others : List String} {source : String}
  {output : Option String} {maxPasses number : Option Int} {verbose : Bool}

structure SameRuns (environment : Option String) (arguments : List String)
    (other : Option String) (others : List String) : Prop where
  start : source? environment arguments = source? other others
  plan (openFile : Opener) (limit : Nat) :
    plan openFile limit environment arguments = plan openFile limit other others
  run (files : Store) (fault : Option WriteFault) :
    run files environment arguments fault = run files other others fault

structure PrintsUnder (cap : PassCap) (source : String) (environment : Option String)
    (arguments : List String) : Prop where
  start : source? environment arguments = some source
  run (files : Store) (fault : Option WriteFault) (lines : List PendingLine) :
    (files.scan source).expand cap = .ok lines →
    run files environment arguments fault =
      .ok (⟨0, commandText (lines.map (·.tokens)), ""⟩, files)

structure RefusesUnread (message : String) (environment : Option String)
    (arguments : List String) : Prop where
  start : source? environment arguments = none
  plan (openFile : Opener) (limit : Nat) :
    plan openFile limit environment arguments = .done ⟨1, "Error: " ++ message ++ "\n", ""⟩
  run (files : Store) (fault : Option WriteFault) :
    run files environment arguments fault = .ok (⟨1, "Error: " ++ message ++ "\n", ""⟩, files)

theorem sameRuns_of_plan (hstart : source? environment arguments = source? other others)
    (h : ∀ openFile limit,
      plan openFile limit environment arguments = plan openFile limit other others) :
    SameRuns environment arguments other others :=
  ⟨hstart, h, fun files fault => by simp only [run, h]⟩

theorem sameRuns_of_choose
    (hfirst : Request.ofArguments arguments = .ok (.expand source output maxPasses verbose))
    (hsecond : Request.ofArguments others = .ok (.expand source output number verbose))
    (h : PassCap.choose maxPasses environment = PassCap.choose number other) :
    SameRuns environment arguments other others := by
  refine sameRuns_of_plan ?_ fun openFile limit => ?_
  · simp only [source?, hfirst, hsecond, h]
  · simp only [plan, hfirst, hsecond, planRequest, h]

theorem printsUnder_of_choose {cap : PassCap}
    (hrequest : Request.ofArguments arguments = .ok (.expand source none maxPasses false))
    (hcap : PassCap.choose maxPasses environment = .ok cap) :
    PrintsUnder cap source environment arguments where
  start := by simp only [source?, hrequest, hcap]
  run files fault lines hexpand := by
    have hscan : (scan files.opener (nestingLimit files.textFiles) source).expand cap = .ok lines :=
      hexpand
    simp [run, plan, hrequest, planRequest, hcap, Reading.schedule_of_ok hscan]

theorem refusesUnread_of_choose {e : CapError}
    (hrequest : Request.ofArguments arguments = .ok (.expand source output maxPasses verbose))
    (hcap : PassCap.choose maxPasses environment = .error e) :
    RefusesUnread e.message environment arguments where
  start := by simp only [source?, hrequest, hcap]
  plan openFile limit := by simp only [plan, hrequest, planRequest, hcap, failed]
  run files fault := by simp only [run, plan, hrequest, planRequest, hcap, failed]

theorem sameRuns_of_givesCap (h : GivesCap arguments) (environment other : Option String) :
    SameRuns environment arguments other arguments := by
  cases hrequest : Request.ofArguments arguments with
  | error e =>
    refine sameRuns_of_plan ?_ fun openFile limit => ?_
    · simp only [source?, hrequest]
    · simp only [plan, hrequest]
  | ok request =>
    cases request with
    | help | capWithoutValue =>
      refine sameRuns_of_plan ?_ fun openFile limit => ?_
      · simp only [source?, hrequest]
      · simp only [plan, hrequest, planRequest]
    | expand source output maxPasses verbose =>
      obtain ⟨n, rfl⟩ := Option.ne_none_iff_exists'.mp (Request.cap_given h hrequest)
      exact sameRuns_of_choose hrequest hrequest rfl

/-- A number can be given as it is, in decimal in the environment, or in decimal behind the option.
A positive one is the cap in all three cases, and the two runs of the program are the same. Any
other one is refused in all three cases, and no run opens a file for it. A number that is given as
it is, or any form of the option among the arguments, leaves the environment without influence. -/
theorem cap_settings_agree (n : Int) (source : String) (environment : Option String)
    (arguments : List String) :
    ((toString n.natAbs).length ≤ Text.maxDigits → source.toList.head? ≠ some '-' →
      (0 < n → ∃ cap : PassCap, (cap.passes : Int) = n ∧
        PassCap.choose (some n) environment = .ok cap ∧
        PassCap.choose none (some (toString n)) = .ok cap ∧
        PrintsUnder cap source environment ["--max-passes", toString n, source] ∧
        PrintsUnder cap source (some (toString n)) [source] ∧
        SameRuns (some (toString n)) [source] environment
          ["--max-passes", toString n, source]) ∧
      (n ≤ 0 →
        PassCap.choose (some n) environment = .error .numberNotPositive ∧
        PassCap.choose none (some (toString n)) = .error (.notPositive n) ∧
        RefusesUnread "max_passes must be positive" environment
          ["--max-passes", toString n, source] ∧
        RefusesUnread ("CMDFILE_MAX_PASSES must be positive, got " ++ toString n)
          (some (toString n)) [source])) ∧
    (∀ other, PassCap.choose (some n) environment = PassCap.choose (some n) other) ∧
    (GivesCap arguments → ∀ other, SameRuns environment arguments other arguments) := by
  refine ⟨fun hn hsource => ?_, fun other => rfl, fun h => sameRuns_of_givesCap h environment⟩
  have hplain := Request.ofArguments_source hsource
  have hoption := Request.ofArguments_cap (Argument.ofText_toString n)
    (Text.integer?_toString hn) hsource
  have hspelled := PassCap.ofEnvironment_toString hn
  constructor
  · intro hpos
    obtain ⟨cap, hcap, hint⟩ := PassCap.ofInt?_of_pos hpos
    have hgiven : PassCap.choose (some n) environment = .ok cap := by
      simp only [PassCap.choose, hint]
    have hread : PassCap.choose none (some (toString n)) = .ok cap := by
      rw [PassCap.choose, hspelled, hint]
    exact ⟨cap, hcap, hgiven, hread, printsUnder_of_choose hoption hgiven,
      printsUnder_of_choose hplain hread,
      sameRuns_of_choose hplain hoption (hread.trans hgiven.symm)⟩
  · intro hneg
    have hint := PassCap.ofInt?_of_nonpos hneg
    have hgiven : PassCap.choose (some n) environment = .error .numberNotPositive := by
      simp only [PassCap.choose, hint]
    have hread : PassCap.choose none (some (toString n)) = .error (.notPositive n) := by
      rw [PassCap.choose, hspelled, hint]
    exact ⟨hgiven, hread, refusesUnread_of_choose hoption hgiven,
      refusesUnread_of_choose hplain hread⟩

def chainFiles : Store :=
  ⟨[(["main"], .file (Text.Utf8.encode
    "MACRO A = B()\nMACRO B = C()\nMACRO C = x\nrun A()\n".toList))]⟩

theorem run_chainFiles :
    run chainFiles (some "2") ["main"] = .ok (⟨0, "run C()\n", ""⟩, chainFiles) ∧
    run chainFiles (some "two") ["--max-passes", "2", "main"] =
      .ok (⟨0, "run C()\n", ""⟩, chainFiles) ∧
    RefusesUnread "max_passes must be positive" (some "two") ["--max-passes", "-3", "main"] ∧
    RefusesUnread "CMDFILE_MAX_PASSES must be positive, got -3" (some "-3") ["main"] ∧
    run chainFiles (some "two") ["main", "--max=1"] =
      .ok (⟨0, "run B()\n", ""⟩, chainFiles) := by
  obtain ⟨hboth, -, hgiven⟩ := cap_settings_agree 2 "main" (some "two") ["main", "--max=1"]
  obtain ⟨hthree, -, -⟩ := cap_settings_agree (-3) "main" (some "two") []
  have htwo : toString (2 : Int) = "2" := by decide +kernel
  have hminus : toString (-3 : Int) = "-3" := by decide +kernel
  rw [htwo] at hboth
  rw [hminus] at hthree
  have hcap : GivesCap ["main", "--max=1"] :=
    ⟨"--max=1", by decide, false, some "1", by decide +kernel⟩
  have hexpand : (chainFiles.scan "main").expand ⟨2, by decide⟩ =
      .ok [⟨["run", "C()"], true⟩] := by decide +kernel
  have hlines : ∀ cap : PassCap, (cap.passes : Int) = 2 →
      (chainFiles.scan "main").expand cap = .ok [⟨["run", "C()"], true⟩] := by
    rintro ⟨passes, hpos⟩ hpasses
    obtain rfl : passes = 2 := Int.ofNat_inj.mp hpasses
    exact hexpand
  have htext : commandText [["run", "C()"]] = "run C()\n" := by decide +kernel
  obtain ⟨cap, hpasses, -, -, hoption, henvironment, -⟩ :=
    (hboth (by decide) (by decide)).1 (by decide)
  obtain ⟨-, -, hrefused, hnegative⟩ := (hthree (by decide) (by decide)).2 (by decide)
  refine ⟨?_, ?_, hrefused, hnegative, ?_⟩
  · simpa [htext] using henvironment.run chainFiles none _ (hlines cap hpasses)
  · simpa [htext] using hoption.run chainFiles none _ (hlines cap hpasses)
  · rw [(hgiven hcap none).run]
    decide +kernel

end CommandLine
end CommandFile
