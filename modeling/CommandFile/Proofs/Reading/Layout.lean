import CommandFile.Proofs.Reading.Nesting
import CommandFile.Proofs.Schedule.Noting
import CommandFile.Proofs.Store.Views
import CommandFile.Proofs.Text.LineEnds
import Mathlib.Data.List.DropRight
set_option autoImplicit false

namespace CommandFile

theorem Text.trim_trim (cs : List Char) : trim (trim cs) = trim cs := by
  have hleft : trimLeft (trim cs) = trim cs := by
    refine List.dropWhile_eq_self_iff.mpr fun hl => ?_
    have hfront : trim cs <+: trimLeft cs := List.rdropWhile_prefix isBlank (trimLeft cs)
    rw [hfront.getElem hl]
    exact List.dropWhile_get_zero_not _ _ _
  have hright : trimRight (trim cs) = trim cs := List.rdropWhile_idempotent isBlank (trimLeft cs)
  calc trim (trim cs) = trimRight (trimLeft (trim cs)) := rfl
    _ = trim cs := by rw [hleft, hright]

@[simp] theorem Text.strip_strip (line : String) : strip (strip line) = strip line := by
  rw [strip, toList_strip, trim_trim, strip]

def contentLines (lines : List String) : List String := (lines.map Text.strip).filter isContent

def TextFile.plain (file : TextFile) : TextFile := { file with lines := contentLines file.lines }

theorem contentLines_cons (raw : String) (rest : List String) :
    contentLines (raw :: rest) =
      if isContent (Text.strip raw) then Text.strip raw :: contentLines rest
      else contentLines rest := by
  simp [contentLines, List.filter_cons]

theorem contentLines_contentLines (lines : List String) :
    contentLines (contentLines lines) = contentLines lines := by
  induction lines with
  | nil => rfl
  | cons raw rest ih =>
    rw [contentLines_cons]
    split
    · rename_i hcontent
      simp [contentLines_cons, hcontent, ih]
    · exact ih

def ScanError.unnumbered : ScanError → ScanError
  | .unmatchedQuotes path _ e => .unmatchedQuotes path 0 e
  | e => e

def Reading.unnumbered (r : Reading) : Reading :=
  { r with failure := r.failure.map ScanError.unnumbered }

section Lines
variable {path : String} {tailFault : Option Text.Utf8.Fault} {begun : Option OpenMacro}

theorem readLine_strip (raw : String) : readLine begun (Text.strip raw) = readLine begun raw := by
  simp [readLine]

theorem readLines_contentLines (lines : List String) (number other : Nat) :
    (readLines path tailFault number begun (contentLines lines)).unnumbered =
      (readLines path tailFault other begun lines).unnumbered := by
  induction lines generalizing number other begun with
  | nil => simp [contentLines]
  | cons raw rest ih =>
    rw [contentLines_cons]
    split
    · rw [readLines_cons, readLines_cons, readLine_strip]
      cases readLine begun raw with
      | error e => rfl
      | ok step => exact congrArg (Reading.prepend step.2.toList) (ih (number + 1) (other + 1))
    · rename_i hblank
      have hskipped : readLine begun raw = .ok (begun, none) :=
        readLine_of_skipped (by simpa using hblank)
      rw [readLines_cons, hskipped]
      exact ih number (other + 1)

theorem readFile_unnumbered {file other : TextFile} (h : other.plain = file.plain) :
    (readFile path other).unnumbered = (readFile path file).unnumbered := by
  have hlines : contentLines other.lines = contentLines file.lines := congrArg TextFile.lines h
  have htail : other.tailFault = file.tailFault := (congrArg TextFile.tailFault h :)
  calc (readFile path other).unnumbered
      = (readLines path other.tailFault 1 none (contentLines other.lines)).unnumbered :=
        (readLines_contentLines other.lines 1 1).symm
    _ = (readLines path file.tailFault 1 none (contentLines file.lines)).unnumbered := by
        rw [hlines, htail]
    _ = (readFile path file).unnumbered := readLines_contentLines file.lines 1 1

end Lines

theorem inlineItems_unnumbered (read : String → Reading) (items : List Item) :
    inlineItems (fun path => (read path).unnumbered) items =
      (inlineItems read items).unnumbered := by
  induction items with
  | nil => rfl
  | cons item rest ih =>
    obtain ⟨path, rfl⟩ | hitem := item.inclusion_or
    · cases hf : (read path).failure with
      | none =>
        have hplain : (read path).unnumbered.failure = none := by simp [Reading.unnumbered, hf]
        rw [inlineItems_inclusion_of_success hf,
          @inlineItems_inclusion_of_success (fun path => (read path).unnumbered) path rest hplain,
          ih]
        rfl
      | some e =>
        have hplain : (read path).unnumbered.failure = some e.unnumbered := by
          simp [Reading.unnumbered, hf]
        rw [inlineItems_inclusion_of_failure hf,
          @inlineItems_inclusion_of_failure (fun path => (read path).unnumbered) path rest _ hplain]
        rfl
    · rw [inlineItems_cons hitem, inlineItems_cons hitem, ih]
      rfl

theorem Reading.inlined_unnumbered (read : String → Reading) (own : Reading) :
    (own.inlined read).unnumbered =
      own.unnumbered.inlined fun path => (read path).unnumbered := by
  have hitems : own.unnumbered.items = own.items := rfl
  rw [inlined, inlined, hitems, inlineItems_unnumbered]
  cases inlineItems read own.items with
  | mk items failure => cases failure <;> rfl

def Opener.plain (openFile : Opener) : Opener := fun path => (openFile path).map TextFile.plain

def SameContent (openFile other : Opener) : Prop := other.plain = openFile.plain

theorem sameContent_plain (openFile : Opener) : SameContent openFile openFile.plain := by
  funext path
  cases ho : openFile path with
  | error e => simp [Opener.plain, ho, Except.map]
  | ok file => simp [Opener.plain, ho, Except.map, TextFile.plain, contentLines_contentLines]

def contentOf (octets : List UInt8) : Except Text.Utf8.Fault TextFile :=
  (TextFile.ofOctets octets).map TextFile.plain

theorem Store.opener_plain (s : Store) (path : String) :
    s.opener.plain path =
      match (s.read path).map contentOf with
      | .error e => .error (.file e)
      | .ok (.error fault) => .error (.undecodable fault)
      | .ok (.ok file) => .ok file := by
  unfold Opener.plain opener
  cases s.read path with
  | error e => rfl
  | ok octets =>
    simp only [Except.map, contentOf]
    cases TextFile.ofOctets octets <;> rfl

theorem sameContent_of_view {files other : Store}
    (h : other.view contentOf = files.view contentOf) : SameContent files.opener other.opener := by
  funext path
  rw [Store.opener_plain, Store.opener_plain, Store.read_view h]

section Scanning
variable {openFile other : Opener}

theorem SameContent.scan_unnumbered (h : SameContent openFile other) (limit : Nat)
    (path : String) :
    (scan other limit path).unnumbered = (scan openFile limit path).unnumbered := by
  induction limit generalizing path with
  | zero => rfl
  | succ fewer ih =>
    have hread : (fun path => (scan other fewer path).unnumbered) =
        fun path => (scan openFile fewer path).unnumbered := funext ih
    have hpath : (other path).map TextFile.plain = (openFile path).map TextFile.plain :=
      congrFun h path
    rw [scan_succ, scan_succ]
    cases ho : openFile path with
    | error e =>
      cases hother : other path with
      | error reason =>
        rw [ho, hother] at hpath
        cases hpath
        rfl
      | ok file => simp [ho, hother, Except.map] at hpath
    | ok file =>
      cases hother : other path with
      | error reason => simp [ho, hother, Except.map] at hpath
      | ok text =>
        rw [ho, hother] at hpath
        have hplain : text.plain = file.plain := by simpa [Except.map] using hpath
        simp only [Reading.inlined_unnumbered, readFile_unnumbered hplain, hread]

end Scanning

section Handing
variable {σ ε : Type} (cap : PassCap) (scheduler : Scheduler σ ε) (state : σ)

theorem Reading.schedule_of_failure {r : Reading} {e : ScanError} (h : r.failure = some e) :
    r.schedule cap scheduler state = (state, some (.parse (.scan e))) :=
  schedule_of_error (by simp only [expand, h]) scheduler state

theorem Reading.schedule_of_unnumbered {r others : Reading}
    (h : others.unnumbered = r.unnumbered) :
    (others.schedule cap scheduler state).1 = (r.schedule cap scheduler state).1 := by
  have hitems : others.items = r.items := (congrArg Reading.items h :)
  have hfailure : others.failure.map ScanError.unnumbered = r.failure.map ScanError.unnumbered :=
    congrArg Reading.failure h
  cases hr : r.failure with
  | none =>
    have hothers : others.failure = none := by simpa [hr] using hfailure
    have hsame : others = r := by
      cases others
      cases r
      simp_all
    rw [hsame]
  | some e =>
    have hsome : (others.failure.map ScanError.unnumbered).isSome = true := by simp [hfailure, hr]
    obtain ⟨reason, hothers⟩ := Option.isSome_iff_exists.mp (by simpa using hsome)
    rw [schedule_of_failure cap scheduler state hr, schedule_of_failure cap scheduler state hothers]

theorem Store.schedule_scan_of_le {s : Store} {more : Nat} (hle : nestingLimit s.textFiles ≤ more)
    (path : String) :
    ((CommandFile.scan s.opener more path).schedule cap scheduler state).1 =
      (s.parse path cap scheduler state).1 := by
  rw [parse]
  obtain ⟨-, ⟨met, hfew⟩, ⟨another, hmany⟩⟩ | ⟨-, -, hsame⟩ := @Store.scan_settled path more s hle
  · rw [Reading.schedule_of_failure cap scheduler state hfew,
      Reading.schedule_of_failure cap scheduler state hmany]
  · rw [hsame]

theorem SameContent.parse {files other : Store} (h : SameContent files.opener other.opener)
    (path : String) :
    (other.parse path cap scheduler state).1 = (files.parse path cap scheduler state).1 := by
  let limit := max (nestingLimit files.textFiles) (nestingLimit other.textFiles)
  rw [← files.schedule_scan_of_le cap scheduler state (Nat.le_max_left _ _ : _ ≤ limit),
    ← other.schedule_scan_of_le cap scheduler state (Nat.le_max_right _ _ : _ ≤ limit)]
  exact Reading.schedule_of_unnumbered cap scheduler state (h.scan_unnumbered limit path)

end Handing

/-- A scan sees no layout: files that are left with the same lines when blanks at the ends of lines,
blank lines and comments are taken away come to the same context, by way of the same files, and to
the same commands. If a scan fails, so does the other, and what they tell differs at most in the
number of a line. A change of line ends is not seen at all. -/
theorem layout_changes_only_line_numbers (openFile : Opener) :
    (∀ limit path c opened,
      (walk openFile.plain limit path ⟨c, opened⟩).1 = (walk openFile limit path ⟨c, opened⟩).1 ∧
      (walk openFile.plain limit path ⟨c, opened⟩).2.map ScanError.unnumbered =
        (walk openFile limit path ⟨c, opened⟩).2.map ScanError.unnumbered) ∧
    (∀ other, SameContent openFile other → ∀ limit path,
      (scan other limit path).items = (scan openFile limit path).items ∧
      (scan other limit path).failure.map ScanError.unnumbered =
        (scan openFile limit path).failure.map ScanError.unnumbered) ∧
    (∀ files other : Store, other.view contentOf = files.view contentOf →
      ∀ {σ ε : Type} (scheduler : Scheduler σ ε) (state : σ) path cap,
        (other.parse path cap scheduler state).1 = (files.parse path cap scheduler state).1) ∧
    ∀ ending ∈ Text.lineEnds, ∀ octets others text,
      Text.Utf8.decode octets = .ok ⟨text, none⟩ →
      Text.Utf8.decode others = .ok ⟨Text.withLineEnds ending text, none⟩ →
      TextFile.ofOctets others = TextFile.ofOctets octets := by
  have hscan : ∀ other, SameContent openFile other → ∀ limit path,
      (scan other limit path).items = (scan openFile limit path).items ∧
      (scan other limit path).failure.map ScanError.unnumbered =
        (scan openFile limit path).failure.map ScanError.unnumbered := by
    intro other h limit path
    have hsame := h.scan_unnumbered limit path
    exact ⟨(congrArg Reading.items hsame :), (congrArg Reading.failure hsame :)⟩
  refine ⟨fun limit path c opened => ?_, hscan,
    fun files other h σ ε scheduler state path cap =>
      (sameContent_of_view h).parse cap scheduler state path,
    fun ending hending octets others text hoctets hothers =>
      TextFile.ofOctets_withLineEnds hending hoctets hothers⟩
  obtain ⟨hitems, hfailure⟩ := hscan _ (sameContent_plain openFile) limit path
  rw [walk_eq, walk_eq]
  simp [Walk.after, Reading.inclusions, hitems, hfailure]

def tidyFiles : Store :=
  ⟨[(["main"], .file (Text.Utf8.encode
      "MACRO A = x\nLONG MACRO B\nA() 1\nEND MACRO\nINCLUDE part\nA() B()\n".toList)),
    (["part"], .file (Text.Utf8.encode "B() end\n".toList))]⟩

def untidyFiles : Store :=
  ⟨[(["main"], .file (Text.Utf8.encode
      ("# A and B\r\n\tMACRO A = x \r\n\r\nLONG MACRO B\r\n # one line\r\n  A() 1\r\n" ++
        "\tEND MACRO\r\nINCLUDE part\r\n\r\nA() B()").toList)),
    (["part"], .file (Text.Utf8.encode "\r\u2003B() end\r\r".toList))]⟩

theorem parse_untidyFiles :
    untidyFiles.view contentOf = tidyFiles.view contentOf ∧
    (scan untidyFiles.opener 2 "main").items = (scan tidyFiles.opener 2 "main").items ∧
    (untidyFiles.parse "main" .default (collector none) .empty).1 =
      ⟨#[["x", "1", "end"], ["x", "x", "1"]]⟩ ∧
    TextFile.ofOctets (Text.Utf8.encode "\rB()\r\rend".toList) =
      TextFile.ofOctets (Text.Utf8.encode "\nB()\r\n\nend".toList) := by
  have hview : untidyFiles.view contentOf = tidyFiles.view contentOf := by decide +kernel
  have hcommands : (tidyFiles.parse "main" .default (collector none) .empty).1 =
      ⟨#[["x", "1", "end"], ["x", "x", "1"]]⟩ := by decide +kernel
  obtain ⟨-, hscan, hparse, hends⟩ := layout_changes_only_line_numbers tidyFiles.opener
  exact ⟨hview, (hscan _ (sameContent_of_view hview) 2 "main").1,
    (hparse tidyFiles untidyFiles hview _ _ _ _).trans hcommands,
    hends ['\r'] (by decide) _ _ "\nB()\r\n\nend".toList rfl rfl⟩

end CommandFile
