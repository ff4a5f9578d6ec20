import CommandFile.Proofs.Quoting.Positions
import CommandFile.Proofs.Reading.Hoisting
import CommandFile.Proofs.Reading.Layout
import Mathlib.Order.Bounds.Basic
set_option autoImplicit false

namespace CommandFile
open Quoting

def hasOpenQuote (raw : String) : Bool :=
  let text := Text.trim raw.toList
  !text.isEmpty && text.head? != some '#' && activeQuotes text text.length % 2 == 1

def numbersOf (p : String → Bool) (start : Nat) (lines : List String) : Set Nat :=
  {number | ∃ raw, (raw, number) ∈ lines.zipIdx start ∧ p raw = true}

/-- The long macro that is open behind a line, if `begun` is open before it. -/
def openBehind (begun : Option String) (raw : String) : Option String :=
  match begun with
  | some name => if Text.strip raw = endMacro then none else some name
  | none =>
    match lineKind? raw with
    | some (.longMacro name) => some name
    | _ => none

def EndsInside (lines : List String) (name : String) : Prop :=
  ∃ before header body, lines = before ++ header :: body ∧ before.foldl openBehind none = none ∧
    lineKind? header = some (.longMacro name) ∧ ∀ raw ∈ body, Text.strip raw ≠ endMacro

section LongMacros
variable {name raw : String} {lines body : List String}

theorem openBehind_of_ne (h : Text.strip raw ≠ endMacro) :
    openBehind (some name) raw = some name := if_neg h

theorem openBehind_of_header (h : lineKind? raw = some (.longMacro name)) :
    openBehind none raw = some name := by simp [openBehind, h]

theorem foldl_openBehind_body (h : ∀ raw ∈ body, Text.strip raw ≠ endMacro) :
    body.foldl openBehind (some name) = some name := by
  induction body with
  | nil => rfl
  | cons raw rest ih =>
    obtain ⟨hraw, hrest⟩ := List.forall_mem_cons.mp h
    rw [List.foldl_cons, openBehind_of_ne hraw, ih hrest]

theorem openBehind_eq_some {begun : Option String} (h : openBehind begun raw = some name) :
    begun = some name ∧ Text.strip raw ≠ endMacro ∨
      begun = none ∧ lineKind? raw = some (.longMacro name) := by
  cases begun with
  | some other =>
    by_cases hend : Text.strip raw = endMacro
    · simp [openBehind, hend] at h
    · rw [openBehind_of_ne hend] at h
      exact .inl ⟨h, hend⟩
  | none =>
    refine .inr ⟨rfl, ?_⟩
    simp only [openBehind] at h
    split at h
    · rename_i other hkind
      rw [hkind, Option.some.inj h]
    · cases h

theorem foldl_openBehind_eq_some_iff :
    lines.foldl openBehind none = some name ↔ EndsInside lines name := by
  constructor
  · intro h
    induction lines using List.reverseRec with
    | nil => cases h
    | append_singleton lines raw ih =>
      rw [List.foldl_concat] at h
      obtain ⟨hopen, hend⟩ | ⟨hclosed, hheader⟩ := openBehind_eq_some h
      · obtain ⟨before, header, body, rfl, hbefore, hheader, hbody⟩ := ih hopen
        refine ⟨before, header, body ++ [raw], by simp, hbefore, hheader, ?_⟩
        exact List.forall_mem_append.mpr ⟨hbody, by simpa using hend⟩
      · exact ⟨lines, raw, [], rfl, hclosed, hheader, by simp⟩
  · rintro ⟨before, header, body, rfl, hbefore, hheader, hbody⟩
    rw [List.foldl_append, hbefore, List.foldl_cons, openBehind_of_header hheader,
      foldl_openBehind_body hbody]

theorem openBehind_of_readLine {begun next : Option OpenMacro} {item : Option Item}
    (h : readLine begun raw = .ok (next, item)) :
    openBehind (begun.map (·.name)) raw = next.map (·.name) := by
  cases lineRead_of_readLine h with
  | skipped begun hblank =>
    cases begun with
    | none => simp [openBehind, lineKind?, hblank]
    | some m => exact openBehind_of_ne (ne_endMacro_of_skipped hblank)
  | ended m hend => simp [openBehind, hend]
  | kept m hend hcontent ht => exact openBehind_of_ne hend
  | begun hcontent ht hc =>
    exact openBehind_of_header (lineKind?_eq_some.mpr ⟨hcontent, _, ht, hc⟩)
  | @completed tokens item hcontent ht hc =>
    have hkind : lineKind? raw = some (classify tokens) :=
      lineKind?_eq_some.mpr ⟨hcontent, tokens, ht, rfl⟩
    cases hk : classify tokens with
    | longMacro name =>
      rw [hk] at hc
      cases hc
    | shortMacro | inclusion | command => simp [openBehind, hkind, hk]

end LongMacros

section Quotes
variable {raw : String} {begun : Option OpenMacro}

theorem hasOpenQuote_iff : hasOpenQuote raw = true ↔
    isContent (Text.strip raw) = true ∧
      tokenize (Text.strip raw) = .error ⟨Text.strip raw⟩ := by
  have hcontent : isContent (Text.strip raw) =
      (!(Text.trim raw.toList).isEmpty && (Text.trim raw.toList).head? != some '#') := by
    rw [isContent, Text.toList_strip, Text.trim_trim]
    cases Text.trim raw.toList <;> rfl
  simp [hasOpenQuote, hcontent, tokenize_eq_error_iff, and_assoc]

theorem readLine_of_openQuote (h : hasOpenQuote raw = true) :
    readLine begun raw = .error ⟨Text.strip raw⟩ := by
  obtain ⟨hcontent, ht⟩ := hasOpenQuote_iff.mp h
  refine readLine_eq_error.mpr ⟨hcontent, ht, fun _ hend => ?_⟩
  rw [hend] at ht
  exact absurd ht (by decide)

theorem hasOpenQuote_of_readLine {e : UnmatchedQuotes} (h : readLine begun raw = .error e) :
    hasOpenQuote raw = true := by
  obtain ⟨hcontent, ht, -⟩ := readLine_eq_error.mp h
  obtain ⟨-, rfl⟩ := tokenize_eq_error_iff.mp ht
  exact hasOpenQuote_iff.mpr ⟨hcontent, ht⟩

end Quotes

section Numbers
variable {p : String → Bool} {start number : Nat} {raw first : String} {lines rest : List String}

theorem le_of_mem_numbersOf (h : number ∈ numbersOf p start lines) : start ≤ number := by
  obtain ⟨raw, hmem, -⟩ := h
  exact List.le_snd_of_mem_zipIdx hmem

theorem numbersOf_cons_of_false (h : p first = false) :
    numbersOf p start (first :: rest) = numbersOf p (start + 1) rest := by
  ext number
  simp [numbersOf, List.zipIdx_cons, or_and_right, exists_or, h]

theorem isLeast_numbersOf_cons (h : p first = true) :
    IsLeast (numbersOf p start (first :: rest)) start := by
  refine ⟨⟨first, ?_, h⟩, fun number hnumber => le_of_mem_numbersOf hnumber⟩
  rw [List.zipIdx_cons]
  exact List.mem_cons_self

theorem find?_zipIdx_eq_some_iff :
    (lines.zipIdx start).find? (fun line => p line.1) = some (raw, number) ↔
      IsLeast (numbersOf p start lines) number ∧ (raw, number) ∈ lines.zipIdx start := by
  induction lines generalizing start with
  | nil => simp
  | cons first rest ih =>
    rw [List.zipIdx_cons, List.find?_cons, List.mem_cons]
    cases hp : p first with
    | true =>
      have hstart : IsLeast (numbersOf p start (first :: rest)) start :=
        isLeast_numbersOf_cons hp
      constructor
      · intro h
        cases h
        exact ⟨hstart, .inl rfl⟩
      · rintro ⟨hleast, hmem⟩
        obtain rfl := hleast.unique hstart
        obtain hfirst | hrest := hmem
        · rw [hfirst]
        · exact absurd (List.le_snd_of_mem_zipIdx hrest) (Nat.not_succ_le_self number)
    | false =>
      rw [numbersOf_cons_of_false hp, ih]
      refine and_congr_right fun hleast => ⟨.inr, fun hmem => ?_⟩
      obtain hfirst | hrest := hmem
      · have hlater := le_of_mem_numbersOf hleast.1
        cases hfirst
        omega
      · exact hrest

theorem find?_zipIdx_eq_none_iff :
    (lines.zipIdx start).find? (fun line => p line.1) = none ↔ numbersOf p start lines = ∅ := by
  simp only [List.find?_eq_none, Prod.forall, numbersOf, Set.eq_empty_iff_forall_notMem,
    Set.mem_ofPred_eq, not_exists, not_and]
  exact forall_comm

end Numbers

/-- The failure of a reading in terms of the lines alone. -/
theorem readLines_failure (path : String) (number : Nat) (begun : Option OpenMacro)
    (lines : List String) :
    (readLines path none number begun lines).failure =
      match (lines.zipIdx number).find? (fun line => hasOpenQuote line.1) with
      | some (raw, found) => some (.unmatchedQuotes path found ⟨Text.strip raw⟩)
      | none => (lines.foldl openBehind (begun.map (·.name))).map .unterminatedMacro := by
  induction lines generalizing number begun with
  | nil => cases begun <;> rfl
  | cons raw rest ih =>
    rw [readLines_cons, List.zipIdx_cons, List.find?_cons, List.foldl_cons]
    cases hl : readLine begun raw with
    | error e =>
      have hopen := hasOpenQuote_of_readLine hl
      cases hl.symm.trans (readLine_of_openQuote hopen)
      simp [hopen, Reading.failed]
    | ok step =>
      obtain ⟨next, item⟩ := step
      have hclosed : hasOpenQuote raw = false := by
        by_contra hopen
        cases hl.symm.trans (readLine_of_openQuote (by simpa using hopen))
      simp only [hclosed, Reading.failure_prepend, ih, openBehind_of_readLine hl]

theorem unmatchedQuotes_message (path : String) (number : Nat) (line : String) :
    (ScanError.unmatchedQuotes path number ⟨line⟩).message =
      path ++ ":" ++ toString number ++ ": Unmatched quotes: " ++ line := by
  have hcolon : ": " ++ "Unmatched quotes: " = ": Unmatched quotes: " := by decide
  unfold ScanError.message UnmatchedQuotes.message
  simp only [← hcolon, String.append_assoc]

section Scanning
variable {openFile : Opener} {path : String} {file : TextFile}

theorem scan_failure (ho : openFile path = .ok file) (hdecoded : file.tailFault = none)
    (hfree : (readFile path file).inclusions = []) (limit : Nat) :
    (scan openFile (limit + 1) path).failure =
      match (file.lines.zipIdx 1).find? (fun line => hasOpenQuote line.1) with
      | some (raw, number) => some (.unmatchedQuotes path number ⟨Text.strip raw⟩)
      | none => (file.lines.foldl openBehind none).map .unterminatedMacro := by
  rw [scan_of_no_inclusions ho hfree, readFile, hdecoded]
  exact readLines_failure path 1 none file.lines

/-- A scan of a file that includes no other fails at the first line whose quotes do not match, inside
of long macros or outside, and tells its number. If there is no such line, it fails just if the file
ends inside of a long macro, which it names. -/
theorem scan_reports_first_fault (openFile : Opener) (limit : Nat) (path : String)
    (file : TextFile) (ho : openFile path = .ok file) (hdecoded : file.tailFault = none)
    (hfree : (readFile path file).inclusions = []) :
    (∀ source number e,
      (scan openFile (limit + 1) path).failure = some (.unmatchedQuotes source number e) ↔
        source = path ∧ IsLeast (numbersOf hasOpenQuote 1 file.lines) number ∧
          ∃ raw, (raw, number) ∈ file.lines.zipIdx 1 ∧ e = ⟨Text.strip raw⟩) ∧
    (∀ number line, (ScanError.unmatchedQuotes path number ⟨line⟩).message =
      path ++ ":" ++ toString number ++ ": Unmatched quotes: " ++ line) ∧
    (numbersOf hasOpenQuote 1 file.lines = ∅ →
      (∀ name, (scan openFile (limit + 1) path).failure = some (.unterminatedMacro name) ↔
        EndsInside file.lines name) ∧
      ((∀ name, ¬ EndsInside file.lines name) →
        (scan openFile (limit + 1) path).failure = none)) := by
  have hfailure := scan_failure ho hdecoded hfree limit
  refine ⟨fun source number e => ?_, unmatchedQuotes_message path, fun hnone => ?_⟩
  · have hfound : (∃ raw, (file.lines.zipIdx 1).find? (fun line => hasOpenQuote line.1) =
        some (raw, number) ∧ e = ⟨Text.strip raw⟩) ↔
        IsLeast (numbersOf hasOpenQuote 1 file.lines) number ∧
          ∃ raw, (raw, number) ∈ file.lines.zipIdx 1 ∧ e = ⟨Text.strip raw⟩ := by
      simp only [find?_zipIdx_eq_some_iff, and_assoc, exists_and_left]
    rw [hfailure, ← hfound]
    cases (file.lines.zipIdx 1).find? (fun line => hasOpenQuote line.1) with
    | none => simp
    | some line =>
      obtain ⟨raw, found⟩ := line
      simp only [Option.some.injEq, ScanError.unmatchedQuotes.injEq, Prod.mk.injEq]
      constructor
      · rintro ⟨rfl, rfl, rfl⟩
        exact ⟨rfl, raw, ⟨rfl, rfl⟩, rfl⟩
      · rintro ⟨rfl, _, ⟨rfl, rfl⟩, rfl⟩
        exact ⟨rfl, rfl, rfl⟩
  · rw [find?_zipIdx_eq_none_iff.mpr hnone] at hfailure
    simp only [hfailure, ← foldl_openBehind_eq_some_iff]
    cases file.lines.foldl openBehind none with
    | none => simp
    | some name => simp

end Scanning

def openQuotesFile : TextFile :=
  ⟨["# \"", "LONG MACRO n", "", "x \\\"", "  y \"z ", "run \""], none⟩

def openMacroFile : TextFile :=
  ⟨["LONG MACRO A", "END MACRO", "LONG MACRO n", "LONG MACRO m", "# END"], none⟩

def faultyFiles : Opener
  | "quotes" => .ok openQuotesFile
  | "ending" => .ok openMacroFile
  | path => .error (.file (.refused .notFound path))

theorem scan_faultyFiles :
    (scan faultyFiles 1 "quotes").failure = some (.unmatchedQuotes "quotes" 5 ⟨"y \"z"⟩) ∧
      (scan faultyFiles 1 "ending").failure = some (.unterminatedMacro "n") := by
  constructor
  · have hfirst : IsLeast (numbersOf hasOpenQuote 1 openQuotesFile.lines) 5 ∧
        ("  y \"z ", 5) ∈ openQuotesFile.lines.zipIdx 1 :=
      find?_zipIdx_eq_some_iff.mp (by decide +kernel)
    exact ((scan_reports_first_fault faultyFiles 0 "quotes" openQuotesFile rfl rfl
      (by decide +kernel)).1 "quotes" 5 _).mpr
      ⟨rfl, hfirst.1, "  y \"z ", hfirst.2, by decide +kernel⟩
  · have hnone : numbersOf hasOpenQuote 1 openMacroFile.lines = ∅ :=
      find?_zipIdx_eq_none_iff.mp (by decide +kernel)
    have hending : EndsInside openMacroFile.lines "n" :=
      foldl_openBehind_eq_some_iff.mp (by decide +kernel)
    exact (((scan_reports_first_fault faultyFiles 0 "ending" openMacroFile rfl rfl
      (by decide +kernel)).2.2 hnone).1 "n").mpr hending

end CommandFile
