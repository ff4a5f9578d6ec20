import CommandFile.Proofs.Reading.Effects
import CommandFile.Proofs.Reading.Inlining
set_option autoImplicit false

/-!
Where a scan stops, and what it leaves. The lines of a file spell items. A scan completes them one
after the other, those of an included file in between, until it comes to one that cannot be
completed: its context then holds the effects of the items completed, and of nothing else.
-/
namespace CommandFile

inductive BodyLines : List String → List (List String) → Prop where
  | start : BodyLines [] []
  | skipped {lines : List String} {body : List (List String)} {raw : String} :
      BodyLines lines body → isContent (Text.strip raw) = false → BodyLines (lines ++ [raw]) body
  | kept {lines tokens : List String} {body : List (List String)} {raw : String} :
      BodyLines lines body → Text.strip raw ≠ endMacro → isContent (Text.strip raw) = true →
      tokenize (Text.strip raw) = .ok tokens → BodyLines (lines ++ [raw]) (body ++ [tokens])

inductive Spells : List String → Item → Prop where
  | line {raw : String} {kind : LineKind} {item : Item} : lineKind? raw = some kind →
      kind.item? = some item → Spells [raw] item
  | longMacro {header name last : String} {lines : List String} {body : List (List String)} :
      lineKind? header = some (.longMacro name) → BodyLines lines body →
      Text.strip last = endMacro → Spells (header :: lines ++ [last]) (.longMacro name body)

/-- The lines complete the items, where `reads` tells the items of the files that they include. -/
inductive Completes (reads : String → List Item → Prop) : List String → List Item → Prop where
  | start : Completes reads [] []
  | skipped {lines : List String} {items : List Item} {raw : String} :
      Completes reads lines items → isContent (Text.strip raw) = false →
      Completes reads (lines ++ [raw]) items
  | item {lines block : List String} {items : List Item} {item : Item} :
      Completes reads lines items → Spells block item → item.includedPath? = none →
      Completes reads (lines ++ block) (items ++ [item])
  | inclusion {lines : List String} {items inner : List Item} {raw path : String} :
      Completes reads lines items → lineKind? raw = some (.inclusion path) → reads path inner →
      Completes reads (lines ++ [raw]) (items ++ .inclusion path :: inner)

/-- No item can be completed from the first of the lines on, which has the given number: the line is
no inclusion and cannot be tokenized, or it begins a long macro whose body cannot be read or has no
end, or there is no line but octets that cannot be decoded. -/
inductive FailsAt (path : String) (tailFault : Option Text.Utf8.Fault) (number : Nat) :
    List String → ScanError → Prop where
  | line {raw : String} {rest : List String} {e : UnmatchedQuotes} :
      isContent (Text.strip raw) = true → tokenize (Text.strip raw) = .error e →
      FailsAt path tailFault number (raw :: rest) (.unmatchedQuotes path number e)
  | body {header name raw : String} {lines rest : List String} {body : List (List String)}
      {e : UnmatchedQuotes} : lineKind? header = some (.longMacro name) → BodyLines lines body →
      Text.strip raw ≠ endMacro → isContent (Text.strip raw) = true →
      tokenize (Text.strip raw) = .error e →
      FailsAt path tailFault number (header :: lines ++ raw :: rest)
        (.unmatchedQuotes path (number + (lines.length + 1)) e)
  | unterminated {header name : String} {lines : List String} {body : List (List String)} :
      tailFault = none → lineKind? header = some (.longMacro name) → BodyLines lines body →
      FailsAt path tailFault number (header :: lines) (.unterminatedMacro name)
  | undecodable {fault : Text.Utf8.Fault} : tailFault = some fault →
      FailsAt path tailFault number [] (.unreadable (.undecodable fault))
  | undecodableBody {header name : String} {lines : List String} {body : List (List String)}
      {fault : Text.Utf8.Fault} : tailFault = some fault →
      lineKind? header = some (.longMacro name) → BodyLines lines body →
      FailsAt path tailFault number (header :: lines) (.unreadable (.undecodable fault))

inductive StopsIn (reads : String → List Item → Prop)
    (stops : String → List Item → ScanError → Prop) (path : String)
    (tailFault : Option Text.Utf8.Fault) (lines : List String) : List Item → ScanError → Prop where
  | here {before rest : List String} {items : List Item} {e : ScanError} :
      lines = before ++ rest → Completes reads before items →
      FailsAt path tailFault (before.length + 1) rest e →
      StopsIn reads stops path tailFault lines items e
  | inside {before rest : List String} {raw included : String} {items inner : List Item}
      {e : ScanError} : lines = before ++ raw :: rest → Completes reads before items →
      lineKind? raw = some (.inclusion included) → stops included inner e →
      StopsIn reads stops path tailFault lines (items ++ .inclusion included :: inner) e

def ReadsThrough (openFile : Opener) : Nat → String → List Item → Prop
  | 0, _, _ => False
  | limit + 1, path, items =>
    ∃ file, openFile path = .ok file ∧ file.tailFault = none ∧
      Completes (ReadsThrough openFile limit) file.lines items

def Stops (openFile : Opener) : Nat → String → List Item → ScanError → Prop
  | 0, path, items, e => items = [] ∧ e = .endlessInclusion path
  | limit + 1, path, items, e =>
    match openFile path with
    | .error fault => items = [] ∧ e = .unreadable fault
    | .ok file =>
      StopsIn (ReadsThrough openFile limit) (Stops openFile limit) path file.tailFault file.lines
        items e

section Lines
variable {m : OpenMacro} {path : String} {tailFault : Option Text.Utf8.Fault} {number : Nat}

theorem BodyLines.readLines_append {lines : List String} {body : List (List String)}
    (h : BodyLines lines body) (rest : List String) :
    readLines path tailFault number (some m) (lines ++ rest) =
      readLines path tailFault (number + lines.length) (some ⟨m.name, body.reverse ++ m.body⟩)
        rest := by
  induction h generalizing rest with
  | start => rfl
  | @skipped lines body raw _ hblank ih =>
    rw [List.append_assoc, ih, List.singleton_append, readLines_cons, readLine_of_skipped hblank,
      List.length_append]
    rfl
  | @kept lines tokens body raw _ hend hcontent ht ih =>
    rw [List.append_assoc, ih, List.singleton_append, readLines_cons,
      readLine_of_kept hend hcontent ht, List.length_append]
    simp [Nat.add_assoc]

theorem BodyLines.readLines_header {header name : String} {lines : List String}
    {body : List (List String)} (h : BodyLines lines body)
    (hheader : lineKind? header = some (.longMacro name)) (rest : List String) :
    readLines path tailFault number none (header :: lines ++ rest) =
      readLines path tailFault (number + (lines.length + 1)) (some ⟨name, body.reverse⟩) rest := by
  have hbegun : readLine none header = .ok (some ⟨name, []⟩, none) := readLine_of_lineKind hheader
  have hnumber : number + 1 + lines.length = number + (lines.length + 1) := by omega
  rw [List.cons_append, readLines_cons, hbegun]
  simp [h.readLines_append, hnumber]

theorem BodyLines.readLines_header_end {header name : String} {lines : List String}
    {body : List (List String)} (h : BodyLines lines body)
    (hheader : lineKind? header = some (.longMacro name)) :
    readLines path tailFault number none (header :: lines) =
      endOfLines tailFault (some ⟨name, body.reverse⟩) := by
  have hlines : readLines path tailFault number none (header :: lines ++ []) = _ :=
    h.readLines_header hheader []
  rwa [List.append_nil, readLines_nil] at hlines

theorem Spells.readLines_append {block : List String} {item : Item} (h : Spells block item)
    (rest : List String) :
    readLines path tailFault number none (block ++ rest) =
      (readLines path tailFault (number + block.length) none rest).prepend [item] := by
  cases h with
  | @line raw kind item hkind hitem =>
    have hbegun : kind.begun? = none := by
      cases kind with
      | longMacro name => cases hitem
      | shortMacro | inclusion | command => rfl
    simp [readLines_cons, readLine_of_lineKind hkind, hitem, hbegun]
  | @longMacro header name last lines body hheader hbody hlast =>
    rw [List.append_assoc, hbody.readLines_header hheader, List.singleton_append, readLines_cons,
      readLine_of_ended hlast]
    simp [Nat.add_assoc]

theorem FailsAt.readLines_eq {lines : List String} {e : ScanError}
    (h : FailsAt path tailFault number lines e) :
    readLines path tailFault number none lines = .failed e := by
  cases h with
  | line hcontent ht => rw [readLines_cons, readLine_eq_error.mpr ⟨hcontent, ht, by simp⟩]
  | body hheader hbody hend hcontent ht =>
    rw [hbody.readLines_header hheader, readLines_cons,
      readLine_eq_error.mpr ⟨hcontent, ht, fun _ => hend⟩]
  | unterminated htail hheader hbody =>
    rw [hbody.readLines_header_end hheader, htail]
    rfl
  | undecodable htail =>
    rw [readLines_nil, htail]
    rfl
  | undecodableBody htail hheader hbody =>
    rw [hbody.readLines_header_end hheader, htail]
    rfl

end Lines

/-- What a reader has that reads files by `read`: files that succeed, and files that stop it. -/
def Succeeds (read : String → Reading) (path : String) (items : List Item) : Prop :=
  read path = ⟨items, none⟩

def Fails (read : String → Reading) (path : String) (items : List Item) (e : ScanError) : Prop :=
  read path = ⟨items, some e⟩

section Inlined
variable {read : String → Reading} {path : String} {tailFault : Option Text.Utf8.Fault}
  {number : Nat} {lines : List String} {items : List Item} {e : ScanError}

theorem Completes.inlined_append (h : Completes (Succeeds read) lines items) (rest : List String) :
    (readLines path tailFault number none (lines ++ rest)).inlined read =
      ((readLines path tailFault (number + lines.length) none rest).inlined read).prepend
        items := by
  induction h generalizing rest with
  | start => rfl
  | skipped _ hblank ih =>
    rw [List.append_assoc, ih, List.singleton_append, readLines_cons, readLine_of_skipped hblank,
      List.length_append]
    rfl
  | item _ hspells hitem ih =>
    rw [List.append_assoc, ih, hspells.readLines_append, Reading.inlined_prepend_of_ne hitem,
      Reading.prepend_prepend, List.length_append, Nat.add_assoc]
  | @inclusion lines items inner raw included _ hkind hread ih =>
    have hsuccess : (read included).failure = none := by rw [hread]
    have hitems : (read included).items = inner := by rw [hread]
    have hline : readLine none raw = .ok (none, some (.inclusion included)) :=
      readLine_of_lineKind hkind
    rw [List.append_assoc, ih, List.singleton_append, readLines_cons, hline, List.length_append]
    simp only [Option.toList_some, Reading.inlined_prepend_inclusion hsuccess, hitems,
      Reading.prepend_prepend, List.length_singleton, Nat.add_assoc]

inductive Reached (reads : String → List Item → Prop) :
    List String → Option OpenMacro → List Item → Prop where
  | outside {lines : List String} {items : List Item} : Completes reads lines items →
      Reached reads lines none items
  | inside {lines more : List String} {items : List Item} {header : String} {m : OpenMacro} :
      Completes reads lines items → lineKind? header = some (.longMacro m.name) →
      BodyLines more m.body.reverse → Reached reads (lines ++ header :: more) (some m) items

namespace Reached
variable {reads : String → List Item → Prop} {begun next : Option OpenMacro} {raw : String}

theorem line {item : Option Item} (h : Reached reads lines begun items)
    (hl : readLine begun raw = .ok (next, item)) (hitem : item.bind Item.includedPath? = none) :
    Reached reads (lines ++ [raw]) next (items ++ item.toList) := by
  cases lineRead_of_readLine hl with
  | skipped _ hblank =>
    rw [Option.toList_none, List.append_nil]
    cases h with
    | outside hlines => exact .outside (hlines.skipped hblank)
    | inside hlines hheader hbody =>
      rw [List.append_assoc, List.cons_append]
      exact .inside hlines hheader (hbody.skipped hblank)
  | ended m hend =>
    cases h with
    | inside hlines hheader hbody =>
      rw [List.append_assoc]
      exact .outside (hlines.item (.longMacro hheader hbody hend) rfl)
  | kept m hend hcontent ht =>
    cases h with
    | inside hlines hheader hbody =>
      rw [Option.toList_none, List.append_nil, List.append_assoc, List.cons_append]
      exact .inside hlines hheader (by simpa using hbody.kept hend hcontent ht)
  | begun hcontent ht hc =>
    cases h with
    | outside hlines =>
      rw [Option.toList_none, List.append_nil]
      exact .inside hlines (lineKind?_eq_some.mpr ⟨hcontent, _, ht, hc⟩) .start
  | completed hcontent ht hc =>
    cases h with
    | outside hlines =>
      exact .outside (hlines.item (.line (lineKind?_eq_some.mpr ⟨hcontent, _, ht, rfl⟩) hc) hitem)

theorem inclusion {included : String} {inner : List Item} (h : Reached reads lines begun items)
    (hl : readLine begun raw = .ok (next, some (.inclusion included)))
    (hread : reads included inner) :
    Reached reads (lines ++ [raw]) next (items ++ .inclusion included :: inner) := by
  obtain ⟨rfl, rfl⟩ := readLine_inclusion hl
  cases h with
  | outside hlines => exact .outside (hlines.inclusion (lineKind?_of_inclusion hl) hread)

theorem stopsIn_of_error {stops : String → List Item → ScanError → Prop} {e : UnmatchedQuotes}
    (h : Reached reads lines begun items) (hl : readLine begun raw = .error e)
    (rest : List String) :
    StopsIn reads stops path tailFault (lines ++ raw :: rest) items
      (.unmatchedQuotes path (lines.length + 1) e) := by
  obtain ⟨hcontent, ht, hend⟩ := readLine_eq_error.mp hl
  cases h with
  | outside hlines => exact .here rfl hlines (.line hcontent ht)
  | @inside lines more items header m hlines hheader hbody =>
    have hfails : FailsAt path tailFault (lines.length + 1) (header :: more ++ raw :: rest) _ :=
      .body hheader hbody (hend rfl) hcontent ht
    have hnumber : lines.length + 1 + (more.length + 1) =
        (lines ++ header :: more).length + 1 := by
      simp only [List.length_append, List.length_cons]
      omega
    rw [hnumber] at hfails
    exact .here (by simp) hlines hfails

theorem stopsIn_of_end {stops : String → List Item → ScanError → Prop}
    (h : Reached reads lines begun items) (he : (endOfLines tailFault begun).failure = some e) :
    StopsIn reads stops path tailFault lines items e := by
  cases h with
  | outside hlines =>
    cases tailFault with
    | none => cases he
    | some fault =>
      cases he
      exact .here (List.append_nil _).symm hlines (.undecodable rfl)
  | inside hlines hheader hbody =>
    cases tailFault with
    | none =>
      cases he
      exact .here rfl hlines (.unterminated rfl hheader hbody)
    | some fault =>
      cases he
      exact .here rfl hlines (.undecodableBody rfl hheader hbody)

theorem inlined_line (path : String) (tailFault : Option Text.Utf8.Fault) {item : Option Item}
    (h : Reached (Succeeds read) lines begun items)
    (hl : readLine begun raw = .ok (next, item)) (own : Reading) :
    (∃ more, Reached (Succeeds read) (lines ++ [raw]) next (items ++ more) ∧
      (own.prepend item.toList).inlined read = (own.inlined read).prepend more) ∨
    ∃ more e, (own.prepend item.toList).inlined read = ⟨more, some e⟩ ∧ ∀ rest,
      StopsIn (Succeeds read) (Fails read) path tailFault (lines ++ raw :: rest) (items ++ more)
        e := by
  cases item with
  | none => exact .inl ⟨[], h.line hl rfl, rfl⟩
  | some item =>
    obtain ⟨included, rfl⟩ | hitem := item.inclusion_or
    · cases hf : (read included).failure with
      | none =>
        have hread : Succeeds read included (read included).items := by
          rw [Succeeds, ← hf]
        exact .inl ⟨_, h.inclusion hl hread, Reading.inlined_prepend_inclusion hf⟩
      | some e =>
        have hread : Fails read included (read included).items e := by
          rw [Fails, ← hf]
        refine .inr ⟨_, e, Reading.inlined_prepend_failure hf, fun rest => ?_⟩
        obtain ⟨rfl, rfl⟩ := readLine_inclusion hl
        cases h with
        | outside hlines => exact .inside rfl hlines (lineKind?_of_inclusion hl) hread
    · exact .inl ⟨[item], h.line hl hitem, Reading.inlined_prepend_of_ne hitem⟩

/-- From what has been reached, the rest of the lines is completed or stops the reading. -/
theorem inlined {r : Reading} {rest : List String} (h : Reached (Succeeds read) lines begun items)
    (hr : (readLines path tailFault (lines.length + 1) begun rest).inlined read = r) :
    (r.failure = none →
      tailFault = none ∧ Completes (Succeeds read) (lines ++ rest) (items ++ r.items)) ∧
    ∀ e, r.failure = some e →
      StopsIn (Succeeds read) (Fails read) path tailFault (lines ++ rest) (items ++ r.items) e := by
  induction rest generalizing lines begun items r with
  | nil =>
    have hend : r = endOfLines tailFault begun := by
      rw [← hr, readLines_nil]
      cases tailFault <;> cases begun <;> rfl
    have hitems : r.items = [] := by
      rw [hend]
      cases tailFault <;> cases begun <;> rfl
    rw [List.append_nil, hitems, List.append_nil]
    refine ⟨fun hsuccess => ?_, fun e he => h.stopsIn_of_end (hend ▸ he)⟩
    obtain ⟨rfl, rfl⟩ := endOfLines_success (hend ▸ hsuccess)
    cases h with
    | outside hlines => exact ⟨rfl, hlines⟩
  | cons raw rest ih =>
    rw [readLines_cons] at hr
    cases hl : readLine begun raw with
    | error e =>
      simp only [hl] at hr
      subst hr
      refine ⟨fun hsuccess => (by cases hsuccess), fun e he => ?_⟩
      cases he
      simpa [Reading.failed, Reading.inlined_of_nil] using h.stopsIn_of_error hl rest
    | ok step =>
      obtain ⟨next, item⟩ := step
      simp only [hl] at hr
      obtain ⟨more, hreached, hmore⟩ | ⟨more, e, hmore, hstops⟩ :=
        h.inlined_line path tailFault hl
          (readLines path tailFault (lines.length + 1 + 1) next rest)
      · have hnumber : lines.length + 1 + 1 = (lines ++ [raw]).length + 1 := by simp
        rw [hmore, hnumber] at hr
        subst hr
        simpa using ih hreached rfl
      · rw [hmore] at hr
        subst hr
        refine ⟨fun hsuccess => (by cases hsuccess), fun other he => ?_⟩
        cases he
        exact hstops rest

end Reached

theorem readFile_inlined_eq_ok_iff {file : TextFile} :
    (readFile path file).inlined read = ⟨items, none⟩ ↔
      file.tailFault = none ∧ Completes (Succeeds read) file.lines items := by
  constructor
  · intro h
    have hstart : Reached (Succeeds read) [] none [] := .outside .start
    simpa using (hstart.inlined h).1 rfl
  · rintro ⟨htail, hlines⟩
    have hread : (readLines path file.tailFault 1 none (file.lines ++ [])).inlined read = _ :=
      hlines.inlined_append []
    rw [List.append_nil, readLines_nil, htail] at hread
    simpa [readFile, htail, endOfLines, Reading.inlined_of_nil, Reading.prepend] using hread

theorem readFile_inlined_eq_failed_iff {file : TextFile} :
    (readFile path file).inlined read = ⟨items, some e⟩ ↔
      StopsIn (Succeeds read) (Fails read) path file.tailFault file.lines items e := by
  constructor
  · intro h
    have hstart : Reached (Succeeds read) [] none [] := .outside .start
    simpa using (hstart.inlined h).2 e rfl
  · intro h
    unfold readFile
    cases h with
    | here hlines hbefore hfails =>
      rw [hlines, hbefore.inlined_append, Nat.add_comm, hfails.readLines_eq]
      simp [Reading.failed, Reading.inlined_of_nil, Reading.prepend]
    | @inside before rest raw included items inner e hlines hbefore hkind hstops =>
      have hfailure : (read included).failure = some e := by rw [hstops]
      have hitems : (read included).items = inner := by rw [hstops]
      have hline : readLine none raw = .ok (none, some (.inclusion included)) :=
        readLine_of_lineKind hkind
      rw [hlines, hbefore.inlined_append, readLines_cons, hline]
      simp only [Option.toList_some, Reading.inlined_prepend_failure hfailure, hitems]
      rfl

end Inlined

section Scanning
variable {openFile : Opener} {limit : Nat} {path : String} {items : List Item} {e : ScanError}

theorem readsThrough_iff :
    ReadsThrough openFile limit path items ↔ scan openFile limit path = ⟨items, none⟩ := by
  induction limit generalizing path items with
  | zero => simp [ReadsThrough, scan, Reading.failed]
  | succ fewer ih =>
    have hreads : ReadsThrough openFile fewer = Succeeds (scan openFile fewer) := by
      funext included inner
      exact propext ih
    rw [ReadsThrough, scan_succ, hreads]
    cases openFile path with
    | error fault => simp [Reading.failed]
    | ok file => simp [readFile_inlined_eq_ok_iff]

theorem stops_iff :
    Stops openFile limit path items e ↔ scan openFile limit path = ⟨items, some e⟩ := by
  induction limit generalizing path items e with
  | zero =>
    simp [Stops, scan, Reading.failed, eq_comm]
  | succ fewer ih =>
    have hreads : ReadsThrough openFile fewer = Succeeds (scan openFile fewer) := by
      funext included inner
      exact propext readsThrough_iff
    have hstops : Stops openFile fewer = Fails (scan openFile fewer) := by
      funext included inner e
      exact propext ih
    rw [Stops, scan_succ, hreads, hstops]
    cases openFile path with
    | error fault => simp [Reading.failed, eq_comm]
    | ok file => exact readFile_inlined_eq_failed_iff.symm

/-- A scan that fails leaves the effects of the items that it has completed, in the order in which
they are read, and no others: an item that fails, and all that stands behind it in any open file,
has none. So what a table holds is the last completed definition, or else what it held before. -/
theorem failed_scan_keeps_completed (openFile : Opener) (limit : Nat) (path : String) (c : Context)
    (e : ScanError) (h : (scan openFile limit path).failure = some e) :
    ∃ items, Stops openFile limit path items e ∧
      (∀ others reason, Stops openFile limit path others reason → others = items ∧ reason = e) ∧
      c.store (scan openFile limit path).items = items.foldl Context.storeItem c ∧
      (∀ opened, ∃ more, walk openFile limit path ⟨c, opened⟩ =
        (⟨items.foldl Context.storeItem c, opened ++ more⟩, some e)) ∧
      ∀ name,
        (items.foldl Context.storeItem c).macros.short.find? name =
          (lastShort? items name).or (c.macros.short.find? name) ∧
        (items.foldl Context.storeItem c).macros.long.find? name =
          (lastLong? items name).or (c.macros.long.find? name) := by
  have hscan : scan openFile limit path = ⟨(scan openFile limit path).items, some e⟩ := by
    rw [← h]
  refine ⟨(scan openFile limit path).items, stops_iff.mpr hscan, fun others reason ho => ?_,
    c.store_eq_foldl _, fun opened => ?_, fun name => ?_⟩
  · rw [stops_iff.mp ho] at hscan ⊢
    simpa using hscan
  · refine ⟨path :: (scan openFile limit path).inclusions, ?_⟩
    rw [walk_eq, ← c.store_eq_foldl]
    simp [Walk.after, Walk.opening, h]
  · rw [← c.store_eq_foldl]
    exact ⟨c.find?_short_store _ name, c.find?_long_store _ name⟩

end Scanning

def brokenFiles : Opener
  | "main" => .ok ⟨["MACRO S = one", "run S()", "INCLUDE part", "MACRO S = three", "late"], none⟩
  | "part" => .ok ⟨["MACRO S = two", "", "go L()", "LONG MACRO L", "new", "\"open", "END MACRO",
      "MACRO S = four"], none⟩
  | path => .error (.file (.refused .notFound path))

def brokenItems : List Item :=
  [.shortMacro "S" ["one"], .command ["run", "S()"], .inclusion "part", .shortMacro "S" ["two"],
    .command ["go", "L()"]]

def earlierContext : Context := (Context.empty.defineLong "L" [["old"]]).addLine ["first"]

theorem scan_brokenFiles :
    Stops brokenFiles 2 "main" brokenItems (.unmatchedQuotes "part" 6 ⟨"\"open"⟩) ∧
    earlierContext.store (scan brokenFiles 2 "main").items =
      ⟨⟨⟨[("S", ["two"])]⟩, ⟨[("L", [["old"]])]⟩⟩,
        [⟨["first"], true⟩, ⟨["run", "S()"], true⟩, ⟨["go", "L()"], true⟩]⟩ := by
  have hfailure : (scan brokenFiles 2 "main").failure =
      some (.unmatchedQuotes "part" 6 ⟨"\"open"⟩) := by decide +kernel
  obtain ⟨items, hstops, -, hstore, -⟩ :=
    failed_scan_keeps_completed brokenFiles 2 "main" earlierContext _ hfailure
  have hitems : items = brokenItems := by
    have hscan := stops_iff.mp hstops
    have hread : (scan brokenFiles 2 "main").items = brokenItems := by decide +kernel
    rw [hscan] at hread
    exact hread
  rw [hitems] at hstops hstore
  exact ⟨hstops, hstore.trans (by decide +kernel)⟩

end CommandFile
