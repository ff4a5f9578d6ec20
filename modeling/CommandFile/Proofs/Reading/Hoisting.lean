import CommandFile.Parse
import CommandFile.Proofs.Expansion.Agreement
import CommandFile.Proofs.Reading.Effects
import CommandFile.Proofs.Reading.Inlining
set_option autoImplicit false

namespace CommandFile

namespace LineKind

def isDefinition : LineKind → Bool
  | .shortMacro _ _ | .longMacro _ => true
  | _ => false

def isCommand : LineKind → Bool
  | .command _ => true
  | _ => false

/-- Whether the lines of a long macro are kept that begins with a line of this kind. -/
def keepsBody? (keep : LineKind → Bool) : LineKind → Option Bool
  | .longMacro name => some (keep (.longMacro name))
  | _ => none

end LineKind

def Item.kind : Item → LineKind
  | .shortMacro name replacement => .shortMacro name replacement
  | .longMacro name _ => .longMacro name
  | .inclusion path => .inclusion path
  | .command tokens => .command tokens

/-- The lines of the items that are to be kept, those of a long macro from its first to its last.
Inside of a long macro, `inside` tells whether it is kept. -/
def itemLines (keep : LineKind → Bool) (inside : Option Bool) : List String → List String
  | [] => []
  | raw :: rest =>
    match inside with
    | some kept =>
      let next := if Text.strip raw = endMacro then none else some kept
      if kept then raw :: itemLines keep next rest else itemLines keep next rest
    | none =>
      match lineKind? raw with
      | none => itemLines keep none rest
      | some kind =>
        if keep kind then raw :: itemLines keep (kind.keepsBody? keep) rest
        else itemLines keep (kind.keepsBody? keep) rest

def hoistedLines (lines : List String) : List String :=
  itemLines LineKind.isDefinition none lines ++ itemLines LineKind.isCommand none lines

section Reading
variable {keep : LineKind → Bool} {path : String} {tailFault : Option Text.Utf8.Fault}
  {number : Nat} {begun next : Option OpenMacro} {item : Option Item} {raw : String}
  {lines rest : List String} {items : List Item}

def OpenMacro.kept (keep : LineKind → Bool) (m : OpenMacro) : Bool := keep (.longMacro m.name)

/-- A line is kept if it is one of an item to be kept, and then does what it did among all lines. -/
theorem itemLines_cons_of_readLine (keep : LineKind → Bool)
    (h : readLine begun raw = .ok (next, item))
    (hrest : ReadAs (next.filter (OpenMacro.kept keep))
      (itemLines keep (next.map (OpenMacro.kept keep)) rest) items) :
    ReadAs (begun.filter (OpenMacro.kept keep))
      (itemLines keep (begun.map (OpenMacro.kept keep)) (raw :: rest))
      ((item.toList.filter fun item => keep item.kind) ++ items) := by
  -- In each case the line belongs to one item, and it is left out exactly if that item is.
  cases lineRead_of_readLine h with
  | skipped begun hblank =>
    cases begun with
    | none =>
      have hkind : lineKind? raw = none := by simp [lineKind?, hblank]
      simpa [itemLines, hkind] using hrest
    | some m =>
      have hend := ne_endMacro_of_skipped hblank
      cases hk : m.kept keep with
      | true =>
        simp only [Option.filter_some, Option.map_some, hk, if_true] at hrest ⊢
        simpa [itemLines, hend] using hrest.cons h
      | false => simpa [itemLines, hk, hend] using hrest
  | ended m hend =>
    cases hk : m.kept keep with
    | true =>
      have hitem : keep (Item.longMacro m.name m.body.reverse).kind = true := hk
      simpa [itemLines, Option.filter_some, hk, hitem, hend] using hrest.cons h
    | false =>
      have hitem : keep (Item.longMacro m.name m.body.reverse).kind = false := hk
      simpa [itemLines, Option.filter_some, hk, hitem, hend] using hrest
  | @kept m tokens hend hcontent ht =>
    have hnext : OpenMacro.kept keep ⟨m.name, tokens :: m.body⟩ = m.kept keep := rfl
    cases hk : m.kept keep with
    | true =>
      simp only [Option.filter_some, Option.map_some, hnext, hk, if_true] at hrest ⊢
      simpa [itemLines, hend] using hrest.cons h
    | false => simpa [itemLines, Option.filter_some, hnext, hk, hend] using hrest
  | @begun tokens name hcontent ht hc =>
    have hkind : lineKind? raw = some (.longMacro name) :=
      lineKind?_eq_some.mpr ⟨hcontent, tokens, ht, hc⟩
    have hnext : OpenMacro.kept keep ⟨name, []⟩ = keep (.longMacro name) := rfl
    cases hk : keep (.longMacro name) with
    | true =>
      simp only [Option.filter_some, Option.map_some, hnext, hk, if_true] at hrest
      simpa [itemLines, hkind, LineKind.keepsBody?, hk] using hrest.cons h
    | false =>
      simpa [itemLines, Option.filter_some, hkind, LineKind.keepsBody?, hnext, hk] using hrest
  | @completed tokens item hcontent ht hc =>
    have hkind : lineKind? raw = some item.kind := by
      refine lineKind?_eq_some.mpr ⟨hcontent, tokens, ht, ?_⟩
      cases hk : classify tokens <;> rw [hk] at hc <;> cases hc <;> rfl
    have hbody : item.kind.keepsBody? keep = none := by
      cases hk : classify tokens <;> rw [hk] at hc <;> cases hc <;> rfl
    cases hk : keep item.kind with
    | true => simpa [itemLines, hkind, hbody, hk] using hrest.cons h
    | false => simpa [itemLines, hkind, hbody, hk] using hrest

theorem readAs_itemLines (keep : LineKind → Bool)
    (h : (readLines path tailFault number begun lines).failure = none) :
    ReadAs (begun.filter (OpenMacro.kept keep))
      (itemLines keep (begun.map (OpenMacro.kept keep)) lines)
      ((readLines path tailFault number begun lines).items.filter fun item => keep item.kind) := by
  induction lines generalizing number begun with
  | nil =>
    rw [readLines_nil] at h ⊢
    obtain ⟨rfl, rfl⟩ := endOfLines_success h
    exact .nil
  | cons raw rest ih =>
    obtain ⟨next, item, hl, hrest, hitems⟩ := readLines_cons_success h
    have hline := itemLines_cons_of_readLine keep hl (ih hrest)
    rwa [hitems, List.filter_append]

def hoistedItems (items : List Item) : List Item :=
  (items.filter fun item => item.kind.isDefinition) ++ items.filter fun item => item.kind.isCommand

theorem readFile_hoistedLines {file : TextFile} (h : (readFile path file).failure = none)
    (name : String) :
    readFile name ⟨hoistedLines file.lines, none⟩ =
      ⟨hoistedItems (readFile path file).items, none⟩ := by
  have hdefinitions := readAs_itemLines LineKind.isDefinition h
  have hcommands := readAs_itemLines LineKind.isCommand h
  exact (hdefinitions.append hcommands).readFile_eq name

end Reading

theorem filterMap_hoistedItems {α : Type} {f : Item → Option α} (items : List Item)
    (h : (∀ item, item.kind.isDefinition = false → f item = none) ∨
      ∀ item, item.kind.isCommand = false → f item = none) :
    (hoistedItems items).filterMap f = items.filterMap f := by
  have hfound (keep : LineKind → Bool) (hkeep : ∀ item, keep item.kind = false → f item = none) :
      (items.filter fun item => keep item.kind).filterMap f = items.filterMap f := by
    rw [List.filterMap_filter]
    refine List.filterMap_congr fun item _ => ?_
    split
    · rfl
    · rename_i hdropped
      exact (hkeep item (by simpa using hdropped)).symm
  have hnone (keep : LineKind → Bool) (hkeep : ∀ item, keep item.kind = true → f item = none) :
      (items.filter fun item => keep item.kind).filterMap f = [] := by
    rw [List.filterMap_eq_nil_iff]
    exact fun item hmem => hkeep item (List.mem_filter.mp hmem).2
  rw [hoistedItems, List.filterMap_append]
  rcases h with hdefinitions | hcommands
  · rw [hfound _ hdefinitions, hnone LineKind.isCommand, List.append_nil]
    intro item hcommand
    exact hdefinitions item (by cases item <;> first | rfl | cases hcommand)
  · rw [hfound _ hcommands, hnone LineKind.isDefinition, List.nil_append]
    intro item hdefinition
    exact hcommands item (by cases item <;> first | rfl | cases hdefinition)

structure SameEffect (items others : List Item) : Prop where
  lines : others.filterMap Item.pendingLine? = items.filterMap Item.pendingLine?
  short (name : String) : lastShort? others name = lastShort? items name
  long (name : String) : lastLong? others name = lastLong? items name

theorem sameEffect_hoistedItems (items : List Item) : SameEffect items (hoistedItems items) where
  lines := by
    rw [filterMap_hoistedItems items]
    exact .inr fun item h => by cases item <;> first | rfl | cases h
  short name := by
    rw [lastShort?, lastShort?, filterMap_hoistedItems items]
    exact .inl fun item h => by cases item <;> first | rfl | cases h
  long name := by
    rw [lastLong?, lastLong?, filterMap_hoistedItems items]
    exact .inl fun item h => by cases item <;> first | rfl | cases h

namespace SameEffect
variable {items others : List Item}

theorem agree (h : SameEffect items others) (c : Context) :
    (c.store items).macros.Agree (c.store others).macros where
  short name := by rw [Context.find?_short_store, Context.find?_short_store, h.short]
  long name := by rw [Context.find?_long_store, Context.find?_long_store, h.long]

theorem schedule {σ ε : Type} {r other : Reading} (h : SameEffect r.items other.items)
    (hr : r.failure = none) (hother : other.failure = none) (cap : PassCap)
    (scheduler : Scheduler σ ε) (state : σ) :
    other.schedule cap scheduler state = r.schedule cap scheduler state := by
  have hlines : (Context.empty.store other.items).lines = (Context.empty.store r.items).lines :=
    congrArg (Context.empty.lines ++ ·) h.lines
  have hexpand : other.expand cap = r.expand cap := by
    simp only [Reading.expand, hr, hother, Context.expand, hlines,
      (h.agree .empty).expandLines_congr]
    cases expandLines (Context.empty.store r.items).macros (Context.empty.store r.items).lines
      cap.passes <;> rfl
  rw [Reading.schedule, hexpand, Reading.schedule]

end SameEffect

section Scanning
variable {openFile : Opener} {path : String} {file : TextFile}

theorem effective_eq_self {items : List Item} (h : items.filterMap Item.includedPath? = []) :
    effective items = items := by
  refine List.filter_eq_self.mpr fun item hmem => ?_
  simpa using List.filterMap_eq_nil_iff.mp h item hmem

theorem scan_of_no_inclusions (ho : openFile path = .ok file)
    (hfree : (readFile path file).inclusions = []) (limit : Nat) :
    scan openFile (limit + 1) path = readFile path file := by
  have hinline := inlineItems_effective (scan openFile limit) (readFile path file).items
  rw [effective_eq_self hfree] at hinline
  simp only [scan_succ, ho, Reading.inlined, hinline]

theorem scan_hoistedLines (hread : (readFile path file).failure = none) {other : Opener}
    {name : String} (hother : other name = .ok ⟨hoistedLines file.lines, none⟩) (limit : Nat) :
    scan other (limit + 1) name = ⟨hoistedItems (readFile path file).items, none⟩ := by
  have hhoisted := readFile_hoistedLines hread name
  have hfree : (hoistedItems (readFile path file).items).filterMap Item.includedPath? = [] := by
    refine List.filterMap_eq_nil_iff.mpr fun item hmem => ?_
    rw [hoistedItems, List.mem_append, List.mem_filter, List.mem_filter] at hmem
    cases item with
    | inclusion included => simp [Item.kind, LineKind.isDefinition, LineKind.isCommand] at hmem
    | shortMacro | longMacro | command => rfl
  rw [scan_of_no_inclusions hother (by rw [hhoisted]; exact hfree), hhoisted]

end Scanning

/-- The definitions of a file that includes nothing can be moved in front of its commands: whatever
the cap and the scheduler are, the same commands are handed over in the same order, or the same
macro is found unresolved. All that matters of a reading are its command lines, in order, and the
last definition of each name. -/
theorem definitions_can_be_hoisted {σ ε : Type} (cap : PassCap) (scheduler : Scheduler σ ε)
    (state : σ) :
    (∀ openFile limit path file, openFile path = .ok file → (readFile path file).inclusions = [] →
      (scan openFile limit path).failure = none →
      ∀ other more name, other name = .ok ⟨hoistedLines file.lines, none⟩ →
        scan other (more + 1) name = ⟨hoistedItems (scan openFile limit path).items, none⟩ ∧
        (scan other (more + 1) name).schedule cap scheduler state =
          (scan openFile limit path).schedule cap scheduler state) ∧
    (∀ (files other : Store) path name file, files.opener path = .ok file →
      (readFile path file).inclusions = [] → (files.scan path).failure = none →
      other.opener name = .ok ⟨hoistedLines file.lines, none⟩ →
      other.parse name cap scheduler state = files.parse path cap scheduler state) ∧
    ∀ r other : Reading, r.failure = none → other.failure = none →
      SameEffect r.items other.items →
      other.schedule cap scheduler state = r.schedule cap scheduler state := by
  have hscan : ∀ openFile limit path file, openFile path = .ok file →
      (readFile path file).inclusions = [] → (scan openFile limit path).failure = none →
      ∀ other more name, other name = .ok ⟨hoistedLines file.lines, none⟩ →
        scan other (more + 1) name = ⟨hoistedItems (scan openFile limit path).items, none⟩ ∧
        (scan other (more + 1) name).schedule cap scheduler state =
          (scan openFile limit path).schedule cap scheduler state := by
    intro openFile limit path file ho hfree h other more name hother
    obtain ⟨fewer, -, rfl, -⟩ := scan_success h
    rw [scan_of_no_inclusions ho hfree] at h ⊢
    have hhoisted := scan_hoistedLines h hother more
    refine ⟨hhoisted, SameEffect.schedule ?_ h (by rw [hhoisted]) cap scheduler state⟩
    rw [hhoisted]
    exact sameEffect_hoistedItems _
  exact ⟨hscan, fun files other path name file ho hfree h hother =>
    (hscan _ _ path file ho hfree h _ _ name hother).2,
    fun r other hr hother hsame => hsame.schedule hr hother cap scheduler state⟩

def scatteredLines : List String :=
  ["A() B()", "# first", "MACRO A = one", "LONG MACRO B", "INCLUDE gone", "LONG MACRO C",
    "MACRO A = x", "END MACRO", "", "run A()", "MACRO A = two"]

def sortedLines : List String :=
  ["MACRO A = one", "LONG MACRO B", "INCLUDE gone", "LONG MACRO C", "MACRO A = x", "END MACRO",
    "MACRO A = two", "A() B()", "run A()"]

def fileOfLines (name : String) (lines : List String) : Store :=
  ⟨[([name], .file (Text.Utf8.encode (lines.flatMap fun line => line.toList ++ ['\n'])))]⟩

theorem parse_sortedLines :
    hoistedLines scatteredLines = sortedLines ∧
    (fileOfLines "sorted" sortedLines).parse "sorted" ⟨2, by decide⟩ (collector none) .empty =
      (fileOfLines "main" scatteredLines).parse "main" ⟨2, by decide⟩ (collector none) .empty ∧
    ((fileOfLines "main" scatteredLines).parse "main" ⟨2, by decide⟩ (collector none) .empty).1 =
      ⟨#[["two", "INCLUDE", "gone"], ["two", "LONG", "MACRO", "C"], ["two", "MACRO", "A", "=", "x"],
        ["run", "two"]]⟩ := by
  have hsorted : hoistedLines scatteredLines = sortedLines := by decide +kernel
  have hcommands : ((fileOfLines "main" scatteredLines).parse "main" ⟨2, by decide⟩
      (collector none) .empty).1 =
        ⟨#[["two", "INCLUDE", "gone"], ["two", "LONG", "MACRO", "C"],
          ["two", "MACRO", "A", "=", "x"], ["run", "two"]]⟩ := by
    decide +kernel
  obtain ⟨-, hparse, -⟩ := definitions_can_be_hoisted ⟨2, by decide⟩ (collector none) .empty
  refine ⟨hsorted, ?_, hcommands⟩
  exact hparse _ _ "main" "sorted" ⟨scatteredLines, none⟩ (by rfl) (by decide +kernel)
    (by decide +kernel) (by rw [hsorted]; rfl)

end CommandFile
