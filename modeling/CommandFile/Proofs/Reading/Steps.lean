import CommandFile.Reading
import Mathlib.Data.List.Basic
set_option autoImplicit false

namespace CommandFile

/-- What one line does: it may open, extend or end a long macro, and complete an item. -/
def readLine (begun : Option OpenMacro) (raw : String) :
    Except UnmatchedQuotes (Option OpenMacro × Option Item) :=
  let line := Text.strip raw
  match begun with
  | some m =>
    if line = endMacro then .ok (none, some (.longMacro m.name m.body.reverse))
    else if isContent line then
      (tokenize line).map fun tokens => (some ⟨m.name, tokens :: m.body⟩, none)
    else .ok (some m, none)
  | none =>
    if isContent line then
      (tokenize line).map fun tokens =>
        match classify tokens with
        | .shortMacro name replacement => (none, some (.shortMacro name replacement))
        | .longMacro name => (some ⟨name, []⟩, none)
        | .inclusion path => (none, some (.inclusion path))
        | .command tokens => (none, some (.command tokens))
    else .ok (none, none)

namespace Reading

def prepend (items : List Item) (r : Reading) : Reading := { r with items := items ++ r.items }

@[simp] theorem prepend_nil (r : Reading) : r.prepend [] = r := rfl

theorem prepend_prepend (as bs : List Item) (r : Reading) :
    (r.prepend bs).prepend as = r.prepend (as ++ bs) := by
  simp [prepend]

@[simp] theorem items_prepend (items : List Item) (r : Reading) :
    (r.prepend items).items = items ++ r.items := rfl

@[simp] theorem failure_prepend (items : List Item) (r : Reading) :
    (r.prepend items).failure = r.failure := rfl

end Reading

@[simp] theorem readLines_nil (path : String) (tailFault : Option Text.Utf8.Fault) (number : Nat)
    (begun : Option OpenMacro) :
    readLines path tailFault number begun [] = endOfLines tailFault begun := by
  cases begun <;> rfl

theorem readLines_cons (path : String) (tailFault : Option Text.Utf8.Fault) (number : Nat)
    (begun : Option OpenMacro) (raw : String) (rest : List String) :
    readLines path tailFault number begun (raw :: rest) =
      match readLine begun raw with
      | .error e => .failed (.unmatchedQuotes path number e)
      | .ok (next, item) =>
        (readLines path tailFault (number + 1) next rest).prepend item.toList := by
  cases begun with
  | some m =>
    simp only [readLines, readLine]
    split
    · rfl
    · split
      · cases tokenize (Text.strip raw) <;> rfl
      · rfl
  | none =>
    simp only [readLines, readLine]
    split
    · cases tokenize (Text.strip raw) with
      | error e => rfl
      | ok tokens =>
        simp only [Except.map]
        cases classify tokens <;> rfl
    · rfl

def LineKind.item? : LineKind → Option Item
  | .shortMacro name replacement => some (.shortMacro name replacement)
  | .longMacro _ => none
  | .inclusion path => some (.inclusion path)
  | .command tokens => some (.command tokens)

inductive LineRead (raw : String) : Option OpenMacro → Option OpenMacro → Option Item → Prop where
  | skipped (begun : Option OpenMacro) : isContent (Text.strip raw) = false →
      LineRead raw begun begun none
  | ended (m : OpenMacro) : Text.strip raw = endMacro →
      LineRead raw (some m) none (some (.longMacro m.name m.body.reverse))
  | kept (m : OpenMacro) {tokens : List String} : Text.strip raw ≠ endMacro →
      isContent (Text.strip raw) = true → tokenize (Text.strip raw) = .ok tokens →
      LineRead raw (some m) (some ⟨m.name, tokens :: m.body⟩) none
  | begun {tokens : List String} {name : String} : isContent (Text.strip raw) = true →
      tokenize (Text.strip raw) = .ok tokens → classify tokens = .longMacro name →
      LineRead raw none (some ⟨name, []⟩) none
  | completed {tokens : List String} {item : Item} : isContent (Text.strip raw) = true →
      tokenize (Text.strip raw) = .ok tokens → (classify tokens).item? = some item →
      LineRead raw none none (some item)

theorem ne_endMacro_of_skipped {raw : String} (h : isContent (Text.strip raw) = false) :
    Text.strip raw ≠ endMacro := by
  intro he
  rw [he] at h
  exact absurd h (by decide)

theorem lineRead_of_readLine {begun next : Option OpenMacro} {raw : String} {item : Option Item}
    (h : readLine begun raw = .ok (next, item)) : LineRead raw begun next item := by
  by_cases hcontent : isContent (Text.strip raw) = true
  · cases begun with
    | some m =>
      by_cases hend : Text.strip raw = endMacro
      · simp only [readLine, hend, if_true, Except.ok.injEq, Prod.mk.injEq] at h
        obtain ⟨rfl, rfl⟩ := h
        exact .ended m hend
      · cases ht : tokenize (Text.strip raw) with
        | error e => simp [readLine, hend, hcontent, ht, Except.map] at h
        | ok tokens =>
          simp only [readLine, hend, hcontent, ht, Except.map, if_true, if_false, Except.ok.injEq,
            Prod.mk.injEq] at h
          obtain ⟨rfl, rfl⟩ := h
          exact .kept m hend hcontent ht
    | none =>
      cases ht : tokenize (Text.strip raw) with
      | error e => simp [readLine, hcontent, ht, Except.map] at h
      | ok tokens =>
        simp only [readLine, hcontent, ht, Except.map, if_true, Except.ok.injEq] at h
        cases hc : classify tokens <;>
          simp only [hc, Prod.mk.injEq] at h <;>
          obtain ⟨rfl, rfl⟩ := h
        case longMacro => exact .begun hcontent ht hc
        all_goals exact .completed hcontent ht (by rw [hc]; rfl)
  · have hblank : isContent (Text.strip raw) = false := by simpa using hcontent
    have hend := ne_endMacro_of_skipped hblank
    cases begun <;>
      · simp only [readLine, hend, hblank, if_false, Bool.false_eq_true, Except.ok.injEq,
          Prod.mk.injEq] at h
        obtain ⟨rfl, rfl⟩ := h
        exact .skipped _ hblank

section LineOutcomes
variable {begun : Option OpenMacro} {m : OpenMacro} {raw : String}

theorem readLine_of_skipped (h : isContent (Text.strip raw) = false) :
    readLine begun raw = .ok (begun, none) := by
  cases begun with
  | none => simp [readLine, h]
  | some m =>
    simp [readLine, h, ne_endMacro_of_skipped h]

theorem readLine_of_kept {tokens : List String} (hend : Text.strip raw ≠ endMacro)
    (hcontent : isContent (Text.strip raw) = true)
    (ht : tokenize (Text.strip raw) = .ok tokens) :
    readLine (some m) raw = .ok (some ⟨m.name, tokens :: m.body⟩, none) := by
  simp [readLine, hend, hcontent, ht, Except.map]

theorem readLine_of_ended (h : Text.strip raw = endMacro) :
    readLine (some m) raw = .ok (none, some (.longMacro m.name m.body.reverse)) := by
  simp [readLine, h]

theorem readLine_eq_error {e : UnmatchedQuotes} : readLine begun raw = .error e ↔
    isContent (Text.strip raw) = true ∧ tokenize (Text.strip raw) = .error e ∧
      (begun.isSome = true → Text.strip raw ≠ endMacro) := by
  cases begun with
  | none =>
    by_cases hcontent : isContent (Text.strip raw) = true
    · cases ht : tokenize (Text.strip raw) <;> simp [readLine, hcontent, ht, Except.map]
    · simp [readLine, hcontent]
  | some m =>
    by_cases hend : Text.strip raw = endMacro
    · simp [readLine, hend]
    by_cases hcontent : isContent (Text.strip raw) = true
    · cases ht : tokenize (Text.strip raw) <;> simp [readLine, hend, hcontent, ht, Except.map]
    · simp [readLine, hend, hcontent]

end LineOutcomes

theorem readLines_cons_success {path : String} {tailFault : Option Text.Utf8.Fault} {number : Nat}
    {begun : Option OpenMacro} {raw : String} {rest : List String}
    (h : (readLines path tailFault number begun (raw :: rest)).failure = none) :
    ∃ next item, readLine begun raw = .ok (next, item) ∧
      (readLines path tailFault (number + 1) next rest).failure = none ∧
      (readLines path tailFault number begun (raw :: rest)).items =
        item.toList ++ (readLines path tailFault (number + 1) next rest).items := by
  rw [readLines_cons] at h ⊢
  cases hl : readLine begun raw with
  | error e => simp [hl, Reading.failed] at h
  | ok step =>
    obtain ⟨next, item⟩ := step
    simp only [hl, Reading.failure_prepend] at h
    exact ⟨next, item, rfl, h, rfl⟩

theorem endOfLines_success {tailFault : Option Text.Utf8.Fault} {begun : Option OpenMacro}
    (h : (endOfLines tailFault begun).failure = none) : tailFault = none ∧ begun = none := by
  cases tailFault <;> cases begun <;> simp [endOfLines, Reading.failed] at h ⊢

theorem Context.store_cons (c : Context) (item : Item) (items : List Item) :
    c.store (item :: items) = (c.store [item]).store items := c.store_append [item] items

@[simp] theorem Context.store_inclusion_cons (c : Context) (path : String) (items : List Item) :
    c.store (.inclusion path :: items) = c.store items := rfl

theorem Item.inclusion_or (item : Item) :
    (∃ path, item = .inclusion path) ∨ item.includedPath? = none := by
  cases item with
  | inclusion path => exact .inl ⟨path, rfl⟩
  | shortMacro name replacement => exact .inr rfl
  | longMacro name body => exact .inr rfl
  | command tokens => exact .inr rfl

theorem Reading.mem_inclusions {r : Reading} {path : String} :
    path ∈ r.inclusions ↔ .inclusion path ∈ r.items := by
  rw [inclusions, List.mem_filterMap]
  constructor
  · rintro ⟨item, hmem, hpath⟩
    obtain ⟨included, rfl⟩ | hnone := item.inclusion_or
    · cases hpath
      exact hmem
    · simp [hnone] at hpath
  · exact fun hmem => ⟨_, hmem, rfl⟩

theorem inlineItems_cons {item : Item} (h : item.includedPath? = none) (read : String → Reading)
    (rest : List Item) : inlineItems read (item :: rest) = (inlineItems read rest).cons item := by
  cases item with
  | inclusion path => cases h
  | shortMacro name replacement => rfl
  | longMacro name body => rfl
  | command tokens => rfl

section Inlining
variable {read : String → Reading} {path : String} {rest : List Item}

theorem inlineItems_inclusion_of_success (h : (read path).failure = none) :
    inlineItems read (.inclusion path :: rest) =
      (inlineItems read rest).prepend (.inclusion path :: (read path).items) := by
  cases hr : read path with
  | mk items failure =>
    simp only [hr] at h
    subst h
    simp [inlineItems, hr, Reading.prepend]

theorem inlineItems_inclusion_of_failure {e : ScanError} (h : (read path).failure = some e) :
    inlineItems read (.inclusion path :: rest) =
      ⟨.inclusion path :: (read path).items, some e⟩ := by
  cases hr : read path with
  | mk items failure =>
    simp only [hr] at h
    subst h
    simp [inlineItems, hr]

end Inlining

def Item.inlined (read : String → Reading) (item : Item) : List Item :=
  item :: match item.includedPath? with
    | some path => (read path).items
    | none => []

theorem Item.inlined_inclusion (read : String → Reading) (path : String) :
    inlined read (.inclusion path) = .inclusion path :: (read path).items := rfl

theorem Item.inlined_of_ne {item : Item} (h : item.includedPath? = none)
    (read : String → Reading) : item.inlined read = [item] := by
  simp [inlined, h]

theorem inlineItems_success {read : String → Reading} {items : List Item}
    (h : (inlineItems read items).failure = none) :
    (∀ path, .inclusion path ∈ items → (read path).failure = none) ∧
      (inlineItems read items).items = items.flatMap (Item.inlined read) := by
  induction items with
  | nil => exact ⟨by simp, rfl⟩
  | cons item rest ih =>
    obtain ⟨path, rfl⟩ | hitem := item.inclusion_or
    · cases hf : (read path).failure with
      | some e =>
        rw [inlineItems_inclusion_of_failure hf] at h
        cases h
      | none =>
        rw [inlineItems_inclusion_of_success hf] at h ⊢
        obtain ⟨hrest, hitems⟩ := ih h
        refine ⟨fun other ho => ?_, by simp [hitems, Item.inlined_inclusion]⟩
        rcases List.mem_cons.mp ho with ho | ho
        · cases ho
          exact hf
        · exact hrest other ho
    · rw [inlineItems_cons hitem] at h ⊢
      obtain ⟨hrest, hitems⟩ := ih h
      refine ⟨fun other ho => ?_, by simp [Reading.cons, hitems, Item.inlined_of_ne hitem]⟩
      rcases List.mem_cons.mp ho with rfl | ho
      · cases hitem
      · exact hrest other ho

theorem scan_success {openFile : Opener} {limit : Nat} {path : String}
    (h : (scan openFile limit path).failure = none) :
    ∃ fewer file, limit = fewer + 1 ∧ openFile path = .ok file ∧
      (readFile path file).failure = none ∧
      (∀ included, .inclusion included ∈ (readFile path file).items →
        (scan openFile fewer included).failure = none) ∧
      (scan openFile limit path).items =
        (readFile path file).items.flatMap (Item.inlined (scan openFile fewer)) := by
  cases limit with
  | zero => simp [scan, Reading.failed] at h
  | succ fewer =>
    rw [scan] at h ⊢
    cases ho : openFile path with
    | error e => simp [ho, Reading.failed] at h
    | ok file =>
      simp only [ho] at h ⊢
      have hinline := @inlineItems_success (scan openFile fewer) (readFile path file).items
      cases hi : inlineItems (scan openFile fewer) (readFile path file).items with
      | mk items failure =>
        cases failure with
        | some e => simp [hi] at h
        | none =>
          simp only [hi] at h hinline
          exact ⟨fewer, file, rfl, rfl, h, hinline trivial⟩

end CommandFile
