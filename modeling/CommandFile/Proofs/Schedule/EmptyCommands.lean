import CommandFile.Proofs.Expansion.Vanishing
import CommandFile.Proofs.Reading.Effects
import CommandFile.Proofs.Reading.Tokens
import CommandFile.Proofs.Schedule.HandingOver
set_option autoImplicit false

namespace CommandFile

def Item.storedLines : Item → List (List String)
  | .shortMacro _ replacement => [replacement]
  | .longMacro _ body => body
  | .inclusion _ => []
  | .command tokens => [tokens]

/-- Short macros have tokens. So an item stores nothing empty unless one of its lines has no
tokens. -/
theorem Item.ReadFrom.lineOf_nil {lines : List String} {item : Item} (h : item.ReadFrom lines)
    (hnil : [] ∈ item.storedLines) : LineOf lines [] := by
  cases h with
  | body name hbody => exact hbody [] hnil
  | @line tokens item hline hitem =>
    unfold classify at hitem
    split at hitem <;> cases hitem <;> simp [storedLines] at hnil
    exact hnil ▸ hline

section Definitions
variable {items : List Item} {name : String} {line : List String}

theorem exists_item_of_lookup {α : Type} {definition? : Item → Option (String × α)} {value : α}
    (h : (items.filterMap definition?).reverse.lookup name = some value) :
    ∃ item ∈ items, definition? item = some (name, value) := by
  have hmem : (name, value) ∈ (items.filterMap definition?).reverse :=
    Table.mem_entries_of_find? (t := ⟨_⟩) h
  exact List.mem_filterMap.mp (List.mem_reverse.mp hmem)

theorem mem_storedLines_of_definition
    (h : line ∈ (Context.empty.store items).macros.definitionLines name) :
    ∃ item ∈ items, line ∈ item.storedLines := by
  rcases List.mem_append.mp h with hshort | hlong
  · rw [Option.mem_toList, Context.find?_short_store] at hshort
    have hlast : lastShort? items name = some line := by simpa [Context.empty] using hshort
    obtain ⟨item, hitem, hdefinition⟩ := exists_item_of_lookup hlast
    cases item <;> cases hdefinition
    exact ⟨_, hitem, List.mem_singleton_self line⟩
  · rw [Context.find?_long_store] at hlong
    cases hlast : lastLong? items name with
    | none => simp [hlast, Context.empty] at hlong
    | some body =>
      have hbody : line ∈ body := by simpa [hlast] using hlong
      obtain ⟨item, hitem, hdefinition⟩ := exists_item_of_lookup hlast
      cases item <;> cases hdefinition
      exact ⟨_, hitem, hbody⟩

end Definitions

theorem exists_mem_lines_store_empty {items : List Item} {P : List String → Prop} :
    (∃ line ∈ (Context.empty.store items).lines, P line.tokens) ↔
      ∃ tokens, .command tokens ∈ items ∧ P tokens := by
  constructor
  · rintro ⟨line, hline, h⟩
    exact ⟨line.tokens, (mem_pendingLines.mp hline).2, h⟩
  · rintro ⟨tokens, hitem, h⟩
    exact ⟨⟨tokens, true⟩, mem_pendingLines.mpr ⟨rfl, hitem⟩, h⟩

section Scheduling
variable {σ ε : Type} {files : Store} {path : String} {cap : PassCap} {s : Scheduler σ ε}
  {state : σ} {lines : List PendingLine}

theorem vanishes_of_handedOver (h : [] ∈ files.handedOver path cap s state) :
    ∃ tokens, .command tokens ∈ (files.scan path).items ∧
      Vanishes (Context.empty.store (files.scan path).items).macros tokens := by
  obtain ⟨lines, he, line, hline, hnil⟩ := Reading.mem_schedule_noting h
  rw [Reading.lines_of_expand he] at hline
  have hvanishes : Vanishes (Context.empty.store (files.scan path).items).macros line.tokens :=
    hnil ▸ .nil
  exact exists_mem_lines_store_empty.mp (Context.vanishes_of_expand ⟨line, hline, hvanishes⟩)

theorem exists_lineOf_nil {tokens : List String} (hitem : .command tokens ∈ (files.scan path).items)
    (h : Vanishes (Context.empty.store (files.scan path).items).macros tokens) :
    ∃ opened ∈ openedPaths path (files.scan path), ∃ file, files.opener opened = .ok file ∧
      LineOf file.lines [] := by
  have hstored : ∃ item ∈ (files.scan path).items, [] ∈ item.storedLines := by
    rcases h.exists_empty with rfl | ⟨name, hdefinition⟩
    · exact ⟨_, hitem, List.mem_singleton_self []⟩
    · exact mem_storedLines_of_definition hdefinition
  obtain ⟨item, hmem, hnil⟩ := hstored
  obtain ⟨opened, hopened, file, hfile, hread⟩ := readFrom_scan hmem
  exact ⟨opened, hopened, file, hfile, hread.lineOf_nil hnil⟩

theorem mem_handedOver_of_ok (hs : s.NeverRefuses) (he : (files.scan path).expand cap = .ok lines)
    (h : ∃ line ∈ lines, line.tokens = []) : [] ∈ files.handedOver path cap s state := by
  rw [(Store.parse_of_ok s state he).1, (emit_of_neverRefuses hs state [] lines).1]
  exact List.mem_append_right _ (List.mem_map.mpr h)

end Scheduling

/-- An empty command is only handed over if a command of the reading can vanish, and so only if some
line of an opened file has no tokens though it is neither blank nor a comment. Such a line that
stands by itself is handed over as an empty command. If no name is defined twice and all calls have
been resolved, there is an empty command just if a command of the reading can vanish. -/
theorem empty_command_iff_vanishes {σ ε : Type} (files : Store) (path : String) (cap : PassCap)
    (s : Scheduler σ ε) (state : σ) :
    ([] ∈ files.handedOver path cap s state →
      (∃ tokens, .command tokens ∈ (files.scan path).items ∧
        Vanishes (Context.empty.store (files.scan path).items).macros tokens) ∧
      ∃ opened ∈ openedPaths path (files.scan path), ∃ file, files.opener opened = .ok file ∧
        LineOf file.lines []) ∧
    ∀ lines, (files.scan path).expand cap = .ok lines → s.NeverRefuses →
      (.command [] ∈ (files.scan path).items → [] ∈ files.handedOver path cap s state) ∧
      ((Context.empty.store (files.scan path).items).macros.Disjoint →
        (∀ line ∈ lines, line.dirty = false) →
        ([] ∈ files.handedOver path cap s state ↔
          ∃ tokens, .command tokens ∈ (files.scan path).items ∧
            Vanishes (Context.empty.store (files.scan path).items).macros tokens)) := by
  refine ⟨fun h => ?_, fun lines he hs => ⟨fun hitem => ?_, fun hm hclean => ?_⟩⟩
  · obtain ⟨tokens, hitem, hvanishes⟩ := vanishes_of_handedOver h
    exact ⟨⟨tokens, hitem, hvanishes⟩, exists_lineOf_nil hitem hvanishes⟩
  · refine mem_handedOver_of_ok hs he ?_
    rw [Reading.lines_of_expand he]
    have hline : ⟨[], true⟩ ∈ (Context.empty.store (files.scan path).items).lines :=
      mem_pendingLines.mpr ⟨rfl, hitem⟩
    exact Context.nil_mem_expand_of_nil ⟨_, hline, rfl⟩ _
  · refine ⟨vanishes_of_handedOver, fun h => mem_handedOver_of_ok hs he ?_⟩
    have hfree : CleanCallFree (Context.empty.store (files.scan path).items).lines :=
      cleanCallFree_of_dirty fun line hline => (mem_pendingLines.mp hline).1
    rw [Reading.lines_of_expand he] at hclean ⊢
    exact Context.nil_mem_expand hm hfree hclean (exists_mem_lines_store_empty.mpr h)

def quotesFiles : Store :=
  ⟨[(["main"], .file (Text.Utf8.encode
    "LONG MACRO E\n\"\"\nEND MACRO\nMACRO A = E() E()\nrun A()\nA() E()\n".toList))]⟩

theorem quotesFiles_empty_command :
    quotesFiles.handedOver "main" .default (collector none) .empty = [["run"], []] ∧
    (∃ tokens, .command tokens ∈ (quotesFiles.scan "main").items ∧
      Vanishes (Context.empty.store (quotesFiles.scan "main").items).macros tokens) ∧
    ∃ opened ∈ openedPaths "main" (quotesFiles.scan "main"), ∃ file,
      quotesFiles.opener opened = .ok file ∧ LineOf file.lines [] := by
  have hcommands : quotesFiles.handedOver "main" .default (collector none) .empty =
      [["run"], []] := by decide +kernel
  have hexpand : (quotesFiles.scan "main").expand .default =
      .ok [⟨["run"], false⟩, ⟨[], false⟩] := by decide +kernel
  have hdisjoint : (Context.empty.store (quotesFiles.scan "main").items).macros.Disjoint :=
    Macros.disjoint_of_entries (by decide +kernel)
  obtain ⟨hfrom, hto⟩ :=
    empty_command_iff_vanishes quotesFiles "main" .default (collector none) .empty
  obtain ⟨-, hiff⟩ := hto _ hexpand neverRefuses_collector
  have hmem : [] ∈ quotesFiles.handedOver "main" .default (collector none) .empty := by
    simp [hcommands]
  exact ⟨hcommands, (hiff hdisjoint (by simp)).mp hmem, (hfrom hmem).2⟩

/-- A pair of quotes, which is no blank line. -/
def loneQuotesFiles : Store := ⟨[(["main"], .file (Text.Utf8.encode "\"\"\n".toList))]⟩

theorem loneQuotes_empty_command :
    ¬ ∀ (files : Store) (path : String) (cap : PassCap),
      ∀ command ∈ files.handedOver path cap (collector none) .empty, command ≠ [] := by
  intro h
  have hcommands : loneQuotesFiles.handedOver "main" .default (collector none) .empty = [[]] := by
    decide +kernel
  exact h loneQuotesFiles "main" .default [] (by simp [hcommands]) rfl

end CommandFile
