import CommandFile.Proofs.Reading.Steps
set_option autoImplicit false

namespace CommandFile

def TokenOf (lines : List String) (token : String) : Prop :=
  ∃ raw ∈ lines, ∃ tokens, tokenize (Text.strip raw) = .ok tokens ∧ token ∈ tokens

def LineOf (lines tokens : List String) : Prop :=
  ∃ raw ∈ lines, isContent (Text.strip raw) = true ∧ tokenize (Text.strip raw) = .ok tokens

def Item.tokens : Item → List String
  | .shortMacro _ replacement => replacement
  | .longMacro _ body => body.flatten
  | .inclusion _ => []
  | .command tokens => tokens

inductive Item.ReadFrom (lines : List String) : Item → Prop where
  | line {tokens : List String} {item : Item} : LineOf lines tokens →
      (classify tokens).item? = some item → ReadFrom lines item
  | body (name : String) {body : List (List String)} : (∀ line ∈ body, LineOf lines line) →
      ReadFrom lines (.longMacro name body)

theorem item_tokens_of_classify {tokens : List String} {item : Item}
    (h : (classify tokens).item? = some item) : item.tokens ⊆ tokens := by
  unfold classify at h
  split at h <;> cases h
  · exact fun token ht => List.mem_of_mem_drop (i := 3) ht
  · simp [Item.tokens]
  · simp [Item.tokens]

theorem Item.ReadFrom.tokenOf {lines : List String} {item : Item} (h : item.ReadFrom lines)
    {token : String} (ht : token ∈ item.tokens) : TokenOf lines token := by
  cases h with
  | line hline hitem =>
    obtain ⟨raw, hraw, -, htokens⟩ := hline
    exact ⟨raw, hraw, _, htokens, item_tokens_of_classify hitem ht⟩
  | body name hbody =>
    obtain ⟨line, hline, ht⟩ := List.mem_flatten.mp ht
    obtain ⟨raw, hraw, -, htokens⟩ := hbody line hline
    exact ⟨raw, hraw, line, htokens, ht⟩

/-- A line adds nothing but itself to an open macro, and completes an item only from what is kept
there and from itself. -/
theorem readFrom_of_readLine {lines : List String} {begun next : Option OpenMacro}
    {item : Option Item} {raw : String} (h : readLine begun raw = .ok (next, item))
    (hraw : raw ∈ lines) (hbegun : ∀ m ∈ begun, ∀ line ∈ m.body, LineOf lines line) :
    (∀ m ∈ next, ∀ line ∈ m.body, LineOf lines line) ∧ ∀ i ∈ item, i.ReadFrom lines := by
  cases lineRead_of_readLine h with
  | skipped => exact ⟨hbegun, by simp⟩
  | ended m hend =>
    have hbody : Item.ReadFrom lines (.longMacro m.name m.body.reverse) :=
      .body m.name fun line hl => hbegun m rfl line (List.mem_reverse.mp hl)
    exact ⟨by simp, by simpa using hbody⟩
  | @kept m tokens hend hcontent htokens =>
    have hline : LineOf lines tokens := ⟨raw, hraw, hcontent, htokens⟩
    have hbody : ∀ line ∈ tokens :: m.body, LineOf lines line :=
      List.forall_mem_cons.mpr ⟨hline, hbegun m rfl⟩
    exact ⟨by simpa using hbody, by simp⟩
  | begun => exact ⟨by simp, by simp⟩
  | completed hcontent htokens hitem =>
    have hitem := Item.ReadFrom.line ⟨raw, hraw, hcontent, htokens⟩ hitem
    exact ⟨by simp, by simpa using hitem⟩

theorem readFrom_readLines {path : String} {tailFault : Option Text.Utf8.Fault} {number : Nat}
    {begun : Option OpenMacro} {lines rest : List String} {item : Item} (hrest : rest ⊆ lines)
    (hbegun : ∀ m ∈ begun, ∀ line ∈ m.body, LineOf lines line)
    (hitem : item ∈ (readLines path tailFault number begun rest).items) : item.ReadFrom lines := by
  induction rest generalizing number begun with
  | nil =>
    rw [readLines_nil] at hitem
    cases tailFault <;> cases begun <;> simp [endOfLines, Reading.failed] at hitem
  | cons raw rest ih =>
    obtain ⟨hraw, hrest⟩ := List.cons_subset.mp hrest
    rw [readLines_cons] at hitem
    cases hl : readLine begun raw with
    | error e => simp [hl, Reading.failed] at hitem
    | ok step =>
      obtain ⟨next, completed⟩ := step
      obtain ⟨hnext, hcompleted⟩ := readFrom_of_readLine hl hraw hbegun
      simp only [hl, Reading.items_prepend, List.mem_append, Option.mem_toList] at hitem
      exact hitem.elim (hcompleted item) (ih hrest hnext)

theorem mem_inlineItems {read : String → Reading} {items : List Item} {item : Item}
    (h : item ∈ (inlineItems read items).items) :
    item ∈ items ∨ ∃ path, .inclusion path ∈ (inlineItems read items).items ∧
      (read path).items ⊆ (inlineItems read items).items ∧ item ∈ (read path).items := by
  induction items with
  | nil => simp [inlineItems] at h
  | cons first rest ih =>
    obtain ⟨path, rfl⟩ | hfirst := first.inclusion_or
    · cases hf : (read path).failure with
      | some e =>
        rw [inlineItems_inclusion_of_failure hf] at h ⊢
        refine (List.mem_cons.mp h).imp (fun hi => by simp [hi]) fun hi => ?_
        exact ⟨path, List.mem_cons_self, List.subset_cons_self _ _, hi⟩
      | none =>
        rw [inlineItems_inclusion_of_success hf, Reading.items_prepend] at h ⊢
        obtain (hi | hi) | hi := (List.mem_append.mp h).imp_left List.mem_cons.mp
        · exact .inl (by simp [hi])
        · exact .inr ⟨path, by simp, fun _ hmem => by simp [hmem], hi⟩
        · refine (ih hi).imp (List.mem_cons_of_mem _) ?_
          rintro ⟨inner, hinclusion, hsub, hmem⟩
          exact ⟨inner, by simp [hinclusion], fun _ ho => by simp [hsub ho], hmem⟩
    · rw [inlineItems_cons hfirst] at h ⊢
      rcases List.mem_cons.mp h with hi | hi
      · exact .inl (by simp [hi])
      · refine (ih hi).imp (List.mem_cons_of_mem _) ?_
        rintro ⟨inner, hinclusion, hsub, hmem⟩
        exact ⟨inner, List.mem_cons_of_mem _ hinclusion,
          fun _ ho => List.mem_cons_of_mem _ (hsub ho), hmem⟩

theorem readFrom_scan {openFile : Opener} {limit : Nat} {path : String} {item : Item}
    (hitem : item ∈ (scan openFile limit path).items) :
    ∃ opened ∈ openedPaths path (scan openFile limit path), ∃ file, openFile opened = .ok file ∧
      item.ReadFrom file.lines := by
  induction limit generalizing path with
  | zero => simp [scan, Reading.failed] at hitem
  | succ limit ih =>
    cases ho : openFile path with
    | error e => simp [scan, ho, Reading.failed] at hitem
    | ok file =>
      have hitems : (scan openFile (limit + 1) path).items =
          (inlineItems (scan openFile limit) (readFile path file).items).items := by
        cases hi : inlineItems (scan openFile limit) (readFile path file).items with
        | mk items failure => cases failure <;> simp [scan, ho, hi]
      rw [hitems] at hitem
      rcases mem_inlineItems hitem with hown | ⟨included, hinclusion, hsub, hinner⟩
      · exact ⟨path, List.mem_cons_self, file, ho,
          readFrom_readLines (List.Subset.refl _) (by simp) hown⟩
      · rw [← hitems] at hinclusion hsub
        obtain ⟨opened, hopened, hread⟩ := ih hinner
        refine ⟨opened, List.mem_cons_of_mem path (Reading.mem_inclusions.mpr ?_), hread⟩
        rcases List.mem_cons.mp hopened with rfl | hdeeper
        · exact hinclusion
        · exact hsub (Reading.mem_inclusions.mp hdeeper)

end CommandFile
