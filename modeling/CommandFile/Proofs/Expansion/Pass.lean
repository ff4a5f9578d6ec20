import CommandFile.Proofs.Expansion.Definitions
set_option autoImplicit false

namespace CommandFile

def expandPending (m : Macros) (line : PendingLine) : Except UnresolvedMacro (List PendingLine) :=
  if line.dirty then expandLine m line.tokens else .ok [line]

def expandPass (m : Macros) : List PendingLine → Except Interrupted (List PendingLine)
  | [] => .ok []
  | line :: rest =>
    match expandPending m line with
    | .error e => .error ⟨e, line :: rest⟩
    | .ok lines =>
      match expandPass m rest with
      | .error i => .error ⟨i.error, lines ++ i.lines⟩
      | .ok others => .ok (lines ++ others)

theorem expandPending_of_dirty (m : Macros) {line : PendingLine} (hd : line.dirty = true) :
    expandPending m line = expandLine m line.tokens := if_pos hd

theorem expandPending_of_clean (m : Macros) {line : PendingLine} (hd : line.dirty = false) :
    expandPending m line = .ok [line] := by
  simp [expandPending, hd]

theorem expandPending_eq_ok {m : Macros} {line : PendingLine} {lines : List PendingLine}
    (h : expandPending m line = .ok lines) :
    line.dirty = true ∧ expandLine m line.tokens = .ok lines ∨
      line.dirty = false ∧ lines = [line] := by
  cases hd : line.dirty with
  | true =>
    rw [expandPending_of_dirty m hd] at h
    exact .inl ⟨rfl, h⟩
  | false =>
    rw [expandPending_of_clean m hd] at h
    cases h
    exact .inr ⟨rfl, rfl⟩

theorem expandPass_cons_of_ok {m : Macros} {line : PendingLine}
    {lines rest others : List PendingLine}
    (hline : expandPending m line = .ok lines) (hrest : expandPass m rest = .ok others) :
    expandPass m (line :: rest) = .ok (lines ++ others) := by
  simp [expandPass, hline, hrest]

theorem expandPass_cons_eq_ok {m : Macros} {line : PendingLine} {rest next : List PendingLine}
    (h : expandPass m (line :: rest) = .ok next) :
    ∃ lines others, expandPending m line = .ok lines ∧ expandPass m rest = .ok others ∧
      next = lines ++ others := by
  cases hl : expandPending m line with
  | error e => simp [expandPass, hl] at h
  | ok lines =>
    cases hr : expandPass m rest with
    | error i => simp [expandPass, hl, hr] at h
    | ok others =>
      simp [expandPass, hl, hr] at h
      exact ⟨lines, others, rfl, rfl, h.symm⟩

/-- One step of a pass, with the dirty lines counted by those done and those ahead. -/
theorem step_eq (m : Macros) (done rest : List PendingLine) (line : PendingLine) :
    Progress.step m ⟨done, dirtyCount done + dirtyCount (line :: rest)⟩ line =
      (expandPending m line).map fun lines =>
        ⟨lines.reverse ++ done, dirtyCount (lines.reverse ++ done) + dirtyCount rest⟩ := by
  have hreverse : ∀ lines : List PendingLine, dirtyCount lines.reverse = dirtyCount lines :=
    fun lines => List.countP_reverse
  cases hd : line.dirty with
  | false => simp [Progress.step, expandPending, hd, Except.map]
  | true =>
    cases he : expandLine m line.tokens with
    | error e => simp [Progress.step, expandPending, hd, he, Except.map]
    | ok lines =>
      simp [Progress.step, expandPending, hd, he, Except.map, hreverse]
      omega

theorem run_eq (m : Macros) (done lines : List PendingLine) :
    Progress.run m ⟨done, dirtyCount done + dirtyCount lines⟩ lines =
      match expandPass m lines with
      | .ok next => .ok ⟨next.reverse ++ done, dirtyCount (next.reverse ++ done)⟩
      | .error i => .error ⟨i.error, done.reverse ++ i.lines⟩ := by
  induction lines generalizing done with
  | nil => simp [Progress.run, expandPass]
  | cons line rest ih =>
    rw [Progress.run, step_eq]
    cases he : expandPending m line with
    | error e => simp [Except.map, expandPass, he]
    | ok lines =>
      simp only [Except.map, ih, expandPass, he]
      cases expandPass m rest <;> simp

/-- An expansion whose count of dirty lines is exact goes on pass by pass. -/
theorem expandFrom_succ (m : Macros) (passes left : Nat) (lines : List PendingLine) :
    expandFrom m passes lines (dirtyCount lines) (left + 1) =
      if dirtyCount lines = 0 then .ok ⟨lines, passes⟩
      else match expandPass m lines with
        | .ok next => expandFrom m (passes + 1) next (dirtyCount next) left
        | .error e => .error e := by
  have hrun := run_eq m [] lines
  simp only [dirtyCount_nil, Nat.zero_add] at hrun
  rw [expandFrom, hrun]
  cases expandPass m lines with
  | error i => simp
  | ok next =>
    have hcount : dirtyCount next.reverse = dirtyCount next := List.countP_reverse
    simp [hcount]

theorem dirtyCount_eq_zero_iff {lines : List PendingLine} :
    dirtyCount lines = 0 ↔ ∀ line ∈ lines, line.dirty = false := by
  simp [dirtyCount, List.countP_eq_zero]

theorem expandFrom_of_clean (m : Macros) (passes left : Nat) {lines : List PendingLine}
    (h : dirtyCount lines = 0) :
    expandFrom m passes lines (dirtyCount lines) left = .ok ⟨lines, passes⟩ := by
  cases left with
  | zero => rfl
  | succ left => rw [expandFrom_succ, if_pos h]

theorem expandPass_of_callFree (m : Macros) {lines : List PendingLine}
    (h : ∀ line ∈ lines, CallFree line.tokens) :
    expandPass m lines = .ok (lines.map fun line => ⟨line.tokens, false⟩) := by
  induction lines with
  | nil => rfl
  | cons line rest ih =>
    have hline : expandPending m line = .ok [⟨line.tokens, false⟩] := by
      cases hd : line.dirty with
      | true =>
        rw [expandPending_of_dirty m hd]
        exact expandLine_of_callFree (firstCall_eq_none_iff.mpr (h line (by simp)))
      | false =>
        rw [expandPending_of_clean m hd, ← hd]
    exact expandPass_cons_of_ok hline (ih fun other ho => h other (by simp [ho]))

theorem map_tokens_of_clean {lines : List PendingLine} (h : ∀ line ∈ lines, line.dirty = false) :
    (lines.map fun line => (⟨line.tokens, false⟩ : PendingLine)) = lines := by
  calc (lines.map fun line => (⟨line.tokens, false⟩ : PendingLine))
      = lines.map id := List.map_congr_left fun line hl => by rw [← h line hl]; rfl
    _ = lines := List.map_id lines

theorem expandFrom_of_callFree (m : Macros) (passes left : Nat) {lines : List PendingLine}
    (h : ∀ line ∈ lines, CallFree line.tokens) :
    ∃ ran, expandFrom m passes lines (dirtyCount lines) (left + 1) =
      .ok ⟨lines.map fun line => ⟨line.tokens, false⟩, ran⟩ := by
  by_cases hd : dirtyCount lines = 0
  · have hsame := map_tokens_of_clean (dirtyCount_eq_zero_iff.mp hd)
    exact ⟨passes, by rw [expandFrom_of_clean m passes _ hd, hsame]⟩
  · have hclean : dirtyCount (lines.map fun line => (⟨line.tokens, false⟩ : PendingLine)) = 0 :=
      dirtyCount_eq_zero_iff.mpr (by simp)
    rw [expandFrom_succ, if_neg hd, expandPass_of_callFree m h]
    exact ⟨passes + 1, expandFrom_of_clean m _ left hclean⟩

def CleanCallFree (lines : List PendingLine) : Prop :=
  ∀ line ∈ lines, line.dirty = false → CallFree line.tokens

theorem cleanCallFree_append {as bs : List PendingLine} :
    CleanCallFree (as ++ bs) ↔ CleanCallFree as ∧ CleanCallFree bs := by
  simp only [CleanCallFree, List.mem_append, or_imp, forall_and]

theorem cleanCallFree_cons {line : PendingLine} {rest : List PendingLine} :
    CleanCallFree (line :: rest) ↔
      (line.dirty = false → CallFree line.tokens) ∧ CleanCallFree rest := List.forall_mem_cons

theorem cleanCallFree_of_dirty {lines : List PendingLine}
    (h : ∀ line ∈ lines, line.dirty = true) : CleanCallFree lines := by
  intro line hl hd
  simp [h line hl] at hd

theorem expandLine_cleanCallFree {m : Macros} {tokens : List String} {lines : List PendingLine}
    (h : expandLine m tokens = .ok lines) : CleanCallFree lines := by
  have ho := expandLine_outcome m tokens
  rw [h] at ho
  cases ho with
  | callFree hf => simpa [CleanCallFree] using hf
  | substituted hs hl => simp [CleanCallFree]
  | fannedOut hc hl => simp [CleanCallFree]

theorem expandPass_cleanCallFree {m : Macros} {lines next : List PendingLine}
    (hclean : CleanCallFree lines) (h : expandPass m lines = .ok next) : CleanCallFree next := by
  induction lines generalizing next with
  | nil =>
    cases h
    exact hclean
  | cons line rest ih =>
    obtain ⟨hline, hrest⟩ := cleanCallFree_cons.mp hclean
    obtain ⟨lines, others, he, hp, rfl⟩ := expandPass_cons_eq_ok h
    refine cleanCallFree_append.mpr ⟨?_, ih hrest hp⟩
    obtain ⟨-, he⟩ | ⟨-, rfl⟩ := expandPending_eq_ok he
    · exact expandLine_cleanCallFree he
    · exact cleanCallFree_cons.mpr ⟨hline, by simp [CleanCallFree]⟩

theorem expandLine_of_defines {m : Macros} (hm : m.Closed) {tokens : List String}
    (h : m.Defines tokens) :
    ∃ lines, expandLine m tokens = .ok lines ∧ ∀ line ∈ lines, m.Defines line.tokens := by
  have ho := expandLine_outcome m tokens
  cases he : expandLine m tokens with
  | error e =>
    rw [he] at ho
    cases ho with
    | unresolved hc hcalled hl =>
      obtain ⟨token, rfl, hn, -⟩ := firstCall_eq_some hc
      have hs := hcalled token (by simp)
      rw [m.short.called?_of_name hn] at hs
      have hdefined := h _ (mem_calledNames_of_mem (by simp) hn)
      simp [hs, hl] at hdefined
  | ok lines => exact ⟨lines, rfl, CallsWithin.expandLine hm.encloses h he⟩

def DirtyDefined (m : Macros) (lines : List PendingLine) : Prop :=
  ∀ line ∈ lines, line.dirty = true → m.Defines line.tokens

theorem expandPass_of_dirty {m : Macros} {P Q : List String → Prop}
    (hline : ∀ tokens, P tokens → ∃ lines, expandLine m tokens = .ok lines ∧
      ∀ line ∈ lines, line.dirty = true → Q line.tokens)
    {lines : List PendingLine} (h : ∀ line ∈ lines, line.dirty = true → P line.tokens) :
    ∃ next, expandPass m lines = .ok next ∧ ∀ line ∈ next, line.dirty = true → Q line.tokens := by
  induction lines with
  | nil => exact ⟨[], rfl, by simp⟩
  | cons line rest ih =>
    obtain ⟨others, hr, hothers⟩ := ih fun other ho => h other (by simp [ho])
    have hfirst : ∃ lines, expandPending m line = .ok lines ∧
        ∀ line ∈ lines, line.dirty = true → Q line.tokens := by
      cases hd : line.dirty with
      | false => exact ⟨[line], expandPending_of_clean m hd, by simp [hd]⟩
      | true =>
        rw [expandPending_of_dirty m hd]
        exact hline line.tokens (h line (by simp) hd)
    obtain ⟨lines, he, hlines⟩ := hfirst
    exact ⟨lines ++ others, expandPass_cons_of_ok he hr,
      List.forall_mem_append.mpr ⟨hlines, hothers⟩⟩

theorem expandPass_of_defines {m : Macros} (hm : m.Closed) {lines : List PendingLine}
    (h : DirtyDefined m lines) :
    ∃ next, expandPass m lines = .ok next ∧ DirtyDefined m next := by
  refine expandPass_of_dirty (fun tokens htokens => ?_) h
  obtain ⟨lines, he, hlines⟩ := expandLine_of_defines hm htokens
  exact ⟨lines, he, fun line hl _ => hlines line hl⟩

/-- What every pass keeps, an expansion keeps. -/
theorem expandFrom_invariant {m : Macros} {P : List PendingLine → Prop}
    (hstep : ∀ lines next, P lines → expandPass m lines = .ok next → P next)
    {passes left : Nat} {lines : List PendingLine} {e : Expanded} (h : P lines)
    (he : expandFrom m passes lines (dirtyCount lines) left = .ok e) : P e.lines := by
  induction left generalizing passes lines with
  | zero =>
    cases he
    exact h
  | succ left ih =>
    rw [expandFrom_succ] at he
    split at he
    · cases he
      exact h
    · cases hp : expandPass m lines with
      | error i => simp [hp] at he
      | ok next =>
        simp only [hp] at he
        exact ih (hstep lines next h hp) he

theorem expandFrom_succeeds {m : Macros} {P : List PendingLine → Prop}
    (hstep : ∀ lines, P lines → ∃ next, expandPass m lines = .ok next ∧ P next)
    (passes left : Nat) {lines : List PendingLine} (h : P lines) :
    ∃ e, expandFrom m passes lines (dirtyCount lines) left = .ok e := by
  induction left generalizing passes lines with
  | zero => exact ⟨_, rfl⟩
  | succ left ih =>
    rw [expandFrom_succ]
    split
    · exact ⟨_, rfl⟩
    · obtain ⟨next, hp, hnext⟩ := hstep lines h
      rw [hp]
      exact ih (passes + 1) hnext

theorem Context.expand_eq_ok {c next : Context} {cap : Int} {passes : Nat}
    (h : c.expand cap = (next, .ok passes)) :
    expandFrom c.macros 0 c.lines (dirtyCount c.lines) cap.toNat = .ok ⟨next.lines, passes⟩ ∧
      next.macros = c.macros := by
  unfold Context.expand expandLines at h
  cases he : expandFrom c.macros 0 c.lines (dirtyCount c.lines) cap.toNat with
  | error i => simp [he] at h
  | ok e =>
    simp only [he, Prod.mk.injEq, Except.ok.injEq] at h
    obtain ⟨rfl, rfl⟩ := h
    exact ⟨rfl, rfl⟩

theorem Context.expand_of_ok {c : Context} {cap : Int} {e : Expanded}
    (h : expandFrom c.macros 0 c.lines (dirtyCount c.lines) cap.toNat = .ok e) :
    c.expand cap = ({ c with lines := e.lines }, .ok e.passes) := by
  simp [Context.expand, expandLines, h]

end CommandFile
