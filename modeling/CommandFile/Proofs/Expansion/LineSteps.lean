import CommandFile.Proofs.Expansion.Pass
set_option autoImplicit false

/-!
Expansion line by line. A pass that meets an unresolved macro has still expanded the lines before
it, so the lines that an expansion leaves behind, whether it succeeds or fails, are reached by
expanding one dirty line after the other.
-/
namespace CommandFile

inductive LineStep (m : Macros) : List PendingLine → List PendingLine → Prop where
  | expand {tokens : List String} {lines : List PendingLine} (before after : List PendingLine) :
      expandLine m tokens = .ok lines →
      LineStep m (before ++ ⟨tokens, true⟩ :: after) (before ++ lines ++ after)

abbrev LineSteps (m : Macros) : List PendingLine → List PendingLine → Prop :=
  Relation.ReflTransGen (LineStep m)

def linesLeft : Except Interrupted (List PendingLine) → List PendingLine
  | .ok next => next
  | .error i => i.lines

theorem linesLeft_expandPass_cons {m : Macros} {line : PendingLine}
    {lines : List PendingLine} (h : expandPending m line = .ok lines) (rest : List PendingLine) :
    linesLeft (expandPass m (line :: rest)) = lines ++ linesLeft (expandPass m rest) := by
  cases hr : expandPass m rest <;> simp [expandPass, h, hr, linesLeft]

theorem expandPass_lineSteps (m : Macros) (before lines : List PendingLine) :
    LineSteps m (before ++ lines) (before ++ linesLeft (expandPass m lines)) := by
  induction lines generalizing before with
  | nil => exact .refl
  | cons line rest ih =>
    cases he : expandPending m line with
    | error e =>
      have hleft : linesLeft (expandPass m (line :: rest)) = line :: rest := by
        simp [expandPass, he, linesLeft]
      rw [hleft]
    | ok lines =>
      have hrest := ih (before ++ lines)
      rw [linesLeft_expandPass_cons he, ← List.append_assoc]
      obtain ⟨hd, he⟩ | ⟨-, rfl⟩ := expandPending_eq_ok he
      · obtain ⟨tokens, dirty⟩ := line
        cases hd
        exact .head (.expand before rest he) hrest
      · simpa using hrest

theorem expandFrom_lineSteps (m : Macros) (passes left : Nat) (lines : List PendingLine) :
    (∀ e, expandFrom m passes lines (dirtyCount lines) left = .ok e → LineSteps m lines e.lines) ∧
    ∀ i, expandFrom m passes lines (dirtyCount lines) left = .error i →
      LineSteps m lines i.lines := by
  induction left generalizing passes lines with
  | zero =>
    refine ⟨fun e he => ?_, fun i hi => nomatch hi⟩
    cases he
    exact .refl
  | succ left ih =>
    rw [expandFrom_succ]
    split
    · refine ⟨fun e he => ?_, fun i hi => nomatch hi⟩
      cases he
      exact .refl
    · have hpass := expandPass_lineSteps m [] lines
      simp only [List.nil_append] at hpass
      cases hp : expandPass m lines with
      | error i =>
        rw [hp] at hpass
        refine ⟨fun e he => (nomatch he), fun j hj => ?_⟩
        cases hj
        exact hpass
      | ok next =>
        rw [hp] at hpass
        obtain ⟨hok, herror⟩ := ih (passes + 1) next
        exact ⟨fun e he => hpass.trans (hok e he), fun i hi => hpass.trans (herror i hi)⟩

@[simp] theorem Context.macros_expand (c : Context) (cap : Int) :
    (c.expand cap).1.macros = c.macros := by
  unfold expand
  split <;> rfl

theorem Context.expand_lineSteps (c : Context) (cap : Int) :
    LineSteps c.macros c.lines (c.expand cap).1.lines := by
  obtain ⟨hok, herror⟩ := expandFrom_lineSteps c.macros 0 cap.toNat c.lines
  unfold expand expandLines
  split
  · exact hok _ ‹_›
  · exact herror _ ‹_›

/-- What every expansion of a line keeps, an expansion keeps, however it ends. -/
theorem Context.expand_invariant {P : List PendingLine → Prop} {c : Context}
    (hstep : ∀ lines next, P lines → LineStep c.macros lines next → P next) (h : P c.lines)
    (cap : Int) : P (c.expand cap).1.lines := by
  have hsteps := c.expand_lineSteps cap
  generalize (c.expand cap).1.lines = next at hsteps
  induction hsteps with
  | refl => exact h
  | tail _ hlast ih => exact hstep _ _ ih hlast

/-- What holds of all lines, and of all that take the place of such a line, holds after an
expansion. -/
theorem Context.expand_forall {P : List String → Prop} {c : Context}
    (hline : ∀ tokens lines, P tokens → expandLine c.macros tokens = .ok lines →
      ∀ line ∈ lines, P line.tokens)
    (h : ∀ line ∈ c.lines, P line.tokens) (cap : Int) :
    ∀ line ∈ (c.expand cap).1.lines, P line.tokens := by
  refine Context.expand_invariant (P := fun lines => ∀ line ∈ lines, P line.tokens) ?_ h cap
  rintro _ _ hlines ⟨before, after, he⟩
  obtain ⟨hbefore, hrest⟩ := List.forall_mem_append.mp hlines
  obtain ⟨htokens, hafter⟩ := List.forall_mem_cons.mp hrest
  exact List.forall_mem_append.mpr
    ⟨List.forall_mem_append.mpr ⟨hbefore, hline _ _ htokens he⟩, hafter⟩

theorem Context.expand_exists {P : List String → Prop} {c : Context}
    (hline : ∀ tokens lines, P tokens → expandLine c.macros tokens = .ok lines →
      ∃ line ∈ lines, P line.tokens)
    (h : ∃ line ∈ c.lines, P line.tokens) (cap : Int) :
    ∃ line ∈ (c.expand cap).1.lines, P line.tokens := by
  refine Context.expand_invariant (P := fun lines => ∃ line ∈ lines, P line.tokens) ?_ h cap
  rintro _ _ ⟨line, hl, htokens⟩ ⟨before, after, he⟩
  rcases List.mem_append.mp hl with hl | hl
  · exact ⟨line, by simp [hl], htokens⟩
  · rcases List.mem_cons.mp hl with rfl | hl
    · obtain ⟨next, hnext, hkept⟩ := hline _ _ htokens he
      exact ⟨next, by simp [hnext], hkept⟩
    · exact ⟨line, by simp [hl], htokens⟩

theorem LineStep.cleanCallFree {m : Macros} {lines next : List PendingLine}
    (hclean : CleanCallFree lines) (h : LineStep m lines next) : CleanCallFree next := by
  obtain ⟨before, after, he⟩ := h
  obtain ⟨hbefore, hafter⟩ := cleanCallFree_append.mp hclean
  exact cleanCallFree_append.mpr
    ⟨cleanCallFree_append.mpr ⟨hbefore, expandLine_cleanCallFree he⟩,
      (cleanCallFree_cons.mp hafter).2⟩

theorem Context.expand_cleanCallFree {c : Context} (h : CleanCallFree c.lines) (cap : Int) :
    CleanCallFree (c.expand cap).1.lines :=
  Context.expand_invariant (fun _ _ => LineStep.cleanCallFree) h cap

end CommandFile
