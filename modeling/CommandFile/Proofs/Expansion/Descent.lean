import CommandFile.Proofs.Expansion.LineSteps
import CommandFile.Proofs.Expansion.Passes
set_option autoImplicit false

/-!
Expansions that go downhill. If a pass takes every line that is still dirty to a lower level, no line
is dirty after one pass more than the level on which the expansion began. What a line comes to is
counted by itself: the lines after an expansion are the expansions of the single lines, in order.
-/
namespace CommandFile
variable {m : Macros} {lines next : List PendingLine}

/-- A line on some level is expanded, and into lines that are clean or on lower levels. -/
def Descends (m : Macros) (Level : Nat → List String → Prop) : Prop :=
  ∀ level tokens, Level level tokens → ∃ lines, expandLine m tokens = .ok lines ∧
    ∀ line ∈ lines, line.dirty = true → ∃ lower < level, Level lower line.tokens

namespace Descends
variable {Level : Nat → List String → Prop} {level passes : Nat}

/-- Each pass is paid for with a level of every line that it leaves dirty. -/
theorem afterPasses_add (h : Descends m Level) {spent : Nat}
    (hlines : ∀ line ∈ lines, line.dirty = true →
      ∃ lower, lower + spent ≤ level ∧ Level lower line.tokens) (passes : Nat) :
    ∃ next, afterPasses m passes lines = .ok next ∧ ∀ line ∈ next, line.dirty = true →
      ∃ lower, lower + (spent + passes) ≤ level ∧ Level lower line.tokens := by
  induction passes generalizing lines spent with
  | zero => exact ⟨lines, rfl, hlines⟩
  | succ passes ih =>
    obtain ⟨mid, hpass, hmid⟩ := expandPass_of_dirty
      (P := fun tokens => ∃ lower, lower + spent ≤ level ∧ Level lower tokens)
      (Q := fun tokens => ∃ lower, lower + (spent + 1) ≤ level ∧ Level lower tokens)
      (fun tokens htokens => by
        obtain ⟨above, hle, habove⟩ := htokens
        obtain ⟨lines, he, hlines⟩ := h above tokens habove
        refine ⟨lines, he, fun line hl hd => ?_⟩
        obtain ⟨lower, hlt, hlower⟩ := hlines line hl hd
        exact ⟨lower, by omega, hlower⟩) hlines
    obtain ⟨next, hnext, hlower⟩ := ih hmid
    refine ⟨next, by rw [afterPasses_succ_of_ok hpass, hnext], fun line hl hd => ?_⟩
    obtain ⟨lower, hle, htokens⟩ := hlower line hl hd
    exact ⟨lower, by omega, htokens⟩

theorem afterPasses (h : Descends m Level)
    (hlines : ∀ line ∈ lines, line.dirty = true → Level level line.tokens) (passes : Nat) :
    ∃ next, CommandFile.afterPasses m passes lines = .ok next ∧ ∀ line ∈ next, line.dirty = true →
      ∃ lower, lower + passes ≤ level ∧ Level lower line.tokens := by
  have hstart : ∀ line ∈ lines, line.dirty = true →
      ∃ lower, lower + 0 ≤ level ∧ Level lower line.tokens := fun line hl hd =>
    ⟨level, Nat.le_refl level, hlines line hl hd⟩
  obtain ⟨next, hnext, hlower⟩ := h.afterPasses_add hstart passes
  rw [Nat.zero_add] at hlower
  exact ⟨next, hnext, hlower⟩

theorem settledAfter (h : Descends m Level)
    (hlines : ∀ line ∈ lines, line.dirty = true → Level level line.tokens) :
    SettledAfter m lines (level + 1) := by
  obtain ⟨next, hnext, hlower⟩ := h.afterPasses hlines (level + 1)
  refine ⟨next, hnext, fun line hl => ?_⟩
  cases hd : line.dirty with
  | false => rfl
  | true =>
    obtain ⟨lower, hle, -⟩ := hlower line hl hd
    omega

end Descends

/-- What an expansion puts in place of a line, which is what the line comes to by itself. -/
def Context.expansionOf (c : Context) (cap : Int) (line : PendingLine) : List PendingLine :=
  ({ c with lines := [line] }.expand cap).1.lines

section Expansions
variable {c : Context} {cap : Int} {line : PendingLine}

theorem Context.expand_of_afterPasses (h : afterPasses c.macros cap.toNat c.lines = .ok next) :
    ∃ passes, c.expand cap = ({ c with lines := next }, .ok passes) := by
  obtain ⟨ran, he⟩ := expandLines_of_afterPasses h
  exact ⟨ran, expand_of_ok he⟩

theorem Context.expansionOf_of_afterPasses
    (h : afterPasses c.macros cap.toNat [line] = .ok next) : c.expansionOf cap line = next := by
  obtain ⟨passes, he⟩ := expand_of_afterPasses (c := { c with lines := [line] }) h
  rw [expansionOf, he]

theorem Context.flatMap_expansionOf (h : afterPasses c.macros cap.toNat lines = .ok next) :
    next = lines.flatMap (c.expansionOf cap) := by
  induction lines generalizing next with
  | nil =>
    rw [afterPasses_of_clean c.macros _ (by simp)] at h
    cases h
    rfl
  | cons line rest ih =>
    rw [← List.singleton_append] at h
    obtain ⟨first, others, hfirst, hothers, rfl⟩ := afterPasses_append_eq_ok.mp h
    rw [List.flatMap_cons, expansionOf_of_afterPasses hfirst, ← ih hothers]

theorem Context.lines_of_expand {after : Context} {passes : Nat}
    (h : c.expand cap = (after, .ok passes)) :
    after.lines = c.lines.flatMap (c.expansionOf cap) := by
  obtain ⟨he, -⟩ := Context.expand_eq_ok h
  exact flatMap_expansionOf (afterPasses_of_expandLines he)

namespace Descends
variable {Level : Nat → List String → Prop} {level : Nat}

theorem expand (h : Descends c.macros Level)
    (hlines : ∀ line ∈ c.lines, line.dirty = true → Level level line.tokens) (cap : Int) :
    ∃ after passes, c.expand cap = (after, .ok passes) ∧
      after.lines = c.lines.flatMap (c.expansionOf cap) ∧ passes ≤ level + 1 ∧
      ((level : Int) + 1 ≤ cap → ∀ line ∈ after.lines, line.dirty = false) := by
  obtain ⟨next, hnext, -⟩ := h.afterPasses hlines cap.toNat
  obtain ⟨passes, he⟩ := Context.expand_of_afterPasses hnext
  obtain ⟨hran, -⟩ := Context.expand_eq_ok he
  have hsettled := h.settledAfter hlines
  refine ⟨_, passes, he, Context.lines_of_expand he,
    (expandLines_passes_le_iff hran (level + 1)).mpr (.inr hsettled), fun hcap line hl => ?_⟩
  cases hd : line.dirty with
  | false => rfl
  | true =>
    have hmore := (expandLines_dirty_iff hran).mp ⟨line, hl, hd⟩ _ hsettled
    omega

theorem expansionOf (h : Descends c.macros Level) (hd : line.dirty = true)
    (hline : Level level line.tokens) (cap : Int) :
    ∀ left ∈ c.expansionOf cap line, CallFree left.tokens ∨
      ∃ lower, lower + cap.toNat ≤ level ∧ Level lower left.tokens := by
  have hlines : ∀ other ∈ [line], other.dirty = true → Level level other.tokens := by
    simpa using fun _ => hline
  have hdirty : ∀ other ∈ [line], other.dirty = true := by simpa using hd
  obtain ⟨next, hnext, hlower⟩ := h.afterPasses hlines cap.toNat
  have hclean : CleanCallFree (c.expansionOf cap line) :=
    Context.expand_cleanCallFree (c := { c with lines := [line] }) (cleanCallFree_of_dirty hdirty)
      cap
  rw [Context.expansionOf_of_afterPasses hnext] at hclean ⊢
  intro left hleft
  cases hd : left.dirty with
  | false => exact .inl (hclean left hleft hd)
  | true => exact .inr (hlower left hleft hd)

end Descends
end Expansions
end CommandFile
