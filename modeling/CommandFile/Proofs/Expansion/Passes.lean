import CommandFile.Proofs.Expansion.Pass
import Mathlib.Order.Bounds.Basic
set_option autoImplicit false

/-!
An expansion as a number of full passes. A pass over clean lines changes nothing, so the lines that
an expansion comes to are those after as many passes as its cap allows. The passes it tells are
fewer only if no line was dirty any more.
-/
namespace CommandFile
variable {m : Macros} {lines next : List PendingLine}

/-- The lines after a number of full passes, needed or not. -/
def afterPasses (m : Macros) : Nat → List PendingLine → Except Interrupted (List PendingLine)
  | 0, lines => .ok lines
  | passes + 1, lines =>
    match expandPass m lines with
    | .ok next => afterPasses m passes next
    | .error i => .error i

def SettledAfter (m : Macros) (lines : List PendingLine) (passes : Nat) : Prop :=
  ∃ next, afterPasses m passes lines = .ok next ∧ ∀ line ∈ next, line.dirty = false

instance (m : Macros) (lines : List PendingLine) (passes : Nat) :
    Decidable (SettledAfter m lines passes) :=
  match h : afterPasses m passes lines with
  | .ok next => decidable_of_iff (∀ line ∈ next, line.dirty = false) (by simp [SettledAfter, h])
  | .error i => .isFalse (by simp [SettledAfter, h])

section Pass

theorem dirty_of_expandPending_error {line : PendingLine} {e : UnresolvedMacro}
    (h : expandPending m line = .error e) : line.dirty = true := by
  cases hd : line.dirty with
  | true => rfl
  | false => simp [expandPending_of_clean m hd] at h

theorem expandPass_append (m : Macros) (as bs : List PendingLine) :
    expandPass m (as ++ bs) =
      match expandPass m as with
      | .error i => .error ⟨i.error, i.lines ++ bs⟩
      | .ok next =>
        match expandPass m bs with
        | .error i => .error ⟨i.error, next ++ i.lines⟩
        | .ok others => .ok (next ++ others) := by
  induction as with
  | nil => cases h : expandPass m bs <;> simp [expandPass, h]
  | cons line rest ih =>
    rw [List.cons_append, expandPass, expandPass, ih]
    cases expandPending m line with
    | error e => rfl
    | ok lines =>
      cases expandPass m rest with
      | error i => simp
      | ok next => cases expandPass m bs <;> simp

theorem expandPass_append_eq_ok {as bs : List PendingLine} :
    expandPass m (as ++ bs) = .ok next ↔
      ∃ first others, expandPass m as = .ok first ∧ expandPass m bs = .ok others ∧
        next = first ++ others := by
  rw [expandPass_append]
  cases expandPass m as <;> cases expandPass m bs <;> simp [eq_comm]

theorem expandPass_eq_error_iff {i : Interrupted} :
    expandPass m lines = .error i ↔
      ∃ before line after done, lines = before ++ line :: after ∧
        expandPass m before = .ok done ∧ expandPending m line = .error i.error ∧
        i.lines = done ++ line :: after := by
  constructor
  · intro h
    induction lines generalizing i with
    | nil => cases h
    | cons line rest ih =>
      cases he : expandPending m line with
      | error e =>
        simp only [expandPass, he, Except.error.injEq] at h
        subst h
        exact ⟨[], line, rest, [], rfl, rfl, he, rfl⟩
      | ok lines =>
        cases hr : expandPass m rest with
        | ok others => simp [expandPass, he, hr] at h
        | error j =>
          simp only [expandPass, he, hr, Except.error.injEq] at h
          subst h
          obtain ⟨before, stop, after, done, rfl, hdone, hstop, hleft⟩ := ih hr
          refine ⟨line :: before, stop, after, lines ++ done, rfl,
            expandPass_cons_of_ok he hdone, hstop, ?_⟩
          simp [hleft]
  · rintro ⟨before, line, after, done, rfl, hdone, he, hleft⟩
    obtain ⟨e, left⟩ := i
    simp only at he hleft
    simp [expandPass_append, hdone, expandPass, he, hleft]

theorem expandPass_of_clean (m : Macros) (h : ∀ line ∈ lines, line.dirty = false) :
    expandPass m lines = .ok lines := by
  induction lines with
  | nil => rfl
  | cons line rest ih =>
    exact expandPass_cons_of_ok (expandPending_of_clean m (h line (by simp)))
      (ih fun other ho => h other (by simp [ho]))

end Pass

section AfterPasses
variable {passes more : Nat}

theorem afterPasses_succ_of_ok (h : expandPass m lines = .ok next) (passes : Nat) :
    afterPasses m (passes + 1) lines = afterPasses m passes next := by
  rw [afterPasses, h]

theorem afterPasses_succ_eq_ok {last : List PendingLine} :
    afterPasses m (passes + 1) lines = .ok last ↔
      ∃ next, expandPass m lines = .ok next ∧ afterPasses m passes next = .ok last := by
  rw [afterPasses]
  cases expandPass m lines <;> simp

theorem afterPasses_one (m : Macros) (lines : List PendingLine) :
    afterPasses m 1 lines = expandPass m lines := by
  rw [afterPasses]
  cases expandPass m lines <;> rfl

theorem afterPasses_add (h : afterPasses m passes lines = .ok next) (more : Nat) :
    afterPasses m (passes + more) lines = afterPasses m more next := by
  induction passes generalizing lines with
  | zero =>
    cases h
    rw [Nat.zero_add]
  | succ passes ih =>
    obtain ⟨mid, hp, h⟩ := afterPasses_succ_eq_ok.mp h
    rw [Nat.succ_add, afterPasses_succ_of_ok hp, ih h]

theorem afterPasses_of_clean (m : Macros) (passes : Nat) (h : ∀ line ∈ lines, line.dirty = false) :
    afterPasses m passes lines = .ok lines := by
  induction passes with
  | zero => rfl
  | succ passes ih => rw [afterPasses_succ_of_ok (expandPass_of_clean m h), ih]

/-- What some passes come through, fewer passes come through too. -/
theorem afterPasses_of_le {last : List PendingLine} (h : afterPasses m more lines = .ok last)
    (hle : passes ≤ more) : ∃ next, afterPasses m passes lines = .ok next := by
  induction passes generalizing more lines with
  | zero => exact ⟨lines, rfl⟩
  | succ passes ih =>
    obtain ⟨more, rfl⟩ : ∃ fewer, more = fewer + 1 := ⟨more - 1, by omega⟩
    obtain ⟨mid, hp, h⟩ := afterPasses_succ_eq_ok.mp h
    rw [afterPasses_succ_of_ok hp]
    exact ih h (by omega)

theorem afterPasses_eq_error_iff {i : Interrupted} :
    afterPasses m passes lines = .error i ↔
      ∃ fewer < passes, ∃ before, afterPasses m fewer lines = .ok before ∧
        expandPass m before = .error i := by
  induction passes generalizing lines with
  | zero => simp [afterPasses]
  | succ passes ih =>
    cases hp : expandPass m lines with
    | error j =>
      rw [afterPasses, hp]
      constructor
      · intro h
        exact ⟨0, Nat.succ_pos passes, lines, rfl, hp.trans h⟩
      · rintro ⟨fewer, -, before, hbefore, hi⟩
        cases fewer with
        | zero =>
          cases hbefore
          exact hp.symm.trans hi
        | succ fewer => simp [afterPasses, hp] at hbefore
    | ok next =>
      rw [afterPasses_succ_of_ok hp, ih]
      constructor
      · rintro ⟨fewer, hlt, before, hbefore, hi⟩
        exact ⟨fewer + 1, Nat.succ_lt_succ hlt, before, by rwa [afterPasses_succ_of_ok hp], hi⟩
      · rintro ⟨fewer, hlt, before, hbefore, hi⟩
        cases fewer with
        | zero =>
          cases hbefore
          simp [hp] at hi
        | succ fewer =>
          rw [afterPasses_succ_of_ok hp] at hbefore
          exact ⟨fewer, Nat.lt_of_succ_lt_succ hlt, before, hbefore, hi⟩

theorem afterPasses_append_eq_ok {as bs last : List PendingLine} :
    afterPasses m passes (as ++ bs) = .ok last ↔
      ∃ first others, afterPasses m passes as = .ok first ∧ afterPasses m passes bs = .ok others ∧
        last = first ++ others := by
  induction passes generalizing as bs with
  | zero => simp [afterPasses, eq_comm]
  | succ passes ih =>
    simp only [afterPasses_succ_eq_ok, expandPass_append_eq_ok]
    constructor
    · rintro ⟨_, ⟨a, b, ha, hb, rfl⟩, h⟩
      obtain ⟨first, others, hfirst, hothers, rfl⟩ := ih.mp h
      exact ⟨first, others, ⟨a, ha, hfirst⟩, ⟨b, hb, hothers⟩, rfl⟩
    · rintro ⟨first, others, ⟨a, ha, hfirst⟩, ⟨b, hb, hothers⟩, rfl⟩
      exact ⟨a ++ b, ⟨a, b, ha, hb, rfl⟩, ih.mpr ⟨first, others, hfirst, hothers, rfl⟩⟩

theorem settledAfter_zero : SettledAfter m lines 0 ↔ ∀ line ∈ lines, line.dirty = false := by
  simp [SettledAfter, afterPasses]

theorem settledAfter_succ (h : expandPass m lines = .ok next) :
    SettledAfter m lines (passes + 1) ↔ SettledAfter m next passes := by
  simp only [SettledAfter, afterPasses_succ_of_ok h]

theorem settledAfter_of_clean (m : Macros) (passes : Nat)
    (h : ∀ line ∈ lines, line.dirty = false) : SettledAfter m lines passes :=
  ⟨lines, afterPasses_of_clean m passes h, h⟩

theorem SettledAfter.mono (h : SettledAfter m lines passes) (hle : passes ≤ more) :
    SettledAfter m lines more := by
  obtain ⟨next, hnext, hclean⟩ := h
  obtain ⟨extra, rfl⟩ := Nat.exists_eq_add_of_le hle
  exact ⟨next, by rw [afterPasses_add hnext, afterPasses_of_clean m extra hclean], hclean⟩

theorem settledAfter_append {as bs : List PendingLine} :
    SettledAfter m (as ++ bs) passes ↔ SettledAfter m as passes ∧ SettledAfter m bs passes := by
  constructor
  · rintro ⟨_, h, hclean⟩
    obtain ⟨first, others, hfirst, hothers, rfl⟩ := afterPasses_append_eq_ok.mp h
    obtain ⟨hcleanFirst, hcleanOthers⟩ := List.forall_mem_append.mp hclean
    exact ⟨⟨first, hfirst, hcleanFirst⟩, ⟨others, hothers, hcleanOthers⟩⟩
  · rintro ⟨⟨first, hfirst, hcleanFirst⟩, ⟨others, hothers, hcleanOthers⟩⟩
    exact ⟨first ++ others, afterPasses_append_eq_ok.mpr ⟨first, others, hfirst, hothers, rfl⟩,
      List.forall_mem_append.mpr ⟨hcleanFirst, hcleanOthers⟩⟩

end AfterPasses

section Expansion
variable {passes left : Nat} {e : Expanded} {i : Interrupted} {cap : Int}

theorem expandFrom_lines (m : Macros) (passes left : Nat) (lines : List PendingLine) :
    (expandFrom m passes lines (dirtyCount lines) left).map Expanded.lines =
      afterPasses m left lines := by
  induction left generalizing passes lines with
  | zero => rfl
  | succ left ih =>
    rw [expandFrom_succ]
    split
    · rename_i hd
      rw [afterPasses_of_clean m _ (dirtyCount_eq_zero_iff.mp hd)]
      rfl
    · cases hp : expandPass m lines with
      | error i => simp [afterPasses, hp, Except.map]
      | ok next => rw [afterPasses_succ_of_ok hp, ← ih (passes + 1)]

theorem le_passes_of_expandFrom
    (h : expandFrom m passes lines (dirtyCount lines) left = .ok e) : passes ≤ e.passes := by
  induction left generalizing passes lines with
  | zero =>
    cases h
    exact Nat.le_refl passes
  | succ left ih =>
    rw [expandFrom_succ] at h
    split at h
    · cases h
      exact Nat.le_refl passes
    · cases hp : expandPass m lines with
      | error i => simp [hp] at h
      | ok next =>
        simp only [hp] at h
        exact Nat.le_of_succ_le (ih h)

/-- The passes are the least number that is not below the cap, or leaves no line dirty. -/
theorem expandFrom_passes_le_iff
    (h : expandFrom m passes lines (dirtyCount lines) left = .ok e) (more : Nat) :
    e.passes ≤ passes + more ↔ left ≤ more ∨ SettledAfter m lines more := by
  induction left generalizing passes lines more with
  | zero =>
    cases h
    simp
  | succ left ih =>
    rw [expandFrom_succ] at h
    split at h
    · rename_i hd
      cases h
      simp [settledAfter_of_clean m more (dirtyCount_eq_zero_iff.mp hd)]
    · rename_i hd
      cases hp : expandPass m lines with
      | error i => simp [hp] at h
      | ok next =>
        simp only [hp] at h
        cases more with
        | zero =>
          have hran := le_passes_of_expandFrom h
          have hdirty : ¬ SettledAfter m lines 0 := by
            rwa [settledAfter_zero, ← dirtyCount_eq_zero_iff]
          simp only [hdirty, or_false]
          omega
        | succ more =>
          rw [settledAfter_succ hp, Nat.succ_le_succ_iff, ← ih h more]
          omega

theorem expandLines_of_clean (m : Macros) (cap : Int) (h : ∀ line ∈ lines, line.dirty = false) :
    expandLines m lines cap = .ok ⟨lines, 0⟩ :=
  expandFrom_of_clean m 0 cap.toNat (dirtyCount_eq_zero_iff.mpr h)

theorem expandLines_lines (m : Macros) (lines : List PendingLine) (cap : Int) :
    (expandLines m lines cap).map Expanded.lines = afterPasses m cap.toNat lines :=
  expandFrom_lines m 0 cap.toNat lines

theorem afterPasses_of_expandLines (h : expandLines m lines cap = .ok e) :
    afterPasses m cap.toNat lines = .ok e.lines := by
  rw [← expandLines_lines, h]
  rfl

theorem expandLines_of_afterPasses (h : afterPasses m cap.toNat lines = .ok next) :
    ∃ ran, expandLines m lines cap = .ok ⟨next, ran⟩ := by
  rw [← expandLines_lines] at h
  cases he : expandLines m lines cap with
  | error i => simp [he, Except.map] at h
  | ok e =>
    simp only [he, Except.map, Except.ok.injEq] at h
    exact ⟨e.passes, by rw [← h]⟩

theorem expandLines_passes_le_iff (h : expandLines m lines cap = .ok e) (passes : Nat) :
    e.passes ≤ passes ↔ cap.toNat ≤ passes ∨ SettledAfter m lines passes := by
  have hpasses := expandFrom_passes_le_iff h passes
  rwa [Nat.zero_add] at hpasses

theorem expandLines_dirty_iff (h : expandLines m lines cap = .ok e) :
    (∃ line ∈ e.lines, line.dirty = true) ↔
      ∀ passes, SettledAfter m lines passes → cap.toNat < passes := by
  have hlines := afterPasses_of_expandLines h
  constructor
  · rintro ⟨line, hline, hdirty⟩ passes hsettled
    by_contra hle
    obtain ⟨next, hnext, hclean⟩ := hsettled.mono (Nat.le_of_not_lt hle)
    cases hlines.symm.trans hnext
    simp [hclean line hline] at hdirty
  · intro hmore
    by_contra hnone
    have hclean : ∀ line ∈ e.lines, line.dirty = false := by simpa using hnone
    exact Nat.lt_irrefl _ (hmore cap.toNat ⟨e.lines, hlines, hclean⟩)

theorem expandLines_passes_of_least (h : expandLines m lines cap = .ok e) {least : Nat}
    (hleast : IsLeast {passes | SettledAfter m lines passes} least) :
    e.passes = min cap.toNat least := by
  refine eq_of_forall_ge_iff fun passes => ?_
  rw [expandLines_passes_le_iff h, min_le_iff]
  refine or_congr_right ⟨fun hsettled => hleast.2 hsettled, fun hle => ?_⟩
  exact SettledAfter.mono hleast.1 hle

theorem expandLines_passes_of_unsettled (h : expandLines m lines cap = .ok e)
    (hnever : ∀ passes, ¬ SettledAfter m lines passes) : e.passes = cap.toNat :=
  eq_of_forall_ge_iff fun passes => by simp [expandLines_passes_le_iff h, hnever passes]

theorem expandLines_eq_error_iff :
    expandLines m lines cap = .error i ↔
      ∃ passes : Nat, (passes : Int) < cap ∧ ∃ before,
        afterPasses m passes lines = .ok before ∧ expandPass m before = .error i := by
  have herror : expandLines m lines cap = .error i ↔
      afterPasses m cap.toNat lines = .error i := by
    rw [← expandLines_lines]
    cases expandLines m lines cap <;> simp [Except.map]
  rw [herror, afterPasses_eq_error_iff]
  simp only [Int.lt_toNat]

theorem Context.exists_expand_eq_ok {c : Context} (h : (c.expand cap).2.isOk = true) :
    ∃ next passes, c.expand cap = (next, .ok passes) := by
  cases hresult : (c.expand cap).2 with
  | error e => simp [hresult, Except.isOk, Except.toBool] at h
  | ok passes => exact ⟨_, passes, Prod.ext rfl hresult⟩

end Expansion
end CommandFile
