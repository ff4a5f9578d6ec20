import CommandFile.Proofs.Expansion.Passes
set_option autoImplicit false

namespace CommandFile
variable {m : Macros} {lines : List PendingLine}

theorem expandFrom_add (m : Macros) (passes first second : Nat) (lines : List PendingLine) :
    expandFrom m passes lines (dirtyCount lines) (first + second) =
      match expandFrom m passes lines (dirtyCount lines) first with
      | .ok e => expandFrom m e.passes e.lines (dirtyCount e.lines) second
      | .error i => .error i := by
  induction first generalizing passes lines with
  | zero => rw [Nat.zero_add, expandFrom]
  | succ first ih =>
    rw [Nat.succ_add, expandFrom_succ, expandFrom_succ]
    split
    · rename_i hclean
      exact (expandFrom_of_clean m passes second hclean).symm
    · cases expandPass m lines with
      | error i => rfl
      | ok next => exact ih (passes + 1) next

theorem expandFrom_passes_add (m : Macros) (before passes left : Nat) (lines : List PendingLine) :
    expandFrom m (before + passes) lines (dirtyCount lines) left =
      (expandFrom m passes lines (dirtyCount lines) left).map fun e =>
        ⟨e.lines, before + e.passes⟩ := by
  induction left generalizing passes lines with
  | zero => rfl
  | succ left ih =>
    rw [expandFrom_succ, expandFrom_succ]
    split
    · rfl
    · cases expandPass m lines with
      | error i => rfl
      | ok next => exact ih (passes + 1) next

theorem expandLines_add (m : Macros) (lines : List PendingLine) (first second : Nat) :
    expandLines m lines (first + second) =
      match expandLines m lines first with
      | .ok e => (expandLines m e.lines second).map fun later =>
          ⟨later.lines, e.passes + later.passes⟩
      | .error i => .error i := by
  refine (expandFrom_add m 0 first second lines).trans ?_
  change _ = match expandFrom m 0 lines (dirtyCount lines) first with
    | .ok e => _
    | .error i => _
  cases expandFrom m 0 lines (dirtyCount lines) first with
  | error i => rfl
  | ok e => exact expandFrom_passes_add m e.passes 0 second e.lines

theorem expandLines_toNat (m : Macros) (lines : List PendingLine) (cap : Int) :
    expandLines m lines cap.toNat = expandLines m lines cap := rfl

/-- More passes than were needed are not run. -/
theorem expandLines_of_settled {cap more : Int} {e : Expanded}
    (h : expandLines m lines cap = .ok e) (hclean : ∀ line ∈ e.lines, line.dirty = false)
    (hle : cap ≤ more) : expandLines m lines more = .ok e := by
  obtain ⟨extra, hextra⟩ : ∃ extra, more.toNat = cap.toNat + extra :=
    ⟨more.toNat - cap.toNat, by omega⟩
  rw [← expandLines_toNat, hextra, Int.natCast_add, expandLines_add, expandLines_toNat, h]
  simp only [expandLines_of_clean m extra hclean, Except.map, Nat.add_zero]

theorem dirty_of_expandLines_error {cap : Int} {i : Interrupted}
    (h : expandLines m lines cap = .error i) : ∃ line ∈ i.lines, line.dirty = true := by
  obtain ⟨passes, -, before, -, hpass⟩ := expandLines_eq_error_iff.mp h
  obtain ⟨_, line, after, done, -, -, he, hleft⟩ := expandPass_eq_error_iff.mp hpass
  exact ⟨line, by simp [hleft], dirty_of_expandPending_error he⟩

namespace Context

def expandTwice (c : Context) (first second : Int) : Context × Except UnresolvedMacro Nat :=
  match c.expand first with
  | (next, .ok passes) => ((next.expand second).1, (next.expand second).2.map (passes + ·))
  | (stopped, .error e) => (stopped, .error e)

theorem expandTwice_eq (c : Context) (first second : Nat) :
    c.expandTwice first second = c.expand (first + second) := by
  rw [expandTwice, expand, expand, expandLines_add]
  cases expandLines c.macros c.lines first with
  | error i => rfl
  | ok e =>
    simp only [expand]
    cases expandLines c.macros e.lines second <;> rfl

theorem expandTwice_eq_error_iff {c stopped : Context} {first second : Int} {e : UnresolvedMacro} :
    c.expandTwice first second = (stopped, .error e) ↔
      c.expand first = (stopped, .error e) ∨
        ∃ next passes, c.expand first = (next, .ok passes) ∧
          next.expand second = (stopped, .error e) := by
  rw [expandTwice]
  obtain ⟨next, result⟩ := c.expand first
  cases result with
  | error i => simp
  | ok passes =>
    have hsecond : (next.expand second).2.map (passes + ·) = .error e ↔
        (next.expand second).2 = .error e := by
      cases (next.expand second).2 <;> simp [Except.map]
    simp [Prod.ext_iff, hsecond]

theorem expand_of_settled {c : Context} {cap : Int}
    (hclean : ∀ line ∈ (c.expand cap).1.lines, line.dirty = false) :
    ∃ e, expandLines c.macros c.lines cap = .ok e ∧ ∀ line ∈ e.lines, line.dirty = false := by
  rw [expand] at hclean
  cases he : expandLines c.macros c.lines cap with
  | ok e =>
    rw [he] at hclean
    exact ⟨e, rfl, hclean⟩
  | error i =>
    rw [he] at hclean
    obtain ⟨line, hline, hdirty⟩ := dirty_of_expandLines_error he
    simp [hclean line hline] at hdirty

/-- Two expansions in a row are one with the sum of their caps: they come to the same context, their
passes add up, and one of them is interrupted just as the single one is. So when a cap leaves no
line dirty, no larger one changes anything, and neither does another expansion. -/
theorem expand_resumed (c : Context) :
    (∀ first second : Nat, c.expandTwice first second = c.expand (first + second)) ∧
    (∀ (first second : Nat) (stopped : Context) (e : UnresolvedMacro),
      c.expand (first + second) = (stopped, .error e) ↔
        c.expand first = (stopped, .error e) ∨
          ∃ next passes, c.expand first = (next, .ok passes) ∧
            next.expand second = (stopped, .error e)) ∧
    ∀ cap : Int, (∀ line ∈ (c.expand cap).1.lines, line.dirty = false) →
      ∃ next passes, c.expand cap = (next, .ok passes) ∧
        (∀ more, cap ≤ more → c.expand more = (next, .ok passes)) ∧
        ∀ again, next.expand again = (next, .ok 0) := by
  refine ⟨c.expandTwice_eq, fun first second stopped e => ?_, fun cap hclean => ?_⟩
  · rw [← expandTwice_eq]
    exact expandTwice_eq_error_iff
  · obtain ⟨e, he, hclean⟩ := expand_of_settled hclean
    refine ⟨{ c with lines := e.lines }, e.passes, expand_of_ok he, fun more hle => ?_,
      fun again => ?_⟩
    · exact expand_of_ok (expandLines_of_settled he hclean hle)
    · exact expand_of_ok (c := { c with lines := e.lines }) (expandLines_of_clean _ again hclean)

end Context

def halfwayContext : Context where
  macros := ⟨⟨[("A", ["a", "B()"])]⟩, ⟨[("L", [["x"], ["y"]])]⟩⟩
  lines := [⟨["L()"], true⟩, ⟨["A()"], true⟩]

def stoppedContext : Context where
  macros := halfwayContext.macros
  lines := [⟨["x"], false⟩, ⟨["y"], false⟩, ⟨["a", "B()"], true⟩]

theorem expand_halfwayContext_resumed :
    halfwayContext.expandTwice 1 1 = (stoppedContext, .error ⟨"B"⟩) ∧
    (∃ next passes, halfwayContext.expand 1 = (next, .ok passes) ∧
      next.expand 1 = (stoppedContext, .error ⟨"B"⟩)) ∧
    ∃ next passes, Context.expand ⟨halfwayContext.macros, [⟨["L()"], true⟩]⟩ 2 =
        (next, .ok passes) ∧
      next.lines = [⟨["x"], false⟩, ⟨["y"], false⟩] ∧
      ∀ again, next.expand again = (next, .ok 0) := by
  have hsingle : halfwayContext.expand (1 + 1) = (stoppedContext, .error ⟨"B"⟩) := by
    decide +kernel
  have hfirst : (halfwayContext.expand 1).2 = .ok 1 := by decide +kernel
  have hlines : (Context.expand ⟨halfwayContext.macros, [⟨["L()"], true⟩]⟩ 2).1.lines =
      [⟨["x"], false⟩, ⟨["y"], false⟩] := by decide +kernel
  obtain ⟨htwice, hstopped, -⟩ := Context.expand_resumed halfwayContext
  obtain ⟨-, -, hsettled⟩ := Context.expand_resumed ⟨halfwayContext.macros, [⟨["L()"], true⟩]⟩
  obtain ⟨next, passes, he, -, hagain⟩ := hsettled 2 (by rw [hlines]; decide)
  refine ⟨(htwice 1 1).trans hsingle, ?_, next, passes, he, ?_, hagain⟩
  · obtain hearly | hlate := (hstopped 1 1 _ _).mp hsingle
    · have hinterrupted := hfirst.symm.trans (congrArg Prod.snd hearly)
      cases hinterrupted
    · exact hlate
  · rw [he] at hlines
    exact hlines

end CommandFile
