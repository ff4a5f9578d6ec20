import CommandFile.Proofs.Expansion.Passes
set_option autoImplicit false

/-!
Unresolved macros. An expansion is interrupted at a line whose first call is that of no macro, and
in which no short call is left to replace. It is half-way through a pass by then, and leaves the
lines half done. If every call has a definition, there is no such line in any pass.
-/
namespace CommandFile
variable {m : Macros} {lines next : List PendingLine} {line : PendingLine} {name : String}

structure StuckAt (m : Macros) (line : PendingLine) (name : String) : Prop where
  dirty : line.dirty = true
  shortFree : ∀ token ∈ line.tokens, m.short.called? token = none
  isCall : Call.name? (Call.token name) = some name
  leftmost : ∃ before after, line.tokens = before ++ Call.token name :: after ∧ CallFree before
  notShort : m.short.find? name = none
  notLong : m.long.find? name = none

theorem StuckAt.exists_firstCall (h : StuckAt m line name) :
    ∃ call, firstCall line.tokens = some call ∧ call.name = name := by
  obtain ⟨before, after, htokens, hfree⟩ := h.leftmost
  rw [htokens, firstCall_append_call (firstCall_eq_none_iff.mpr hfree) h.isCall]
  exact ⟨_, rfl, rfl⟩

/-- The first call is held to be undefined if there is no long macro of that name. But this is only
looked into when no short call has been replaced, so that there is no short one either. -/
theorem expandPending_eq_error_iff {e : UnresolvedMacro} :
    expandPending m line = .error e ↔ StuckAt m line e.name := by
  constructor
  · intro h
    have hdirty := dirty_of_expandPending_error h
    rw [expandPending_of_dirty m hdirty] at h
    have ho := expandLine_outcome m line.tokens
    rw [h] at ho
    cases ho with
    | @unresolved call hc hcalled hlong =>
      obtain ⟨token, htokens, hn, hfree⟩ := firstCall_eq_some hc
      have htoken : Call.token call.name = token := Call.token_of_name? hn
      have hshort : m.short.find? call.name = none := by
        rw [← m.short.called?_of_name hn]
        exact hcalled token (by simp [htokens])
      exact {
        dirty := hdirty
        shortFree := hcalled
        isCall := by rwa [htoken]
        leftmost := ⟨call.before, call.after, by rwa [htoken], firstCall_eq_none_iff.mp hfree⟩
        notShort := hshort
        notLong := hlong }
  · intro h
    obtain ⟨call, hc, hname⟩ := h.exists_firstCall
    have hsub : substitute m.short line.tokens = (line.tokens, false) :=
      Prod.ext (substitute_of_not_called h.shortFree)
        (by simpa [substitute_eq] using h.shortFree)
    rw [expandPending_of_dirty m h.dirty]
    simp [expandLine, hsub, fanOut, hc, hname, h.notLong]

theorem expandLines_one_iff :
    (∃ ran, expandLines m lines 1 = .ok ⟨next, ran⟩) ↔ expandPass m lines = .ok next := by
  rw [← afterPasses_one]
  exact ⟨fun ⟨_, h⟩ => afterPasses_of_expandLines h, fun h => expandLines_of_afterPasses h⟩

theorem expandLines_of_dirty {passes : Nat} (h : afterPasses m passes lines = .ok next)
    (hline : line ∈ next) (hdirty : line.dirty = true) :
    expandLines m lines passes = .ok ⟨next, passes⟩ := by
  obtain ⟨ran, he⟩ := @expandLines_of_afterPasses m lines next passes h
  have hmore := (expandLines_dirty_iff he).mp ⟨line, hline, hdirty⟩
  have hran : ran = passes := by
    refine eq_of_forall_ge_iff fun fewer => ?_
    rw [expandLines_passes_le_iff he]
    exact or_iff_left_of_imp fun hsettled => Nat.le_of_lt (hmore fewer hsettled)
  rw [he, hran]

theorem Context.expand_eq_error_iff {c stopped : Context} {cap : Int} {e : UnresolvedMacro} :
    c.expand cap = (stopped, .error e) ↔
      ∃ left, expandLines c.macros c.lines cap = .error ⟨e, left⟩ ∧
        stopped = { c with lines := left } := by
  rw [expand]
  cases expandLines c.macros c.lines cap with
  | ok done => simp
  | error i =>
    obtain ⟨error, left⟩ := i
    simp only [Prod.mk.injEq, Except.error.injEq, Interrupted.mk.injEq]
    constructor
    · rintro ⟨rfl, rfl⟩
      exact ⟨left, ⟨rfl, rfl⟩, rfl⟩
    · rintro ⟨_, ⟨rfl, rfl⟩, rfl⟩
      exact ⟨rfl, rfl⟩

/-- The macro that stops an expansion is called, and is in neither table. -/
theorem Context.expand_error {c stopped : Context} {cap : Int} {e : UnresolvedMacro}
    (h : c.expand cap = (stopped, .error e)) :
    ∃ token, Call.name? token = some e.name ∧
      c.macros.short.find? e.name = none ∧ c.macros.long.find? e.name = none := by
  obtain ⟨left, herror, -⟩ := expand_eq_error_iff.mp h
  obtain ⟨_, -, lines, -, hpass⟩ := expandLines_eq_error_iff.mp herror
  obtain ⟨_, line, _, _, -, -, hstop, -⟩ := expandPass_eq_error_iff.mp hpass
  have hstuck := expandPending_eq_error_iff.mp hstop
  exact ⟨Call.token e.name, hstuck.isCall, hstuck.notShort, hstuck.notLong⟩

/-- An expansion is interrupted just if, after some full passes that its cap allows, another one
comes to a line that is stuck. The lines before have then been through that pass, the line itself
and those behind have not. It is never interrupted if every call in a definition and in a dirty line
is that of a macro, whether or not macros call themselves. -/
theorem expand_interrupted (c : Context) (cap : Int) :
    (∀ stopped e, c.expand cap = (stopped, .error e) ↔
      ∃ (passes : Nat) (before : List PendingLine) (line : PendingLine) (after : List PendingLine)
        (done : Expanded), (passes : Int) < cap ∧
        expandLines c.macros c.lines passes = .ok ⟨before ++ line :: after, passes⟩ ∧
        expandLines c.macros before 1 = .ok done ∧
        stopped = { c with lines := done.lines ++ line :: after } ∧
        StuckAt c.macros line e.name) ∧
    (c.macros.Closed → DirtyDefined c.macros c.lines →
      ∃ next passes, c.expand cap = (next, .ok passes)) := by
  refine ⟨fun stopped e => ?_, fun hclosed hdefined => ?_⟩
  · rw [Context.expand_eq_error_iff]
    constructor
    · rintro ⟨left, herror, rfl⟩
      obtain ⟨passes, hlt, lines, hlines, hpass⟩ := expandLines_eq_error_iff.mp herror
      obtain ⟨before, line, after, done, rfl, hdone, hstop, hleft⟩ :=
        expandPass_eq_error_iff.mp hpass
      obtain ⟨ran, hran⟩ := expandLines_one_iff.mpr hdone
      have hstuck := expandPending_eq_error_iff.mp hstop
      have hfull := expandLines_of_dirty hlines (by simp) hstuck.dirty
      simp only at hleft
      exact ⟨passes, before, line, after, ⟨done, ran⟩, hlt, hfull, hran, by rw [hleft], hstuck⟩
    · rintro ⟨passes, before, line, after, ⟨done, ran⟩, hlt, hfull, hdone, rfl, hstuck⟩
      have hpass : expandPass c.macros (before ++ line :: after) =
          .error ⟨e, done ++ line :: after⟩ :=
        expandPass_eq_error_iff.mpr ⟨before, line, after, done, rfl,
          expandLines_one_iff.mp ⟨ran, hdone⟩, expandPending_eq_error_iff.mpr hstuck, rfl⟩
      have hlines := afterPasses_of_expandLines hfull
      exact ⟨_, expandLines_eq_error_iff.mpr ⟨passes, hlt, _, hlines, hpass⟩, rfl⟩
  · obtain ⟨done, he⟩ :=
      expandFrom_succeeds (fun _ => expandPass_of_defines hclosed) 0 cap.toNat hdefined
    exact ⟨_, _, Context.expand_of_ok he⟩

def undefinedContext : Context where
  macros := ⟨⟨[("A", ["a", "B()"])]⟩, ⟨[("L", [["x"], ["y"]])]⟩⟩
  lines := [⟨["L()"], true⟩, ⟨["A()"], true⟩, ⟨["L()"], true⟩]

def cyclicContext : Context where
  macros := ⟨⟨[("C", ["C()"]), ("D", ["L()"])]⟩, ⟨[("L", [["C()"], ["D()", "x"]]), ("E", [])]⟩⟩
  lines := [⟨["L()", "E()"], true⟩, ⟨["U()"], false⟩, ⟨["C()"], true⟩]

theorem expand_undefinedContext_interrupted :
    undefinedContext.expand 5 =
      ({ undefinedContext with
          lines := [⟨["x"], false⟩, ⟨["y"], false⟩, ⟨["a", "B()"], true⟩, ⟨["x"], true⟩,
            ⟨["y"], true⟩] }, .error ⟨"B"⟩) ∧
    ∀ cap, ∃ next passes, cyclicContext.expand cap = (next, .ok passes) := by
  have hstuck : StuckAt undefinedContext.macros ⟨["a", "B()"], true⟩ "B" :=
    { dirty := rfl
      shortFree := by decide +kernel
      isCall := by decide +kernel
      leftmost := ⟨["a"], [], by decide +kernel, by decide +kernel⟩
      notShort := by decide +kernel
      notLong := by decide +kernel }
  have hclosed : cyclicContext.macros.Closed :=
    Macros.closed_of_entries (by decide +kernel) (by decide +kernel)
  have hdefined : DirtyDefined cyclicContext.macros cyclicContext.lines := by
    unfold DirtyDefined
    decide +kernel
  refine ⟨((expand_interrupted undefinedContext 5).1 _ _).mpr
    ⟨1, [⟨["x"], true⟩, ⟨["y"], true⟩], ⟨["a", "B()"], true⟩, [⟨["x"], true⟩, ⟨["y"], true⟩],
      ⟨[⟨["x"], false⟩, ⟨["y"], false⟩], 1⟩, by decide, by decide +kernel, by decide +kernel, rfl,
      hstuck⟩,
    fun cap => (expand_interrupted cyclicContext cap).2 hclosed hdefined⟩

end CommandFile
