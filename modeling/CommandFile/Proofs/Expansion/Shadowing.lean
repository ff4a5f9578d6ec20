import CommandFile.Proofs.Expansion.Pass
set_option autoImplicit false

/-!
Short macros before long ones of the same name. A call that stands in a line when a pass begins is
that of the short macro, because short calls are replaced before the first call is fanned out. But a
replacement can bring in a call in the same pass, and if it comes to be the first one, the long
macro gets it before the short macro has its turn. Main statements: apart from this, long macros
with a short one of the same name might as well not be there, and the tables tell when it cannot
happen.
-/
namespace CommandFile

namespace Macros
variable {m : Macros} {tokens : List String} {call : FirstCall}

def unshadowed (m : Macros) : Macros :=
  { m with long := ⟨m.long.entries.filter fun e => (m.short.find? e.1).isNone⟩ }

@[simp] theorem short_unshadowed (m : Macros) : m.unshadowed.short = m.short := rfl

theorem find?_unshadowed_of_short {name : String} (h : (m.short.find? name).isSome = true) :
    m.unshadowed.long.find? name = none := by
  rw [unshadowed, Table.find?, List.lookup_eq_none_iff]
  intro entry hentry
  have hnot := (List.mem_filter.mp hentry).2
  rw [bne_iff_ne]
  rintro rfl
  simp only [Option.isNone_iff_eq_none] at hnot
  simp [hnot] at h

theorem find?_unshadowed_of_not_short {name : String} (h : m.short.find? name = none) :
    m.unshadowed.long.find? name = m.long.find? name := by
  obtain ⟨short, ⟨entries⟩⟩ := m
  simp only [unshadowed, Table.find?] at h ⊢
  induction entries with
  | nil => rfl
  | cons entry rest ih =>
    obtain ⟨key, body⟩ := entry
    by_cases hkey : name = key
    · subst hkey
      simp [h]
    · have hother : (name == key) = false := by simpa using hkey
      cases hs : short.entries.lookup key <;> simp [hs, List.lookup_cons, hother, ih]

/-- The first call among the tokens has a definition in both tables. A long one that only repeats
the call is left out, because it changes nothing. -/
def Ambiguous (m : Macros) (tokens : List String) : Prop :=
  ∃ call ∈ firstCall tokens, (m.short.find? call.name).isSome = true ∧
    ∃ body ∈ m.long.find? call.name, body ≠ [[Call.token call.name]]

instance (m : Macros) (tokens : List String) : Decidable (m.Ambiguous tokens) :=
  inferInstanceAs (Decidable (∃ call ∈ firstCall tokens, (m.short.find? call.name).isSome = true ∧
    ∃ body ∈ m.long.find? call.name, body ≠ [[Call.token call.name]]))

/-- When the short calls of the line have been replaced, a short macro is to wait for the next pass,
but the long one of the same name does not. -/
def Overtaken (m : Macros) (tokens : List String) : Prop :=
  m.Ambiguous (substitute m.short tokens).1

instance (m : Macros) (tokens : List String) : Decidable (m.Overtaken tokens) :=
  inferInstanceAs (Decidable (m.Ambiguous (substitute m.short tokens).1))

/-- A first call of a short macro, in a line where short calls have been replaced, is also the first
one of some replacement. -/
theorem firstCall_of_substitute (hc : firstCall (substitute m.short tokens).1 = some call)
    (hs : (m.short.find? call.name).isSome = true) :
    ∃ token ∈ tokens, ∃ replacement inner, m.short.called? token = some replacement ∧
      firstCall replacement = some inner ∧ inner.name = call.name := by
  induction tokens generalizing call with
  | nil => simp [substitute_eq] at hc
  | cons token rest ih =>
    rw [substitute_cons, firstCall_append] at hc
    cases hfirst : firstCall (m.short.replace token) with
    | none =>
      simp only [hfirst, Option.map_none, Option.none_or, Option.map_eq_some_iff] at hc
      obtain ⟨inner, hinner, rfl⟩ := hc
      obtain ⟨other, hother, hreplacement⟩ := ih hinner hs
      exact ⟨other, List.mem_cons_of_mem token hother, hreplacement⟩
    | some inner =>
      simp only [hfirst, Option.map_some, Option.some_or, Option.some.injEq] at hc
      subst hc
      cases hcalled : m.short.called? token with
      | some replacement =>
        rw [Table.replace_of_called hcalled] at hfirst
        exact ⟨token, by simp, replacement, inner, hcalled, hfirst, rfl⟩
      | none =>
        -- A token that is not replaced is no short call, so that it is not the first call either.
        rw [Table.replace_of_not_called hcalled] at hfirst
        cases hn : Call.name? token with
        | none => simp [firstCall_cons_of_not_call hn] at hfirst
        | some name =>
          rw [firstCall_cons_of_call hn] at hfirst
          cases hfirst
          rw [m.short.called?_of_name hn] at hcalled
          simp [FirstCall.within, hcalled] at hs

theorem not_ambiguous_of_entries (h : ∀ entry ∈ m.short.entries, ¬ m.Ambiguous entry.2)
    {token : String} {replacement : List String}
    (hcalled : m.short.called? token = some replacement) : ¬ m.Ambiguous replacement := by
  obtain ⟨name, -, hfound⟩ := Option.bind_eq_some_iff.mp hcalled
  exact h _ (Table.mem_entries_of_find? hfound)

theorem not_overtaken_of_replacements
    (h : ∀ token replacement, m.short.called? token = some replacement →
      ¬ m.Ambiguous replacement) (tokens : List String) : ¬ m.Overtaken tokens := by
  rintro ⟨call, hc, hs, hbody⟩
  obtain ⟨token, -, replacement, inner, hcalled, hinner, hname⟩ := firstCall_of_substitute hc hs
  exact h token replacement hcalled ⟨inner, hinner, hname ▸ hs, hname ▸ hbody⟩

/-- The first call of a line that has been looked through for short calls is that of a short macro
only if there has been one. -/
theorem changed_of_firstCall (hc : firstCall (substitute m.short tokens).1 = some call)
    (hs : (m.short.find? call.name).isSome = true) : (substitute m.short tokens).2 = true := by
  obtain ⟨token, htoken, replacement, -, hcalled, -⟩ := firstCall_of_substitute hc hs
  rw [substitute_eq]
  exact List.any_eq_true.mpr ⟨token, htoken, by simp [hcalled]⟩

theorem fannedOut_eq_self_iff {body : List (List String)} (hc : firstCall tokens = some call) :
    body.map (fun line => (⟨call.before ++ line ++ call.after, true⟩ : PendingLine)) =
      [⟨tokens, true⟩] ↔ body = [[Call.token call.name]] := by
  obtain ⟨token, rfl, hn, -⟩ := firstCall_eq_some hc
  rw [Call.token_of_name? hn, List.map_eq_singleton_iff]
  constructor
  · rintro ⟨line, rfl, hline⟩
    simp only [PendingLine.mk.injEq, and_true] at hline
    rw [List.append_cons, List.append_left_inj, List.append_right_inj] at hline
    rw [hline]
  · rintro rfl
    exact ⟨_, rfl, by simp⟩

theorem expandLine_unshadowed_iff (m : Macros) (tokens : List String) :
    expandLine m.unshadowed tokens = expandLine m tokens ↔ ¬ m.Overtaken tokens := by
  cases hsub : substitute m.short tokens with
  | mk substituted changed =>
    have hfirst : (substitute m.short tokens).1 = substituted := by rw [hsub]
    have hchanged : (substitute m.short tokens).2 = changed := by rw [hsub]
    cases hc : firstCall substituted with
    | none => simp [expandLine, hsub, fanOut, hc, Overtaken, Ambiguous]
    | some call =>
      cases hs : m.short.find? call.name with
      | none =>
        simp [expandLine, hsub, fanOut, hc, find?_unshadowed_of_not_short hs, Overtaken, Ambiguous,
          hs]
      | some replacement =>
        have hshort : (m.short.find? call.name).isSome = true := by rw [hs]; rfl
        have htrue : changed = true := by
          rw [← hchanged]
          exact changed_of_firstCall (hfirst ▸ hc) hshort
        subst htrue
        cases hl : m.long.find? call.name with
        | none =>
          simp [expandLine, hsub, fanOut, hc, find?_unshadowed_of_short hshort, Overtaken,
            Ambiguous, hl]
        | some body =>
          have hover : m.Overtaken tokens ↔ body ≠ [[Call.token call.name]] := by
            simp [Overtaken, Ambiguous, hfirst, hc, hs, hl]
          have hwaits : expandLine m.unshadowed tokens = .ok [⟨substituted, true⟩] := by
            simp [expandLine, hsub, fanOut, hc, find?_unshadowed_of_short hshort]
          have hfanned : expandLine m tokens =
              .ok (body.map fun line => ⟨call.before ++ line ++ call.after, true⟩) := by
            simp [expandLine, hsub, fanOut, hc, hl, Function.comp_def]
          rw [hwaits, hfanned, hover, not_not, ← fannedOut_eq_self_iff hc, Except.ok.injEq,
            eq_comm]

end Macros

def Met (m : Macros) (lines : List PendingLine) (line : PendingLine) : Prop :=
  ∃ before after next, lines = before ++ line :: after ∧ expandPass m before = .ok next

theorem Met.mem {m : Macros} {lines : List PendingLine} {line : PendingLine}
    (h : Met m lines line) : line ∈ lines := by
  obtain ⟨before, after, -, rfl, -⟩ := h
  simp

section Runs
variable {m : Macros} {lines : List PendingLine}

theorem expandPass_unshadowed
    (h : ∀ line, Met m lines line → line.dirty = true → ¬ m.Overtaken line.tokens) :
    expandPass m.unshadowed lines = expandPass m lines := by
  induction lines with
  | nil => rfl
  | cons line rest ih =>
    have hline : expandPending m.unshadowed line = expandPending m line := by
      cases hd : line.dirty with
      | false => rw [expandPending_of_clean _ hd, expandPending_of_clean _ hd]
      | true =>
        rw [expandPending_of_dirty _ hd, expandPending_of_dirty _ hd,
          Macros.expandLine_unshadowed_iff]
        exact h line ⟨[], rest, [], rfl, rfl⟩ hd
    rw [expandPass, expandPass, hline]
    cases he : expandPending m line with
    | error e => rfl
    | ok lines =>
      have hrest : ∀ other, Met m rest other → Met m (line :: rest) other := by
        rintro other ⟨before, after, next, rfl, hbefore⟩
        exact ⟨line :: before, after, _, rfl, expandPass_cons_of_ok he hbefore⟩
      rw [ih fun other hmet => h other (hrest other hmet)]

theorem expandFrom_unshadowed {passes left : Nat}
    (h : ∀ fewer < left, ∀ e, expandFrom m passes lines (dirtyCount lines) fewer = .ok e →
      ∀ line, Met m e.lines line → line.dirty = true → ¬ m.Overtaken line.tokens) :
    expandFrom m.unshadowed passes lines (dirtyCount lines) left =
      expandFrom m passes lines (dirtyCount lines) left := by
  induction left generalizing passes lines with
  | zero => rfl
  | succ left ih =>
    rw [expandFrom_succ, expandFrom_succ, expandPass_unshadowed (h 0 (Nat.succ_pos left) _ rfl)]
    split
    · rfl
    · rename_i hdirty
      cases hp : expandPass m lines with
      | error i => rfl
      | ok next =>
        refine ih fun fewer hfewer e he => h (fewer + 1) (Nat.succ_lt_succ hfewer) e ?_
        rw [expandFrom_succ, if_neg hdirty, hp]
        exact he

theorem expandLines_once (m : Macros) (tokens : List String) :
    expandLines m [⟨tokens, true⟩] 1 =
      match expandLine m tokens with
      | .ok lines => .ok ⟨lines, 1⟩
      | .error e => .error ⟨e, [⟨tokens, true⟩]⟩ := by
  change expandFrom m 0 _ _ 1 = _
  rw [expandFrom_succ]
  cases he : expandLine m tokens <;> simp [expandPass, expandPending, he, expandFrom]

theorem expandLine_of_expandLines {other : Macros} {tokens : List String}
    (h : expandLines other [⟨tokens, true⟩] 1 = expandLines m [⟨tokens, true⟩] 1) :
    expandLine other tokens = expandLine m tokens := by
  rw [expandLines_once, expandLines_once] at h
  cases ho : expandLine other tokens <;> cases hm : expandLine m tokens <;> simp_all

end Runs

/-- Shadowed long macros are not seen in an expansion that no pass of which meets a line where one
of them overtakes its short macro. They are never seen, whatever the lines are, just if no
replacement begins its calls with one that has two definitions. -/
theorem expandLines_unshadowed (m : Macros) :
    (∀ lines (cap : Int),
      (∀ fewer : Nat, (fewer : Int) < cap → ∀ e, expandLines m lines fewer = .ok e →
        ∀ line, Met m e.lines line → line.dirty = true → ¬ m.Overtaken line.tokens) →
      expandLines m.unshadowed lines cap = expandLines m lines cap) ∧
    ((∀ lines cap, expandLines m.unshadowed lines cap = expandLines m lines cap) ↔
      ∀ token replacement, m.short.called? token = some replacement →
        ¬ m.Ambiguous replacement) := by
  have hrun : ∀ lines (cap : Int),
      (∀ fewer : Nat, (fewer : Int) < cap → ∀ e, expandLines m lines fewer = .ok e →
        ∀ line, Met m e.lines line → line.dirty = true → ¬ m.Overtaken line.tokens) →
      expandLines m.unshadowed lines cap = expandLines m lines cap := fun lines cap h =>
    expandFrom_unshadowed fun fewer hfewer => h fewer (by omega)
  refine ⟨hrun, fun h token replacement hcalled hambiguous => ?_, fun h lines cap => ?_⟩
  · have hsame := expandLine_of_expandLines (h [⟨[token], true⟩] 1)
    rw [Macros.expandLine_unshadowed_iff, Macros.Overtaken, substitute_cons,
      Table.replace_of_called hcalled] at hsame
    exact hsame (by simpa [substitute_eq] using hambiguous)
  · exact hrun lines cap fun _ _ _ _ line _ _ => m.not_overtaken_of_replacements h line.tokens

def overtakenMacros : Macros := ⟨⟨[("A", ["B()"]), ("B", ["x"])]⟩, ⟨[("B", [["y"]])]⟩⟩

def twofoldMacros : Macros :=
  ⟨⟨[("A", ["x"]), ("B", ["y", "C()"]), ("C", ["z"])]⟩,
    ⟨[("A", [["1"], ["2"]]), ("B", []), ("L", [["B()", "A()"], ["A()"]])]⟩⟩

theorem expandLines_twofoldMacros :
    expandLines twofoldMacros.unshadowed [⟨["L()", "B()"], true⟩, ⟨["A()"], true⟩] 10 =
      .ok ⟨[⟨["y", "z", "x", "y", "z"], false⟩, ⟨["x", "y", "z"], false⟩, ⟨["x"], false⟩], 4⟩ ∧
    expandLines overtakenMacros.unshadowed [⟨["B()"], true⟩] 2 = .ok ⟨[⟨["x"], false⟩], 2⟩ := by
  constructor
  · have hreplacements : ∀ entry ∈ twofoldMacros.short.entries,
        ¬ twofoldMacros.Ambiguous entry.2 := by decide +kernel
    rw [(expandLines_unshadowed twofoldMacros).2.mpr fun token replacement hcalled =>
      Macros.not_ambiguous_of_entries hreplacements hcalled]
    decide +kernel
  · have hmet : ∀ fewer : Nat, (fewer : Int) < 2 → ∀ e,
        expandLines overtakenMacros [⟨["B()"], true⟩] fewer = .ok e →
        ∀ line, Met overtakenMacros e.lines line → line.dirty = true →
          ¬ overtakenMacros.Overtaken line.tokens := by
      intro fewer hfewer e he line hline hdirty
      have hbefore : expandLines overtakenMacros [⟨["B()"], true⟩] 0 =
          .ok ⟨[⟨["B()"], true⟩], 0⟩ := by decide +kernel
      have hafter : expandLines overtakenMacros [⟨["B()"], true⟩] 1 =
          .ok ⟨[⟨["x"], true⟩], 1⟩ := by decide +kernel
      obtain rfl | rfl : fewer = 0 ∨ fewer = 1 := by omega
      · cases hbefore.symm.trans he
        cases List.mem_singleton.mp hline.mem
        decide +kernel
      · cases hafter.symm.trans he
        cases List.mem_singleton.mp hline.mem
        decide +kernel
    rw [(expandLines_unshadowed overtakenMacros).1 _ 2 hmet]
    decide +kernel

/-- The long macro is expanded, although its name is also that of a short one. -/
theorem expandLines_overtakenMacros :
    expandLines overtakenMacros [⟨["A()"], true⟩] 10 = .ok ⟨[⟨["y"], false⟩], 2⟩ ∧
    expandLines overtakenMacros.unshadowed [⟨["A()"], true⟩] 10 = .ok ⟨[⟨["x"], false⟩], 3⟩ ∧
    ¬ ∀ (m : Macros) lines cap, expandLines m.unshadowed lines cap = expandLines m lines cap := by
  have hovertaken : expandLines overtakenMacros [⟨["A()"], true⟩] 10 =
      .ok ⟨[⟨["y"], false⟩], 2⟩ := by decide +kernel
  have hwaiting : expandLines overtakenMacros.unshadowed [⟨["A()"], true⟩] 10 =
      .ok ⟨[⟨["x"], false⟩], 3⟩ := by decide +kernel
  refine ⟨hovertaken, hwaiting, fun h => ?_⟩
  rw [h, hovertaken] at hwaiting
  exact absurd hwaiting (by decide)

end CommandFile
