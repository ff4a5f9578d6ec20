import CommandFile.Proofs.Expansion.LineSteps
set_option autoImplicit false

/-!
The leftmost strategy rewrites one call of one line at a time, always the first. Macros may be
cyclic and calls may be undefined, so it is run with a bound on the steps of each branch. The
passes, which replace short calls ahead of the first one too, come to the same lines.
-/
namespace CommandFile

inductive LeftmostStep where
  | finished
  | stuck
  | rewritten (lines : List (List String))

def leftmostStep (m : Macros) (tokens : List String) : LeftmostStep :=
  match firstCall tokens with
  | none => .finished
  | some call =>
    match m.definition? call.name with
    | none => .stuck
    | some body => .rewritten (body.map fun line => call.before ++ line ++ call.after)

def gather {α β : Type} (f : α → Option (List β)) : List α → Option (List β)
  | [] => some []
  | a :: rest => (f a).bind fun results => (gather f rest).map (results ++ ·)

/-- The results that the leftmost strategy comes to if no branch takes more than `steps` steps and
none gets stuck. -/
def leftmost (m : Macros) : Nat → List String → Option (List (List String))
  | 0, tokens =>
    match leftmostStep m tokens with
    | .finished => some [tokens]
    | _ => none
  | steps + 1, tokens =>
    match leftmostStep m tokens with
    | .finished => some [tokens]
    | .stuck => none
    | .rewritten lines => gather (leftmost m steps) lines

def leftmostLines (m : Macros) (steps : Nat) (lines : List PendingLine) :
    Option (List (List String)) :=
  gather (fun line => leftmost m steps line.tokens) lines

section Gather
variable {α β γ : Type}

@[simp] theorem gather_nil (f : α → Option (List β)) : gather f [] = some [] := rfl

theorem gather_cons_eq_some {f : α → Option (List β)} {a : α} {rest : List α}
    {results : List β} :
    gather f (a :: rest) = some results ↔
      ∃ first others, f a = some first ∧ gather f rest = some others ∧
        results = first ++ others := by
  simp only [gather, Option.bind_eq_some_iff, Option.map_eq_some_iff]
  constructor
  · rintro ⟨first, hf, others, ho, rfl⟩
    exact ⟨first, others, hf, ho, rfl⟩
  · rintro ⟨first, others, hf, ho, rfl⟩
    exact ⟨first, hf, others, ho, rfl⟩

theorem gather_singleton (f : α → Option (List β)) (a : α) : gather f [a] = f a := by
  cases h : f a <;> simp [gather, h]

theorem gather_append_eq_some {f : α → Option (List β)} {as bs : List α} {results : List β} :
    gather f (as ++ bs) = some results ↔
      ∃ first others, gather f as = some first ∧ gather f bs = some others ∧
        results = first ++ others := by
  induction as generalizing results with
  | nil => simp
  | cons a rest ih =>
    simp only [List.cons_append, gather_cons_eq_some, ih]
    constructor
    · rintro ⟨first, _, hf, ⟨second, others, hs, ho, rfl⟩, rfl⟩
      exact ⟨first ++ second, others, ⟨first, second, hf, hs, rfl⟩, ho, by simp⟩
    · rintro ⟨_, others, ⟨first, second, hf, hs, rfl⟩, ho, rfl⟩
      exact ⟨first, second ++ others, hf, ⟨second, others, hs, ho, rfl⟩, by simp⟩

theorem gather_map (f : β → Option (List γ)) (g : α → β) (as : List α) :
    gather f (as.map g) = gather (fun a => f (g a)) as := by
  induction as with
  | nil => rfl
  | cons a rest ih => simp [gather, ih]

theorem gather_imp {f g : α → Option (List β)} {as : List α} {results : List β}
    (h : ∀ a ∈ as, ∀ results, f a = some results → g a = some results)
    (hf : gather f as = some results) : gather g as = some results := by
  induction as generalizing results with
  | nil => exact hf
  | cons a rest ih =>
    obtain ⟨first, others, ha, hr, rfl⟩ := gather_cons_eq_some.mp hf
    exact gather_cons_eq_some.mpr ⟨first, others, h a (by simp) first ha,
      ih (fun b hb => h b (by simp [hb])) hr, rfl⟩

end Gather

theorem leftmostStep_of_definition {m : Macros} {tokens : List String} {call : FirstCall}
    {body : List (List String)} (hc : firstCall tokens = some call)
    (hd : m.definition? call.name = some body) :
    leftmostStep m tokens =
      .rewritten (body.map fun line => call.before ++ line ++ call.after) := by
  simp [leftmostStep, hc, hd]

theorem leftmost_of_callFree (m : Macros) (steps : Nat) {tokens : List String}
    (h : firstCall tokens = none) : leftmost m steps tokens = some [tokens] := by
  cases steps <;> simp [leftmost, leftmostStep, h]

theorem leftmost_succ_of_definition {m : Macros} (steps : Nat) {tokens : List String}
    {call : FirstCall} {body : List (List String)} (hc : firstCall tokens = some call)
    (hd : m.definition? call.name = some body) :
    leftmost m (steps + 1) tokens =
      gather (fun line => leftmost m steps (call.before ++ line ++ call.after)) body := by
  rw [leftmost, leftmostStep_of_definition hc hd]
  exact gather_map ..

theorem leftmost_eq_some {m : Macros} {steps : Nat} {tokens : List String}
    {results : List (List String)} (h : leftmost m steps tokens = some results) :
    (firstCall tokens = none ∧ results = [tokens]) ∨
    ∃ fewer call body, steps = fewer + 1 ∧ firstCall tokens = some call ∧
      m.definition? call.name = some body ∧
      gather (fun line => leftmost m fewer (call.before ++ line ++ call.after)) body =
        some results := by
  cases hc : firstCall tokens with
  | none =>
    rw [leftmost_of_callFree m steps hc] at h
    cases h
    exact .inl ⟨rfl, rfl⟩
  | some call =>
    cases hd : m.definition? call.name with
    | none => cases steps <;> simp [leftmost, leftmostStep, hc, hd] at h
    | some body =>
      cases steps with
      | zero => simp [leftmost, leftmostStep, hc, hd] at h
      | succ fewer =>
        rw [leftmost_succ_of_definition fewer hc hd] at h
        exact .inr ⟨fewer, call, body, rfl, rfl, hd, h⟩

theorem leftmost_succ {m : Macros} {steps : Nat} {tokens : List String}
    {results : List (List String)} (h : leftmost m steps tokens = some results) :
    leftmost m (steps + 1) tokens = some results := by
  induction steps generalizing tokens results with
  | zero =>
    obtain ⟨hc, rfl⟩ | ⟨fewer, call, body, hs, -⟩ := leftmost_eq_some h
    · exact leftmost_of_callFree m 1 hc
    · simp at hs
  | succ steps ih =>
    obtain ⟨hc, rfl⟩ | ⟨fewer, call, body, hs, hc, hd, hg⟩ := leftmost_eq_some h
    · exact leftmost_of_callFree m _ hc
    · cases hs
      rw [leftmost_succ_of_definition _ hc hd]
      exact gather_imp (fun line _ results hl => ih hl) hg

theorem leftmost_mono {m : Macros} {steps more : Nat} (hle : steps ≤ more) {tokens : List String}
    {results : List (List String)} (h : leftmost m steps tokens = some results) :
    leftmost m more tokens = some results := by
  induction hle with
  | refl => exact h
  | step _ ih => exact leftmost_succ ih

/-- Where the first call of a line stands when one of its short calls is replaced: it is either that
call, or stands before it and stays the first. -/
theorem ShortStep.firstCall {short : Table (List String)} {tokens next : List String}
    (h : ShortStep short tokens next) :
    (∃ before name after replacement, firstCall tokens = some ⟨before, name, after⟩ ∧
      short.find? name = some replacement ∧ next = before ++ replacement ++ after) ∨
    (∃ before name after others, firstCall tokens = some ⟨before, name, after⟩ ∧
      firstCall next = some ⟨before, name, others⟩ ∧ ∀ line,
        ShortStep short (before ++ line ++ after) (before ++ line ++ others)) := by
  obtain ⟨before, after, hr⟩ := h
  rename_i token replacement
  cases hb : CommandFile.firstCall before with
  | none =>
    obtain ⟨name, hn, hs⟩ := Option.bind_eq_some_iff.mp hr
    exact .inl ⟨before, name, after, replacement, firstCall_append_call hb hn after, hs, rfl⟩
  | some call =>
    refine .inr ⟨call.before, call.name, call.after ++ token :: after,
      call.after ++ (replacement ++ after), firstCall_append_of_some hb _, ?_, fun line => ?_⟩
    · rw [List.append_assoc]
      exact firstCall_append_of_some hb _
    · simpa using ShortStep.replace (call.before ++ line ++ call.after) after hr

/-- A short call may be replaced ahead of its turn, at no cost. -/
theorem leftmost_of_shortStep {m : Macros} {steps : Nat} {tokens next : List String}
    {results : List (List String)} (hstep : ShortStep m.short tokens next)
    (h : leftmost m steps tokens = some results) : leftmost m steps next = some results := by
  induction steps generalizing tokens next results with
  | zero =>
    obtain ⟨hnone, -⟩ | ⟨fewer, call, body, hs, -⟩ := leftmost_eq_some h
    · obtain ⟨_, _, _, _, hc, -⟩ | ⟨_, _, _, _, hc, -⟩ := hstep.firstCall <;> simp [hnone] at hc
    · simp at hs
  | succ steps ih =>
    obtain ⟨before, name, after, replacement, hc, hr, rfl⟩ |
      ⟨before, name, after, others, hc, hc', hline⟩ := hstep.firstCall
    · -- The replaced call was the first one anyway.
      rw [leftmost_succ_of_definition steps hc (Macros.definition?_of_short hr),
        gather_singleton] at h
      exact leftmost_succ h
    · -- The first call is rewritten alike in both lines, which still differ by one step behind it.
      obtain ⟨hnone, -⟩ | ⟨fewer, call, body, hs, hcall, hd, hg⟩ := leftmost_eq_some h
      · simp [hnone] at hc
      · cases hs
        cases hcall.symm.trans hc
        rw [leftmost_succ_of_definition steps hc' hd]
        exact gather_imp (fun line _ results hl => ih (hline line) hl) hg

/-- A short call that has been replaced ahead of its turn would have cost one step. -/
theorem leftmost_of_shortStep_back {m : Macros} {steps : Nat} {tokens next : List String}
    {results : List (List String)} (hstep : ShortStep m.short tokens next)
    (h : leftmost m steps next = some results) : leftmost m (steps + 1) tokens = some results := by
  induction steps generalizing tokens next results with
  | zero =>
    obtain ⟨before, name, after, replacement, hc, hr, rfl⟩ |
      ⟨before, name, after, others, hc, hc', hline⟩ := hstep.firstCall
    · rw [leftmost_succ_of_definition 0 hc (Macros.definition?_of_short hr), gather_singleton]
      exact h
    · obtain ⟨hnone, -⟩ | ⟨fewer, call, body, hs, -⟩ := leftmost_eq_some h
      · simp [hnone] at hc'
      · simp at hs
  | succ steps ih =>
    obtain ⟨before, name, after, replacement, hc, hr, rfl⟩ |
      ⟨before, name, after, others, hc, hc', hline⟩ := hstep.firstCall
    · rw [leftmost_succ_of_definition _ hc (Macros.definition?_of_short hr), gather_singleton]
      exact h
    · obtain ⟨hnone, -⟩ | ⟨fewer, call, body, hs, hcall, hd, hg⟩ := leftmost_eq_some h
      · simp [hnone] at hc'
      · cases hs
        cases hcall.symm.trans hc'
        rw [leftmost_succ_of_definition _ hc hd]
        exact gather_imp (fun line _ results hl => ih (hline line) hl) hg

theorem leftmost_of_shortSteps {m : Macros} {steps : Nat} {tokens next : List String}
    {results : List (List String)} (hsteps : Relation.ReflTransGen (ShortStep m.short) tokens next)
    (h : leftmost m steps tokens = some results) : leftmost m steps next = some results := by
  induction hsteps with
  | refl => exact h
  | tail _ hstep ih => exact leftmost_of_shortStep hstep ih

theorem leftmost_of_shortSteps_back {m : Macros} {steps : Nat} {tokens next : List String}
    {results : List (List String)} (hsteps : Relation.ReflTransGen (ShortStep m.short) tokens next)
    (h : leftmost m steps next = some results) :
    ∃ more, leftmost m more tokens = some results := by
  induction hsteps using Relation.ReflTransGen.head_induction_on with
  | refl => exact ⟨steps, h⟩
  | head hstep _ ih =>
    obtain ⟨more, hmore⟩ := ih
    exact ⟨more + 1, leftmost_of_shortStep_back hstep hmore⟩

/-- A pass takes one step at least off every branch that is not finished. -/
theorem expandLine_of_leftmost {m : Macros} (hm : m.Disjoint) {steps : Nat} {tokens : List String}
    {results : List (List String)} (h : leftmost m (steps + 1) tokens = some results) :
    ∃ lines, expandLine m tokens = .ok lines ∧
      leftmostLines m steps lines = some results := by
  obtain ⟨hc, rfl⟩ | ⟨fewer, call, body, hs, hc, hd, hg⟩ := leftmost_eq_some h
  · refine ⟨_, expandLine_of_callFree hc, ?_⟩
    rw [leftmostLines, gather_singleton]
    exact leftmost_of_callFree m steps hc
  · cases hs
    have ho := expandLine_outcome m tokens
    cases he : expandLine m tokens with
    | error e =>
      rw [he] at ho
      cases ho with
      | unresolved hc' hcalled hl =>
        -- A call that is unresolved for the pass is undefined for the leftmost strategy as well.
        cases hc'.symm.trans hc
        obtain ⟨token, ht, hn, -⟩ := firstCall_eq_some hc
        have hshort : m.short.find? call.name = none := by
          rw [← m.short.called?_of_name hn]
          exact hcalled token (by simp [ht])
        simp [Macros.definition?_of_not_short hshort, hl] at hd
    | ok lines =>
      refine ⟨lines, rfl, ?_⟩
      rw [he] at ho
      cases ho with
      | callFree hf => simp [firstCall_eq_none_iff.mpr hf] at hc
      | substituted hchanged hl =>
        rw [leftmostLines, gather_singleton]
        cases hshort : m.short.find? call.name with
        | none =>
          have hlong := hl _ (firstCall_substitute hc hshort)
          simp [Macros.definition?_of_not_short hshort, hlong] at hd
        | some replacement =>
          cases (Macros.definition?_of_short hshort).symm.trans hd
          rw [gather_singleton] at hg
          rw [substitute_firstCall hc hshort]
          exact leftmost_of_shortSteps (substitute_steps m.short _ call.after) hg
      | fannedOut hc' hl =>
        -- The call that fans out need not be the first of the line as it was, but is the first
        -- once all short calls have been replaced, and that has cost nothing.
        have hsub := leftmost_of_shortSteps (substitute_steps m.short [] tokens) h
        rw [List.nil_append,
          leftmost_succ_of_definition steps hc' (Macros.definition?_of_long hm hl)] at hsub
        rw [leftmostLines, gather_map]
        exact hsub

/-- What the leftmost strategy makes of the lines that take the place of one, it makes of that line
too. The macros may have become more since. -/
theorem leftmost_of_expandLine {m larger : Macros} (hm : larger.Disjoint)
    (hext : larger.Extends m) {steps : Nat} {tokens : List String} {lines : List PendingLine}
    {results : List (List String)} (he : expandLine m tokens = .ok lines)
    (h : leftmostLines larger steps lines = some results) :
    ∃ more, leftmost larger more tokens = some results := by
  have hsteps : Relation.ReflTransGen (ShortStep larger.short) tokens
      (substitute m.short tokens).1 :=
    Relation.ReflTransGen.mono (fun _ _ => hext.shortStep) _ _ (substitute_steps m.short [] tokens)
  have ho := expandLine_outcome m tokens
  rw [he] at ho
  cases ho with
  | callFree hf =>
    rw [leftmostLines, gather_singleton] at h
    exact ⟨steps, h⟩
  | substituted hchanged hl =>
    rw [leftmostLines, gather_singleton] at h
    exact leftmost_of_shortSteps_back hsteps h
  | fannedOut hc hl =>
    rw [leftmostLines, gather_map] at h
    have hsub := leftmost_succ_of_definition steps hc (Macros.definition?_of_long hm (hext.long hl))
    exact leftmost_of_shortSteps_back hsteps (hsub.trans h)

theorem leftmostLines_mono {m : Macros} {steps more : Nat} (hle : steps ≤ more)
    {lines : List PendingLine} {results : List (List String)}
    (h : leftmostLines m steps lines = some results) : leftmostLines m more lines = some results :=
  gather_imp (fun _ _ _ hl => leftmost_mono hle hl) h

theorem leftmostLines_of_callFree (m : Macros) (steps : Nat) {lines : List PendingLine}
    (h : ∀ line ∈ lines, CallFree line.tokens) :
    leftmostLines m steps lines = some (lines.map (·.tokens)) := by
  induction lines with
  | nil => rfl
  | cons line rest ih =>
    have hline := leftmost_of_callFree m steps (firstCall_eq_none_iff.mpr (h line (by simp)))
    exact gather_cons_eq_some.mpr
      ⟨_, _, hline, ih fun other ho => h other (by simp [ho]), by simp⟩

theorem callFree_of_leftmostLines_zero {m : Macros} {lines : List PendingLine}
    {results : List (List String)} (h : leftmostLines m 0 lines = some results) :
    ∀ line ∈ lines, CallFree line.tokens := by
  induction lines generalizing results with
  | nil => simp
  | cons line rest ih =>
    obtain ⟨first, others, hl, hr, rfl⟩ := gather_cons_eq_some.mp h
    obtain ⟨hc, -⟩ | ⟨fewer, call, body, hs, -⟩ := leftmost_eq_some hl
    · simpa using ⟨firstCall_eq_none_iff.mp hc, ih hr⟩
    · simp at hs

theorem expandPass_of_leftmost {m : Macros} (hm : m.Disjoint) {steps : Nat}
    {lines : List PendingLine} {results : List (List String)} (hclean : CleanCallFree lines)
    (h : leftmostLines m (steps + 1) lines = some results) :
    ∃ next, expandPass m lines = .ok next ∧ leftmostLines m steps next = some results := by
  induction lines generalizing results with
  | nil => exact ⟨[], rfl, h⟩
  | cons line rest ih =>
    obtain ⟨first, others, hl, hr, rfl⟩ := gather_cons_eq_some.mp h
    obtain ⟨hclean, hcleanRest⟩ := cleanCallFree_cons.mp hclean
    obtain ⟨next, hnext, hresults⟩ := ih hcleanRest hr
    have hline : ∃ lines, expandPending m line = .ok lines ∧
        leftmostLines m steps lines = some first := by
      cases hd : line.dirty with
      | true =>
        rw [expandPending_of_dirty m hd]
        exact expandLine_of_leftmost hm hl
      | false =>
        have hfree := firstCall_eq_none_iff.mpr (hclean hd)
        refine ⟨[line], expandPending_of_clean m hd, ?_⟩
        rw [leftmostLines, gather_singleton, leftmost_of_callFree m steps hfree]
        rwa [leftmost_of_callFree m _ hfree] at hl
    obtain ⟨lines, he, hlines⟩ := hline
    exact ⟨lines ++ next, expandPass_cons_of_ok he hnext,
      gather_append_eq_some.mpr ⟨first, others, hlines, hresults, rfl⟩⟩

theorem leftmost_of_lineStep {m larger : Macros} (hm : larger.Disjoint) (hext : larger.Extends m)
    {steps : Nat} {lines next : List PendingLine} {results : List (List String)}
    (hstep : LineStep m lines next) (h : leftmostLines larger steps next = some results) :
    ∃ more, leftmostLines larger more lines = some results := by
  obtain ⟨before, after, he⟩ := hstep
  obtain ⟨_, last, hfirst, hlast, rfl⟩ := gather_append_eq_some.mp h
  obtain ⟨first, own, hbefore, hown, rfl⟩ := gather_append_eq_some.mp hfirst
  obtain ⟨more, hmore⟩ := leftmost_of_expandLine hm hext he hown
  have hsteps := Nat.le_max_left steps more
  have hline := leftmost_mono (Nat.le_max_right steps more) hmore
  refine ⟨max steps more, ?_⟩
  rw [List.append_assoc]
  exact gather_append_eq_some.mpr ⟨first, own ++ last, leftmostLines_mono hsteps hbefore,
    gather_cons_eq_some.mpr ⟨own, last, hline, leftmostLines_mono hsteps hlast, rfl⟩, rfl⟩

theorem leftmost_of_lineSteps {m larger : Macros} (hm : larger.Disjoint) (hext : larger.Extends m)
    {steps : Nat} {lines next : List PendingLine} {results : List (List String)}
    (hsteps : LineSteps m lines next) (h : leftmostLines larger steps next = some results) :
    ∃ more, leftmostLines larger more lines = some results := by
  induction hsteps using Relation.ReflTransGen.head_induction_on with
  | refl => exact ⟨steps, h⟩
  | head hstep _ ih =>
    obtain ⟨_, hnext⟩ := ih
    exact leftmost_of_lineStep hm hext hstep hnext

theorem leftmostLines_of_clean {m : Macros} {steps : Nat} {lines : List PendingLine}
    {results : List (List String)} (hclean : CleanCallFree lines) (hd : dirtyCount lines = 0)
    (h : leftmostLines m steps lines = some results) : lines.map (·.tokens) = results := by
  have hfree : ∀ line ∈ lines, CallFree line.tokens := fun line hl =>
    hclean line hl (dirtyCount_eq_zero_iff.mp hd line hl)
  rw [leftmostLines_of_callFree m steps hfree] at h
  exact Option.some.inj h

/-- Once no step is left to take, one pass marks all lines clean. -/
theorem expandPass_of_leftmostLines_zero {m : Macros} {lines : List PendingLine}
    {results : List (List String)} (h : leftmostLines m 0 lines = some results) :
    ∃ next, expandPass m lines = .ok next ∧ (∀ line ∈ next, line.dirty = false) ∧
      next.map (·.tokens) = results := by
  have hfree := callFree_of_leftmostLines_zero h
  rw [leftmostLines_of_callFree m 0 hfree] at h
  exact ⟨_, expandPass_of_callFree m hfree, by simp,
    by simpa [Function.comp_def] using Option.some.inj h⟩

/-- Each pass takes a step off the bound, and one more pass marks the results clean. -/
theorem expandFrom_of_leftmost {m : Macros} (hm : m.Disjoint) {steps : Nat} (passes left : Nat)
    {lines : List PendingLine} {results : List (List String)} (hclean : CleanCallFree lines)
    (h : leftmostLines m steps lines = some results) (hleft : steps + 1 ≤ left) :
    ∃ e, expandFrom m passes lines (dirtyCount lines) left = .ok e ∧
      e.passes ≤ passes + steps + 1 ∧ (∀ line ∈ e.lines, line.dirty = false) ∧
      e.lines.map (·.tokens) = results := by
  induction steps generalizing passes left lines with
  | zero =>
    by_cases hd : dirtyCount lines = 0
    · exact ⟨⟨lines, passes⟩, expandFrom_of_clean m passes left hd, by simp,
        dirtyCount_eq_zero_iff.mp hd, leftmostLines_of_clean hclean hd h⟩
    · obtain ⟨left, rfl⟩ : ∃ fewer, left = fewer + 1 := ⟨left - 1, by omega⟩
      obtain ⟨next, hp, hnext, hresults⟩ := expandPass_of_leftmostLines_zero h
      refine ⟨⟨next, passes + 1⟩, ?_, by simp, hnext, hresults⟩
      rw [expandFrom_succ, if_neg hd, hp]
      exact expandFrom_of_clean m (passes + 1) left (dirtyCount_eq_zero_iff.mpr hnext)
  | succ steps ih =>
    by_cases hd : dirtyCount lines = 0
    · exact ⟨⟨lines, passes⟩, expandFrom_of_clean m passes left hd, by simp; omega,
        dirtyCount_eq_zero_iff.mp hd, leftmostLines_of_clean hclean hd h⟩
    · obtain ⟨left, rfl⟩ : ∃ fewer, left = fewer + 1 := ⟨left - 1, by omega⟩
      obtain ⟨next, hp, hresults⟩ := expandPass_of_leftmost hm hclean h
      obtain ⟨e, he, hpasses, hsettled⟩ :=
        ih (passes + 1) left (expandPass_cleanCallFree hclean hp) hresults (by omega)
      refine ⟨e, ?_, by omega, hsettled⟩
      rw [expandFrom_succ, if_neg hd, hp]
      exact he

theorem leftmost_of_expandFrom {m : Macros} (hm : m.Disjoint) {steps passes left : Nat}
    {lines : List PendingLine} {results : List (List String)} {e : Expanded}
    (he : expandFrom m passes lines (dirtyCount lines) left = .ok e)
    (h : leftmostLines m steps e.lines = some results) :
    ∃ more, leftmostLines m more lines = some results :=
  leftmost_of_lineSteps hm (.refl m) ((expandFrom_lineSteps m passes left lines).1 e he) h

/-- The passes and the leftmost strategy come to the same lines. If the passes leave no line dirty,
the leftmost strategy ends on every line; if it ends on every line within a number of steps, so do
the passes, with one pass more. -/
theorem expand_agrees_with_leftmost (c : Context) (cap : Int) (hm : c.macros.Disjoint)
    (hdirty : ∀ line ∈ c.lines, line.dirty = true) :
    (∀ next passes, c.expand cap = (next, .ok passes) →
      (∀ line ∈ next.lines, line.dirty = false) →
      ∃ steps, leftmostLines c.macros steps c.lines = some (next.lines.map (·.tokens))) ∧
    (∀ steps results, leftmostLines c.macros steps c.lines = some results →
      (steps : Int) + 1 ≤ cap →
      ∃ next passes, c.expand cap = (next, .ok passes) ∧ passes ≤ steps + 1 ∧
        (∀ line ∈ next.lines, line.dirty = false) ∧ next.lines.map (·.tokens) = results) := by
  have hclean := cleanCallFree_of_dirty hdirty
  constructor
  · intro next passes he hsettled
    obtain ⟨he, -⟩ := Context.expand_eq_ok he
    have hnext : CleanCallFree next.lines :=
      expandFrom_invariant (fun _ _ => expandPass_cleanCallFree) hclean he
    have hresults := leftmostLines_of_callFree c.macros 0 fun line hl =>
      hnext line hl (hsettled line hl)
    exact leftmost_of_expandFrom hm he hresults
  · intro steps results h hcap
    obtain ⟨e, he, hpasses, hsettled, hresults⟩ :=
      expandFrom_of_leftmost hm 0 cap.toNat hclean h (by omega)
    exact ⟨{ c with lines := e.lines }, e.passes, Context.expand_of_ok he, by omega, hsettled,
      hresults⟩

def mixedContext : Context where
  macros :=
    ⟨⟨[("S", ["x", "T()"]), ("T", ["y"]), ("C", ["C()"])]⟩,
      ⟨[("L", [["1"], ["2", "T()"]]), ("E", [])]⟩⟩
  lines := [⟨["a", "S()", "L()"], true⟩, ⟨["E()", "C()", "U()"], true⟩]

theorem expand_mixedContext_agrees :
    ∃ next passes steps, mixedContext.expand 5 = (next, .ok passes) ∧
      leftmostLines mixedContext.macros steps mixedContext.lines =
        some (next.lines.map (·.tokens)) ∧
      next.lines.map (·.tokens) = [["a", "x", "y", "1"], ["a", "x", "y", "2", "y"]] := by
  have hm : mixedContext.macros.Disjoint := Macros.disjoint_of_entries (by decide)
  have hdirty : ∀ line ∈ mixedContext.lines, line.dirty = true := by decide
  have hresults : leftmostLines mixedContext.macros 4 mixedContext.lines =
      some [["a", "x", "y", "1"], ["a", "x", "y", "2", "y"]] := by decide +kernel
  obtain ⟨hback, hforth⟩ := expand_agrees_with_leftmost mixedContext 5 hm hdirty
  obtain ⟨next, passes, he, -, hclean, htokens⟩ := hforth 4 _ hresults (by decide)
  obtain ⟨steps, hsteps⟩ := hback next passes he hclean
  exact ⟨next, passes, steps, he, hsteps, htokens⟩

end CommandFile
