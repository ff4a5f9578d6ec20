import CommandFile.Proofs.Expansion.Leftmost
import CommandFile.Proofs.Expansion.Unresolved
import CommandFile.Proofs.Session.CleanLines
set_option autoImplicit false

/-!
Definitions may come late. An expansion that was capped, or stopped at a macro without definition,
leaves lines behind that have come different ways. All of them are still on the way to what the
leftmost strategy makes of the first lines under the definitions that are there in the end, so that
going on from there gives what starting with all definitions would have given.
-/
namespace CommandFile

theorem leftmostLines_unique {m : Macros} {steps others : Nat} {lines : List PendingLine}
    {results more : List (List String)} (h : leftmostLines m steps lines = some results)
    (hmore : leftmostLines m others lines = some more) : results = more := by
  have hleft := leftmostLines_mono (Nat.le_max_left steps others) h
  have hright := leftmostLines_mono (Nat.le_max_right steps others) hmore
  rw [hleft] at hright
  exact Option.some.inj hright

theorem eq_of_clean {lines others : List PendingLine} (h : ∀ line ∈ lines, line.dirty = false)
    (hothers : ∀ line ∈ others, line.dirty = false)
    (htokens : lines.map (·.tokens) = others.map (·.tokens)) : lines = others := by
  have hrebuild : ∀ lines : List PendingLine, (∀ line ∈ lines, line.dirty = false) →
      (lines.map (·.tokens)).map (fun tokens => ⟨tokens, false⟩) = lines := by
    intro lines hclean
    rw [List.map_map]
    exact map_tokens_of_clean hclean
  rw [← hrebuild lines h, htokens, hrebuild others hothers]

namespace Session

def run (files : Store) (c : Context) (steps : List Step) : Context :=
  steps.foldl (fun c step => (step.run files c).1) c

@[simp] theorem run_nil (files : Store) (c : Context) : run files c [] = c := rfl

@[simp] theorem run_cons (files : Store) (c : Context) (step : Step) (rest : List Step) :
    run files c (step :: rest) = run files (step.run files c).1 rest := rfl

def Step.definedName? : Step → Option String
  | .defineShort name _ | .defineLong name _ => some name
  | _ => none

@[simp] theorem Step.run_expand (files : Store) (c : Context) (cap : Int) :
    ((Step.expand cap).run files c).1 = (c.expand cap).1 := rfl

@[simp] theorem Step.definedName?_expand (cap : Int) : (Step.expand cap).definedName? = none := rfl

def definitions (steps : List Step) : List Step := steps.filter fun step => step.definedName?.isSome

inductive Step.Late (c : Context) : Step → Prop where
  | expand (cap : Int) : Late c (.expand cap)
  | defineShort {name : String} (replacement : List String) :
      c.macros.short.find? name = none → c.macros.long.find? name = none →
      Late c (.defineShort name replacement)
  | defineLong {name : String} (body : List (List String)) :
      c.macros.short.find? name = none → c.macros.long.find? name = none →
      Late c (.defineLong name body)

theorem Step.late_of_definedName {c : Context} {step : Step} {name : String}
    (h : step.definedName? = some name) (hs : c.macros.short.find? name = none)
    (hl : c.macros.long.find? name = none) : step.Late c := by
  cases step <;> cases h
  · exact .defineShort _ hs hl
  · exact .defineLong _ hs hl

def Late (files : Store) (c : Context) : List Step → Prop
  | [] => True
  | step :: rest => step.Late c ∧ Late files (step.run files c).1 rest

variable {files : Store} {c : Context} {step : Step} {steps : List Step}

namespace Step.Late

theorem macros_extends (h : step.Late c) : (step.run files c).1.macros.Extends c.macros := by
  cases h with
  | expand cap =>
    rw [run_expand, Context.macros_expand]
    exact .refl _
  | defineShort replacement hs hl =>
    exact ⟨fun h => Table.find?_define_of_some hs h replacement, id⟩
  | defineLong body hs hl => exact ⟨id, fun h => Table.find?_define_of_some hl h body⟩

theorem disjoint (h : step.Late c) (hm : c.macros.Disjoint) :
    (step.run files c).1.macros.Disjoint := by
  cases h with
  | expand cap => rwa [run_expand, Context.macros_expand]
  | @defineShort name replacement hs hl =>
    intro other
    by_cases ho : other = name
    · exact .inr (ho ▸ hl)
    · simpa [run, Context.defineShort, Table.find?_define_of_ne _ ho] using hm other
  | @defineLong name body hs hl =>
    intro other
    by_cases ho : other = name
    · exact .inl (ho ▸ hs)
    · simpa [run, Context.defineLong, Table.find?_define_of_ne _ ho] using hm other

theorem lineSteps (h : step.Late c) : LineSteps c.macros c.lines (step.run files c).1.lines := by
  cases h with
  | expand cap => exact c.expand_lineSteps cap
  | defineShort replacement hs hl => exact .refl
  | defineLong body hs hl => exact .refl

end Step.Late

namespace Late

theorem macros_extends (h : Late files c steps) : (run files c steps).macros.Extends c.macros := by
  induction steps generalizing c with
  | nil => exact .refl _
  | cons step rest ih => exact (ih h.2).trans h.1.macros_extends

theorem disjoint (h : Late files c steps) (hm : c.macros.Disjoint) :
    (run files c steps).macros.Disjoint := by
  induction steps generalizing c with
  | nil => exact hm
  | cons step rest ih => exact ih h.2 (h.1.disjoint hm)

theorem leftmost_back (h : Late files c steps) (hm : c.macros.Disjoint) {bound : Nat}
    {results : List (List String)}
    (hlast : leftmostLines (run files c steps).macros bound (run files c steps).lines =
      some results) :
    ∃ more, leftmostLines (run files c steps).macros more c.lines = some results := by
  induction steps generalizing c with
  | nil => exact ⟨bound, hlast⟩
  | cons step rest ih =>
    have hdisjoint := h.2.disjoint (h.1.disjoint hm)
    obtain ⟨more, hmore⟩ := ih h.2 (h.1.disjoint hm) hlast
    exact leftmost_of_lineSteps hdisjoint h.macros_extends h.1.lineSteps hmore

end Late

theorem run_cleanCallFree (h : CleanCallFree c.lines) :
    CleanCallFree (run files c steps).lines := by
  induction steps generalizing c with
  | nil => exact h
  | cons step rest ih => exact ih (step.run_cleanCallFree files h)

theorem Late.run_definitions (h : Late files c steps) {early : Context}
    (hm : early.macros = c.macros) :
    run files early (definitions steps) =
      { macros := (run files c steps).macros, lines := early.lines } := by
  induction steps generalizing c early with
  | nil =>
    rw [run_nil, ← hm]
    rfl
  | cons step rest ih =>
    cases h.1 with
    | expand cap => exact ih h.2 (by simpa [Step.run] using hm)
    | defineShort replacement hs hl =>
      exact ih h.2 (by simp [Step.run, Context.defineShort, hm])
    | defineLong body hs hl => exact ih h.2 (by simp [Step.run, Context.defineLong, hm])

theorem Late.leftmost_results (h : Late files c steps) (hm : c.macros.Disjoint)
    (hdirty : ∀ line ∈ c.lines, line.dirty = true)
    (hclean : ∀ line ∈ (run files c steps).lines, line.dirty = false) :
    ∃ bound, leftmostLines (run files c steps).macros bound c.lines =
      some ((run files c steps).lines.map (·.tokens)) := by
  have hfree : CleanCallFree (run files c steps).lines :=
    run_cleanCallFree (cleanCallFree_of_dirty hdirty)
  exact h.leftmost_back hm
    (leftmostLines_of_callFree _ 0 fun line hl => hfree line hl (hclean line hl))

/-- A session of late definitions that leaves no line dirty has come to what a single expansion
comes to when all definitions are made before it. -/
theorem Late.expand_definitions (h : Late files c steps) (hm : c.macros.Disjoint)
    (hdirty : ∀ line ∈ c.lines, line.dirty = true)
    (hclean : ∀ line ∈ (run files c steps).lines, line.dirty = false) :
    ∃ enough : Nat, ∀ cap : Int, enough ≤ cap → ∃ passes,
      (run files c (definitions steps)).expand cap = (run files c steps, .ok passes) := by
  obtain ⟨bound, hresults⟩ := h.leftmost_results hm hdirty hclean
  refine ⟨bound + 1, fun cap hcap => ?_⟩
  obtain ⟨e, he, -, hsettled, htokens⟩ := expandFrom_of_leftmost (h.disjoint hm) 0 cap.toNat
    (cleanCallFree_of_dirty hdirty) hresults (by omega)
  have hlines : e.lines = (run files c steps).lines := eq_of_clean hsettled hclean htokens
  rw [h.run_definitions rfl, Context.expand_of_ok he, hlines]
  exact ⟨e.passes, rfl⟩

/-- Late definitions do not change the result. However expansions and definitions of names that have
none yet follow each other, once no line is dirty the lines are those that come out when all the
definitions are made first. So it does not matter that a macro which stopped an expansion has been
defined only afterwards. -/
theorem late_definitions_same_lines (files : Store) (c : Context) (hm : c.macros.Disjoint)
    (hdirty : ∀ line ∈ c.lines, line.dirty = true) :
    (∀ steps, Late files c steps → (∀ line ∈ (run files c steps).lines, line.dirty = false) →
      (∃ enough : Nat, ∀ cap : Int, enough ≤ cap → ∃ passes,
        (run files c (definitions steps)).expand cap = (run files c steps, .ok passes)) ∧
      ∀ cap next passes, (run files c (definitions steps)).expand cap = (next, .ok passes) →
        (∀ line ∈ next.lines, line.dirty = false) → next = run files c steps) ∧
    ∀ cap stopped e, c.expand cap = (stopped, .error e) →
      ∀ definition : Step, definition.definedName? = some e.name →
      ∀ again next passes, (definition.run files stopped).1.expand again = (next, .ok passes) →
        (∀ line ∈ next.lines, line.dirty = false) →
        ∃ enough : Nat, ∀ cap : Int, enough ≤ cap → ∃ passes,
          (definition.run files c).1.expand cap = (next, .ok passes) := by
  constructor
  · intro steps h hclean
    refine ⟨h.expand_definitions hm hdirty hclean, fun cap next passes he hsettled => ?_⟩
    obtain ⟨bound, hresults⟩ := h.leftmost_results hm hdirty hclean
    rw [h.run_definitions rfl] at he
    obtain ⟨hexpanded, hmacros⟩ := Context.expand_eq_ok he
    have hfree : CleanCallFree next.lines :=
      expandFrom_invariant (fun _ _ => expandPass_cleanCallFree) (cleanCallFree_of_dirty hdirty)
        hexpanded
    obtain ⟨more, hmore⟩ := leftmost_of_expandFrom (h.disjoint hm) hexpanded
      (leftmostLines_of_callFree _ 0 fun line hl => hfree line hl (hsettled line hl))
    have hlines := eq_of_clean hsettled hclean (leftmostLines_unique hmore hresults)
    obtain ⟨macros, lines⟩ := next
    simp only at hmacros hlines
    rw [hmacros, hlines]
  · intro cap stopped e he definition hname again next passes hagain hsettled
    obtain ⟨-, -, hs, hl⟩ := Context.expand_error he
    have hstopped : (c.expand cap).1 = stopped := by rw [he]
    have hlate : definition.Late stopped := by
      refine Step.late_of_definedName hname ?_ ?_ <;> rwa [← hstopped, Context.macros_expand]
    have hsteps : Late files c [.expand cap, definition, .expand again] :=
      ⟨.expand cap, hstopped ▸ hlate, .expand again, trivial⟩
    have hrun : run files c [.expand cap, definition, .expand again] = next := by
      simp only [run_cons, run_nil, Step.run_expand, hstopped, hagain]
    have hdefinitions : definitions [.expand cap, definition, .expand again] = [definition] := by
      simp [definitions, hname]
    have hexpand := hsteps.expand_definitions hm hdirty (by rwa [hrun])
    rwa [hrun, hdefinitions] at hexpand

def waitingContext : Context where
  macros := ⟨⟨[("A", ["x", "B()"])]⟩, .empty⟩
  lines := [⟨["y"], true⟩, ⟨["A()", "C()"], true⟩]

def waitingSteps : List Step :=
  [.expand 5, .defineLong "B" [["1", "C()"], ["2"]], .expand 1, .expand 3, .defineShort "C" ["z"],
    .expand 4]

def waitingResults : List PendingLine :=
  [⟨["y"], false⟩, ⟨["x", "1", "z", "z"], false⟩, ⟨["x", "2", "z"], false⟩]

theorem waitingSteps_same_lines :
    (run .empty waitingContext waitingSteps).lines = waitingResults ∧
    (∃ enough : Nat, ∀ cap : Int, enough ≤ cap → ∃ passes,
      (run .empty waitingContext (definitions waitingSteps)).expand cap =
        (run .empty waitingContext waitingSteps, .ok passes)) := by
  have hm : waitingContext.macros.Disjoint := Macros.disjoint_of_entries (by decide)
  have hlate : Late .empty waitingContext waitingSteps :=
    ⟨.expand 5, .defineLong _ (by decide +kernel) (by decide +kernel), .expand 1, .expand 3,
      .defineShort _ (by decide +kernel) (by decide +kernel), .expand 4, trivial⟩
  have hlines : (run .empty waitingContext waitingSteps).lines = waitingResults := by
    decide +kernel
  obtain ⟨hsame, -⟩ := late_definitions_same_lines .empty waitingContext hm (by decide)
  exact ⟨hlines, (hsame waitingSteps hlate (by rw [hlines]; decide)).1⟩

end Session
end CommandFile
