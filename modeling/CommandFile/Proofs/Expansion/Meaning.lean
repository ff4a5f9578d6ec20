import CommandFile.Proofs.Expansion.Pass
set_option autoImplicit false

/-!
The meaning of a line under acyclic macros: the lines that stand for it once no call is left. A
short call means what its replacement means, and a long call means what the lines of its body mean,
one after the other. The meaning of a whole line combines those of its tokens, where the choice for
the leftmost token varies slowest. Passes leave the meaning of the lines alone, however far they
have come.
-/
namespace CommandFile

def tokenMeaning (named : String → List (List String)) (token : String) : List (List String) :=
  match Call.name? token with
  | none => [[token]]
  | some name => named name

def rowMeaning (named : String → List (List String)) : List String → List (List String)
  | [] => [[]]
  | token :: rest =>
    (tokenMeaning named token).flatMap fun first => (rowMeaning named rest).map (first ++ ·)

/-- What a name stands for. Its definition calls no name that leads back to it. -/
def Macros.nameMeaning (m : Macros) (h : m.Acyclic) (name : String) : List (List String) :=
  ((m.definition? name).getD []).flatMap <| rowMeaning fun callee =>
    if _ : m.CalledBy callee name then m.nameMeaning h callee else []
termination_by h.wellFounded.wrap name

def Macros.meaning (m : Macros) (h : m.Acyclic) (tokens : List String) : List (List String) :=
  rowMeaning (m.nameMeaning h) tokens

theorem tokenMeaning_of_not_call (named : String → List (List String)) {token : String}
    (h : Call.name? token = none) : tokenMeaning named token = [[token]] := by
  simp [tokenMeaning, h]

theorem tokenMeaning_of_call (named : String → List (List String)) {token name : String}
    (h : Call.name? token = some name) : tokenMeaning named token = named name := by
  simp [tokenMeaning, h]

theorem rowMeaning_append (named : String → List (List String)) (as bs : List String) :
    rowMeaning named (as ++ bs) =
      (rowMeaning named as).flatMap fun first => (rowMeaning named bs).map (first ++ ·) := by
  induction as with
  | nil => simp [rowMeaning]
  | cons token rest ih =>
    simp [rowMeaning, ih, List.flatMap_assoc, List.map_flatMap, List.flatMap_map,
      Function.comp_def]

theorem rowMeaning_of_callFree (named : String → List (List String)) {tokens : List String}
    (h : CallFree tokens) : rowMeaning named tokens = [tokens] := by
  induction tokens with
  | nil => rfl
  | cons token rest ih =>
    have hrest := ih fun other ho => h other (by simp [ho])
    simp [rowMeaning, tokenMeaning_of_not_call named (h token (by simp)), hrest]

theorem rowMeaning_congr {named other : String → List (List String)} {tokens : List String}
    (h : ∀ name ∈ calledNames tokens, named name = other name) :
    rowMeaning named tokens = rowMeaning other tokens := by
  induction tokens with
  | nil => rfl
  | cons token rest ih =>
    have hrest := ih fun name hn => h name (by
      simp only [calledNames, List.mem_filterMap] at hn ⊢
      obtain ⟨t, ht, hname⟩ := hn
      exact ⟨t, by simp [ht], hname⟩)
    have htoken : tokenMeaning named token = tokenMeaning other token := by
      cases hn : Call.name? token with
      | none => rw [tokenMeaning_of_not_call _ hn, tokenMeaning_of_not_call _ hn]
      | some name =>
        rw [tokenMeaning_of_call _ hn, tokenMeaning_of_call _ hn]
        exact h name (mem_calledNames_of_mem (by simp) hn)
    simp only [rowMeaning, hrest, htoken]

namespace Macros
variable {m : Macros} (h : m.Acyclic)

theorem nameMeaning_eq (name : String) :
    m.nameMeaning h name = ((m.definition? name).getD []).flatMap (m.meaning h) := by
  rw [nameMeaning]
  refine List.flatMap_congr fun line hl => rowMeaning_congr fun callee hc => ?_
  -- The definition asks only for the names that it calls, so its condition always holds.
  have hcalled : m.CalledBy callee name := by
    cases hd : m.definition? name with
    | none => simp [hd] at hl
    | some body => exact ⟨line, mem_definitionLines hd (by simpa [hd] using hl), hc⟩
  rw [dif_pos hcalled]

@[simp] theorem meaning_nil : m.meaning h [] = [[]] := rfl

theorem meaning_cons (token : String) (rest : List String) :
    m.meaning h (token :: rest) =
      (m.meaning h [token]).flatMap fun first => (m.meaning h rest).map (first ++ ·) :=
  rowMeaning_append _ [token] rest

theorem meaning_of_callFree {tokens : List String} (hf : CallFree tokens) :
    m.meaning h tokens = [tokens] := rowMeaning_of_callFree _ hf

theorem meaning_singleton (token : String) :
    m.meaning h [token] = tokenMeaning (m.nameMeaning h) token := by
  simp [meaning, rowMeaning]

theorem meaning_call {token name : String} (hn : Call.name? token = some name) :
    m.meaning h [token] = ((m.definition? name).getD []).flatMap (m.meaning h) := by
  rw [meaning_singleton, tokenMeaning_of_call _ hn, nameMeaning_eq]

theorem meaning_short_call {token name : String} {replacement : List String}
    (hn : Call.name? token = some name) (hs : m.short.find? name = some replacement) :
    m.meaning h [token] = m.meaning h replacement := by
  simp [meaning_call h hn, definition?_of_short hs]

theorem meaning_long_call (hm : m.Disjoint) {token name : String} {body : List (List String)}
    (hn : Call.name? token = some name) (hl : m.long.find? name = some body) :
    m.meaning h [token] = body.flatMap (m.meaning h) := by
  simp [meaning_call h hn, definition?_of_long hm hl]

theorem meaning_append (as bs : List String) :
    m.meaning h (as ++ bs) =
      (m.meaning h as).flatMap fun first => (m.meaning h bs).map (first ++ ·) :=
  rowMeaning_append _ as bs

theorem meaning_shortStep {tokens next : List String} (hstep : ShortStep m.short tokens next) :
    m.meaning h next = m.meaning h tokens := by
  cases hstep with
  | @replace token replacement before after hr =>
    obtain ⟨name, hn, hs⟩ := Option.bind_eq_some_iff.mp hr
    rw [List.append_assoc, meaning_append, meaning_append h before,
      meaning_append h replacement, meaning_cons, meaning_short_call h hn hs]

theorem meaning_substitute (tokens : List String) :
    m.meaning h (substitute m.short tokens).1 = m.meaning h tokens := by
  have hsteps := substitute_steps m.short [] tokens
  simp only [List.nil_append] at hsteps
  generalize (substitute m.short tokens).1 = next at hsteps
  induction hsteps with
  | refl => rfl
  | tail _ hstep ih => rw [meaning_shortStep h hstep, ih]

/-- Nothing can be chosen before the first call, so a line means what its definition's lines mean
in its place, one after the other. -/
theorem meaning_firstCall {tokens : List String} {call : FirstCall} {body : List (List String)}
    (hc : firstCall tokens = some call) (hd : m.definition? call.name = some body) :
    m.meaning h tokens =
      body.flatMap fun line => m.meaning h (call.before ++ line ++ call.after) := by
  obtain ⟨token, rfl, hn, hb⟩ := firstCall_eq_some hc
  have hbefore := meaning_of_callFree h (firstCall_eq_none_iff.mp hb)
  have htoken : m.meaning h [token] = body.flatMap (m.meaning h) := by
    rw [meaning_call h hn, hd, Option.getD_some]
  have hrest : m.meaning h (token :: call.after) =
      body.flatMap fun line => m.meaning h (line ++ call.after) := by
    rw [meaning_cons, htoken, List.flatMap_assoc]
    exact List.flatMap_congr fun line _ => (meaning_append h line call.after).symm
  have hprepend : ∀ tokens : List String,
      m.meaning h (call.before ++ tokens) = (m.meaning h tokens).map (call.before ++ ·) := by
    intro tokens
    simp [meaning_append, hbefore]
  rw [hprepend, hrest, List.map_flatMap]
  exact List.flatMap_congr fun line _ => by rw [← hprepend, List.append_assoc]

def linesMeaning (lines : List PendingLine) : List (List String) :=
  lines.flatMap fun line => m.meaning h line.tokens

theorem linesMeaning_of_callFree {lines : List PendingLine}
    (hf : ∀ line ∈ lines, CallFree line.tokens) :
    m.linesMeaning h lines = lines.map (·.tokens) := by
  calc m.linesMeaning h lines = lines.flatMap fun line => [line.tokens] :=
        List.flatMap_congr fun line hl => meaning_of_callFree h (hf line hl)
    _ = lines.map (·.tokens) := List.map_eq_flatMap.symm

end Macros

theorem expandLine_meaning {m : Macros} (hm : m.Disjoint) (h : m.Acyclic) {tokens : List String}
    {lines : List PendingLine} (he : expandLine m tokens = .ok lines) :
    m.linesMeaning h lines = m.meaning h tokens := by
  have ho := expandLine_outcome m tokens
  rw [he] at ho
  cases ho with
  | callFree hf => simp [Macros.linesMeaning]
  | substituted hs hl => simp [Macros.linesMeaning, Macros.meaning_substitute]
  | fannedOut hc hl =>
    have hfirst := Macros.meaning_firstCall h hc (Macros.definition?_of_long hm hl)
    rw [← Macros.meaning_substitute h tokens, hfirst]
    simp [Macros.linesMeaning, List.flatMap_map]

theorem expandPass_meaning {m : Macros} (hm : m.Disjoint) (h : m.Acyclic)
    {lines next : List PendingLine} (hp : expandPass m lines = .ok next) :
    m.linesMeaning h next = m.linesMeaning h lines := by
  induction lines generalizing next with
  | nil =>
    cases hp
    rfl
  | cons line rest ih =>
    obtain ⟨lines, others, he, hr, rfl⟩ := expandPass_cons_eq_ok hp
    have hline : m.linesMeaning h lines = m.meaning h line.tokens := by
      obtain ⟨-, he⟩ | ⟨-, rfl⟩ := expandPending_eq_ok he
      · exact expandLine_meaning hm h he
      · simp [Macros.linesMeaning]
    have hrest : m.linesMeaning h others = m.linesMeaning h rest := ih hr
    simp only [Macros.linesMeaning, List.flatMap_append, List.flatMap_cons] at hline hrest ⊢
    rw [hline, hrest]

/-- Under acyclic and completely defined macros an expansion never fails, keeps the meaning of the
lines whatever the cap, and has reached that meaning once no line is dirty. -/
theorem expand_preserves_meaning (c : Context) (cap : Int) (hm : c.macros.Disjoint)
    (hclosed : c.macros.Closed) (h : c.macros.Acyclic)
    (hdirty : ∀ line ∈ c.lines, line.dirty = true)
    (hdefined : ∀ line ∈ c.lines, c.macros.Defines line.tokens) :
    ∃ next passes, c.expand cap = (next, .ok passes) ∧
      c.macros.linesMeaning h next.lines = c.macros.linesMeaning h c.lines ∧
      ((∀ line ∈ next.lines, line.dirty = false) →
        next.lines.map (·.tokens) = c.macros.linesMeaning h c.lines) := by
  obtain ⟨e, he⟩ := expandFrom_succeeds (fun _ => expandPass_of_defines hclosed) 0 cap.toNat
    (fun line hl _ => hdefined line hl : DirtyDefined c.macros c.lines)
  have hmeaning : c.macros.linesMeaning h e.lines = c.macros.linesMeaning h c.lines :=
    expandFrom_invariant
      (P := fun lines => c.macros.linesMeaning h lines = c.macros.linesMeaning h c.lines)
      (fun _ _ hl hp => (expandPass_meaning hm h hp).trans hl) rfl he
  have hclean : CleanCallFree e.lines :=
    expandFrom_invariant (fun _ _ => expandPass_cleanCallFree) (cleanCallFree_of_dirty hdirty) he
  refine ⟨{ c with lines := e.lines }, e.passes, Context.expand_of_ok he, hmeaning, ?_⟩
  intro hsettled
  rw [← hmeaning]
  exact (Macros.linesMeaning_of_callFree h fun line hl => hclean line hl (hsettled line hl)).symm

/-- Two calls that fan out stand in one line, one of them behind a short call. -/
def fanningContext : Context where
  macros := ⟨⟨[("S", ["x", "L()"]), ("T", ["y"])]⟩, ⟨[("L", [["1"], ["2", "T()"]])]⟩⟩
  lines := [⟨["S()", "L()"], true⟩, ⟨["z"], true⟩]

def fanningRank (name : String) : Nat := if name = "S" then 2 else if name = "L" then 1 else 0

theorem fanningContext_acyclic : fanningContext.macros.Acyclic :=
  Macros.acyclic_of_rank fanningRank (by decide) (by decide)

theorem linesMeaning_fanningContext :
    ∃ next passes, fanningContext.expand 10 = (next, .ok passes) ∧
      next.lines.map (·.tokens) =
        [["x", "1", "1"], ["x", "1", "2", "y"], ["x", "2", "y", "1"], ["x", "2", "y", "2", "y"],
          ["z"]] ∧
      fanningContext.macros.linesMeaning fanningContext_acyclic fanningContext.lines =
        next.lines.map (·.tokens) := by
  have hclosed : fanningContext.macros.Closed :=
    Macros.closed_of_entries (by decide) (by decide)
  obtain ⟨next, passes, he, -, hresults⟩ := expand_preserves_meaning fanningContext 10
    (Macros.disjoint_of_entries (by decide)) hclosed fanningContext_acyclic (by decide) (by decide)
  have hlines : (fanningContext.expand 10).1.lines =
      [⟨["x", "1", "1"], false⟩, ⟨["x", "1", "2", "y"], false⟩, ⟨["x", "2", "y", "1"], false⟩,
        ⟨["x", "2", "y", "2", "y"], false⟩, ⟨["z"], false⟩] := by decide +kernel
  simp only [he] at hlines
  exact ⟨next, passes, he, by simp [hlines], (hresults (by simp [hlines])).symm⟩

end CommandFile
