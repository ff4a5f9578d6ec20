import CommandFile.Proofs.Expansion.LineSteps
set_option autoImplicit false

namespace CommandFile
variable {m : Macros} {tokens : List String}

/-- All tokens are calls, and each of them can stand for a line that vanishes. -/
inductive Vanishes (m : Macros) : List String → Prop where
  | nil : Vanishes m []
  | call {token name : String} {line rest : List String} : Call.name? token = some name →
      line ∈ m.definitionLines name → Vanishes m line → Vanishes m rest →
      Vanishes m (token :: rest)

theorem vanishes_append {as bs : List String} :
    Vanishes m (as ++ bs) ↔ Vanishes m as ∧ Vanishes m bs := by
  induction as with
  | nil => exact ⟨fun h => ⟨.nil, h⟩, fun h => h.2⟩
  | cons token rest ih =>
    constructor
    · rintro (_ | ⟨hn, hline, hvanishes, hrest⟩)
      obtain ⟨has, hbs⟩ := ih.mp hrest
      exact ⟨.call hn hline hvanishes has, hbs⟩
    · rintro ⟨_ | ⟨hn, hline, hvanishes, has⟩, hbs⟩
      exact .call hn hline hvanishes (ih.mpr ⟨has, hbs⟩)

theorem vanishes_cons_iff {token name : String} {rest : List String}
    (hn : Call.name? token = some name) :
    Vanishes m (token :: rest) ↔
      (∃ line ∈ m.definitionLines name, Vanishes m line) ∧ Vanishes m rest := by
  constructor
  · rintro (_ | ⟨hother, hline, hvanishes, hrest⟩)
    cases hn.symm.trans hother
    exact ⟨⟨_, hline, hvanishes⟩, hrest⟩
  · rintro ⟨⟨line, hline, hvanishes⟩, hrest⟩
    exact .call hn hline hvanishes hrest

theorem Vanishes.eq_nil (h : Vanishes m tokens) (hfree : CallFree tokens) : tokens = [] := by
  cases h with
  | nil => rfl
  | call hn hline hvanishes hrest =>
    have hnone := hfree _ List.mem_cons_self
    simp [hn] at hnone

/-- What vanishes is empty itself, or owes it to an empty line in some definition. -/
theorem Vanishes.exists_empty (h : Vanishes m tokens) :
    tokens = [] ∨ ∃ name, [] ∈ m.definitionLines name := by
  induction h with
  | nil => exact .inl rfl
  | @call token name line rest hn hline hvanishes hrest ihline _ =>
    refine .inr (ihline.elim (fun hempty => ⟨name, hempty ▸ hline⟩) id)

theorem Vanishes.of_shortStep {next : List String} (h : Vanishes m next)
    (hstep : ShortStep m.short tokens next) : Vanishes m tokens := by
  cases hstep with
  | @replace token replacement before after hr =>
    obtain ⟨name, hn, hs⟩ := Option.bind_eq_some_iff.mp hr
    obtain ⟨hfirst, hafter⟩ := vanishes_append.mp h
    obtain ⟨hbefore, hreplacement⟩ := vanishes_append.mp hfirst
    have hline : replacement ∈ m.definitionLines name := by simp [Macros.definitionLines, hs]
    exact vanishes_append.mpr
      ⟨hbefore, (vanishes_cons_iff hn).mpr ⟨⟨replacement, hline, hreplacement⟩, hafter⟩⟩

theorem Vanishes.of_substitute (h : Vanishes m (substitute m.short tokens).1) :
    Vanishes m tokens := by
  have hsteps := substitute_steps m.short [] tokens
  simp only [List.nil_append] at hsteps
  generalize (CommandFile.substitute m.short tokens).1 = next at h hsteps
  induction hsteps with
  | refl => exact h
  | tail _ hstep ih => exact ih (h.of_shortStep hstep)

theorem Vanishes.of_expandLine {lines : List PendingLine} (he : expandLine m tokens = .ok lines)
    {line : PendingLine} (hl : line ∈ lines) (h : Vanishes m line.tokens) :
    Vanishes m tokens := by
  have ho := expandLine_outcome m tokens
  rw [he] at ho
  cases ho with
  | callFree hf =>
    cases List.mem_singleton.mp hl
    exact h
  | substituted hs hlong =>
    cases List.mem_singleton.mp hl
    exact h.of_substitute
  | @fannedOut call body hc hlong =>
    obtain ⟨inserted, hinserted, rfl⟩ := List.mem_map.mp hl
    obtain ⟨token, htokens, hn, -⟩ := firstCall_eq_some hc
    obtain ⟨hfirst, hafter⟩ := vanishes_append.mp h
    obtain ⟨hbefore, hvanishes⟩ := vanishes_append.mp hfirst
    have hline : inserted ∈ m.definitionLines call.name := by
      simp [Macros.definitionLines, hlong, hinserted]
    refine Vanishes.of_substitute ?_
    rw [htokens]
    exact vanishes_append.mpr
      ⟨hbefore, (vanishes_cons_iff hn).mpr ⟨⟨inserted, hline, hvanishes⟩, hafter⟩⟩

/-- If no name is defined twice, short calls that vanish are replaced by what vanishes. -/
theorem Vanishes.substitute (hm : m.Disjoint) (h : Vanishes m tokens) :
    Vanishes m (substitute m.short tokens).1 := by
  induction h with
  | nil => exact .nil
  | @call token name line rest hn hline hvanishes hrest _ ihrest =>
    rw [substitute_cons]
    refine vanishes_append.mpr ⟨?_, ihrest⟩
    cases hs : m.short.find? name with
    | none =>
      rw [Table.replace_of_not_called (by rw [m.short.called?_of_name hn, hs])]
      exact .call hn hline hvanishes .nil
    | some replacement =>
      have hlong : m.long.find? name = none := (hm name).resolve_left (by simp [hs])
      rw [Table.replace_of_called (by rw [m.short.called?_of_name hn, hs])]
      obtain rfl : line = replacement := by simpa [Macros.definitionLines, hs, hlong] using hline
      exact hvanishes

theorem Vanishes.expandLine (hm : m.Disjoint) (h : Vanishes m tokens) {lines : List PendingLine}
    (he : expandLine m tokens = .ok lines) : ∃ line ∈ lines, Vanishes m line.tokens := by
  have hsub := h.substitute hm
  have ho := expandLine_outcome m tokens
  rw [he] at ho
  cases ho with
  | callFree hf => exact ⟨_, List.mem_singleton_self _, h⟩
  | substituted hs hlong => exact ⟨_, List.mem_singleton_self _, hsub⟩
  | @fannedOut call body hc hlong =>
    obtain ⟨token, htokens, hn, -⟩ := firstCall_eq_some hc
    rw [htokens] at hsub
    obtain ⟨hbefore, hcalled⟩ := vanishes_append.mp hsub
    obtain ⟨⟨line, hline, hvanishes⟩, hafter⟩ := (vanishes_cons_iff hn).mp hcalled
    have hshort : m.short.find? call.name = none := (hm call.name).resolve_right (by simp [hlong])
    have hbody : line ∈ body := by simpa [Macros.definitionLines, hshort, hlong] using hline
    exact ⟨_, List.mem_map_of_mem hbody,
      vanishes_append.mpr ⟨vanishes_append.mpr ⟨hbefore, hvanishes⟩, hafter⟩⟩

section Expansion
variable {c : Context}

theorem Context.vanishes_of_expand {cap : Int}
    (h : ∃ line ∈ (c.expand cap).1.lines, Vanishes c.macros line.tokens) :
    ∃ line ∈ c.lines, Vanishes c.macros line.tokens := by
  by_contra hnone
  obtain ⟨line, hl, hvanishes⟩ := h
  have hkept : ∀ line ∈ (c.expand cap).1.lines, ¬ Vanishes c.macros line.tokens :=
    Context.expand_forall (P := fun tokens => ¬ Vanishes c.macros tokens)
      (fun tokens lines hstays he line hl hv => hstays (hv.of_expandLine he hl))
      (fun line hl hv => hnone ⟨line, hl, hv⟩) cap
  exact hkept line hl hvanishes

theorem Context.nil_mem_expand (hm : c.macros.Disjoint) (hfree : CleanCallFree c.lines) {cap : Int}
    (hclean : ∀ line ∈ (c.expand cap).1.lines, line.dirty = false)
    (h : ∃ line ∈ c.lines, Vanishes c.macros line.tokens) :
    ∃ line ∈ (c.expand cap).1.lines, line.tokens = [] := by
  obtain ⟨line, hl, hvanishes⟩ :=
    Context.expand_exists (fun _ _ hv he => hv.expandLine hm he) h cap
  exact ⟨line, hl, hvanishes.eq_nil (c.expand_cleanCallFree hfree cap line hl (hclean line hl))⟩

theorem Context.nil_mem_expand_of_nil (h : ∃ line ∈ c.lines, line.tokens = []) (cap : Int) :
    ∃ line ∈ (c.expand cap).1.lines, line.tokens = [] := by
  refine Context.expand_exists (P := (· = [])) (fun tokens lines hnil he => ?_) h cap
  subst hnil
  cases he
  exact ⟨_, List.mem_singleton_self _, rfl⟩

end Expansion
end CommandFile
