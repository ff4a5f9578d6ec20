import CommandFile.Proofs.Expansion.LineSteps
import CommandFile.Proofs.Reading.Tokens
import CommandFile.Proofs.Schedule.Noting
set_option autoImplicit false

namespace CommandFile

def Macros.Holds (m : Macros) (token : String) : Prop :=
  (∃ name replacement, m.short.find? name = some replacement ∧ token ∈ replacement) ∨
    ∃ name body, m.long.find? name = some body ∧ token ∈ body.flatten

theorem Table.find?_define_eq_some {α : Type} {t : Table α} {name other : String} {value found : α}
    (h : (t.define name value).find? other = some found) :
    found = value ∨ t.find? other = some found := by
  by_cases hname : other = name
  · subst hname
    rw [t.find?_define_self] at h
    exact .inl (Option.some.inj h).symm
  · rw [t.find?_define_of_ne hname] at h
    exact .inr h

theorem Macros.Holds.of_defineIn {m : Macros} {item : Item} {token : String}
    (h : (item.defineIn m).Holds token) : m.Holds token ∨ token ∈ item.tokens := by
  cases item with
  | shortMacro name replacement =>
    obtain ⟨other, found, hfind, ht⟩ | hlong := h
    · rcases Table.find?_define_eq_some hfind with rfl | hfind
      · exact .inr ht
      · exact .inl (.inl ⟨other, found, hfind, ht⟩)
    · exact .inl (.inr hlong)
  | longMacro name body =>
    obtain hshort | ⟨other, found, hfind, ht⟩ := h
    · exact .inl (.inl hshort)
    · rcases Table.find?_define_eq_some hfind with rfl | hfind
      · exact .inr ht
      · exact .inl (.inr ⟨other, found, hfind, ht⟩)
  | inclusion path => exact .inl h
  | command tokens => exact .inl h

theorem mem_substitute {m : Macros} {tokens : List String} {token : String}
    (h : token ∈ (substitute m.short tokens).1) : token ∈ tokens ∨ m.Holds token := by
  rw [substitute_eq] at h
  obtain ⟨called, hcalled, ht⟩ := List.mem_flatMap.mp h
  cases hr : m.short.called? called with
  | none =>
    rw [Table.replace_of_not_called hr] at ht
    exact .inl (List.mem_singleton.mp ht ▸ hcalled)
  | some replacement =>
    rw [Table.replace_of_called hr] at ht
    obtain ⟨name, -, hs⟩ := Option.bind_eq_some_iff.mp hr
    exact .inr (.inl ⟨name, replacement, hs, ht⟩)

theorem mem_expandLine {m : Macros} {tokens : List String} {lines : List PendingLine}
    (h : expandLine m tokens = .ok lines) {line : PendingLine} (hline : line ∈ lines)
    {token : String} (ht : token ∈ line.tokens) : token ∈ tokens ∨ m.Holds token := by
  have ho := expandLine_outcome m tokens
  rw [h] at ho
  cases ho with
  | callFree hfree =>
    cases List.mem_singleton.mp hline
    exact .inl ht
  | substituted hs hl =>
    cases List.mem_singleton.mp hline
    exact mem_substitute ht
  | @fannedOut call body hc hl =>
    obtain ⟨inserted, hinserted, rfl⟩ := List.mem_map.mp hline
    obtain ⟨called, hcall, -, -⟩ := firstCall_eq_some hc
    -- Only the body is new around the call, all else has come through the substitution.
    have hkept : token ∈ call.before ∨ token ∈ call.after →
        token ∈ (substitute m.short tokens).1 := by
      intro hmem
      rw [hcall]
      exact List.mem_append.mpr (hmem.imp_right (List.mem_cons_of_mem called))
    simp only [List.mem_append] at ht
    obtain (hbefore | hbody) | hafter := ht
    · exact mem_substitute (hkept (.inl hbefore))
    · exact .inr (.inr ⟨call.name, body, hl, List.mem_flatten.mpr ⟨inserted, hinserted, hbody⟩⟩)
    · exact mem_substitute (hkept (.inr hafter))

def Context.Holds (c : Context) (token : String) : Prop :=
  (∃ line ∈ c.lines, token ∈ line.tokens) ∨ c.macros.Holds token

namespace Context
variable {c : Context} {token : String}

theorem not_holds_empty : ¬ empty.Holds token := by
  simp [empty, Holds, Macros.Holds]

theorem Holds.of_store {items : List Item} (h : (c.store items).Holds token) :
    c.Holds token ∨ ∃ item ∈ items, token ∈ item.tokens := by
  induction items generalizing c with
  | nil => exact .inl (by simpa using h)
  | cons item rest ih =>
    rw [c.store_cons] at h
    rcases ih h with hfirst | ⟨other, hother, ht⟩
    · have hitem : c.Holds token ∨ token ∈ item.tokens := by
        obtain ⟨line, hline, ht⟩ | hdefined := hfirst
        · rcases List.mem_append.mp hline with hline | hline
          · exact .inl (.inl ⟨line, hline, ht⟩)
          · cases item <;> simp [Item.pendingLine?] at hline
            subst hline
            exact .inr ht
        · exact hdefined.of_defineIn.imp_left .inr
      exact hitem.imp_right fun ht => ⟨item, List.mem_cons_self, ht⟩
    · exact .inr ⟨other, List.mem_cons_of_mem item hother, ht⟩

theorem mem_tokens_expand {cap : Int} {line : PendingLine}
    (hline : line ∈ (c.expand cap).1.lines) (ht : token ∈ line.tokens) : c.Holds token := by
  refine expand_forall (P := fun tokens => ∀ token ∈ tokens, c.Holds token) ?_
    (fun line hl token ht => .inl ⟨line, hl, ht⟩) cap line hline token ht
  intro tokens lines htokens he next hnext token ht
  exact (mem_expandLine he hnext ht).elim (htokens token) .inr

end Context

/-- Every token that a reading comes to after expansion is stored by one of its items. -/
theorem Reading.mem_tokens_expand {r : Reading} {cap : PassCap} {lines : List PendingLine}
    (h : r.expand cap = .ok lines) {line : PendingLine} (hline : line ∈ lines) {token : String}
    (ht : token ∈ line.tokens) : ∃ item ∈ r.items, token ∈ item.tokens := by
  rw [Reading.lines_of_expand h] at hline
  exact (Context.mem_tokens_expand hline ht).of_store.resolve_left Context.not_holds_empty

end CommandFile
