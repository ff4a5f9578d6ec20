import CommandFile.Proofs.Expansion.Calls
import Mathlib.Data.Fintype.Card
import Mathlib.Data.Set.Finite.Basic
import Mathlib.Logic.Relation
set_option autoImplicit false

namespace CommandFile

theorem Table.mem_entries_of_find? {α : Type} {t : Table α} {name : String} {value : α}
    (h : t.find? name = some value) : (name, value) ∈ t.entries := by
  obtain ⟨before, after, he, -⟩ := List.lookup_eq_some_iff.mp h
  rw [he]
  exact List.mem_append_right before List.mem_cons_self

theorem Table.find?_define_of_some {α : Type} {t : Table α} {name other : String} {found : α}
    (hnew : t.find? name = none) (h : t.find? other = some found) (value : α) :
    (t.define name value).find? other = some found := by
  have hne : other ≠ name := by
    rintro rfl
    simp [hnew] at h
  rw [t.find?_define_of_ne hne, h]

def calledNames (tokens : List String) : List String := tokens.filterMap Call.name?

theorem mem_calledNames_of_mem {tokens : List String} {token name : String} (ht : token ∈ tokens)
    (hn : Call.name? token = some name) : name ∈ calledNames tokens :=
  List.mem_filterMap.mpr ⟨token, ht, hn⟩

theorem calledNames_eq_nil_iff {tokens : List String} : calledNames tokens = [] ↔ CallFree tokens :=
  List.filterMap_eq_nil_iff

def CallsWithin (Known : String → Prop) (tokens : List String) : Prop :=
  ∀ name ∈ calledNames tokens, Known name

section CallsWithin
variable {Known : String → Prop}

theorem callsWithin_append {as bs : List String} :
    CallsWithin Known (as ++ bs) ↔ CallsWithin Known as ∧ CallsWithin Known bs := by
  simp only [CallsWithin, calledNames, List.filterMap_append, List.mem_append, or_imp, forall_and]

theorem callsWithin_cons {token : String} {rest : List String} :
    CallsWithin Known (token :: rest) ↔ CallsWithin Known [token] ∧ CallsWithin Known rest := by
  rw [← callsWithin_append, List.singleton_append]

end CallsWithin

namespace Macros

def Disjoint (m : Macros) : Prop := ∀ name, m.short.find? name = none ∨ m.long.find? name = none

theorem disjoint_of_entries {m : Macros}
    (h : ∀ e ∈ m.short.entries, ∀ f ∈ m.long.entries, e.1 ≠ f.1) : m.Disjoint := by
  intro name
  cases hs : m.short.find? name with
  | none => exact .inl rfl
  | some replacement =>
    cases hl : m.long.find? name with
    | none => exact .inr rfl
    | some body =>
      exact absurd rfl (h _ (Table.mem_entries_of_find? hs) _ (Table.mem_entries_of_find? hl))

/-- The lines that a call stands for. A short macro goes before a long one. -/
def definition? (m : Macros) (name : String) : Option (List (List String)) :=
  match m.short.find? name with
  | some replacement => some [replacement]
  | none => m.long.find? name

theorem definition?_of_short {m : Macros} {name : String} {replacement : List String}
    (h : m.short.find? name = some replacement) : m.definition? name = some [replacement] := by
  simp [definition?, h]

theorem definition?_of_not_short {m : Macros} {name : String} (h : m.short.find? name = none) :
    m.definition? name = m.long.find? name := by
  simp [definition?, h]

theorem definition?_of_long {m : Macros} (hm : m.Disjoint) {name : String}
    {body : List (List String)} (h : m.long.find? name = some body) :
    m.definition? name = some body := by
  cases hm name with
  | inl hs => rw [definition?_of_not_short hs, h]
  | inr hl => simp [hl] at h

def definitionLines (m : Macros) (name : String) : List (List String) :=
  (m.short.find? name).toList ++ (m.long.find? name).getD []

theorem mem_definitionLines {m : Macros} {name : String} {body : List (List String)}
    {line : List String} (hd : m.definition? name = some body) (hl : line ∈ body) :
    line ∈ m.definitionLines name := by
  cases hs : m.short.find? name with
  | some replacement =>
    cases (definition?_of_short hs).symm.trans hd
    simp [definitionLines, hs, List.mem_singleton.mp hl]
  | none =>
    rw [definition?_of_not_short hs] at hd
    simp [definitionLines, hs, hd, hl]

theorem definitionLines_of_entries {m : Macros} {P : String → List String → Prop}
    (hs : ∀ e ∈ m.short.entries, P e.1 e.2) (hl : ∀ e ∈ m.long.entries, ∀ line ∈ e.2, P e.1 line)
    (name : String) : ∀ line ∈ m.definitionLines name, P name line := by
  intro line hline
  rcases List.mem_append.mp hline with hline | hline
  · exact hs _ (Table.mem_entries_of_find? (Option.mem_toList.mp hline))
  · cases hb : m.long.find? name with
    | none => simp [hb] at hline
    | some body => exact hl _ (Table.mem_entries_of_find? hb) line (by simpa [hb] using hline)

def CalledBy (m : Macros) (callee name : String) : Prop :=
  ∃ line ∈ m.definitionLines name, callee ∈ calledNames line

instance (m : Macros) (callee name : String) : Decidable (m.CalledBy callee name) :=
  inferInstanceAs (Decidable (∃ line ∈ m.definitionLines name, callee ∈ calledNames line))

def Acyclic (m : Macros) : Prop := ∀ name, ¬ Relation.TransGen m.CalledBy name name

def names (m : Macros) : List String := m.short.entries.map (·.1) ++ m.long.entries.map (·.1)

theorem CalledBy.mem_names {m : Macros} {callee name : String} (h : m.CalledBy callee name) :
    name ∈ m.names := by
  obtain ⟨line, hl, -⟩ := h
  cases hs : m.short.find? name with
  | some replacement =>
    exact List.mem_append_left _ (List.mem_map_of_mem (Table.mem_entries_of_find? hs))
  | none =>
    cases hb : m.long.find? name with
    | none => simp [definitionLines, hs, hb] at hl
    | some body =>
      exact List.mem_append_right _ (List.mem_map_of_mem (Table.mem_entries_of_find? hb))

theorem Acyclic.wellFounded {m : Macros} (h : m.Acyclic) : WellFounded m.CalledBy := by
  -- Only the names in the tables call others. They are finitely many, and chains of calls among
  -- them are transitive and irreflexive.
  let below (a b : {name // name ∈ m.names}) : Prop := Relation.TransGen m.CalledBy a.1 b.1
  have hfinite : Finite {name // name ∈ m.names} := List.finite_toSet m.names
  have htrans : IsTrans _ below := ⟨fun _ _ _ hab hbc => hab.trans hbc⟩
  have hirrefl : Std.Irrefl below := ⟨fun a => h a.1⟩
  have hbelow : WellFounded below := Finite.wellFounded_of_trans_of_irrefl below
  have hnamed : ∀ a : {name // name ∈ m.names}, Acc m.CalledBy a.1 := by
    intro a
    induction a using hbelow.induction with
    | _ a ih =>
      refine Acc.intro _ fun callee hc => ?_
      by_cases hk : callee ∈ m.names
      · exact ih ⟨callee, hk⟩ (.single hc)
      · exact Acc.intro _ fun _ hc' => absurd hc'.mem_names hk
  refine ⟨fun name => ?_⟩
  by_cases hk : name ∈ m.names
  · exact hnamed ⟨name, hk⟩
  · exact Acc.intro _ fun _ hc => absurd hc.mem_names hk

theorem acyclic_of_rank {m : Macros} (rank : String → Nat)
    (hs : ∀ e ∈ m.short.entries, ∀ callee ∈ calledNames e.2, rank callee < rank e.1)
    (hl : ∀ e ∈ m.long.entries, ∀ line ∈ e.2, ∀ callee ∈ calledNames line,
      rank callee < rank e.1) : m.Acyclic := by
  have hstep : ∀ {callee name : String}, m.CalledBy callee name → rank callee < rank name := by
    intro callee name h
    obtain ⟨line, hline, hc⟩ := h
    exact definitionLines_of_entries (P := fun name line => ∀ callee ∈ calledNames line,
      rank callee < rank name) hs hl name line hline callee hc
  have hchain : ∀ {callee name : String}, Relation.TransGen m.CalledBy callee name →
      rank callee < rank name := by
    intro callee name h
    induction h with
    | single h => exact hstep h
    | tail _ h ih => exact Nat.lt_trans ih (hstep h)
  exact fun name h => Nat.lt_irrefl _ (hchain h)

def Defines (m : Macros) (tokens : List String) : Prop :=
  ∀ name ∈ calledNames tokens, (m.short.find? name).isSome ∨ (m.long.find? name).isSome

instance (m : Macros) (tokens : List String) : Decidable (m.Defines tokens) :=
  inferInstanceAs (Decidable (∀ name ∈ calledNames tokens,
    (m.short.find? name).isSome ∨ (m.long.find? name).isSome))

def Closed (m : Macros) : Prop := ∀ name, ∀ line ∈ m.definitionLines name, m.Defines line

theorem closed_of_entries {m : Macros} (hs : ∀ e ∈ m.short.entries, m.Defines e.2)
    (hl : ∀ e ∈ m.long.entries, ∀ line ∈ e.2, m.Defines line) : m.Closed :=
  definitionLines_of_entries (P := fun _ line => m.Defines line) hs hl

def Encloses (m : Macros) (Known : String → Prop) : Prop :=
  ∀ name, Known name → ∀ line ∈ m.definitionLines name, CallsWithin Known line

theorem Closed.encloses {m : Macros} (hm : m.Closed) :
    m.Encloses fun name => (m.short.find? name).isSome ∨ (m.long.find? name).isSome :=
  fun name _ => hm name

structure Extends (larger m : Macros) : Prop where
  short {name : String} {replacement : List String} :
    m.short.find? name = some replacement → larger.short.find? name = some replacement
  long {name : String} {body : List (List String)} :
    m.long.find? name = some body → larger.long.find? name = some body

theorem Extends.refl (m : Macros) : m.Extends m := ⟨id, id⟩

theorem Extends.trans {larger middle m : Macros} (hl : larger.Extends middle)
    (hm : middle.Extends m) : larger.Extends m :=
  ⟨fun h => hl.short (hm.short h), fun h => hl.long (hm.long h)⟩

theorem Extends.shortStep {larger m : Macros} (h : larger.Extends m) {tokens next : List String}
    (hstep : ShortStep m.short tokens next) : ShortStep larger.short tokens next := by
  obtain ⟨before, after, hr⟩ := hstep
  obtain ⟨name, hn, hs⟩ := Option.bind_eq_some_iff.mp hr
  refine .replace before after ?_
  rw [larger.short.called?_of_name hn]
  exact h.short hs

end Macros

section CallsWithin
variable {m : Macros} {Known : String → Prop} {tokens : List String}

theorem CallsWithin.of_shortStep (hm : m.Encloses Known) {next : List String}
    (h : CallsWithin Known tokens) (hstep : ShortStep m.short tokens next) :
    CallsWithin Known next := by
  cases hstep with
  | @replace token replacement before after hr =>
    obtain ⟨name, hn, hs⟩ := Option.bind_eq_some_iff.mp hr
    obtain ⟨hbefore, hcalled⟩ := callsWithin_append.mp h
    obtain ⟨hcall, hafter⟩ := callsWithin_cons.mp hcalled
    have hknown : Known name := hcall name (mem_calledNames_of_mem (List.mem_singleton_self _) hn)
    have hreplacement := hm name hknown replacement (by simp [Macros.definitionLines, hs])
    exact callsWithin_append.mpr ⟨callsWithin_append.mpr ⟨hbefore, hreplacement⟩, hafter⟩

theorem CallsWithin.substitute (hm : m.Encloses Known) (h : CallsWithin Known tokens) :
    CallsWithin Known (substitute m.short tokens).1 := by
  have hsteps := substitute_steps m.short [] tokens
  simp only [List.nil_append] at hsteps
  generalize (CommandFile.substitute m.short tokens).1 = next at hsteps
  induction hsteps with
  | refl => exact h
  | tail _ hstep ih => exact ih.of_shortStep hm hstep

theorem CallsWithin.expandLine (hm : m.Encloses Known) (h : CallsWithin Known tokens)
    {lines : List PendingLine} (he : expandLine m tokens = .ok lines) :
    ∀ line ∈ lines, CallsWithin Known line.tokens := by
  have hsub := h.substitute hm
  have ho := expandLine_outcome m tokens
  rw [he] at ho
  cases ho with
  | callFree hf => simpa using h
  | substituted hs hl => simpa using hsub
  | @fannedOut call body hc hl =>
    obtain ⟨token, ht, hn, -⟩ := firstCall_eq_some hc
    rw [ht] at hsub
    obtain ⟨hbefore, hcalled⟩ := callsWithin_append.mp hsub
    obtain ⟨hcall, hafter⟩ := callsWithin_cons.mp hcalled
    have hknown := hcall call.name (mem_calledNames_of_mem (List.mem_singleton_self _) hn)
    intro line hline
    obtain ⟨inserted, hinserted, rfl⟩ := List.mem_map.mp hline
    have hbody := hm call.name hknown inserted (by simp [Macros.definitionLines, hl, hinserted])
    exact callsWithin_append.mpr ⟨callsWithin_append.mpr ⟨hbefore, hbody⟩, hafter⟩

end CallsWithin
end CommandFile
