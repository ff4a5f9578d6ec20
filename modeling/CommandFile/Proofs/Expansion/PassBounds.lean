import CommandFile.Proofs.Expansion.Descent
import Mathlib.Algebra.Order.BigOperators.Group.List
import Mathlib.Algebra.Order.Ring.Nat
set_option autoImplicit false

/-!
How many passes are enough. If every name weighs more than the calls of any line that it stands for,
a line loses weight in each pass, whatever is replaced or fanned out in it. If only short macros are
called, one pass replaces all calls of a line at once, so that the depth of the definitions counts
and not the number of calls.
-/
namespace CommandFile
variable {m : Macros} {tokens : List String}

section Weights
variable {weight : String → Nat}

def tokenWeight (weight : String → Nat) (token : String) : Nat :=
  match Call.name? token with
  | some name => weight name
  | none => 0

def callWeight (weight : String → Nat) (tokens : List String) : Nat :=
  (tokens.map (tokenWeight weight)).sum

theorem tokenWeight_of_call (weight : String → Nat) {token name : String}
    (h : Call.name? token = some name) : tokenWeight weight token = weight name := by
  simp [tokenWeight, h]

@[simp] theorem callWeight_cons (weight : String → Nat) (token : String) (rest : List String) :
    callWeight weight (token :: rest) = tokenWeight weight token + callWeight weight rest := by
  simp [callWeight]

@[simp] theorem callWeight_append (weight : String → Nat) (as bs : List String) :
    callWeight weight (as ++ bs) = callWeight weight as + callWeight weight bs := by
  simp [callWeight]

theorem callWeight_flatMap (weight : String → Nat) (f : String → List String)
    (tokens : List String) :
    callWeight weight (tokens.flatMap f) =
      (tokens.map fun token => callWeight weight (f token)).sum := by
  induction tokens with
  | nil => rfl
  | cons token rest ih => simp [ih]

theorem weight_eq_zero_of_callWeight (h : callWeight weight tokens = 0) :
    ∀ name ∈ calledNames tokens, weight name = 0 := by
  intro name hname
  obtain ⟨token, ht, hn⟩ := List.mem_filterMap.mp hname
  rw [← tokenWeight_of_call weight hn]
  exact List.sum_eq_zero_iff.mp h _ (List.mem_map_of_mem ht)

/-- A name weighs more than the calls of any line in its definitions weigh together. -/
def Macros.Weighed (m : Macros) (weight : String → Nat) : Prop :=
  ∀ name, ∀ line ∈ m.definitionLines name, callWeight weight line < weight name

namespace Macros.Weighed

theorem short (hm : m.Weighed weight) {name : String} {replacement : List String}
    (h : m.short.find? name = some replacement) : callWeight weight replacement < weight name :=
  hm name replacement (by simp [definitionLines, h])

theorem long (hm : m.Weighed weight) {name : String} {body : List (List String)}
    (h : m.long.find? name = some body) {line : List String} (hline : line ∈ body) :
    callWeight weight line < weight name :=
  hm name line (by simp [definitionLines, h, hline])

theorem replace_lt (hm : m.Weighed weight) {token : String}
    (h : (m.short.called? token).isSome = true) :
    callWeight weight (m.short.replace token) < tokenWeight weight token := by
  obtain ⟨replacement, hr⟩ := Option.isSome_iff_exists.mp h
  obtain ⟨name, hn, hs⟩ := Option.bind_eq_some_iff.mp hr
  rw [Table.replace_of_called hr, tokenWeight_of_call weight hn]
  exact hm.short hs

theorem replace_le (hm : m.Weighed weight) (token : String) :
    callWeight weight (m.short.replace token) ≤ tokenWeight weight token := by
  cases h : m.short.called? token with
  | some replacement => exact Nat.le_of_lt (hm.replace_lt (by simp [h]))
  | none => simp [Table.replace_of_not_called h, callWeight]

theorem substitute_le (hm : m.Weighed weight) (tokens : List String) :
    callWeight weight (substitute m.short tokens).1 ≤ callWeight weight tokens := by
  rw [substitute_eq, callWeight_flatMap]
  exact List.sum_le_sum fun token _ => hm.replace_le token

theorem substitute_lt (hm : m.Weighed weight) (h : (substitute m.short tokens).2 = true) :
    callWeight weight (substitute m.short tokens).1 < callWeight weight tokens := by
  simp only [substitute_eq, List.any_eq_true] at h ⊢
  obtain ⟨token, ht, hcalled⟩ := h
  rw [callWeight_flatMap]
  exact List.sum_lt_sum _ _ (fun other _ => hm.replace_le other) ⟨token, ht, hm.replace_lt hcalled⟩

/-- A line that stays dirty has had a call replaced or fanned out, and either costs weight. -/
theorem expandLine_lt (hm : m.Weighed weight) {lines : List PendingLine}
    (he : expandLine m tokens = .ok lines) {line : PendingLine} (hl : line ∈ lines)
    (hd : line.dirty = true) : callWeight weight line.tokens < callWeight weight tokens := by
  have ho := expandLine_outcome m tokens
  rw [he] at ho
  cases ho with
  | callFree hf =>
    cases List.mem_singleton.mp hl
    cases hd
  | substituted hs hlong =>
    cases List.mem_singleton.mp hl
    exact hm.substitute_lt hs
  | @fannedOut call body hc hlong =>
    obtain ⟨inserted, hinserted, rfl⟩ := List.mem_map.mp hl
    obtain ⟨token, htokens, hn, -⟩ := firstCall_eq_some hc
    have hlighter := hm.long hlong hinserted
    calc callWeight weight (call.before ++ inserted ++ call.after)
        < callWeight weight (call.before ++ token :: call.after) := by
          simp only [callWeight_append, callWeight_cons, tokenWeight_of_call weight hn]
          omega
      _ = callWeight weight (substitute m.short tokens).1 := by rw [htokens]
      _ ≤ callWeight weight tokens := hm.substitute_le tokens

theorem descends (hm : m.Weighed weight) (hclosed : m.Closed) :
    Descends m fun level tokens => m.Defines tokens ∧ callWeight weight tokens ≤ level := by
  intro level tokens h
  obtain ⟨hdefined, hle⟩ := h
  obtain ⟨lines, he, hlines⟩ := expandLine_of_defines hclosed hdefined
  refine ⟨lines, he, fun line hl hd => ?_⟩
  exact ⟨_, Nat.lt_of_lt_of_le (hm.expandLine_lt he hl hd) hle, hlines line hl, Nat.le_refl _⟩

/-- Only an empty body lets a macro weigh nothing. -/
theorem find?_of_weight_zero (hm : m.Weighed weight) {name : String}
    (hdefined : (m.short.find? name).isSome ∨ (m.long.find? name).isSome)
    (hzero : weight name = 0) : m.short.find? name = none ∧ m.long.find? name = some [] := by
  cases hs : m.short.find? name with
  | some replacement =>
    have hlighter := hm.short hs
    omega
  | none =>
    cases hl : m.long.find? name with
    | none => simp [hs, hl] at hdefined
    | some body =>
      cases body with
      | nil => exact ⟨rfl, rfl⟩
      | cons line rest =>
        have hlighter := hm.long hl (List.mem_cons_self)
        omega

end Macros.Weighed

/-- Where every call is that of a macro, the weight of the heaviest dirty line bounds the passes: with
one more the expansion is over. With as many, no calls are left in place of a dirty line but those of
long macros without lines that weigh nothing. -/
theorem expand_bounded_by_weight (c : Context) (weight : String → Nat) (heaviest : Nat)
    (hm : c.macros.Weighed weight) (hclosed : c.macros.Closed)
    (hdefined : DirtyDefined c.macros c.lines)
    (hheaviest : ∀ line ∈ c.lines, line.dirty = true → callWeight weight line.tokens ≤ heaviest) :
    (∀ cap : Int, (heaviest : Int) + 1 ≤ cap → ∃ next passes, c.expand cap = (next, .ok passes) ∧
      passes ≤ heaviest + 1 ∧ ∀ line ∈ next.lines, line.dirty = false) ∧
    ∀ cap : Int, (heaviest : Int) ≤ cap → ∃ next passes, c.expand cap = (next, .ok passes) ∧
      next.lines = c.lines.flatMap (c.expansionOf cap) ∧
      ∀ line ∈ c.lines, line.dirty = true → ∀ left ∈ c.expansionOf cap line,
        (∀ name ∈ calledNames left.tokens, weight name = 0 ∧
          c.macros.short.find? name = none ∧ c.macros.long.find? name = some []) ∧
        ((∀ name, c.macros.long.find? name = some [] → 0 < weight name) →
          CallFree left.tokens) := by
  have hdescends := hm.descends hclosed
  have hlines : ∀ line ∈ c.lines, line.dirty = true →
      c.macros.Defines line.tokens ∧ callWeight weight line.tokens ≤ heaviest :=
    fun line hl hd => ⟨hdefined line hl hd, hheaviest line hl hd⟩
  constructor
  · intro cap hcap
    obtain ⟨next, passes, he, -, hpasses, hclean⟩ := hdescends.expand hlines cap
    exact ⟨next, passes, he, hpasses, hclean hcap⟩
  · intro cap hcap
    obtain ⟨next, passes, he, hnext, -⟩ := hdescends.expand hlines cap
    refine ⟨next, passes, he, hnext, fun line hl hd left hleft => ?_⟩
    have hcalls : ∀ name ∈ calledNames left.tokens, weight name = 0 ∧
        c.macros.short.find? name = none ∧ c.macros.long.find? name = some [] := by
      intro name hname
      obtain hfree | ⟨lower, hlower, hdefined, hweight⟩ :=
        hdescends.expansionOf hd (hlines line hl hd) cap left hleft
      · rw [calledNames_eq_nil_iff.mpr hfree] at hname
        cases hname
      · have hnothing : callWeight weight left.tokens = 0 := by omega
        have hzero := weight_eq_zero_of_callWeight hnothing name hname
        exact ⟨hzero, hm.find?_of_weight_zero (hdefined name hname) hzero⟩
    refine ⟨hcalls, fun hpositive token ht => ?_⟩
    cases hn : Call.name? token with
    | none => rfl
    | some name =>
      obtain ⟨hzero, -, hempty⟩ := hcalls name (mem_calledNames_of_mem ht hn)
      have hpos := hpositive name hempty
      omega

def weighedContext : Context where
  macros :=
    ⟨⟨[("S", ["x", "L()", "T()"]), ("T", ["y"])]⟩,
      ⟨[("L", [["1"], ["2", "T()"]]), ("T", [["z"]]), ("E", [])]⟩⟩
  lines := [⟨["S()", "L()"], true⟩, ⟨["a", "S()", "E()"], true⟩, ⟨["U()"], false⟩]

def weighedNames (name : String) : Nat := if name = "S" then 4 else if name = "L" then 2 else 1

theorem expand_weighedContext_bounded :
    (∃ next passes, weighedContext.expand 7 = (next, .ok passes) ∧ passes ≤ 7 ∧
      ∀ line ∈ next.lines, line.dirty = false) ∧
    ∀ left ∈ weighedContext.expansionOf 6 ⟨["S()", "L()"], true⟩, CallFree left.tokens := by
  have hm : weighedContext.macros.Weighed weighedNames :=
    Macros.definitionLines_of_entries
      (P := fun name line => callWeight weighedNames line < weighedNames name)
      (by decide +kernel) (by decide +kernel)
  have hclosed : weighedContext.macros.Closed :=
    Macros.closed_of_entries (by decide +kernel) (by decide +kernel)
  have hdefined : DirtyDefined weighedContext.macros weighedContext.lines := by
    unfold DirtyDefined
    decide +kernel
  have hpositive : ∀ name, 0 < weighedNames name := by
    intro name
    unfold weighedNames
    split_ifs <;> decide
  obtain ⟨hpasses, hcalls⟩ := expand_bounded_by_weight weighedContext weighedNames 6 hm hclosed
    hdefined (by decide +kernel)
  obtain ⟨_, _, -, -, hfree⟩ := hcalls 6 (by decide)
  exact ⟨hpasses 7 (by decide), fun left hleft =>
    (hfree ⟨["S()", "L()"], true⟩ (by decide) rfl left hleft).2 fun name _ => hpositive name⟩

/-- The call of an empty body weighs nothing, but takes a pass to be dropped. -/
def vanishingContext : Context where
  macros := ⟨.empty, ⟨[("E", []), ("L", [["E()"]])]⟩⟩
  lines := [⟨["L()"], true⟩]

def vanishingNames (name : String) : Nat := if name = "L" then 1 else 0

theorem vanishingContext_keeps_call :
    vanishingContext.macros.Weighed vanishingNames ∧ vanishingContext.macros.Closed ∧
    DirtyDefined vanishingContext.macros vanishingContext.lines ∧
    (∀ line ∈ vanishingContext.lines, line.dirty = true ∧
      callWeight vanishingNames line.tokens = 1) ∧
    ∃ line ∈ vanishingContext.lines, line.dirty = true ∧
      ∃ left ∈ vanishingContext.expansionOf 1 line, ¬ CallFree left.tokens := by
  have hm : vanishingContext.macros.Weighed vanishingNames :=
    Macros.definitionLines_of_entries
      (P := fun name line => callWeight vanishingNames line < vanishingNames name)
      (by decide +kernel) (by decide +kernel)
  have hdefined : DirtyDefined vanishingContext.macros vanishingContext.lines := by
    unfold DirtyDefined
    decide +kernel
  have hleft : vanishingContext.expansionOf 1 ⟨["L()"], true⟩ = [⟨["E()"], true⟩] := by
    decide +kernel
  refine ⟨hm, Macros.closed_of_entries (by decide +kernel) (by decide +kernel), hdefined,
    by decide +kernel, ⟨["L()"], true⟩, by decide, rfl, ⟨["E()"], true⟩, ?_, by decide +kernel⟩
  rw [hleft]
  exact List.mem_singleton_self _

end Weights

def Macros.ShortCalls (m : Macros) (tokens : List String) : Prop :=
  ∀ name ∈ calledNames tokens, (m.short.find? name).isSome ∧ m.long.find? name = none

instance (m : Macros) (tokens : List String) : Decidable (m.ShortCalls tokens) :=
  inferInstanceAs (Decidable (∀ name ∈ calledNames tokens,
    (m.short.find? name).isSome ∧ m.long.find? name = none))

/-- The short macros call only short ones, each of which has a lower rank, and all ranks are below the
depth. -/
structure Macros.Ranked (m : Macros) (rank : String → Nat) (depth : Nat) : Prop where
  calls {name : String} {replacement : List String} :
    m.short.find? name = some replacement → m.ShortCalls replacement
  below {name : String} {replacement : List String} :
    m.short.find? name = some replacement → rank name < depth
  lower {name : String} {replacement : List String} :
    m.short.find? name = some replacement → ∀ callee ∈ calledNames replacement,
      rank callee < rank name

section Ranks
variable {rank : String → Nat} {depth : Nat}

theorem Macros.ranked_of_entries
    (h : ∀ e ∈ m.short.entries, m.ShortCalls e.2 ∧ rank e.1 < depth ∧
      ∀ callee ∈ calledNames e.2, rank callee < rank e.1) : m.Ranked rank depth where
  calls hs := (h _ (Table.mem_entries_of_find? hs)).1
  below hs := (h _ (Table.mem_entries_of_find? hs)).2.1
  lower hs := (h _ (Table.mem_entries_of_find? hs)).2.2

theorem Macros.ShortCalls.mem_substitute (h : m.ShortCalls tokens) {callee : String}
    (hcallee : callee ∈ calledNames (substitute m.short tokens).1) :
    ∃ name ∈ calledNames tokens, ∃ replacement, m.short.find? name = some replacement ∧
      callee ∈ calledNames replacement := by
  obtain ⟨token, ht, hn⟩ := List.mem_filterMap.mp hcallee
  rw [substitute_eq] at ht
  obtain ⟨called, hcalled, ht⟩ := List.mem_flatMap.mp ht
  cases hname : Call.name? called with
  | none =>
    rw [Table.replace_of_not_called (m.short.called?_of_not_call hname)] at ht
    cases List.mem_singleton.mp ht
    cases hname.symm.trans hn
  | some name =>
    have hmem := mem_calledNames_of_mem hcalled hname
    obtain ⟨replacement, hs⟩ := Option.isSome_iff_exists.mp (h name hmem).1
    have hreplaced : m.short.called? called = some replacement := by
      rw [m.short.called?_of_name hname, hs]
    rw [Table.replace_of_called hreplaced] at ht
    exact ⟨name, hmem, replacement, hs, mem_calledNames_of_mem ht hn⟩

namespace Macros.Ranked

theorem shortCalls_substitute (hm : m.Ranked rank depth) (h : m.ShortCalls tokens) :
    m.ShortCalls (substitute m.short tokens).1 := by
  intro callee hcallee
  obtain ⟨name, -, replacement, hs, hin⟩ := h.mem_substitute hcallee
  exact hm.calls hs callee hin

theorem descends (hm : m.Ranked rank depth) :
    Descends m fun level tokens =>
      m.ShortCalls tokens ∧ ∀ name ∈ calledNames tokens, rank name < level := by
  intro level tokens h
  obtain ⟨hcalls, hbelow⟩ := h
  have ho := expandLine_outcome m tokens
  cases he : expandLine m tokens with
  | error e =>
    rw [he] at ho
    cases ho with
    | unresolved hc hcalled hlong =>
      obtain ⟨token, htokens, hn, -⟩ := firstCall_eq_some hc
      have hmem : token ∈ tokens := by simp [htokens]
      have hshort := (hcalls _ (mem_calledNames_of_mem hmem hn)).1
      rw [← m.short.called?_of_name hn, hcalled token hmem] at hshort
      cases hshort
  | ok lines =>
    refine ⟨lines, rfl, fun line hl hd => ?_⟩
    rw [he] at ho
    cases ho with
    | callFree hf =>
      cases List.mem_singleton.mp hl
      cases hd
    | substituted hs hlong =>
      cases List.mem_singleton.mp hl
      obtain ⟨token, ht, hcalled⟩ : ∃ token ∈ tokens, (m.short.called? token).isSome = true := by
        simpa [substitute_eq] using hs
      obtain ⟨replacement, hr⟩ := Option.isSome_iff_exists.mp hcalled
      obtain ⟨name, hn, -⟩ := Option.bind_eq_some_iff.mp hr
      have hpositive := hbelow name (mem_calledNames_of_mem ht hn)
      refine ⟨level - 1, by omega, hm.shortCalls_substitute hcalls, fun callee hcallee => ?_⟩
      obtain ⟨caller, hcaller, replaced, hfind, hin⟩ := hcalls.mem_substitute hcallee
      have hrank := hm.lower hfind callee hin
      have htop := hbelow caller hcaller
      omega
    | @fannedOut call body hc hlong =>
      -- No call that comes in with a replacement fans out.
      obtain ⟨token, htokens, hn, -⟩ := firstCall_eq_some hc
      have hmem : token ∈ (substitute m.short tokens).1 := by simp [htokens]
      have hnone := (hm.shortCalls_substitute hcalls _ (mem_calledNames_of_mem hmem hn)).2
      simp [hnone] at hlong

end Macros.Ranked

/-- Calls of short macros are resolved level by level: one more pass than the definitions are deep is
enough, and every pass takes all calls that are left of a dirty line one rank down, however many
they are and wherever they stand. -/
theorem expand_resolves_rank_per_pass (c : Context) (rank : String → Nat) (depth : Nat)
    (hm : c.macros.Ranked rank depth)
    (hcalls : ∀ line ∈ c.lines, line.dirty = true → c.macros.ShortCalls line.tokens) :
    (∀ cap : Int, (depth : Int) + 1 ≤ cap → ∃ next passes, c.expand cap = (next, .ok passes) ∧
      passes ≤ depth + 1 ∧ ∀ line ∈ next.lines, line.dirty = false) ∧
    ∀ cap : Nat, ∃ next passes, c.expand cap = (next, .ok passes) ∧
      next.lines = c.lines.flatMap (c.expansionOf cap) ∧
      ∀ line ∈ c.lines, line.dirty = true → ∀ left ∈ c.expansionOf cap line,
        ∀ name ∈ calledNames left.tokens, rank name + cap < depth := by
  have hlines : ∀ line ∈ c.lines, line.dirty = true →
      c.macros.ShortCalls line.tokens ∧ ∀ name ∈ calledNames line.tokens, rank name < depth := by
    intro line hl hd
    refine ⟨hcalls line hl hd, fun name hname => ?_⟩
    obtain ⟨replacement, hs⟩ := Option.isSome_iff_exists.mp (hcalls line hl hd name hname).1
    exact hm.below hs
  constructor
  · intro cap hcap
    obtain ⟨next, passes, he, -, hpasses, hclean⟩ := hm.descends.expand hlines cap
    exact ⟨next, passes, he, hpasses, hclean hcap⟩
  · intro cap
    obtain ⟨next, passes, he, hnext, -⟩ := hm.descends.expand hlines cap
    refine ⟨next, passes, he, hnext, fun line hl hd left hleft name hname => ?_⟩
    obtain hfree | ⟨lower, hlower, -, hrank⟩ :=
      hm.descends.expansionOf hd (hlines line hl hd) cap left hleft
    · rw [calledNames_eq_nil_iff.mpr hfree] at hname
      cases hname
    · have hname := hrank name hname
      omega

def shallowContext : Context where
  macros :=
    ⟨⟨[("A", ["B()", "x", "B()", "C()"]), ("B", ["C()", "y", "C()"]), ("C", [])]⟩,
      ⟨[("L", [["A()"], ["L()"]])]⟩⟩
  lines := [⟨["A()", "B()", "A()", "C()", "A()"], true⟩, ⟨["L()"], false⟩, ⟨["z"], true⟩]

def shallowRank (name : String) : Nat := if name = "A" then 2 else if name = "B" then 1 else 0

theorem expand_shallowContext_ranks :
    (∃ next passes, shallowContext.expand 4 = (next, .ok passes) ∧ passes ≤ 4 ∧
      ∀ line ∈ next.lines, line.dirty = false) ∧
    ∀ left ∈ shallowContext.expansionOf 2 ⟨["A()", "B()", "A()", "C()", "A()"], true⟩,
      ∀ name ∈ calledNames left.tokens, shallowRank name < 1 := by
  have hm : shallowContext.macros.Ranked shallowRank 3 :=
    Macros.ranked_of_entries (by decide +kernel)
  obtain ⟨hpasses, hranks⟩ := expand_resolves_rank_per_pass shallowContext shallowRank 3 hm
    (by decide +kernel)
  obtain ⟨_, _, -, -, hbelow⟩ := hranks 2
  refine ⟨hpasses 4 (by decide), fun left hleft name hname => ?_⟩
  have hrank := hbelow _ (by decide) rfl left hleft name hname
  omega

end Ranks
end CommandFile
