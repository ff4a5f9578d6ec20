import CommandFile.Proofs.Expansion.Agreement
set_option autoImplicit false

namespace CommandFile

namespace Macros

inductive Reachable (m : Macros) (lines : List PendingLine) : String → Prop where
  | called {line : PendingLine} {name : String} : line ∈ lines → line.dirty = true →
      name ∈ calledNames line.tokens → Reachable m lines name
  | inner {name callee : String} : Reachable m lines name → m.CalledBy callee name →
      Reachable m lines callee

variable {m : Macros} {lines : List PendingLine} {Known : String → Prop}

theorem dirtyWithin_reachable (m : Macros) (lines : List PendingLine) :
    DirtyWithin (m.Reachable lines) lines :=
  fun _ hl hd _ hname => .called hl hd hname

theorem encloses_reachable (m : Macros) (lines : List PendingLine) :
    m.Encloses (m.Reachable lines) :=
  fun _ hname line hl _ hcallee => .inner hname ⟨line, hl, hcallee⟩

theorem Reachable.known (hlines : DirtyWithin Known lines) (hm : m.Encloses Known) {name : String}
    (h : m.Reachable lines name) : Known name := by
  induction h with
  | called hl hd hname => exact hlines _ hl hd _ hname
  | inner _ hcalled ih =>
    obtain ⟨line, hl, hcallee⟩ := hcalled
    exact hm _ ih line hl _ hcallee

end Macros

/-- If two contexts have the same lines, and their macros agree on all names that can be reached in
the first one, expansion does the same in both: it leaves the same lines with the same marks, and
ends after as many passes or with the same error. -/
theorem expand_ignores_unreachable {c other : Context} (hlines : other.lines = c.lines)
    (h : c.macros.AgreeOn (c.macros.Reachable c.lines) other.macros) (cap : Int) :
    other.expand cap = (⟨other.macros, (c.expand cap).1.lines⟩, (c.expand cap).2) := by
  have hexpand := h.expandLines_congr (c.macros.encloses_reachable c.lines)
    (c.macros.dirtyWithin_reachable c.lines) cap
  rw [Context.expand, Context.expand, hlines, hexpand]
  cases expandLines c.macros c.lines cap <;> rfl

def currentContext : Context where
  macros := ⟨⟨[("A", ["x", "L()"]), ("OLD", ["OLD()"])]⟩, ⟨[("L", [["y"], ["GONE()", "z"]])]⟩⟩
  lines := [⟨["OLD()"], false⟩, ⟨["A()", "w"], true⟩]

def currentNames : List String := ["A", "L", "GONE"]

def revisedMacros : Macros :=
  ⟨⟨[("NEW", ["LOOP()"]), ("A", ["x", "L()"])]⟩,
    ⟨[("OLD", []), ("L", [["y"], ["GONE()", "z"]]), ("LOOP", [["LOOP()"], ["NOWHERE()"]])]⟩⟩

theorem expand_revisedMacros :
    (∀ name, currentContext.macros.Reachable currentContext.lines name → name ∈ currentNames) ∧
    Context.expand ⟨revisedMacros, currentContext.lines⟩ 1 =
      (⟨revisedMacros,
        [⟨["OLD()"], false⟩, ⟨["x", "y", "w"], true⟩, ⟨["x", "GONE()", "z", "w"], true⟩]⟩,
        .ok 1) ∧
    Context.expand ⟨revisedMacros, currentContext.lines⟩ 10 =
      (⟨revisedMacros,
        [⟨["OLD()"], false⟩, ⟨["x", "y", "w"], false⟩, ⟨["x", "GONE()", "z", "w"], true⟩]⟩,
        .error ⟨"GONE"⟩) := by
  have hlines : DirtyWithin (· ∈ currentNames) currentContext.lines := by
    unfold DirtyWithin CallsWithin
    decide +kernel
  have hm : currentContext.macros.Encloses (· ∈ currentNames) := by
    unfold Macros.Encloses CallsWithin
    decide +kernel
  have hreached : ∀ name, currentContext.macros.Reachable currentContext.lines name →
      name ∈ currentNames := fun _ hname => hname.known hlines hm
  have hshort : ∀ name ∈ currentNames,
      revisedMacros.short.find? name = currentContext.macros.short.find? name := by decide +kernel
  have hlong : ∀ name ∈ currentNames,
      revisedMacros.long.find? name = currentContext.macros.long.find? name := by decide +kernel
  have hagree : currentContext.macros.AgreeOn
      (currentContext.macros.Reachable currentContext.lines) revisedMacros :=
    ⟨fun name hname => hshort name (hreached name hname),
      fun name hname => hlong name (hreached name hname)⟩
  have hone : (currentContext.expand 1).1.lines =
      [⟨["OLD()"], false⟩, ⟨["x", "y", "w"], true⟩, ⟨["x", "GONE()", "z", "w"], true⟩] ∧
      (currentContext.expand 1).2 = .ok 1 := by decide +kernel
  have hten : (currentContext.expand 10).1.lines =
      [⟨["OLD()"], false⟩, ⟨["x", "y", "w"], false⟩, ⟨["x", "GONE()", "z", "w"], true⟩] ∧
      (currentContext.expand 10).2 = .error ⟨"GONE"⟩ := by decide +kernel
  have hexpand := @expand_ignores_unreachable currentContext
    ⟨revisedMacros, currentContext.lines⟩ rfl hagree
  refine ⟨hreached, ?_, ?_⟩
  · rw [hexpand, hone.1, hone.2]
  · rw [hexpand, hten.1, hten.2]

end CommandFile
