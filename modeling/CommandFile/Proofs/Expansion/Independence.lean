import CommandFile.Proofs.Expansion.InPlace
set_option autoImplicit false

namespace CommandFile
variable {m : Macros} {lines as bs : List PendingLine} {cap : Int} {pass : Nat}

theorem expandLines_append {a b : Expanded} (ha : expandLines m as cap = .ok a)
    (hb : expandLines m bs cap = .ok b) :
    expandLines m (as ++ bs) cap = .ok ⟨a.lines ++ b.lines, max a.passes b.passes⟩ := by
  obtain ⟨ran, he⟩ := expandLines_of_afterPasses <| afterPasses_append_eq_ok.mpr
    ⟨a.lines, b.lines, afterPasses_of_expandLines ha, afterPasses_of_expandLines hb, rfl⟩
  have hran : ran = max a.passes b.passes := by
    refine eq_of_forall_ge_iff fun passes => ?_
    rw [max_le_iff, expandLines_passes_le_iff ha, expandLines_passes_le_iff hb, ← or_and_left,
      ← settledAfter_append]
    exact expandLines_passes_le_iff he passes
  rw [he, hran]

theorem expandLines_append_clean {a b : Expanded} {line : PendingLine} (h : line.dirty = false)
    (ha : expandLines m as cap = .ok a) (hb : expandLines m bs cap = .ok b) :
    expandLines m (as ++ line :: bs) cap =
      .ok ⟨a.lines ++ line :: b.lines, max a.passes b.passes⟩ := by
  have hclean : ∀ other ∈ [line], other.dirty = false := by simpa using h
  have hbehind := expandLines_append (expandLines_of_clean m cap hclean) hb
  rw [Nat.zero_max] at hbehind
  exact expandLines_append ha hbehind

/-- The expansion is interrupted in the pass with the number: that many passes are the least that a
cap has to allow for it. -/
def FailsIn (m : Macros) (lines : List PendingLine) (pass : Nat) (i : Interrupted) : Prop :=
  expandLines m lines pass = .error i ∧ ∀ fewer < pass, ∃ e, expandLines m lines fewer = .ok e

theorem failsIn_iff {i : Interrupted} :
    FailsIn m lines pass i ↔
      ∃ passes before, pass = passes + 1 ∧ afterPasses m passes lines = .ok before ∧
        expandPass m before = .error i := by
  constructor
  · rintro ⟨herror, hfewer⟩
    obtain ⟨passes, hlt, before, hbefore, hfail⟩ := expandLines_eq_error_iff.mp herror
    refine ⟨passes, before, ?_, hbefore, hfail⟩
    by_contra hne
    obtain ⟨e, he⟩ := hfewer (passes + 1) (by omega)
    have hearly : expandLines m lines (passes + 1 : Nat) = .error i :=
      expandLines_eq_error_iff.mpr ⟨passes, by omega, before, hbefore, hfail⟩
    cases hearly.symm.trans he
  · rintro ⟨passes, before, rfl, hbefore, hfail⟩
    refine ⟨expandLines_eq_error_iff.mpr ⟨passes, by omega, before, hbefore, hfail⟩, ?_⟩
    intro fewer hlt
    obtain ⟨next, hnext⟩ := afterPasses_of_le hbefore (Nat.le_of_lt_succ hlt)
    obtain ⟨ran, he⟩ := @expandLines_of_afterPasses m lines next fewer hnext
    exact ⟨_, he⟩

theorem expandLines_eq_error_iff_failsIn {i : Interrupted} :
    expandLines m lines cap = .error i ↔
      ∃ pass : Nat, (pass : Int) ≤ cap ∧ FailsIn m lines pass i := by
  rw [expandLines_eq_error_iff]
  constructor
  · rintro ⟨passes, hlt, before, hbefore, hfail⟩
    exact ⟨passes + 1, by omega, failsIn_iff.mpr ⟨passes, before, rfl, hbefore, hfail⟩⟩
  · rintro ⟨pass, hle, hfails⟩
    obtain ⟨passes, before, rfl, hbefore, hfail⟩ := failsIn_iff.mp hfails
    exact ⟨passes, by omega, before, hbefore, hfail⟩

theorem FailsIn.pass_unique {other : Nat} {i j : Interrupted} (h : FailsIn m lines pass i)
    (hother : FailsIn m lines other j) : pass = other := by
  obtain hlt | rfl | hlt := Nat.lt_trichotomy pass other
  · obtain ⟨e, he⟩ := hother.2 pass hlt
    cases h.1.symm.trans he
  · rfl
  · obtain ⟨e, he⟩ := h.2 other hlt
    cases hother.1.symm.trans he

theorem afterPasses_of_not_failsIn {passes : Nat}
    (h : ∀ pass i, FailsIn m lines pass i → passes < pass) :
    ∃ next, afterPasses m passes lines = .ok next := by
  cases he : afterPasses m passes lines with
  | ok next => exact ⟨next, rfl⟩
  | error i =>
    obtain ⟨fewer, hlt, before, hbefore, hfail⟩ := afterPasses_eq_error_iff.mp he
    have hpass := h (fewer + 1) i (failsIn_iff.mpr ⟨fewer, before, rfl, hbefore, hfail⟩)
    omega

theorem FailsIn.append_left {i : Interrupted} (ha : FailsIn m as pass i)
    (hb : ∀ other j, FailsIn m bs other j → pass ≤ other) :
    ∃ left, FailsIn m (as ++ bs) pass ⟨i.error, left⟩ := by
  obtain ⟨passes, a, rfl, hbefore, hfail⟩ := failsIn_iff.mp ha
  obtain ⟨b, hothers⟩ := afterPasses_of_not_failsIn hb
  refine ⟨i.lines ++ b, failsIn_iff.mpr ⟨passes, a ++ b, rfl, ?_, ?_⟩⟩
  · exact afterPasses_append_eq_ok.mpr ⟨a, b, hbefore, hothers, rfl⟩
  · rw [expandPass_append, hfail]

theorem FailsIn.append_right {j : Interrupted} (hb : FailsIn m bs pass j)
    (ha : ∀ other i, FailsIn m as other i → pass < other) :
    ∃ left, FailsIn m (as ++ bs) pass ⟨j.error, left⟩ := by
  obtain ⟨passes, b, rfl, hbefore, hfail⟩ := failsIn_iff.mp hb
  obtain ⟨last, hlast⟩ := afterPasses_of_not_failsIn ha
  obtain ⟨a, hothers⟩ := afterPasses_of_le hlast (Nat.le_succ passes)
  rw [afterPasses_add hothers, afterPasses_one] at hlast
  refine ⟨last ++ j.lines, failsIn_iff.mpr ⟨passes, a ++ b, rfl, ?_, ?_⟩⟩
  · exact afterPasses_append_eq_ok.mpr ⟨a, b, hothers, hbefore, rfl⟩
  · rw [expandPass_append, hlast, hfail]

/-- A pass looks at the lines that it begins with, one after the other, and is over when it has
looked at all of them; what it has put in is behind it by then. So two lists of lines, side by side,
come to what each comes to by itself, a clean line stays what and where it is, and of two failures
the earlier one counts, or the left one if both are in the same pass. -/
theorem lines_expand_independently (m : Macros) (cap : Int) :
    (∀ passes lines,
      (∀ handled s, InPlace.Looks m cap (.within passes [] lines) handled s →
        (∃ done ahead, lines = handled ++ ahead ∧ expandPass m handled = .ok done ∧
          s.lines = done ++ ahead ∧ s.index = some done.length) ∧
        (s.lineAhead? = none → handled = lines)) ∧
      ∀ next, expandPass m lines = .ok next →
        InPlace.Looks m cap (.within passes [] lines) lines (.within passes next [])) ∧
    (∀ lines r, InPlace.EndsIn m cap (.start lines) r ↔ expandLines m lines cap = r) ∧
    (∀ as bs a b, expandLines m as cap = .ok a → expandLines m bs cap = .ok b →
      expandLines m (as ++ bs) cap = .ok ⟨a.lines ++ b.lines, max a.passes b.passes⟩ ∧
      ∀ line : PendingLine, line.dirty = false →
        expandLines m (as ++ line :: bs) cap =
          .ok ⟨a.lines ++ line :: b.lines, max a.passes b.passes⟩) ∧
    (∀ lines i, expandLines m lines cap = .error i ↔
      ∃ pass : Nat, (pass : Int) ≤ cap ∧ FailsIn m lines pass i) ∧
    (∀ as bs i (pass : Nat), (pass : Int) ≤ cap → FailsIn m as pass i →
      (∀ other j, FailsIn m bs other j → pass ≤ other) →
      ∃ left, expandLines m (as ++ bs) cap = .error ⟨i.error, left⟩) ∧
    ∀ as bs j (pass : Nat), (pass : Int) ≤ cap → FailsIn m bs pass j →
      (∀ other i, FailsIn m as other i → pass < other) →
      ∃ left, expandLines m (as ++ bs) cap = .error ⟨j.error, left⟩ := by
  refine ⟨fun passes lines => ⟨fun handled s hlooks => ?_, fun next hpass => ?_⟩,
    fun lines r => InPlace.endsIn_iff,
    fun as bs a b ha hb => ⟨expandLines_append ha hb, fun line hclean =>
      expandLines_append_clean hclean ha hb⟩,
    fun lines i => expandLines_eq_error_iff_failsIn, fun as bs i pass hle ha hb => ?_,
    fun as bs j pass hle hb ha => ?_⟩
  · obtain ⟨done, ahead, rfl, hdone, rfl⟩ := hlooks.eq_within
    refine ⟨⟨done, ahead, rfl, hdone, rfl, rfl⟩, fun hover => ?_⟩
    rw [InPlace.lineAhead?_within, List.head?_eq_none_iff] at hover
    rw [hover, List.append_nil]
  · exact InPlace.looks_pass hpass
  · obtain ⟨left, hfails⟩ := ha.append_left hb
    exact ⟨left, expandLines_eq_error_iff_failsIn.mpr ⟨pass, hle, hfails⟩⟩
  · obtain ⟨left, hfails⟩ := hb.append_right ha
    exact ⟨left, expandLines_eq_error_iff_failsIn.mpr ⟨pass, hle, hfails⟩⟩

def sideMacros : Macros := ⟨⟨[("A", ["a", "U()"])]⟩, ⟨[("L", [["x"], ["y"]]), ("E", [])]⟩⟩

/-- Lines that fan out, are dropped, or are clean in spite of a call, side by side; and two that
fail, in either order. -/
theorem expandLines_sideBySide :
    (∀ passes s, InPlace.Looks sideMacros 5 (.within passes [] [⟨["L()"], true⟩, ⟨["z"], true⟩])
        [⟨["L()"], true⟩] s →
      s.lines = [⟨["x"], true⟩, ⟨["y"], true⟩, ⟨["z"], true⟩] ∧ s.index = some 2) ∧
    expandLines sideMacros
        ([⟨["L()"], true⟩] ++ ⟨["L()"], false⟩ :: [⟨["E()"], true⟩, ⟨["z"], true⟩]) 5 =
      .ok ⟨[⟨["x"], false⟩, ⟨["y"], false⟩, ⟨["L()"], false⟩, ⟨["z"], false⟩], 2⟩ ∧
    (∃ left, expandLines sideMacros ([⟨["V()"], true⟩] ++ [⟨["A()"], true⟩]) 5 =
      .error ⟨⟨"V"⟩, left⟩) ∧
    ∃ left, expandLines sideMacros ([⟨["A()"], true⟩] ++ [⟨["V()"], true⟩]) 5 =
      .error ⟨⟨"V"⟩, left⟩ := by
  have hfirst : FailsIn sideMacros [⟨["V()"], true⟩] 1 ⟨⟨"V"⟩, [⟨["V()"], true⟩]⟩ :=
    failsIn_iff.mpr ⟨0, _, rfl, rfl, by decide +kernel⟩
  have hsecond : FailsIn sideMacros [⟨["A()"], true⟩] 2 ⟨⟨"U"⟩, [⟨["a", "U()"], true⟩]⟩ :=
    failsIn_iff.mpr ⟨1, [⟨["a", "U()"], true⟩], rfl, by decide +kernel, by decide +kernel⟩
  have hfanned : expandLines sideMacros [⟨["L()"], true⟩] 5 =
      .ok ⟨[⟨["x"], false⟩, ⟨["y"], false⟩], 2⟩ := by decide +kernel
  have hdropped : expandLines sideMacros [⟨["E()"], true⟩, ⟨["z"], true⟩] 5 =
      .ok ⟨[⟨["z"], false⟩], 1⟩ := by decide +kernel
  have hpass : expandPass sideMacros [⟨["L()"], true⟩] = .ok [⟨["x"], true⟩, ⟨["y"], true⟩] := by
    decide +kernel
  obtain ⟨hpasses, -, hboth, -, hleft, hright⟩ := lines_expand_independently sideMacros 5
  refine ⟨fun passes s hlooks => ?_, (hboth _ _ _ _ hfanned hdropped).2 _ rfl,
    hleft _ _ _ 1 (by decide) hfirst fun other j hfails => ?_,
    hright _ _ _ 1 (by decide) hfirst fun other i hfails => ?_⟩
  · obtain ⟨⟨done, ahead, hlines, hdone, hnow, hindex⟩, -⟩ := (hpasses passes _).1 _ s hlooks
    cases hdone.symm.trans hpass
    cases hlines
    exact ⟨hnow, hindex⟩
  · rw [← hsecond.pass_unique hfails]
    decide
  · rw [← hsecond.pass_unique hfails]
    decide

end CommandFile
