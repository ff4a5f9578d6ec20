import CommandFile.Proofs.Expansion.Passes
set_option autoImplicit false

/-!
Expansion in place. The lines are one list. A pass goes through it by an index, and puts what a line
comes to in the place of that line. The dirty lines are not counted again, but the count is kept up
by differences. Main statements: the count is exact at every turn of the loops, and the loops end
where the passes do.
-/
namespace CommandFile

/-- Where the loops stand. The index is that of the next line in a pass; between two passes there is
none. -/
structure InPlace where
  lines : List PendingLine
  dirty : Int
  passes : Nat
  index : Option Nat
  deriving DecidableEq

namespace InPlace

inductive Turn where
  | goesOn (next : InPlace)
  | returns
  | raises (error : UnresolvedMacro)
  deriving DecidableEq

def splice (s : InPlace) (index : Nat) (lines : List PendingLine) (difference : Int) : InPlace where
  lines := s.lines.take index ++ lines ++ s.lines.drop (index + 1)
  dirty := s.dirty + difference
  passes := s.passes
  index := some (index + lines.length)

/-- A turn of the outer loop between two passes, and of the inner one in a pass. A line whose short
calls have been replaced counts as before, one that becomes clean counts no more, and those that a
line fans out into count instead of it. -/
def turn (m : Macros) (cap : Int) (s : InPlace) : Turn :=
  match s.index with
  | none =>
    if (s.passes : Int) < cap ∧ 0 < s.dirty then
      .goesOn { s with passes := s.passes + 1, index := some 0 }
    else .returns
  | some index =>
    match s.lines[index]? with
    | none => .goesOn { s with index := none }
    | some line =>
      if line.dirty then
        let (substituted, changed) := substitute m.short line.tokens
        match fanOut m.long substituted (!changed) with
        | .error e => .raises e
        | .ok none => .goesOn (s.splice index [⟨substituted, changed⟩] (if changed then 0 else -1))
        | .ok (some fanned) =>
          .goesOn (s.splice index (fanned.map fun tokens => ⟨tokens, true⟩) (fanned.length - 1))
      else .goesOn { s with index := some (index + 1) }

abbrev Reaches (m : Macros) (cap : Int) : InPlace → InPlace → Prop :=
  Relation.ReflTransGen fun s next => s.turn m cap = .goesOn next

def lineAhead? (s : InPlace) : Option PendingLine := s.index.bind (s.lines[·]?)

inductive Looks (m : Macros) (cap : Int) : InPlace → List PendingLine → InPlace → Prop where
  | none (s : InPlace) : Looks m cap s [] s
  | line {s next last : InPlace} {line : PendingLine} {others : List PendingLine} :
      s.lineAhead? = some line → s.turn m cap = .goesOn next → Looks m cap next others last →
      Looks m cap s (line :: others) last

def ending? (m : Macros) (cap : Int) (s : InPlace) : Option (Except Interrupted Expanded) :=
  match s.turn m cap with
  | .goesOn _ => none
  | .returns => some (.ok ⟨s.lines, s.passes⟩)
  | .raises e => some (.error ⟨e, s.lines⟩)

def EndsIn (m : Macros) (cap : Int) (s : InPlace) (r : Except Interrupted Expanded) : Prop :=
  ∃ last, Reaches m cap s last ∧ last.ending? m cap = some r

def between (passes : Nat) (lines : List PendingLine) : InPlace :=
  ⟨lines, dirtyCount lines, passes, none⟩

def within (passes : Nat) (done ahead : List PendingLine) : InPlace :=
  ⟨done ++ ahead, dirtyCount (done ++ ahead), passes, some done.length⟩

def start (lines : List PendingLine) : InPlace := between 0 lines

variable {m : Macros} {cap : Int} {passes : Nat} {lines done ahead next : List PendingLine}
  {s t : InPlace}

theorem turn_between (m : Macros) (cap : Int) (passes : Nat) (lines : List PendingLine) :
    (between passes lines).turn m cap =
      if (passes : Int) < cap ∧ dirtyCount lines ≠ 0 then .goesOn (within (passes + 1) [] lines)
      else .returns := by
  simp [turn, between, within, Nat.pos_iff_ne_zero]

theorem turn_within_nil (m : Macros) (cap : Int) (passes : Nat) (done : List PendingLine) :
    (within passes done []).turn m cap = .goesOn (between passes done) := by
  simp [turn, between, within]

theorem lineAhead?_within (passes : Nat) (done ahead : List PendingLine) :
    (within passes done ahead).lineAhead? = ahead.head? := by
  cases ahead <;> simp [lineAhead?, within]

theorem dirtyCount_of_fannedOut (fanned : List (List String)) :
    dirtyCount (fanned.map fun tokens => ⟨tokens, true⟩) = fanned.length := by
  simp [dirtyCount, List.countP_map, Function.comp_def]

theorem splice_within (passes : Nat) (done ahead : List PendingLine) (line : PendingLine)
    {lines : List PendingLine} {difference : Int}
    (h : dirtyCount lines = dirtyCount [line] + difference) :
    (within passes done (line :: ahead)).splice done.length lines difference =
      within passes (done ++ lines) ahead := by
  have hahead : dirtyCount (line :: ahead) = dirtyCount [line] + dirtyCount ahead :=
    dirtyCount_append [line] ahead
  have hcount : (dirtyCount (done ++ line :: ahead) : Int) + difference =
      dirtyCount (done ++ lines ++ ahead) := by
    rw [dirtyCount_append, dirtyCount_append, dirtyCount_append, hahead]
    omega
  rw [splice, within, hcount]
  simp [within]

/-- A turn in a pass does what the pass does with the line, and keeps the count exact. -/
theorem turn_within_cons (m : Macros) (cap : Int) (passes : Nat) (done ahead : List PendingLine)
    (line : PendingLine) :
    (within passes done (line :: ahead)).turn m cap =
      match expandPending m line with
      | .ok lines => .goesOn (within passes (done ++ lines) ahead)
      | .error e => .raises e := by
  have hline : (within passes done (line :: ahead)).lines[done.length]? = some line := by
    simp [within]
  have hindex : (within passes done (line :: ahead)).index = some done.length := rfl
  simp only [turn, hindex, hline]
  cases hd : line.dirty with
  | false =>
    rw [expandPending_of_clean m hd]
    simp [within]
  | true =>
    rw [expandPending_of_dirty m hd, if_pos rfl, expandLine]
    cases hs : substitute m.short line.tokens with
    | mk substituted changed =>
      cases hf : fanOut m.long substituted (!changed) with
      | error e => simp [hf]
      | ok fanned =>
        cases fanned with
        | none =>
          simp only [hf]
          refine congrArg Turn.goesOn (splice_within passes done ahead line ?_)
          cases changed <;> simp [hd]
        | some fanned =>
          have hone : dirtyCount [line] = 1 := by simp [hd]
          simp only [hf]
          refine congrArg Turn.goesOn (splice_within passes done ahead line ?_)
          rw [dirtyCount_of_fannedOut, hone]
          omega

inductive Regular : InPlace → Prop where
  | between (passes : Nat) (lines : List PendingLine) : Regular (between passes lines)
  | within (passes : Nat) (done ahead : List PendingLine) : Regular (within passes done ahead)

theorem Regular.dirty_eq (h : Regular s) : s.dirty = dirtyCount s.lines := by
  cases h <;> rfl

theorem Regular.turn (h : Regular s) (hturn : s.turn m cap = .goesOn t) : Regular t := by
  cases h with
  | between passes lines =>
    rw [turn_between] at hturn
    split at hturn
    · cases hturn
      exact .within _ _ _
    · cases hturn
  | within passes done ahead =>
    cases ahead with
    | nil =>
      rw [turn_within_nil] at hturn
      cases hturn
      exact .between _ _
    | cons line ahead =>
      rw [turn_within_cons] at hturn
      cases he : expandPending m line with
      | error e => simp [he] at hturn
      | ok lines =>
        simp only [he, Turn.goesOn.injEq] at hturn
        subst hturn
        exact .within _ _ _

theorem Regular.reaches (h : Regular s) (hreaches : Reaches m cap s t) : Regular t := by
  induction hreaches with
  | refl => exact h
  | tail _ hturn ih => exact ih.turn hturn

theorem Looks.reaches {handled : List PendingLine} (h : Looks m cap s handled t) :
    Reaches m cap s t := by
  induction h with
  | none s => exact .refl
  | line _ hturn _ ih => exact .head hturn ih

theorem looks_within {handled : List PendingLine} (h : expandPass m handled = .ok next) :
    Looks m cap (within passes done (handled ++ ahead)) handled
      (within passes (done ++ next) ahead) := by
  induction handled generalizing done next with
  | nil =>
    cases h
    rw [List.append_nil]
    exact .none _
  | cons line rest ih =>
    obtain ⟨lines, others, he, hrest, rfl⟩ := expandPass_cons_eq_ok h
    rw [← List.append_assoc]
    refine .line ?_ ?_ (ih hrest)
    · rw [lineAhead?_within, List.cons_append, List.head?_cons]
    · rw [List.cons_append, turn_within_cons, he]

theorem looks_pass (h : expandPass m lines = .ok next) :
    Looks m cap (within passes [] lines) lines (within passes next []) := by
  have hlooks := @looks_within m cap passes [] [] next lines h
  rwa [List.append_nil] at hlooks

/-- The lines that a pass has looked at are the first of those that it began with. What it has put
in their place is behind it. -/
theorem Looks.eq_within {handled : List PendingLine}
    (h : Looks m cap (within passes done ahead) handled t) :
    ∃ next rest, ahead = handled ++ rest ∧ expandPass m handled = .ok next ∧
      t = within passes (done ++ next) rest := by
  generalize hs : within passes done ahead = s at h
  induction h generalizing done ahead with
  | none s => exact ⟨[], ahead, rfl, rfl, by rw [← hs, List.append_nil]⟩
  | @line s mid last line others hline hturn _ ih =>
    subst hs
    rw [lineAhead?_within] at hline
    obtain ⟨rest, rfl⟩ := List.head?_eq_some_iff.mp hline
    rw [turn_within_cons] at hturn
    cases he : expandPending m line with
    | error e => simp [he] at hturn
    | ok lines =>
      simp only [he, Turn.goesOn.injEq] at hturn
      obtain ⟨next, rest, rfl, hothers, rfl⟩ := ih hturn
      exact ⟨lines ++ next, rest, rfl, expandPass_cons_of_ok he hothers,
        by rw [List.append_assoc]⟩

theorem EndsIn.of_reaches {r : Except Interrupted Expanded} (hreaches : Reaches m cap s t)
    (h : EndsIn m cap t r) : EndsIn m cap s r := by
  obtain ⟨last, hlast, hend⟩ := h
  exact ⟨last, hreaches.trans hlast, hend⟩

theorem endsIn_within_of_error {i : Interrupted} (h : expandPass m ahead = .error i) :
    EndsIn m cap (within passes [] ahead) (.error i) := by
  obtain ⟨before, line, after, done, rfl, hbefore, he, hleft⟩ := expandPass_eq_error_iff.mp h
  obtain ⟨e, left⟩ := i
  cases hleft
  refine ⟨_, (looks_within hbefore).reaches, ?_⟩
  rw [ending?, turn_within_cons, he]
  rfl

theorem endsIn_expandFrom (left : Nat) (hleft : cap.toNat = passes + left) :
    EndsIn m cap (between passes lines) (expandFrom m passes lines (dirtyCount lines) left) := by
  induction left generalizing passes lines with
  | zero =>
    refine ⟨_, .refl, ?_⟩
    rw [ending?, turn_between, if_neg (by omega)]
    rfl
  | succ left ih =>
    rw [expandFrom_succ]
    split
    · rename_i hclean
      refine ⟨_, .refl, ?_⟩
      rw [ending?, turn_between, if_neg (by simp [hclean])]
      rfl
    · rename_i hdirty
      have hbegin : (between passes lines).turn m cap = .goesOn (within (passes + 1) [] lines) := by
        rw [turn_between, if_pos ⟨by omega, hdirty⟩]
      cases hp : expandPass m lines with
      | error i => exact .of_reaches (.single hbegin) (endsIn_within_of_error hp)
      | ok next =>
        have hend := turn_within_nil m cap (passes + 1) next
        exact .of_reaches (.head hbegin ((looks_pass hp).reaches.tail hend)) (ih (by omega))

theorem ending?_of_goesOn (h : s.turn m cap = .goesOn t) : s.ending? m cap = none := by
  rw [ending?, h]

theorem eq_of_reaches_of_ending {r : Except Interrupted Expanded} (h : s.ending? m cap = some r)
    (hreaches : Reaches m cap s t) : t = s := by
  cases hreaches.cases_head with
  | inl hsame => exact hsame.symm
  | inr hmore =>
    obtain ⟨next, hturn, -⟩ := hmore
    simp [ending?_of_goesOn hturn] at h

theorem EndsIn.unique {r other : Except Interrupted Expanded} (h : EndsIn m cap s r)
    (hother : EndsIn m cap s other) : r = other := by
  have hdeterministic :
      Relator.RightUnique fun s next : InPlace => s.turn m cap = .goesOn next := by
    intro s next others hnext hothers
    exact Turn.goesOn.inj (hnext.symm.trans hothers)
  obtain ⟨last, hlast, hend⟩ := h
  obtain ⟨later, hlater, hstop⟩ := hother
  have hsame : later = last := by
    obtain hforth | hback := Relation.ReflTransGen.total_of_right_unique hdeterministic hlast hlater
    · exact eq_of_reaches_of_ending hend hforth
    · exact (eq_of_reaches_of_ending hstop hback).symm
  rw [hsame, hend] at hstop
  exact Option.some.inj hstop

/-- The loops in place come to the end that the expansion comes to, and to no other. -/
theorem endsIn_iff {r : Except Interrupted Expanded} :
    EndsIn m cap (start lines) r ↔ expandLines m lines cap = r := by
  have hend : EndsIn m cap (start lines) (expandLines m lines cap) :=
    endsIn_expandFrom cap.toNat (Nat.zero_add _).symm
  constructor
  · intro h
    exact hend.unique h
  · rintro rfl
    exact hend

end InPlace

theorem run_dirty_eq (m : Macros) (done before ahead : List PendingLine) {p : Progress}
    (h : Progress.run m ⟨done, dirtyCount done + dirtyCount (before ++ ahead)⟩ before = .ok p) :
    p.dirty = dirtyCount (p.done.reverse ++ ahead) := by
  induction before generalizing done with
  | nil =>
    cases h
    simp [dirtyCount]
  | cons line rest ih =>
    rw [Progress.run, List.cons_append, step_eq] at h
    cases he : expandPending m line with
    | error e => simp [he, Except.map] at h
    | ok lines =>
      simp only [he, Except.map] at h
      exact ih _ h

/-- The dirty lines are counted exactly at every turn of the loops in place, which come to the end
of the expansion, and wherever one of its passes has come to. So the passes that it tells are as
many as its cap allows, or as few as leave no line dirty if these are fewer, and it leaves one dirty
just if it would take more. -/
theorem expand_count_exact (c : Context) (cap : Int) :
    (∀ s, InPlace.Reaches c.macros cap (.start c.lines) s → s.dirty = dirtyCount s.lines) ∧
    (∀ r, InPlace.EndsIn c.macros cap (.start c.lines) r ↔
      expandLines c.macros c.lines cap = r) ∧
    (∀ before ahead p,
      Progress.run c.macros ⟨[], dirtyCount (before ++ ahead)⟩ before = .ok p →
        p.dirty = dirtyCount (p.done.reverse ++ ahead)) ∧
    ∀ next passes, c.expand cap = (next, .ok passes) →
      (∀ least, IsLeast {k | SettledAfter c.macros c.lines k} least →
        (passes : Int) = min (max cap 0) least) ∧
      ((∀ k, ¬ SettledAfter c.macros c.lines k) → (passes : Int) = max cap 0) ∧
      ((∃ line ∈ next.lines, line.dirty = true) ↔
        ∀ k : Nat, SettledAfter c.macros c.lines k → max cap 0 < k) := by
  refine ⟨fun s hs => ?_, fun r => InPlace.endsIn_iff, fun before ahead p h => ?_,
    fun next passes he => ?_⟩
  · exact ((InPlace.Regular.between 0 c.lines).reaches hs).dirty_eq
  · exact run_dirty_eq c.macros [] before ahead (by simpa using h)
  · have hlines : expandLines c.macros c.lines cap = .ok ⟨next.lines, passes⟩ :=
      (Context.expand_eq_ok he).1
    refine ⟨fun least hleast => ?_, fun hnever => ?_, ?_⟩
    · have hmin : passes = min cap.toNat least := expandLines_passes_of_least hlines hleast
      omega
    · have hall : passes = cap.toNat := expandLines_passes_of_unsettled hlines hnever
      omega
    · have hcap : (cap.toNat : Int) = max cap 0 := by omega
      rw [← hcap]
      exact_mod_cast expandLines_dirty_iff hlines

def droppingContext : Context where
  macros := ⟨.empty, ⟨[("L", [["x", "E()"], ["y"]]), ("E", [])]⟩⟩
  lines := [⟨["L()"], true⟩]

theorem isLeast_droppingContext :
    IsLeast {k | SettledAfter droppingContext.macros droppingContext.lines k} 2 := by
  have hsettled : SettledAfter droppingContext.macros droppingContext.lines 2 := by decide +kernel
  have hdirty : ¬ SettledAfter droppingContext.macros droppingContext.lines 1 := by decide +kernel
  refine ⟨hsettled, fun k hk => ?_⟩
  by_contra hlt
  exact hdirty (SettledAfter.mono hk (by omega))

def endlessContext : Context where
  macros := ⟨⟨[("C", ["C()"])]⟩, .empty⟩
  lines := [⟨["C()"], true⟩]

theorem not_settledAfter_endlessContext (passes : Nat) :
    ¬ SettledAfter endlessContext.macros endlessContext.lines passes := by
  have hpass : expandPass endlessContext.macros endlessContext.lines =
      .ok endlessContext.lines := by decide +kernel
  induction passes with
  | zero => decide +kernel
  | succ passes ih => rwa [settledAfter_succ hpass]

theorem expand_droppingContext_counted :
    (∃ s : InPlace, InPlace.Reaches droppingContext.macros 5 (.start droppingContext.lines) s ∧
      s.lines = [⟨["y"], true⟩] ∧ s.dirty = 1) ∧
    (∃ next, droppingContext.expand 5 = (next, .ok 2)) ∧
    (∃ next passes, droppingContext.expand 1 = (next, .ok passes) ∧
      ∃ line ∈ next.lines, line.dirty = true) ∧
    ∃ next, endlessContext.expand 7 = (next, .ok 7) := by
  let fanned : List PendingLine := [⟨["x", "E()"], true⟩, ⟨["y"], true⟩]
  have hbegun : InPlace.Reaches droppingContext.macros 5 (.start droppingContext.lines)
      (.within 1 fanned []) :=
    .head (b := .within 1 [] droppingContext.lines) (by decide +kernel)
      (.single (by decide +kernel))
  have hdropped : InPlace.Reaches droppingContext.macros 5 (.within 1 fanned [])
      (.within 2 [] [⟨["y"], true⟩]) :=
    .head (b := .between 1 fanned) (by decide +kernel)
      (.head (b := .within 2 [] fanned) (by decide +kernel) (.single (by decide +kernel)))
  obtain ⟨hcount, -, -, hpasses⟩ := expand_count_exact droppingContext 5
  obtain ⟨-, -, -, hcapped⟩ := expand_count_exact droppingContext 1
  obtain ⟨-, -, -, hendless⟩ := expand_count_exact endlessContext 7
  refine ⟨⟨_, hbegun.trans hdropped, rfl, hcount _ (hbegun.trans hdropped)⟩, ?_, ?_, ?_⟩
  · obtain ⟨next, passes, he⟩ := Context.exists_expand_eq_ok
      (show (droppingContext.expand 5).2.isOk = true by decide +kernel)
    have hmin := (hpasses next passes he).1 2 isLeast_droppingContext
    obtain rfl : passes = 2 := by omega
    exact ⟨next, he⟩
  · obtain ⟨next, passes, he⟩ := Context.exists_expand_eq_ok
      (show (droppingContext.expand 1).2.isOk = true by decide +kernel)
    refine ⟨next, passes, he, (hcapped next passes he).2.2.mpr fun k hk => ?_⟩
    have hle := isLeast_droppingContext.2 hk
    omega
  · obtain ⟨next, passes, he⟩ := Context.exists_expand_eq_ok
      (show (endlessContext.expand 7).2.isOk = true by decide +kernel)
    have hall := (hendless next passes he).2.1 not_settledAfter_endlessContext
    obtain rfl : passes = 7 := by omega
    exact ⟨next, he⟩

end CommandFile
