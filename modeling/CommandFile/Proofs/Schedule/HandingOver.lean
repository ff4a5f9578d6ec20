import CommandFile.Proofs.Schedule.Noting
import CommandFile.Session
import Mathlib.Data.List.Basic
set_option autoImplicit false

namespace CommandFile
variable {σ ε : Type}

namespace Scheduler

def NeverRefuses (s : Scheduler σ ε) : Prop := ∀ state command, (s.add state command).2 = none

/-- From this state on the scheduler takes commands, whatever they are, up to the one numbered `k`,
which it refuses. The first one has number one. -/
def RefusesAt (s : Scheduler σ ε) (e : ε) : Nat → σ → Prop
  | 0, _ => False
  | 1, state => ∀ command, (s.add state command).2 = some e
  | k + 2, state =>
    ∀ command, (s.add state command).2 = none ∧ s.RefusesAt e (k + 1) (s.add state command).1

end Scheduler

section Emitting
variable {s : Scheduler σ ε} {e : ε} {lines : List PendingLine}

theorem emit_noting_cons_of_none {state : σ} {line : PendingLine}
    (h : (s.add state line.tokens).2 = none) (noted : List (List String)) :
    emit s.noting (state, noted) (line :: lines) =
      emit s.noting ((s.add state line.tokens).1, noted ++ [line.tokens]) lines := by
  simp [emit, s.add_noting, h]

theorem emit_noting_cons_of_some {state : σ} {line : PendingLine}
    (h : (s.add state line.tokens).2 = some e) (noted : List (List String)) :
    emit s.noting (state, noted) (line :: lines) =
      (((s.add state line.tokens).1, noted ++ [line.tokens]), some e) := by
  simp [emit, s.add_noting, h]

theorem emit_of_neverRefuses (h : s.NeverRefuses) (state : σ) (noted : List (List String))
    (lines : List PendingLine) :
    (emit s.noting (state, noted) lines).1.2 = noted ++ lines.map (·.tokens) ∧
      (emit s.noting (state, noted) lines).2 = none := by
  induction lines generalizing state noted with
  | nil => simp [emit]
  | cons line rest ih =>
    rw [emit_noting_cons_of_none (h state line.tokens)]
    simpa using ih (s.add state line.tokens).1 (noted ++ [line.tokens])

theorem emit_of_refusesAt {k : Nat} {state : σ} (h : s.RefusesAt e k state)
    (noted : List (List String)) (lines : List PendingLine) :
    (emit s.noting (state, noted) lines).1.2 = noted ++ (lines.map (·.tokens)).take k ∧
      (emit s.noting (state, noted) lines).2 = if k ≤ lines.length then some e else none := by
  induction lines generalizing k state noted with
  | nil =>
    cases k with
    | zero => exact h.elim
    | succ k => simp [emit]
  | cons line rest ih =>
    cases k with
    | zero => exact h.elim
    | succ k =>
      cases k with
      | zero =>
        rw [emit_noting_cons_of_some (h line.tokens)]
        simp
      | succ k =>
        obtain ⟨htaken, hrest⟩ := h line.tokens
        rw [emit_noting_cons_of_none htaken]
        simpa using ih hrest (noted ++ [line.tokens])

theorem emit_collector_noted {limit : Option Nat} {state : Collected}
    {noted : List (List String)} (h : state.commands.toList = noted) (lines : List PendingLine) :
    (emit (collector limit).noting (state, noted) lines).1.1.commands.toList =
      (emit (collector limit).noting (state, noted) lines).1.2 := by
  induction lines generalizing state noted with
  | nil => exact h
  | cons line rest ih =>
    have hnext : ((collector limit).add state line.tokens).1.commands.toList =
        noted ++ [line.tokens] := by simp [collector, h]
    cases hr : ((collector limit).add state line.tokens).2 with
    | none =>
      rw [emit_noting_cons_of_none hr]
      exact ih hnext
    | some e =>
      rw [emit_noting_cons_of_some hr]
      exact hnext

theorem neverRefuses_collector : (collector none).NeverRefuses := fun _ _ => rfl

theorem refusesAt_collector {k left : Nat} {state : Collected}
    (h : state.commands.size + (left + 1) = k) :
    (collector (some k)).RefusesAt ⟨⟩ (left + 1) state := by
  induction left generalizing state with
  | zero =>
    intro command
    simp [collector, h]
  | succ left ih =>
    intro command
    have hearly : k ≠ state.commands.size + 1 := by omega
    refine ⟨by simp [collector, hearly], ih ?_⟩
    simp only [collector, Array.size_push]
    omega

end Emitting

section Parsing
variable {cap : PassCap} {lines : List PendingLine}

theorem Reading.schedule_eq_emit {r : Reading} (h : r.expand cap = .ok lines) (s : Scheduler σ ε)
    (state : σ) :
    r.schedule cap s state = ((emit s state lines).1, (emit s state lines).2.map .refused) := by
  simp only [schedule, h]
  obtain ⟨after, refusal⟩ := emit s state lines
  cases refusal <;> rfl

def Store.handedOver (files : Store) (path : String) (cap : PassCap) (s : Scheduler σ ε)
    (state : σ) : List (List String) :=
  (files.parse path cap s.noting (state, [])).1.2

theorem Reading.expand_of_failure {r : Reading} {e : ScanError} (h : r.failure = some e)
    (cap : PassCap) : r.expand cap = .error (.scan e) := by
  simp [Reading.expand, h]

theorem Reading.expand_of_success {r : Reading} (h : r.failure = none) {c : Context}
    {result : Except UnresolvedMacro Nat}
    (he : (Context.empty.store r.items).expand cap.passes = (c, result)) :
    r.expand cap = (result.map fun _ => c.lines).mapError .unresolved := by
  simp only [Reading.expand, h, he]
  cases result <;> rfl

section Handing
variable {files : Store} {path : String} (s : Scheduler σ ε) (state : σ)

theorem Store.parse_of_error {e : ParseError} (h : (files.scan path).expand cap = .error e) :
    files.parse path cap s state = (state, some (.parse e)) ∧
      files.handedOver path cap s state = [] := by
  have hparse := Reading.schedule_of_error h s state
  have hnoting := Reading.schedule_of_error h s.noting (state, [])
  exact ⟨hparse, by rw [handedOver, parse, hnoting]⟩

theorem Store.parse_of_ok (h : (files.scan path).expand cap = .ok lines) :
    files.handedOver path cap s state = (emit s.noting (state, []) lines).1.2 ∧
      (files.parse path cap s state).2 = (emit s.noting (state, []) lines).2.map .refused := by
  obtain ⟨given, rest, -, -, hemit⟩ := emit_noting s state [] lines
  rw [handedOver, parse, parse, Reading.schedule_eq_emit h, Reading.schedule_eq_emit h, hemit]
  exact ⟨rfl, rfl⟩

/-- To have the commands noted changes nothing else. -/
theorem Store.parse_noting (files : Store) (path : String) (cap : PassCap) (s : Scheduler σ ε)
    (state : σ) :
    files.parse path cap s.noting (state, []) =
      (((files.parse path cap s state).1, files.handedOver path cap s state),
        (files.parse path cap s state).2) := by
  cases h : (files.scan path).expand cap with
  | error e =>
    rw [handedOver, parse, parse, Reading.schedule_of_error h, Reading.schedule_of_error h]
  | ok lines =>
    obtain ⟨given, rest, -, -, hemit⟩ := emit_noting s state [] lines
    rw [handedOver, parse, parse, Reading.schedule_eq_emit h, Reading.schedule_eq_emit h, hemit]

theorem Store.handedOver_isPrefix {τ δ : Type} {t : Scheduler τ δ} (ht : t.NeverRefuses)
    (other : τ) :
    files.handedOver path cap s state <+: files.handedOver path cap t other := by
  cases h : (files.scan path).expand cap with
  | error e =>
    rw [(parse_of_error s state h).2]
    exact List.nil_prefix
  | ok lines =>
    obtain ⟨given, rest, rfl, -, hemit⟩ := emit_noting s state [] lines
    rw [(parse_of_ok s state h).1, (parse_of_ok t other h).1, (emit_of_neverRefuses ht _ _ _).1,
      hemit]
    simp

end Handing
end Parsing

theorem Session.emitted_eq (files : Store) (c : Context) (limit : Option Nat) :
    ((Session.Step.emit limit).run files c).2 =
      .emitted (emit (collector limit).noting (.empty, []) c.lines).1.2
        (emit (collector limit).noting (.empty, []) c.lines).2 := by
  obtain ⟨given, rest, -, -, hemit⟩ := emit_noting (collector limit) .empty [] c.lines
  have hkept := @emit_collector_noted limit .empty [] rfl c.lines
  rw [hemit] at hkept ⊢
  exact congrArg (Session.Report.emitted · _) hkept

def emitAgain (files : Store) (c : Context) (limits : List (Option Nat)) : Context :=
  limits.foldl (fun c limit => ((Session.Step.emit limit).run files c).1) c

theorem emitAgain_eq (files : Store) (c : Context) (limits : List (Option Nat)) :
    emitAgain files c limits = c := by
  induction limits with
  | nil => rfl
  | cons limit rest ih => exact ih

/-- If the scan or the expansion fails, the parse fails with the same error and hands over nothing.
Otherwise a scheduler that refuses nothing is given the tokens of all lines, and one that refuses
its `k`th command those of the first `k` lines, with the refusal as the outcome if there are so many
lines. In any case it is given the beginning of what the other one is given. To hand lines over does
not change them, so that it can be repeated. -/
theorem parse_hands_over (files : Store) (path : String) (cap : PassCap) (s : Scheduler σ ε)
    (state : σ) :
    files.parse path cap s.noting (state, []) =
      (((files.parse path cap s state).1, files.handedOver path cap s state),
        (files.parse path cap s state).2) ∧
    (∀ e, (files.scan path).failure = some e →
      files.parse path cap s state = (state, some (.parse (.scan e))) ∧
        files.handedOver path cap s state = []) ∧
    ((files.scan path).failure = none → ∀ c : Context,
      (∀ e, (Context.empty.store (files.scan path).items).expand cap.passes = (c, .error e) →
        files.parse path cap s state = (state, some (.parse (.unresolved e))) ∧
          files.handedOver path cap s state = []) ∧
      ∀ passes, (Context.empty.store (files.scan path).items).expand cap.passes = (c, .ok passes) →
        (s.NeverRefuses →
          files.handedOver path cap s state = c.lines.map (·.tokens) ∧
            (files.parse path cap s state).2 = none) ∧
        ∀ e k, s.RefusesAt e k state →
          files.handedOver path cap s state = (c.lines.map (·.tokens)).take k ∧
            (files.parse path cap s state).2 =
              if k ≤ c.lines.length then some (.refused e) else none) ∧
    (∀ {τ δ : Type} (t : Scheduler τ δ) (other : τ), t.NeverRefuses →
      files.handedOver path cap s state <+: files.handedOver path cap t other) ∧
    ∀ (c : Context) (limits : List (Option Nat)), emitAgain files c limits = c ∧
      ((Session.Step.emit none).run files (emitAgain files c limits)).2 =
        .emitted (c.lines.map (·.tokens)) none ∧
      ∀ k, ((Session.Step.emit (some (k + 1))).run files (emitAgain files c limits)).2 =
        .emitted ((c.lines.map (·.tokens)).take (k + 1))
          (if k + 1 ≤ c.lines.length then some ⟨⟩ else none) := by
  refine ⟨files.parse_noting path cap s state,
    fun e hscan => Store.parse_of_error s state (Reading.expand_of_failure hscan cap),
    fun hscan c => ⟨fun e he => Store.parse_of_error s state (Reading.expand_of_success hscan he),
      fun passes he => ?_⟩,
    fun t other ht => Store.handedOver_isPrefix s state ht other, fun c limits => ?_⟩
  · obtain ⟨hgiven, houtcome⟩ := Store.parse_of_ok s state (Reading.expand_of_success hscan he)
    constructor
    · intro hs
      obtain ⟨hall, hnone⟩ := emit_of_neverRefuses hs state [] c.lines
      rw [hgiven, houtcome, hall, hnone]
      exact ⟨rfl, rfl⟩
    · intro e k hk
      obtain ⟨hfirst, hrefusal⟩ := emit_of_refusesAt hk [] c.lines
      rw [hgiven, houtcome, hfirst, hrefusal]
      refine ⟨rfl, ?_⟩
      split <;> rfl
  · rw [emitAgain_eq]
    refine ⟨rfl, ?_, fun k => ?_⟩
    · obtain ⟨hall, hnone⟩ := emit_of_neverRefuses neverRefuses_collector .empty [] c.lines
      rw [Session.emitted_eq, hall, hnone]
      rfl
    · have hrefuses : (collector (some (k + 1))).RefusesAt ⟨⟩ (k + 1) .empty :=
        refusesAt_collector (Nat.zero_add _)
      obtain ⟨hfirst, hrefusal⟩ := emit_of_refusesAt hrefuses [] c.lines
      rw [Session.emitted_eq, hfirst, hrefusal]
      rfl

def handedFiles : Store :=
  ⟨[(["main"], .file (Text.Utf8.encode "a\nINCLUDE part\nL() b\n".toList)),
    (["part"], .file (Text.Utf8.encode "LONG MACRO L\nx\ny\nEND MACRO\nc\n".toList))]⟩

def failingFiles : Store :=
  ⟨[(["broken"], .file (Text.Utf8.encode "a\nINCLUDE b\n".toList)),
    (["stuck"], .file (Text.Utf8.encode "a\nE()\n".toList))]⟩

theorem parse_handedFiles :
    (handedFiles.handedOver "main" .default (collector (some 3)) .empty =
        [["a"], ["c"], ["x", "b"]] ∧
      (handedFiles.parse "main" .default (collector (some 3)) .empty).2 = some (.refused ⟨⟩)) ∧
    (handedFiles.handedOver "main" .default (collector (some 5)) .empty =
        [["a"], ["c"], ["x", "b"], ["y", "b"]] ∧
      (handedFiles.parse "main" .default (collector (some 5)) .empty).2 = none) ∧
    failingFiles.parse "broken" .default (collector none) .empty =
      (.empty, some (.parse (.scan (.unreadable (.file (.refused .notFound "b")))))) ∧
    failingFiles.parse "stuck" .default (collector none) .empty =
      (.empty, some (.parse (.unresolved ⟨"E"⟩))) := by
  have hmain : (handedFiles.scan "main").failure = none := by decide +kernel
  have hpasses : ((Context.empty.store (handedFiles.scan "main").items).expand
      PassCap.default.passes).2 = .ok 2 := by decide +kernel
  have hlines : ((Context.empty.store (handedFiles.scan "main").items).expand
      PassCap.default.passes).1.lines =
        [⟨["a"], false⟩, ⟨["c"], false⟩, ⟨["x", "b"], false⟩, ⟨["y", "b"], false⟩] := by
    decide +kernel
  have hbroken : (failingFiles.scan "broken").failure =
      some (.unreadable (.file (.refused .notFound "b"))) := by decide +kernel
  have hstuck : (failingFiles.scan "stuck").failure = none := by decide +kernel
  have hunresolved : ((Context.empty.store (failingFiles.scan "stuck").items).expand
      PassCap.default.passes).2 = .error ⟨"E"⟩ := by decide +kernel
  obtain ⟨-, -, hthree, -⟩ :=
    parse_hands_over handedFiles "main" .default (collector (some 3)) .empty
  obtain ⟨-, -, hfive, -⟩ :=
    parse_hands_over handedFiles "main" .default (collector (some 5)) .empty
  obtain ⟨-, hscan, -⟩ := parse_hands_over failingFiles "broken" .default (collector none) .empty
  obtain ⟨-, -, hstop, -⟩ := parse_hands_over failingFiles "stuck" .default (collector none) .empty
  cases hexpand : (Context.empty.store (handedFiles.scan "main").items).expand
      PassCap.default.passes with
  | mk last result =>
  cases hunfinished : (Context.empty.store (failingFiles.scan "stuck").items).expand
      PassCap.default.passes with
  | mk left stopped =>
  rw [hexpand] at hpasses hlines
  rw [hunfinished] at hunresolved
  simp only at hpasses hlines hunresolved
  subst hpasses hunresolved
  have hthird := ((hthree hmain last).2 2 hexpand).2 ⟨⟩ 3 (refusesAt_collector rfl)
  have hnever := ((hfive hmain last).2 2 hexpand).2 ⟨⟩ 5 (refusesAt_collector rfl)
  rw [hlines] at hthird hnever
  exact ⟨hthird, hnever, (hscan _ hbroken).1, ((hstop hstuck left).1 _ hunfinished).1⟩

end CommandFile
