import CommandFile.Proofs.Expansion.Calls
import Mathlib.Computability.StateTransition
set_option autoImplicit false

/-!
The calls of a line in place. Short calls are replaced by a loop that goes through the tokens by an
index, while what takes the place of a call makes the line longer or shorter. The index moves over
all that has been put in, so that every original token is looked at once and no other. Main
statement: the loop ends, with what takes the place of each original token, and a line is fanned out
by its first call and by no later one.
-/
namespace CommandFile

/-- Where the loop stands: the tokens as they are now, the index of the one to look at next, and
whether a call has been replaced. -/
structure Replacing where
  tokens : List String
  index : Nat
  changed : Bool
  deriving DecidableEq

namespace Replacing

/-- A turn of the loop, as long as the index is that of a token. A replacement goes into the place
of its call, and the index behind it. -/
def turn (short : Table (List String)) (s : Replacing) : Option Replacing :=
  match s.tokens[s.index]? with
  | none => none
  | some token =>
    match short.called? token with
    | some replacement =>
      some ⟨s.tokens.take s.index ++ replacement ++ s.tokens.drop (s.index + 1),
        s.index + replacement.length, true⟩
    | none => some { s with index := s.index + 1 }

def start (tokens : List String) : Replacing := ⟨tokens, 0, false⟩

def within (done ahead : List String) (changed : Bool) : Replacing :=
  ⟨done ++ ahead, done.length, changed⟩

variable (short : Table (List String)) (done ahead : List String) (changed : Bool)

theorem turn_within_nil : (within done [] changed).turn short = none := by
  simp [turn, within]

theorem turn_within_cons (token : String) :
    (within done (token :: ahead) changed).turn short =
      some (within (done ++ short.replace token) ahead
        (changed || (short.called? token).isSome)) := by
  have htoken : (within done (token :: ahead) changed).tokens[done.length]? = some token := by
    simp [within]
  have hindex : (within done (token :: ahead) changed).index = done.length := rfl
  simp only [turn, hindex, htoken]
  cases h : short.called? token with
  | none => simp [within, Table.replace_of_not_called h]
  | some replacement => simp [within, Table.replace_of_called h]

/-- The index stays where it is if nothing takes the place of the call. -/
example : (start ["E()", "A()"]).turn ⟨[("E", []), ("A", ["A()"])]⟩ = some ⟨["A()"], 0, true⟩ := by
  decide +kernel

/-- Each turn takes one of the tokens ahead and leaves behind it what takes its place. -/
theorem reaches_within :
    StateTransition.Reaches (turn short) (within done ahead changed)
      (within (done ++ ahead.flatMap short.replace) []
        (changed || ahead.any fun token => (short.called? token).isSome)) := by
  induction ahead generalizing done changed with
  | nil =>
    rw [List.flatMap_nil, List.append_nil, List.any_nil, Bool.or_false]
    exact .refl
  | cons token rest ih =>
    have hrest := ih (done ++ short.replace token) (changed || (short.called? token).isSome)
    rw [List.flatMap_cons, List.any_cons, ← List.append_assoc, ← Bool.or_assoc]
    exact .head (turn_within_cons short done rest changed token) hrest

theorem eval_start (tokens : List String) :
    StateTransition.eval (turn short) (start tokens) =
      Part.some (within (substitute short tokens).1 [] (substitute short tokens).2) := by
  have hreaches := reaches_within short [] tokens false
  rw [List.nil_append, Bool.false_or] at hreaches
  rw [substitute_eq, Part.eq_some_iff, StateTransition.mem_eval]
  exact ⟨hreaches, turn_within_nil short _ _⟩

end Replacing

structure FirstCall.LeadsIn (call : FirstCall) (tokens : List String) : Prop where
  tokens_eq : tokens = call.before ++ Call.token call.name :: call.after
  isCall : Call.name? (Call.token call.name) = some call.name
  callFree : CallFree call.before

theorem firstCall_eq_some_iff {tokens : List String} {call : FirstCall} :
    firstCall tokens = some call ↔ call.LeadsIn tokens := by
  constructor
  · intro h
    obtain ⟨token, htokens, hname, hbefore⟩ := firstCall_eq_some h
    obtain rfl : Call.token call.name = token := Call.token_of_name? hname
    exact ⟨htokens, hname, firstCall_eq_none_iff.mp hbefore⟩
  · rintro ⟨rfl, hname, hbefore⟩
    exact firstCall_append_call (firstCall_eq_none_iff.mpr hbefore) hname call.after

section FanOut
variable {long : Table (List (List String))} {tokens : List String} {requireDefined : Bool}

theorem fanOut_eq_some_iff {lines : List (List String)} :
    fanOut long tokens requireDefined = .ok (some lines) ↔
      ∃ call body, FirstCall.LeadsIn call tokens ∧ long.find? call.name = some body ∧
        lines = body.map fun line => call.before ++ line ++ call.after := by
  simp only [← firstCall_eq_some_iff]
  rw [fanOut]
  cases firstCall tokens with
  | none => simp
  | some call =>
    cases h : long.find? call.name with
    | none => cases requireDefined <;> simp [h, eq_comm]
    | some body => simp [h, eq_comm]

theorem fanOut_eq_error_iff {e : UnresolvedMacro} :
    fanOut long tokens requireDefined = .error e ↔
      ∃ call, FirstCall.LeadsIn call tokens ∧ long.find? call.name = none ∧
        requireDefined = true ∧ e = ⟨call.name⟩ := by
  simp only [← firstCall_eq_some_iff]
  rw [fanOut]
  cases firstCall tokens with
  | none => simp
  | some call =>
    cases h : long.find? call.name with
    | none => cases requireDefined <;> simp [h, eq_comm]
    | some body => simp [h, eq_comm]

theorem fanOut_eq_none_iff :
    fanOut long tokens requireDefined = .ok none ↔
      ∀ call, FirstCall.LeadsIn call tokens →
        long.find? call.name = none ∧ requireDefined = false := by
  simp only [← firstCall_eq_some_iff]
  rw [fanOut]
  cases firstCall tokens with
  | none => simp
  | some call => cases h : long.find? call.name <;> simp [h]

end FanOut

/-- The loop that replaces the short calls of a line in place comes to an end, and what it leaves is
what a substitution gives: the replacements of the original tokens that are calls, and the other
original tokens themselves. Something has changed just if there was such a call. A line fans out
just if the first of its calls is that of a long macro, and meets an error just if that call is
undefined and must not be. -/
theorem replacing_ends_and_fanOut_iff (short : Table (List String))
    (long : Table (List (List String))) (tokens : List String) (requireDefined : Bool) :
    (∃ last, StateTransition.eval (Replacing.turn short) (.start tokens) = Part.some last ∧
      substitute short tokens = (last.tokens, last.changed) ∧
      last.tokens = tokens.flatMap short.replace ∧
      (last.changed = true ↔ ∃ token ∈ tokens, ∃ name replacement,
        Call.name? token = some name ∧ short.find? name = some replacement)) ∧
    (∀ lines, fanOut long tokens requireDefined = .ok (some lines) ↔
      ∃ call body, FirstCall.LeadsIn call tokens ∧ long.find? call.name = some body ∧
        lines = body.map fun line => call.before ++ line ++ call.after) ∧
    (∀ e, fanOut long tokens requireDefined = .error e ↔
      ∃ call, FirstCall.LeadsIn call tokens ∧ long.find? call.name = none ∧
        requireDefined = true ∧ e = ⟨call.name⟩) ∧
    (fanOut long tokens requireDefined = .ok none ↔
      ∀ call, FirstCall.LeadsIn call tokens →
        long.find? call.name = none ∧ requireDefined = false) := by
  have hend := Replacing.eval_start short tokens
  refine ⟨⟨_, hend, ?_, ?_, ?_⟩, fun _ => fanOut_eq_some_iff, fun _ => fanOut_eq_error_iff,
    fanOut_eq_none_iff⟩
  · simp [Replacing.within]
  · simp [Replacing.within, substitute_eq]
  · simp [Replacing.within, substitute_eq, Table.isSome_called?_iff]

end CommandFile
