import CommandFile.Expansion
import Mathlib.Data.List.Basic
import Mathlib.Logic.Relation
set_option autoImplicit false

namespace CommandFile

def CallFree (tokens : List String) : Prop := ∀ token ∈ tokens, Call.name? token = none

instance (tokens : List String) : Decidable (CallFree tokens) :=
  inferInstanceAs (Decidable (∀ token ∈ tokens, Call.name? token = none))

theorem Call.token_of_name? {token name : String} (h : Call.name? token = some name) :
    Call.token name = token := by
  simp only [Call.name?] at h
  split at h
  · rename_i hcall
    cases h
    have hparentheses : token.toList.dropWhile Call.isNameChar = ['(', ')'] := by
      simpa using (Bool.and_eq_true_iff.mp hcall).2
    have hwhole := @List.takeWhile_append_dropWhile _ Call.isNameChar token.toList
    rw [hparentheses] at hwhole
    rw [← String.toList_inj, Call.token, String.toList_append, String.toList_ofList]
    exact hwhole
  · cases h

def Table.replace (short : Table (List String)) (token : String) : List String :=
  (short.called? token).getD [token]

theorem Table.replace_of_called {short : Table (List String)} {token : String}
    {replacement : List String} (h : short.called? token = some replacement) :
    short.replace token = replacement := by simp [replace, h]

theorem Table.replace_of_not_called {short : Table (List String)} {token : String}
    (h : short.called? token = none) : short.replace token = [token] := by simp [replace, h]

theorem Table.called?_of_name {α : Type} (t : Table α) {token name : String}
    (h : Call.name? token = some name) : t.called? token = t.find? name := by
  simp [called?, h]

theorem Table.called?_of_not_call {α : Type} (t : Table α) {token : String}
    (h : Call.name? token = none) : t.called? token = none := by
  simp [called?, h]

theorem Table.isSome_called?_iff {α : Type} {t : Table α} {token : String} :
    (t.called? token).isSome = true ↔
      ∃ name value, Call.name? token = some name ∧ t.find? name = some value := by
  constructor
  · intro h
    obtain ⟨value, hcalled⟩ := Option.isSome_iff_exists.mp h
    obtain ⟨name, hname, hfind⟩ := Option.bind_eq_some_iff.mp hcalled
    exact ⟨name, value, hname, hfind⟩
  · rintro ⟨name, value, hname, hfind⟩
    rw [t.called?_of_name hname, hfind]
    rfl

theorem substituteFrom_eq (short : Table (List String)) (before : List String) (changed : Bool)
    (tokens : List String) :
    substituteFrom short before changed tokens =
      (before.reverse ++ tokens.flatMap short.replace,
        changed || tokens.any fun token => (short.called? token).isSome) := by
  induction tokens generalizing before changed with
  | nil => simp [substituteFrom]
  | cons token rest ih =>
    cases h : short.called? token with
    | none => simp [substituteFrom, h, ih, Table.replace_of_not_called h]
    | some replacement => simp [substituteFrom, h, ih, Table.replace_of_called h]

theorem substitute_eq (short : Table (List String)) (tokens : List String) :
    substitute short tokens =
      (tokens.flatMap short.replace, tokens.any fun token => (short.called? token).isSome) := by
  simp [substitute, substituteFrom_eq]

@[simp] theorem substitute_append (short : Table (List String)) (as bs : List String) :
    (substitute short (as ++ bs)).1 = (substitute short as).1 ++ (substitute short bs).1 := by
  simp [substitute_eq]

@[simp] theorem substitute_cons (short : Table (List String)) (token : String)
    (rest : List String) :
    (substitute short (token :: rest)).1 = short.replace token ++ (substitute short rest).1 := by
  simp [substitute_eq]

theorem substitute_of_not_called {short : Table (List String)} {tokens : List String}
    (h : ∀ token ∈ tokens, short.called? token = none) : (substitute short tokens).1 = tokens := by
  rw [substitute_eq]
  calc tokens.flatMap short.replace = tokens.flatMap fun token => [token] :=
        List.flatMap_congr fun token ht => Table.replace_of_not_called (h token ht)
    _ = tokens := by simp

theorem substitute_of_callFree (short : Table (List String)) {tokens : List String}
    (h : CallFree tokens) : (substitute short tokens).1 = tokens :=
  substitute_of_not_called fun token ht => short.called?_of_not_call (h token ht)

theorem substitute_unchanged {short : Table (List String)} {tokens : List String}
    (h : (substitute short tokens).2 = false) :
    (substitute short tokens).1 = tokens ∧ ∀ token ∈ tokens, short.called? token = none := by
  have hnone : ∀ token ∈ tokens, short.called? token = none := by
    simpa [substitute_eq] using h
  exact ⟨substitute_of_not_called hnone, hnone⟩

inductive ShortStep (short : Table (List String)) : List String → List String → Prop where
  | replace {token : String} {replacement : List String} (before after : List String) :
      short.called? token = some replacement →
      ShortStep short (before ++ token :: after) (before ++ replacement ++ after)

theorem substitute_steps (short : Table (List String)) (before tokens : List String) :
    Relation.ReflTransGen (ShortStep short) (before ++ tokens)
      (before ++ (substitute short tokens).1) := by
  induction tokens generalizing before with
  | nil => exact .refl
  | cons token rest ih =>
    cases h : short.called? token with
    | none => simpa [Table.replace_of_not_called h] using ih (before ++ [token])
    | some replacement =>
      refine .head (ShortStep.replace before rest h) ?_
      simpa [Table.replace_of_called h] using ih (before ++ replacement)

def FirstCall.within (call : FirstCall) (before after : List String) : FirstCall :=
  ⟨before ++ call.before, call.name, call.after ++ after⟩

theorem firstCallFrom_eq (before tokens : List String) :
    firstCallFrom before tokens = (firstCall tokens).map (·.within before.reverse []) := by
  induction tokens generalizing before with
  | nil => rfl
  | cons token rest ih =>
    cases h : Call.name? token with
    | none =>
      have hrest : firstCall (token :: rest) = firstCallFrom [token] rest := by
        simp [firstCall, firstCallFrom, h]
      rw [hrest, ih [token]]
      simp [firstCallFrom, h, ih (token :: before), FirstCall.within, Function.comp_def]
    | some name => simp [firstCall, firstCallFrom, h, FirstCall.within]

@[simp] theorem firstCall_nil : firstCall [] = none := rfl

theorem firstCall_cons_of_call {token name : String} (h : Call.name? token = some name)
    (rest : List String) : firstCall (token :: rest) = some ⟨[], name, rest⟩ := by
  simp [firstCall, firstCallFrom, h]

theorem firstCall_cons_of_not_call {token : String} (h : Call.name? token = none)
    (rest : List String) :
    firstCall (token :: rest) = (firstCall rest).map (·.within [token] []) := by
  simp [firstCall, firstCallFrom, h, firstCallFrom_eq [token]]

theorem firstCall_eq_none_iff {tokens : List String} :
    firstCall tokens = none ↔ CallFree tokens := by
  induction tokens with
  | nil => simp [CallFree]
  | cons token rest ih =>
    cases h : Call.name? token with
    | none => simpa [firstCall_cons_of_not_call h, CallFree, h] using ih
    | some name => simp [firstCall_cons_of_call h, CallFree, h]

theorem firstCall_append (as bs : List String) :
    firstCall (as ++ bs) =
      ((firstCall as).map (·.within [] bs)).or ((firstCall bs).map (·.within as [])) := by
  induction as with
  | nil => simp [FirstCall.within]
  | cons token rest ih =>
    cases h : Call.name? token with
    | none =>
      rw [List.cons_append, firstCall_cons_of_not_call h, firstCall_cons_of_not_call h, ih]
      cases firstCall rest <;> cases firstCall bs <;> simp [FirstCall.within]
    | some name => simp [firstCall_cons_of_call h, FirstCall.within]

theorem firstCall_append_of_some {as : List String} {call : FirstCall}
    (h : firstCall as = some call) (bs : List String) :
    firstCall (as ++ bs) = some ⟨call.before, call.name, call.after ++ bs⟩ := by
  simp [firstCall_append, h, FirstCall.within]

theorem firstCall_append_call {before : List String} (hb : firstCall before = none)
    {token name : String} (hn : Call.name? token = some name) (after : List String) :
    firstCall (before ++ token :: after) = some ⟨before, name, after⟩ := by
  simp [firstCall_append, hb, firstCall_cons_of_call hn, FirstCall.within]

theorem firstCall_eq_some {tokens : List String} {call : FirstCall}
    (h : firstCall tokens = some call) :
    ∃ token, tokens = call.before ++ token :: call.after ∧ Call.name? token = some call.name ∧
      firstCall call.before = none := by
  induction tokens generalizing call with
  | nil => simp at h
  | cons token rest ih =>
    cases hn : Call.name? token with
    | some name =>
      rw [firstCall_cons_of_call hn] at h
      cases h
      exact ⟨token, rfl, hn, rfl⟩
    | none =>
      rw [firstCall_cons_of_not_call hn] at h
      obtain ⟨call, hr, rfl⟩ := Option.map_eq_some_iff.mp h
      obtain ⟨t, rfl, ht, hb⟩ := ih hr
      refine ⟨t, by simp [FirstCall.within], ht, ?_⟩
      simp [FirstCall.within, firstCall_cons_of_not_call hn, hb]

/-- What can happen to a dirty line in a pass. A call is unresolved only if it is the first one of a
line without short calls. -/
inductive LineOutcome (m : Macros) (tokens : List String) :
    Except UnresolvedMacro (List PendingLine) → Prop where
  | callFree : CallFree tokens → LineOutcome m tokens (.ok [⟨tokens, false⟩])
  | substituted : (substitute m.short tokens).2 = true →
      (∀ call, firstCall (substitute m.short tokens).1 = some call →
        m.long.find? call.name = none) →
      LineOutcome m tokens (.ok [⟨(substitute m.short tokens).1, true⟩])
  | fannedOut {call : FirstCall} {body : List (List String)} :
      firstCall (substitute m.short tokens).1 = some call → m.long.find? call.name = some body →
      LineOutcome m tokens (.ok (body.map fun line => ⟨call.before ++ line ++ call.after, true⟩))
  | unresolved {call : FirstCall} :
      firstCall tokens = some call → (∀ token ∈ tokens, m.short.called? token = none) →
      m.long.find? call.name = none → LineOutcome m tokens (.error ⟨call.name⟩)

theorem expandLine_outcome (m : Macros) (tokens : List String) :
    LineOutcome m tokens (expandLine m tokens) := by
  cases hs : substitute m.short tokens with
  | mk substituted changed =>
    have hfirst : substituted = (substitute m.short tokens).1 := by rw [hs]
    cases hc : firstCall substituted with
    | none =>
      cases changed with
      | true =>
        have h : expandLine m tokens = .ok [⟨substituted, true⟩] := by
          simp [expandLine, fanOut, hs, hc]
        rw [h, hfirst]
        exact .substituted (by rw [hs]) (by simp [hs, hc])
      | false =>
        have hsame : substituted = tokens := by
          rw [hfirst, (substitute_unchanged (by rw [hs])).1]
        have h : expandLine m tokens = .ok [⟨substituted, false⟩] := by
          simp [expandLine, fanOut, hs, hc]
        rw [h, hsame]
        exact .callFree (firstCall_eq_none_iff.mp (by rw [← hsame, hc]))
    | some call =>
      cases hl : m.long.find? call.name with
      | some body =>
        have h : expandLine m tokens =
            .ok (body.map fun line => ⟨call.before ++ line ++ call.after, true⟩) := by
          simp [expandLine, fanOut, hs, hc, hl, Function.comp_def]
        rw [h]
        exact .fannedOut (by rw [← hfirst, hc]) hl
      | none =>
        cases changed with
        | true =>
          have h : expandLine m tokens = .ok [⟨substituted, true⟩] := by
            simp [expandLine, fanOut, hs, hc, hl]
          rw [h, hfirst]
          exact .substituted (by rw [hs]) (by simpa [hs, hc] using hl)
        | false =>
          have hsame := substitute_unchanged (show (substitute m.short tokens).2 = false by rw [hs])
          have h : expandLine m tokens = .error ⟨call.name⟩ := by
            simp [expandLine, fanOut, hs, hc, hl]
          rw [h]
          exact .unresolved (by rw [← hsame.1, ← hfirst, hc]) hsame.2 hl

theorem expandLine_of_callFree {m : Macros} {tokens : List String} (h : firstCall tokens = none) :
    expandLine m tokens = .ok [⟨tokens, false⟩] := by
  have hfree := firstCall_eq_none_iff.mp h
  have hcalled : ∀ token ∈ tokens, m.short.called? token = none := fun token ht =>
    m.short.called?_of_not_call (hfree token ht)
  have hs : substitute m.short tokens = (tokens, false) :=
    Prod.ext (substitute_of_callFree m.short hfree) (by simpa [substitute_eq] using hcalled)
  simp [expandLine, hs, fanOut, h]

/-- The first call of a line stays the first in a substitution if it is not replaced. -/
theorem firstCall_substitute {m : Macros} {tokens : List String} {call : FirstCall}
    (hc : firstCall tokens = some call) (hs : m.short.find? call.name = none) :
    firstCall (substitute m.short tokens).1 =
      some ⟨call.before, call.name, (substitute m.short call.after).1⟩ := by
  obtain ⟨token, rfl, hn, hb⟩ := firstCall_eq_some hc
  have hrep : m.short.replace token = [token] :=
    Table.replace_of_not_called (by rw [m.short.called?_of_name hn, hs])
  rw [substitute_append, substitute_of_callFree _ (firstCall_eq_none_iff.mp hb), substitute_cons,
    hrep]
  exact firstCall_append_call hb hn _

theorem substitute_firstCall {m : Macros} {tokens replacement : List String} {call : FirstCall}
    (hc : firstCall tokens = some call) (hs : m.short.find? call.name = some replacement) :
    (substitute m.short tokens).1 =
      call.before ++ replacement ++ (substitute m.short call.after).1 := by
  obtain ⟨token, rfl, hn, hb⟩ := firstCall_eq_some hc
  have hrep : m.short.replace token = replacement :=
    Table.replace_of_called (by rw [m.short.called?_of_name hn, hs])
  rw [substitute_append, substitute_of_callFree _ (firstCall_eq_none_iff.mp hb), substitute_cons,
    hrep, List.append_assoc]

end CommandFile
