import CommandFile.Parse
set_option autoImplicit false

namespace CommandFile
variable {σ ε : Type}

def Scheduler.noting (s : Scheduler σ ε) : Scheduler (σ × List (List String)) ε where
  add state command :=
    let (next, refusal) := s.add state.1 command
    ((next, state.2 ++ [command]), refusal)

theorem Scheduler.add_noting (s : Scheduler σ ε) (state : σ) (noted : List (List String))
    (command : List String) :
    s.noting.add (state, noted) command =
      (((s.add state command).1, noted ++ [command]), (s.add state command).2) := rfl

/-- The commands that reach a scheduler are those of the first lines, and of all of them unless it
refuses one. -/
theorem emit_noting (s : Scheduler σ ε) (state : σ) (noted : List (List String))
    (lines : List PendingLine) :
    ∃ given rest, lines = given ++ rest ∧ ((emit s state lines).2 = none → rest = []) ∧
      emit s.noting (state, noted) lines =
        (((emit s state lines).1, noted ++ given.map (·.tokens)), (emit s state lines).2) := by
  induction lines generalizing state noted with
  | nil => exact ⟨[], [], rfl, fun _ => rfl, by simp [emit]⟩
  | cons line others ih =>
    have hadd := s.add_noting state noted line.tokens
    cases ha : s.add state line.tokens with
    | mk next refusal =>
      rw [ha] at hadd
      cases refusal with
      | some e => exact ⟨[line], others, rfl, by simp [emit, ha], by simp [emit, hadd, ha]⟩
      | none =>
        obtain ⟨given, rest, hlines, hall, he⟩ := ih next (noted ++ [line.tokens])
        refine ⟨line :: given, rest, by rw [hlines]; rfl, by simpa [emit, ha] using hall, ?_⟩
        simp [emit, hadd, ha, he]

theorem emit_collector (state : Collected) (lines : List PendingLine) :
    emit (collector none) state lines =
      (⟨state.commands ++ (lines.map (·.tokens)).toArray⟩, none) := by
  induction lines generalizing state with
  | nil => simp [emit]
  | cons line rest ih =>
    have hadd : (collector none).add state line.tokens =
        (⟨state.commands.push line.tokens⟩, none) := rfl
    simp [emit, hadd, ih]

theorem Reading.lines_of_expand {r : Reading} {cap : PassCap} {lines : List PendingLine}
    (h : r.expand cap = .ok lines) :
    lines = ((Context.empty.store r.items).expand cap.passes).1.lines := by
  unfold expand at h
  split at h
  · cases h
  · split at h <;> cases h
    simp [*]

theorem Reading.schedule_of_error {r : Reading} {cap : PassCap} {e : ParseError}
    (h : r.expand cap = .error e) (s : Scheduler σ ε) (state : σ) :
    r.schedule cap s state = (state, some (.parse e)) := by
  rw [schedule, h]

theorem Reading.schedule_of_ok {r : Reading} {cap : PassCap} {lines : List PendingLine}
    (h : r.expand cap = .ok lines) :
    r.schedule cap (collector none) .empty = (⟨(lines.map (·.tokens)).toArray⟩, none) := by
  simp [schedule, h, emit_collector, Collected.empty]

theorem Reading.schedule_collector {r : Reading} {cap : PassCap} {collected : Collected}
    (h : r.schedule cap (collector none) .empty = (collected, none)) :
    ∃ lines, r.expand cap = .ok lines ∧ collected.commands.toList = lines.map (·.tokens) := by
  cases he : r.expand cap with
  | error e => simp [schedule_of_error he] at h
  | ok lines =>
    rw [schedule_of_ok he, Prod.mk.injEq] at h
    exact ⟨lines, rfl, by rw [← h.1]⟩

theorem Reading.mem_schedule_noting {r : Reading} {cap : PassCap} {s : Scheduler σ ε} {state : σ}
    {command : List String} (h : command ∈ (r.schedule cap s.noting (state, [])).1.2) :
    ∃ lines, r.expand cap = .ok lines ∧ ∃ line ∈ lines, line.tokens = command := by
  cases he : r.expand cap with
  | error e => simp [schedule, he] at h
  | ok lines =>
    obtain ⟨given, rest, hlines, -, hemit⟩ := emit_noting s state [] lines
    refine ⟨lines, rfl, ?_⟩
    have hgiven : command ∈ given.map (·.tokens) := by
      cases hrefusal : (emit s state lines).2 <;> simpa [schedule, he, hemit, hrefusal] using h
    obtain ⟨line, hline, htokens⟩ := List.mem_map.mp hgiven
    exact ⟨line, hlines ▸ List.mem_append_left rest hline, htokens⟩

end CommandFile
