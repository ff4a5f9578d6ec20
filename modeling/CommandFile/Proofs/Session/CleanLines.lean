import CommandFile.Session
import CommandFile.Proofs.Expansion.LineSteps
import CommandFile.Proofs.Reading.Effects
import CommandFile.Proofs.Schedule.Noting
set_option autoImplicit false

namespace CommandFile

theorem cleanCallFree_store {c : Context} (h : CleanCallFree c.lines) (items : List Item) :
    CleanCallFree (c.store items).lines :=
  cleanCallFree_append.mpr ⟨h, cleanCallFree_of_dirty fun _ hl => (mem_pendingLines.mp hl).1⟩

theorem dirtyCount_of_passes_lt {m : Macros} {passes left : Nat} {lines : List PendingLine}
    {e : Expanded} (he : expandFrom m passes lines (dirtyCount lines) left = .ok e)
    (hlt : e.passes < passes + left) : dirtyCount e.lines = 0 := by
  induction left generalizing passes lines with
  | zero =>
    cases he
    simp at hlt
  | succ left ih =>
    rw [expandFrom_succ] at he
    split at he
    · cases he
      assumption
    · cases hp : expandPass m lines with
      | error i => simp [hp] at he
      | ok next =>
        simp only [hp] at he
        exact ih he (by omega)

namespace Session

theorem Step.run_cleanCallFree (files : Store) (s : Step) {c : Context}
    (h : CleanCallFree c.lines) : CleanCallFree (s.run files c).1.lines := by
  cases s with
  | defineShort name replacement => exact h
  | defineLong name body => exact h
  | addLine tokens =>
    exact cleanCallFree_append.mpr ⟨h, cleanCallFree_of_dirty (by simp)⟩
  | scan path => exact cleanCallFree_store h _
  | expand cap => exact Context.expand_cleanCallFree h cap
  | emit limit => exact h

/-- The contexts that sessions come to. The files may change between two steps, and a scan may open
them in any way and nest them to any depth. -/
inductive Reachable : Context → Prop where
  | start : Reachable .empty
  | step {c : Context} (files : Store) (s : Step) : Reachable c → Reachable (s.run files c).1
  | scan {c : Context} (openFile : Opener) (limit : Nat) (path : String) :
      Reachable c → Reachable (c.store (CommandFile.scan openFile limit path).items)

theorem Reachable.cleanCallFree {c : Context} (h : Reachable c) : CleanCallFree c.lines := by
  induction h with
  | start => simp [CleanCallFree, Context.empty]
  | step files s _ ih => exact s.run_cleanCallFree files ih
  | scan openFile limit path _ ih => exact cleanCallFree_store ih _

/-- In no context that a session comes to does a clean line hold a call. So no command has a call
that is handed over by a parse whose expansion has stopped before its cap. -/
theorem clean_lines_callFree {σ ε : Type} (scheduler : Scheduler σ ε) (state : σ) :
    (∀ c, Reachable c → ∀ line ∈ c.lines, line.dirty = false → CallFree line.tokens) ∧
    ∀ (files : Store) (path : String) (cap : PassCap) (next : Context) (passes : Nat),
      (Context.empty.store (files.scan path).items).expand cap.passes = (next, .ok passes) →
      passes < cap.passes →
      ∀ command ∈ (files.parse path cap scheduler.noting (state, [])).1.2, CallFree command := by
  refine ⟨fun c hc => hc.cleanCallFree,
    fun files path cap next passes he hlt command hcommand => ?_⟩
  have hnext : Reachable next := by
    have hscanned := Reachable.start.step files (.scan path)
    have hexpanded := hscanned.step files (.expand cap.passes)
    simpa [Step.run, he] using hexpanded
  have hsettled : dirtyCount next.lines = 0 :=
    dirtyCount_of_passes_lt (Context.expand_eq_ok he).1 (by simpa using hlt)
  obtain ⟨lines, hlines, line, hline, rfl⟩ := Reading.mem_schedule_noting hcommand
  have hmem : line ∈ next.lines := by
    unfold Reading.expand at hlines
    split at hlines
    · cases hlines
    · rw [he] at hlines
      cases hlines
      exact hline
  exact hnext.cleanCallFree line hmem (dirtyCount_eq_zero_iff.mp hsettled line hmem)

def calledFiles : Store :=
  ⟨[(["source"], .file (Text.Utf8.encode "MACRO A = b B()\nA() c\nMACRO B = d\n".toList))]⟩

theorem calledFiles_callFree :
    (∃ c, Reachable c ∧ c.lines = [⟨["x"], false⟩, ⟨["B()"], true⟩] ∧ CallFree ["x"]) ∧
    (calledFiles.parse "source" .default (collector none).noting (.empty, [])).1.2 =
      [["b", "d", "c"]] ∧
    CallFree ["b", "d", "c"] := by
  obtain ⟨hclean, hparse⟩ := clean_lines_callFree (collector none) .empty
  have hreachable := ((Reachable.start.step .empty (.addLine ["x"])).step .empty
    (.addLine ["B()"])).step .empty (.expand 2)
  have hlines : ((Step.expand 2).run .empty (((Step.addLine ["B()"]).run .empty
      ((Step.addLine ["x"]).run .empty .empty).1).1)).1.lines =
        [⟨["x"], false⟩, ⟨["B()"], true⟩] := by decide +kernel
  have hpasses : ((Context.empty.store (calledFiles.scan "source").items).expand 10).2.toOption =
      some 3 := by decide +kernel
  have hcommands : (calledFiles.parse "source" .default (collector none).noting (.empty, [])).1.2 =
      [["b", "d", "c"]] := by decide +kernel
  have hfree : CallFree ["b", "d", "c"] := by
    cases he : (Context.empty.store (calledFiles.scan "source").items).expand 10 with
    | mk next result =>
      cases result with
      | error e => simp [he, Except.toOption] at hpasses
      | ok passes =>
        simp only [he, Except.toOption, Option.some.injEq] at hpasses
        exact hparse calledFiles "source" .default next passes he (by rw [hpasses]; decide) _
          (by simp [hcommands])
  exact ⟨⟨_, hreachable, hlines, hclean _ hreachable ⟨["x"], false⟩ (by simp [hlines]) rfl⟩,
    hcommands, hfree⟩

end Session
end CommandFile
