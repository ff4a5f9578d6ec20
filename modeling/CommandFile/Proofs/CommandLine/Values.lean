import CommandFile.Arguments
import Mathlib.Data.List.TakeWhile
set_option autoImplicit false

namespace CommandFile

theorem Flag.ne_maxPasses_of_letter {letter : Char} {flag : Flag}
    (h : ofLetter? letter = some flag) : flag ≠ .maxPasses := by
  rintro rfl
  unfold ofLetter? at h
  split at h <;> cases h

def Attached (texts : List String) (flag : Flag) (value : String) : Prop :=
  ∃ text ∈ texts, value.toList <:+ text.toList ∧
    (flag = .maxPasses → '=' :: value.toList <:+ text.toList)

inductive Argument.From (texts : List String) : Argument → Prop where
  | plain {text : String} : text ∈ texts → From texts (.plain text)
  | valued {flag : Flag} {short : Bool} {value : String} : Attached texts flag value →
      From texts (.option flag short (some value))
  | bare (flag : Flag) (short : Bool) : From texts (.option flag short none)
  | unknown (text : String) : From texts (.unknown text)
  | separator : From texts .separator

namespace Argument
variable {texts rest : List String} {text : String} {argument : Argument}
  {arguments : List Argument}

theorem From.mono {others : List String} (h : argument.From texts) (hsub : texts ⊆ others) :
    argument.From others := by
  cases h with
  | plain hmem => exact .plain (hsub hmem)
  | valued hvalue =>
    obtain ⟨text, hmem, hends⟩ := hvalue
    exact .valued ⟨text, hsub hmem, hends⟩
  | bare flag short => exact .bare flag short
  | unknown text => exact .unknown text
  | separator => exact .separator

end Argument

namespace Joined
variable {texts : List String} {flag valuedFlag : Flag} {j : Joined} {value : String}

theorem ofLetters_valued {cs : List Char} (h : ofLetters flag cs = .ok j)
    (hflag : flag ≠ .maxPasses) (hvalue : j.valued = some (valuedFlag, some value)) :
    valuedFlag ≠ .maxPasses ∧ value.toList <:+ cs := by
  induction cs generalizing flag j with
  | nil =>
    simp only [ofLetters] at h
    split at h <;> cases h <;> simp at hvalue
  | cons letter rest ih =>
    simp only [ofLetters] at h
    split at h
    · cases h
      cases hvalue
      exact ⟨hflag, by simp⟩
    · split at h
      · rename_i next hnext
        cases ho : ofLetters next rest with
        | error e => simp [ho, Except.map] at h
        | ok others =>
          simp only [ho, Except.map, Except.ok.injEq] at h
          subst h
          obtain ⟨hother, hends⟩ := ih ho (Flag.ne_maxPasses_of_letter hnext) hvalue
          exact ⟨hother, hends.trans (List.suffix_cons letter rest)⟩
      · cases h

theorem attached_of_ofFlag {short : Bool} {attached : Option String}
    (h : ofFlag flag short attached = .ok j)
    (hargument : (Argument.option flag short attached).From texts)
    (hvalue : j.valued = some (valuedFlag, some value)) : Attached texts valuedFlag value := by
  cases hargument with
  | bare =>
    simp only [ofFlag, ofLetters] at h
    split at h <;> cases h <;> simp at hvalue
  | @valued flag short text hattached =>
    simp only [ofFlag] at h
    split at h
    · cases h
      cases hvalue
      exact hattached
    split at h
    -- Only a switch has letters behind it, and each of these names a short option.
    · rename_i hswitch hletters
      have hflag : flag ≠ .maxPasses := by
        rintro rfl
        exact hswitch rfl
      obtain ⟨hother, hends⟩ := ofLetters_valued h hflag hvalue
      obtain ⟨argument, hmem, hvalueEnds, -⟩ := hattached
      exact ⟨argument, hmem, hends.trans hvalueEnds, fun he => absurd he hother⟩
    · cases h

end Joined

namespace Settings
variable {texts : List String} {s next : Settings}

structure From (texts : List String) (s : Settings) : Prop where
  output : ∀ path ∈ s.output, ∃ text ∈ texts, path.toList <:+ text.toList
  cap : s.maxPasses = .withoutValue → ∃ text ∈ texts, ['=', '-', '-'] <:+ text.toList

theorem From.set {flag : Flag} {value : Option String} (hs : s.From texts)
    (h : s.set flag value = .ok next)
    (hvalue : ∀ v ∈ value, ∃ text ∈ texts, v.toList <:+ text.toList)
    (hnone : flag = .maxPasses → value = none → ∃ text ∈ texts, ['=', '-', '-'] <:+ text.toList) :
    next.From texts := by
  cases flag with
  | output =>
    cases h
    exact ⟨hvalue, hs.cap⟩
  | maxPasses =>
    cases value with
    | none =>
      cases h
      exact ⟨hs.output, fun _ => hnone rfl rfl⟩
    | some text =>
      simp only [Settings.set] at h
      split at h
      · cases h
        exact ⟨hs.output, by simp⟩
      · cases h
  | help | verbose =>
    cases h
    exact hs

/-- The settings after the options of one argument, and whether its value was the next argument. -/
inductive Applied (s : Settings) (j : Joined) (behind : Option Argument) :
    Settings → Bool → Prop where
  | switched : j.valued = none → Applied s j behind (s.switchOn j.switches) false
  | attached {flag : Flag} {value : String} {next : Settings} :
      j.valued = some (flag, some value) →
      (s.switchOn j.switches).set flag (attachedValue value) = .ok next →
      Applied s j behind next false
  | taken {flag : Flag} {value : String} {next : Settings} :
      j.valued = some (flag, none) → behind = some (.plain value) →
      (s.switchOn j.switches).set flag (some value) = .ok next → Applied s j behind next true

theorem applied_of_apply {j : Joined} {behind : Option Argument} {tookNext : Bool}
    (h : s.apply j behind = .ok (.settings next tookNext)) : s.Applied j behind next tookNext := by
  have hset : ∀ flag value took, (if j.switches.contains .help then .ok .help
      else ((s.switchOn j.switches).set flag value).map (Effect.settings · took)) =
        .ok (.settings next tookNext) →
      (s.switchOn j.switches).set flag value = .ok next ∧ took = tookNext := by
    intro flag value took hvalue
    split at hvalue
    · cases hvalue
    · cases hs : (s.switchOn j.switches).set flag value with
      | error e => simp [hs, Except.map] at hvalue
      | ok settings =>
        simpa only [hs, Except.map, Except.ok.injEq, Effect.settings.injEq] using hvalue
  simp only [Settings.apply] at h
  split at h
  · rename_i hnone
    split at h
    · cases h
    · cases h
      exact .switched hnone
  · rename_i flag value hvalued
    obtain ⟨hvalue, rfl⟩ := hset _ _ _ h
    exact .attached hvalued hvalue
  · rename_i flag hvalued
    split at h
    · rename_i value
      obtain ⟨hvalue, rfl⟩ := hset _ _ _ h
      exact .taken hvalued rfl hvalue
    · cases h

theorem From.applied {j : Joined} {behind : Option Argument} {tookNext : Bool} (hs : s.From texts)
    (h : s.Applied j behind next tookNext)
    (hattached : ∀ flag value, j.valued = some (flag, some value) → Attached texts flag value)
    (hbehind : ∀ argument ∈ behind, argument.From texts) : next.From texts := by
  have hswitched : (s.switchOn j.switches).From texts := ⟨hs.output, hs.cap⟩
  cases h with
  | switched => exact hswitched
  | @attached flag value _ hvalued hset =>
    obtain ⟨text, hmem, hends, hcap⟩ := hattached flag value hvalued
    refine hswitched.set hset (fun v hv => ?_) fun hflag hnone => ?_
    · unfold attachedValue at hv
      split at hv <;> cases hv
      exact ⟨text, hmem, hends⟩
    · have hhyphens : value = "--" := by
        unfold attachedValue at hnone
        split at hnone
        · assumption
        · cases hnone
      exact ⟨text, hmem, by simpa [hhyphens] using hcap hflag⟩
  | @taken flag value _ hvalued hplain hset =>
    refine hswitched.set hset (fun v hv => ?_) fun _ hnone => by cases hnone
    cases hv
    cases hbehind _ hplain with
    | plain hmem => exact ⟨value, hmem, List.suffix_refl _⟩

theorem From.read {arguments : List Argument} (hs : s.From texts)
    (harguments : ∀ argument ∈ arguments, argument.From texts)
    (h : s.read arguments = .ok (some next)) : next.From texts := by
  fun_induction s.read arguments with
  | case1 =>
    cases h
    exact hs
  | case2 =>
    cases h
    exact ⟨hs.output, hs.cap⟩
  | case3 s text rest hsource hrest ih =>
    exact ih ⟨hs.output, hs.cap⟩ (List.forall_mem_cons.mp harguments).2 h
  | case4 s text rest source hsource ih =>
    exact ih ⟨hs.output, hs.cap⟩ (List.forall_mem_cons.mp harguments).2 h
  | case5 s text rest ih =>
    exact ih ⟨hs.output, hs.cap⟩ (List.forall_mem_cons.mp harguments).2 h
  | case6 s rest =>
    cases h
    unfold readSeparated
    split <;> exact ⟨hs.output, hs.cap⟩
  | case7 => cases h
  | case8 => cases h
  | case9 => cases h
  | case10 s flag short attached rest j hj applied ha ih =>
    obtain ⟨hoption, hrest⟩ := List.forall_mem_cons.mp harguments
    refine ih (hs.applied (applied_of_apply ha)
      (fun _ _ => Joined.attached_of_ofFlag hj hoption) ?_) hrest h
    exact fun argument hhead => hrest argument (List.mem_of_mem_head? hhead)
  | case11 s flag short attached j hj applied ha =>
    obtain ⟨hoption, -⟩ := List.forall_mem_cons.mp harguments
    cases h
    exact hs.applied (applied_of_apply ha)
      (fun _ _ => Joined.attached_of_ofFlag hj hoption) (by simp)
  | case12 s flag short attached j hj applied behind others ha ih =>
    obtain ⟨hoption, hrest⟩ := List.forall_mem_cons.mp harguments
    obtain ⟨hbehind, hothers⟩ := List.forall_mem_cons.mp hrest
    refine ih (hs.applied (applied_of_apply ha)
      (fun _ _ => Joined.attached_of_ofFlag hj hoption) ?_) hothers h
    simpa using hbehind

end Settings

def Settings.request (s : Settings) (source : String) : Request :=
  match s.maxPasses with
  | .absent => .expand source s.output none s.verbose
  | .number n => .expand source s.output (some n) s.verbose
  | .withoutValue => .capWithoutValue

theorem Request.settings_of_arguments {texts : List String} {request : Request}
    (h : Request.ofArguments texts = .ok request) :
    request = .help ∨ ∃ arguments settings source, Argument.ofTexts texts = .ok arguments ∧
      Settings.empty.read arguments = .ok (some settings) ∧ request = settings.request source := by
  unfold ofArguments at h
  split at h
  · cases h
  rename_i arguments harguments
  split at h
  · cases h
  · cases h
    exact .inl rfl
  rename_i settings hread
  refine .inr ⟨arguments, settings, ?_⟩
  split at h
  · cases h
  rename_i source hsource
  split at h
  · refine ⟨source, harguments, hread, ?_⟩
    unfold Settings.request
    split at h <;> cases h <;> simp [*]
  · cases h

end CommandFile
