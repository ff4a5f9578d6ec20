import CommandFile.Proofs.CommandLine.Values
import CommandFile.Proofs.Text.Integer
set_option autoImplicit false

namespace CommandFile

theorem Flag.ofLetter?_of_isDigit {letter : Char} (h : letter.isDigit = true) :
    ofLetter? letter = none := by
  unfold ofLetter?
  split
  · exact absurd h (by decide)
  · exact absurd h (by decide)
  · exact absurd h (by decide)
  · rfl

namespace Argument

theorem isNumber_toDigits (n : Nat) : isNumber (Nat.toDigits 10 n) = true := by
  have hdecimal : ∀ c ∈ Nat.toDigits 10 n, Text.isDecimalDigit c = true := fun c hc => by
    simp [Text.isDecimalDigit, Text.digitValue?_of_isDigit (Text.isDigit_of_mem_toDigits hc)]
  have hlast : (Nat.toDigits 10 n).getLast? ≠ some '\n' := fun h => by
    have hdigit := Text.isDigit_of_mem_toDigits (List.mem_of_getLast? h)
    exact absurd hdigit (by decide)
  have hnothing : (Nat.toDigits 10 n).dropWhile Text.isDecimalDigit = [] :=
    List.dropWhile_eq_nil_iff.mpr hdecimal
  simp [isNumber, hlast, hnothing, Nat.toDigits_ne_nil]

theorem ofShort_of_toDigits {n : Nat} {letter : Char} {rest : List Char}
    (h : Nat.toDigits 10 n = letter :: rest) :
    ofShort letter rest = .plain (String.ofList ('-' :: letter :: rest)) := by
  have hletter : letter.isDigit = true :=
    Text.isDigit_of_mem_toDigits (h ▸ List.mem_cons_self)
  have hnumber : isNumber (letter :: rest) = true := h ▸ isNumber_toDigits n
  simp [ofShort, Flag.ofLetter?_of_isDigit hletter, ofHyphened, hnumber]

theorem ofText_of_not_hyphen {text : String} (h : text.toList.head? ≠ some '-') :
    ofText text = .ok (.plain text) := by
  unfold ofText
  split
  · rename_i hlong
    simp [hlong] at h
  · rename_i hshort
    simp [hshort] at h
  · rfl

theorem ofText_toString (n : Int) : ofText (toString n) = .ok (.plain (toString n)) := by
  have hspelled := Text.toList_toString n
  by_cases hn : n < 0
  · rw [if_pos hn, List.singleton_append] at hspelled
    obtain ⟨letter, rest, hdigits⟩ := List.exists_cons_of_ne_nil
      (Nat.toDigits_ne_nil (n := n.natAbs) (b := 10))
    have hletter : letter ≠ '-' := by
      rintro rfl
      exact Text.toDigits_ne_cons (by decide) _ rest hdigits
    rw [hdigits] at hspelled
    have hshort : ofText (toString n) = .ok (ofShort letter rest) := by
      unfold ofText
      rw [hspelled]
      split
      · rename_i hlong
        cases hlong
        exact absurd rfl hletter
      · rename_i hsame
        cases hsame
        rfl
      · rename_i hother
        exact absurd rfl (hother letter rest)
    rw [hshort, ofShort_of_toDigits hdigits, ← hspelled, String.ofList_toList]
  · rw [if_neg hn, List.nil_append] at hspelled
    refine ofText_of_not_hyphen fun hhead => ?_
    obtain ⟨rest, hdigits⟩ := List.head?_eq_some_iff.mp hhead
    exact Text.toDigits_ne_cons (by decide) _ rest (hspelled.symm.trans hdigits)

theorem ofTexts_cons_plain {text : String} (h : ofText text = .ok (.plain text))
    (rest : List String) :
    ofTexts (text :: rest) = (ofTexts rest).map (.plain text :: ·) := by
  have hne : text ≠ "--" := by
    rintro rfl
    exact absurd h (by decide +kernel)
  simp [ofTexts, hne, h]

end Argument

namespace Request
variable {source : String}

theorem ofArguments_source (h : source.toList.head? ≠ some '-') :
    ofArguments [source] = .ok (.expand source none none false) := by
  have htexts : Argument.ofTexts [source] = .ok [.plain source] := by
    rw [Argument.ofTexts_cons_plain (Argument.ofText_of_not_hyphen h)]
    rfl
  simp [ofArguments, htexts, Settings.read, Settings.empty]

theorem ofArguments_cap {text : String} {n : Int} (htext : Argument.ofText text = .ok (.plain text))
    (hn : Text.integer? text = some n) (h : source.toList.head? ≠ some '-') :
    ofArguments ["--max-passes", text, source] = .ok (.expand source none (some n) false) := by
  have hoption : Argument.ofText "--max-passes" = .ok (.option .maxPasses false none) := by
    decide +kernel
  have htexts : Argument.ofTexts ["--max-passes", text, source] =
      .ok [.option .maxPasses false none, .plain text, .plain source] := by
    rw [Argument.ofTexts, if_neg (by decide), hoption, Argument.ofTexts_cons_plain htext,
      Argument.ofTexts_cons_plain (Argument.ofText_of_not_hyphen h)]
    rfl
  have hjoined : Joined.ofFlag .maxPasses false none = .ok ⟨[], some (.maxPasses, none)⟩ := rfl
  have happlied : Settings.empty.apply ⟨[], some (.maxPasses, none)⟩ (some (.plain text)) =
      .ok (.settings { Settings.empty with maxPasses := .number n } true) := by
    simp [Settings.apply, Settings.set, Settings.switchOn, hn, Settings.empty, Except.map]
  simp only [ofArguments, htexts, Settings.read, hjoined, List.head?_cons, happlied]
  rfl

end Request

/-- The option of the cap stands before any separator. -/
def CapAmong (arguments : List Argument) : Prop :=
  ∃ short attached,
    .option .maxPasses short attached ∈ arguments.takeWhile (· != .separator)

/-- One of the texts before any two hyphens is the option of the cap, in one of its forms. -/
def GivesCap (texts : List String) : Prop :=
  ∃ text ∈ texts.takeWhile (· != "--"), ∃ short attached,
    Argument.ofText text = .ok (.option .maxPasses short attached)

theorem not_capAmong_nil : ¬ CapAmong [] := by
  simp [CapAmong]

theorem not_capAmong_separator (rest : List Argument) : ¬ CapAmong (.separator :: rest) := by
  simp [CapAmong]

theorem capAmong_of_cons {argument : Argument} {rest : List Argument}
    (hother : ∀ flag short attached, argument ≠ .option flag short attached)
    (h : CapAmong (argument :: rest)) : CapAmong rest := by
  obtain ⟨short, attached, hmem⟩ := h
  rw [List.takeWhile_cons] at hmem
  split at hmem
  · exact ⟨short, attached, (List.mem_cons.mp hmem).resolve_left fun he => hother _ _ _ he.symm⟩
  · cases hmem

theorem capAmong_of_plain {text : String} {rest : List Argument} :
    CapAmong (.plain text :: rest) → CapAmong rest := capAmong_of_cons (by simp)

theorem capAmong_of_unknown {text : String} {rest : List Argument} :
    CapAmong (.unknown text :: rest) → CapAmong rest := capAmong_of_cons (by simp)

theorem capAmong_option {flag : Flag} {short : Bool} {attached : Option String}
    {rest : List Argument} (h : CapAmong (.option flag short attached :: rest)) :
    flag = .maxPasses ∨ CapAmong rest := by
  obtain ⟨short, attached, hmem⟩ := h
  rw [List.takeWhile_cons_of_pos (by simp)] at hmem
  rcases List.mem_cons.mp hmem with hfirst | hrest
  · cases hfirst
    exact .inl rfl
  · exact .inr ⟨short, attached, hrest⟩

namespace Argument

theorem ofHyphened_ne_separator (cs : List Char) : ofHyphened cs ≠ .separator := by
  unfold ofHyphened
  split <;> simp

theorem ofText_ne_separator (text : String) : ofText text ≠ .ok .separator := by
  unfold ofText
  split
  · unfold ofLong
    dsimp only
    split
    · exact fun h => ofHyphened_ne_separator _ (Except.ok.inj h)
    · simp
    · simp
  · unfold ofShort
    split
    · exact fun h => ofHyphened_ne_separator _ (Except.ok.inj h)
    · split <;> simp
  · simp

theorem capAmong_of_givesCap {texts : List String} {arguments : List Argument}
    (h : ofTexts texts = .ok arguments) (hcap : GivesCap texts) : CapAmong arguments := by
  induction texts generalizing arguments with
  | nil => simp [GivesCap] at hcap
  | cons text rest ih =>
    obtain ⟨given, hgiven, short, attached, hoption⟩ := hcap
    have hne : text ≠ "--" := by
      rintro rfl
      simp at hgiven
    rw [List.takeWhile_cons_of_pos (by simpa using hne)] at hgiven
    rw [ofTexts, if_neg hne] at h
    cases ht : ofText text with
    | error e => simp [ht] at h
    | ok first =>
      cases hr : ofTexts rest with
      | error e => simp [ht, hr, Except.map] at h
      | ok others =>
        simp only [ht, hr, Except.map, Except.ok.injEq] at h
        subst h
        have hfirst : first ≠ .separator := by
          rintro rfl
          exact ofText_ne_separator text ht
        rw [CapAmong, List.takeWhile_cons_of_pos (by simpa using hfirst)]
        rcases List.mem_cons.mp hgiven with rfl | hlater
        · cases hoption.symm.trans ht
          exact ⟨short, attached, List.mem_cons_self⟩
        · obtain ⟨short, attached, hmem⟩ := ih hr ⟨given, hlater, short, attached, hoption⟩
          exact ⟨short, attached, List.mem_cons_of_mem _ hmem⟩

end Argument

theorem Joined.valued_of_cap {short : Bool} {attached : Option String} {j : Joined}
    (h : ofFlag .maxPasses short attached = .ok j) :
    ∃ value, j.valued = some (.maxPasses, value) := by
  cases attached <;> cases h <;> exact ⟨_, rfl⟩

namespace Settings
variable {s next : Settings}

theorem set_cap {flag : Flag} {value : Option String} (h : s.set flag value = .ok next)
    (hcap : s.maxPasses ≠ .absent ∨ flag = .maxPasses) : next.maxPasses ≠ .absent := by
  cases flag with
  | maxPasses =>
    cases value with
    | none =>
      cases h
      simp
    | some text =>
      simp only [set] at h
      split at h <;> cases h
      simp
  | output | help | verbose =>
    cases h
    exact hcap.resolve_right (by simp)

theorem Applied.cap {j : Joined} {behind : Option Argument} {tookNext : Bool}
    (h : s.Applied j behind next tookNext)
    (hcap : s.maxPasses ≠ .absent ∨ ∃ value, j.valued = some (.maxPasses, value)) :
    next.maxPasses ≠ .absent := by
  have hflag : ∀ flag value, j.valued = some (flag, value) →
      (s.switchOn j.switches).maxPasses ≠ .absent ∨ flag = .maxPasses := by
    rintro flag value hvalued
    refine hcap.imp id ?_
    rintro ⟨other, hother⟩
    cases hvalued.symm.trans hother
    rfl
  cases h with
  | switched hnone =>
    refine hcap.resolve_right ?_
    simp [hnone]
  | attached hvalued hset => exact set_cap hset (hflag _ _ hvalued)
  | taken hvalued hplain hset => exact set_cap hset (hflag _ _ hvalued)

/-- When an option has been applied, the option of the cap has been read or is still to come. -/
theorem cap_or_capAmong {flag : Flag} {short : Bool} {attached : Option String} {j : Joined}
    {rest : List Argument} {tookNext : Bool} (hj : Joined.ofFlag flag short attached = .ok j)
    (ha : s.Applied j rest.head? next tookNext)
    (hcap : s.maxPasses ≠ .absent ∨ CapAmong (.option flag short attached :: rest)) :
    next.maxPasses ≠ .absent ∨ CapAmong rest := by
  rcases hcap with hset | hamong
  · exact .inl (ha.cap (.inl hset))
  · refine (capAmong_option hamong).imp_left fun hflag => ?_
    subst hflag
    exact ha.cap (.inr (Joined.valued_of_cap hj))

theorem read_cap {arguments : List Argument} (h : s.read arguments = .ok (some next))
    (hcap : s.maxPasses ≠ .absent ∨ CapAmong arguments) : next.maxPasses ≠ .absent := by
  fun_induction s.read arguments with
  | case1 s =>
    cases h
    exact hcap.resolve_right not_capAmong_nil
  | case2 s text others =>
    cases h
    exact hcap.resolve_right fun hamong =>
      not_capAmong_separator others (capAmong_of_plain hamong)
  | case3 s text rest hsource hrest ih => exact ih h (hcap.imp_right capAmong_of_plain)
  | case4 s text rest source hsource ih => exact ih h (hcap.imp_right capAmong_of_plain)
  | case5 s text rest ih => exact ih h (hcap.imp_right capAmong_of_unknown)
  | case6 s rest =>
    cases h
    have hset : s.maxPasses ≠ .absent := hcap.resolve_right (not_capAmong_separator rest)
    unfold readSeparated
    split <;> exact hset
  | case7 => cases h
  | case8 => cases h
  | case9 => cases h
  | case10 s flag short attached rest j hj applied ha ih =>
    exact ih h (cap_or_capAmong hj (applied_of_apply ha) hcap)
  | case11 s flag short attached j hj applied ha =>
    cases h
    exact (cap_or_capAmong hj (applied_of_apply ha) hcap).resolve_right not_capAmong_nil
  | case12 s flag short attached j hj applied behind others ha ih =>
    refine ih h ((cap_or_capAmong hj (applied_of_apply ha) hcap).imp_right fun hamong => ?_)
    -- What an option has taken as its value is no option.
    cases applied_of_apply ha with
    | taken hvalued hplain hset =>
      cases hplain
      exact capAmong_of_plain hamong

end Settings

theorem Request.cap_given {texts : List String} {source : String} {output : Option String}
    {maxPasses : Option Int} {verbose : Bool} (h : GivesCap texts)
    (hrequest : ofArguments texts = .ok (.expand source output maxPasses verbose)) :
    maxPasses ≠ none := by
  obtain hhelp | ⟨arguments, settings, first, harguments, hread, hsettings⟩ :=
    settings_of_arguments hrequest
  · cases hhelp
  have hset : settings.maxPasses ≠ .absent :=
    Settings.read_cap hread (.inr (Argument.capAmong_of_givesCap harguments h))
  unfold Settings.request at hsettings
  split at hsettings
  · contradiction
  · cases hsettings
    simp
  · cases hsettings

end CommandFile
