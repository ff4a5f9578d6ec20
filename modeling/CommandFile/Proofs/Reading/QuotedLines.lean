import CommandFile.Item
import CommandFile.Proofs.Quoting.RoundTrip
import Mathlib.Data.List.DropRight
set_option autoImplicit false

/-!
Quoted lines as lines of a command file. Quoting takes care of separators and quotes, but a reader
of files also takes blanks of other kinds from the ends of a line, and leaves comments out. Main
statement: a command is read back from its line just if the line loses nothing in this way. What is
taken from its ends is always missing in the tokens.
-/
namespace CommandFile

namespace Text
variable {cs : List Char}

theorem trim_blank_cons {c : Char} (h : isBlank c = true) (cs : List Char) :
    trim (c :: cs) = trim cs := by
  simp [trim, trimLeft, h]

theorem trim_sublist (cs : List Char) : (trim cs).Sublist cs :=
  (List.rdropWhile_prefix isBlank (trimLeft cs)).sublist.trans (List.dropWhile_sublist isBlank)

theorem count_trim_lt (h : trim cs ≠ cs) :
    ∃ c, isBlank c = true ∧ (cs.head? = some c ∨ cs.getLast? = some c) ∧
      (trim cs).count c < cs.count c := by
  by_cases hhead : ∃ c ∈ cs.head?, isBlank c = true
  · obtain ⟨c, hc, hblank⟩ := hhead
    obtain ⟨rest, rfl⟩ := List.head?_eq_some_iff.mp hc
    refine ⟨c, hblank, .inl hc, ?_⟩
    rw [trim_blank_cons hblank, List.count_cons_self]
    exact Nat.lt_succ_of_le ((trim_sublist rest).count_le c)
  · have hleft : trimLeft cs = cs := by
      cases cs with
      | nil => rfl
      | cons c rest => exact List.dropWhile_cons_of_neg fun hc => hhead ⟨c, rfl, hc⟩
    have hright : trim cs = cs.rdropWhile isBlank := by rw [trim, hleft]; rfl
    rw [hright] at h ⊢
    rw [ne_eq, List.rdropWhile_eq_self_iff, not_forall] at h
    obtain ⟨hne, hlast⟩ := h
    have hblank : isBlank (cs.getLast hne) = true := not_not.mp hlast
    refine ⟨cs.getLast hne, hblank, .inr (List.getLast?_eq_getLast_of_ne_nil hne), ?_⟩
    obtain ⟨front, c, rfl⟩ := List.eq_nil_or_concat cs |>.resolve_left hne
    simp only [List.concat_eq_append, List.getLast_append_singleton] at hblank ⊢
    rw [List.rdropWhile_concat_pos isBlank front c hblank, List.count_append,
      List.count_singleton_self]
    exact Nat.lt_succ_of_le ((List.rdropWhile_prefix isBlank front).sublist.count_le c)

end Text

namespace Quoting

/-- Quotes, backslashes and separators can have a meaning, every other character stands for
itself. -/
def IsOrdinary (c : Char) : Prop := c ≠ '"' ∧ c ≠ '\\' ∧ isSeparator c = false

theorem count_pushToken (c : Char) (token : List Char) (tokens : List String) :
    ((pushToken token tokens).flatMap String.toList).count c =
      token.count c + (tokens.flatMap String.toList).count c := by
  cases token with
  | nil => simp
  | cons d ds => simp [List.count_append, List.count_cons]; omega

theorem count_split {c : Char} (hc : IsOrdinary c) {quoted : Bool} {token cs : List Char}
    {tokens : List String} (h : split quoted token cs = some tokens) :
    (tokens.flatMap String.toList).count c = token.count c + cs.count c := by
  obtain ⟨hquote, hbackslash, hsep⟩ := hc
  fun_induction split quoted token cs generalizing tokens with
  | case1 => simp at h
  | case2 quoted token hq =>
    cases h
    rw [count_pushToken]
    rfl
  | case3 quoted token rest ih =>
    rw [ih h]
    simp [hquote.symm, hbackslash.symm]
  | case4 quoted token rest hnot ih =>
    rw [ih h]
    simp [hquote.symm]
  | case5 quoted token d rest hnot hd hs ih =>
    obtain ⟨others, ho, rfl⟩ := Option.map_eq_some_iff.mp h
    have hother : d ≠ c := by
      rintro rfl
      simp [hsep] at hs
    rw [count_pushToken, ih ho]
    simp [hother]
  | case6 quoted token d rest hnot hd hs ih =>
    rw [ih h, List.count_cons, List.count_cons]
    omega

theorem count_tokenize {c : Char} (hc : IsOrdinary c) {line : String} {tokens : List String}
    (h : tokenize line = .ok tokens) :
    (tokens.flatMap String.toList).count c = line.toList.count c := by
  rw [count_split hc (tokenize_eq_ok_iff.mp h), List.count_nil, Nat.zero_add]

theorem quoteToken_ne_nil {cs : List Char} (h : cs ≠ []) : quoteToken cs ≠ [] := by
  by_cases hsep : cs.any isSeparator = true
  · simp [quoteToken_of_separator hsep]
  · have hlast := getLast?_escape cs
    intro hnil
    simp only [quoteToken, hsep, Bool.false_eq_true, if_false] at hnil
    rw [hnil] at hlast
    exact h (List.getLast?_eq_none_iff.mp hlast.symm)

theorem not_separator_of_quoteToken {cs : List Char} {c : Char}
    (h : (quoteToken cs).head? = some c ∨ (quoteToken cs).getLast? = some c) :
    isSeparator c = false := by
  by_cases hsep : cs.any isSeparator = true
  · rw [quoteToken_of_separator hsep] at h
    obtain hhead | hlast := h
    · cases hhead
      rfl
    · rw [List.getLast?_append_cons] at hlast
      rcases List.mem_cons.mp (List.mem_of_getLast? hlast) with rfl | hc
      · rfl
      · rw [eq_backslash_of_mem_splitBackslashes hc]
        rfl
  · have hplain : ∀ d ∈ cs, isSeparator d = false := by simpa using hsep
    simp only [quoteToken, hsep, Bool.false_eq_true, if_false, getLast?_escape] at h
    obtain hhead | hlast := h
    · cases cs with
      | nil => cases hhead
      | cons d rest =>
        by_cases hd : d = '"'
        · subst d
          cases hhead
          rfl
        · rw [escape_cons hd] at hhead
          cases hhead
          exact hplain c List.mem_cons_self
    · exact hplain c (List.mem_of_getLast? hlast)

theorem quoteTokens_cons_ne_nil {token : String} (h : token ≠ "") (rest : List String) :
    quoteTokens (token :: rest) ≠ [] := by
  have hne : quoteToken token.toList ≠ [] := quoteToken_ne_nil (by simpa using h)
  cases rest with
  | nil => exact hne
  | cons next others => exact List.append_ne_nil_of_left_ne_nil hne _

theorem not_separator_of_quoteTokens {tokens : List String} (hempty : "" ∉ tokens) {c : Char}
    (h : (quoteTokens tokens).head? = some c ∨ (quoteTokens tokens).getLast? = some c) :
    isSeparator c = false := by
  induction tokens with
  | nil => simp [quoteTokens] at h
  | cons token rest ih =>
    simp only [List.mem_cons, not_or] at hempty
    cases rest with
    | nil => exact not_separator_of_quoteToken h
    | cons next others =>
      have hne : quoteToken token.toList ≠ [] := quoteToken_ne_nil (by simpa using Ne.symm hempty.1)
      have hrest : quoteTokens (next :: others) ≠ [] :=
        quoteTokens_cons_ne_nil (ne_of_mem_of_not_mem List.mem_cons_self hempty.2) others
      have hline : quoteTokens (token :: next :: others) =
          quoteToken token.toList ++ ' ' :: quoteTokens (next :: others) := rfl
      rw [hline, List.head?_append_of_ne_nil _ hne, List.getLast?_append_cons,
        List.getLast?_cons_of_ne_nil hrest] at h
      exact h.elim (fun hhead => not_separator_of_quoteToken (.inl hhead))
        fun hlast => ih hempty.2 (.inr hlast)

end Quoting

theorem isContent_of_stripped {line : String} (h : Text.strip line = line) :
    isContent line = true ↔ line ≠ "" ∧ line.toList.head? ≠ some '#' := by
  have htrim : Text.trim line.toList = line.toList := by rw [← Text.toList_strip, h]
  rw [isContent, htrim]
  cases hline : line.toList with
  | nil => simp [String.toList_eq_nil_iff.mp hline]
  | cons c rest =>
    have hne : line ≠ "" := by
      rintro rfl
      cases hline
    simp [hne]

/-- A line that is stripped of anything has other tokens than before. -/
theorem strip_quoteLine_of_tokenize {command : List String} (hempty : "" ∉ command)
    (h : tokenize (Text.strip (quoteLine command)) = .ok command) :
    Text.strip (quoteLine command) = quoteLine command := by
  have hwhole : tokenize (quoteLine command) = .ok command := by
    rw [Quoting.tokenize_quoteLine, Quoting.filter_nonempty_eq_self hempty]
  by_contra hstrip
  have htrim : Text.trim (quoteLine command).toList ≠ (quoteLine command).toList := by
    rwa [← Text.toList_strip, ne_eq, String.toList_inj]
  obtain ⟨c, hblank, hends, hlost⟩ := Text.count_trim_lt htrim
  -- The blank at the end of the line is no separator, so that it belongs to a token.
  have hsep : Quoting.isSeparator c = false := by
    rw [quoteLine, String.toList_ofList] at hends
    exact Quoting.not_separator_of_quoteTokens hempty hends
  have hordinary : Quoting.IsOrdinary c := by
    refine ⟨?_, ?_, hsep⟩ <;> rintro rfl <;> revert hblank <;> decide
  have hkept := Quoting.count_tokenize hordinary hwhole
  have hleft := Quoting.count_tokenize hordinary h
  rw [Text.toList_strip] at hleft
  omega

/-- A command that is not taken for a definition or an inclusion is read back from its line just if
the line is not empty, has no blanks at its ends, and is no comment. -/
theorem quoteLine_read_back_iff {command : List String} (hempty : "" ∉ command)
    (hplain : classify command = .command command) :
    (isContent (quoteLine command) = true ∧
      ∃ tokens, tokenize (Text.strip (quoteLine command)) = .ok tokens ∧
        classify tokens = .command command) ↔
    quoteLine command ≠ "" ∧ Text.strip (quoteLine command) = quoteLine command ∧
      (quoteLine command).toList.head? ≠ some '#' := by
  constructor
  · rintro ⟨hcontent, tokens, htokens, hkind⟩
    obtain rfl : tokens = command := by
      unfold classify at hkind
      split at hkind <;> cases hkind
      rfl
    have hstrip := strip_quoteLine_of_tokenize hempty htokens
    obtain ⟨hne, hcomment⟩ := (isContent_of_stripped hstrip).mp hcontent
    exact ⟨hne, hstrip, hcomment⟩
  · rintro ⟨hne, hstrip, hcomment⟩
    refine ⟨(isContent_of_stripped hstrip).mpr ⟨hne, hcomment⟩, command, ?_, hplain⟩
    rw [hstrip, Quoting.tokenize_quoteLine, Quoting.filter_nonempty_eq_self hempty]

theorem quoteLine_read_back_blanks :
    (isContent (quoteLine ["run", "\u00a0", "x y\\"]) = true ∧
      ∃ tokens, tokenize (Text.strip (quoteLine ["run", "\u00a0", "x y\\"])) = .ok tokens ∧
        classify tokens = .command ["run", "\u00a0", "x y\\"]) ∧
    ¬ (isContent (quoteLine ["run", "x y\\", "\u00a0"]) = true ∧
      ∃ tokens, tokenize (Text.strip (quoteLine ["run", "x y\\", "\u00a0"])) = .ok tokens ∧
        classify tokens = .command ["run", "x y\\", "\u00a0"]) := by
  have hinside : quoteLine ["run", "\u00a0", "x y\\"] ≠ "" ∧
      Text.strip (quoteLine ["run", "\u00a0", "x y\\"]) =
        quoteLine ["run", "\u00a0", "x y\\"] ∧
      (quoteLine ["run", "\u00a0", "x y\\"]).toList.head? ≠ some '#' := by decide +kernel
  have hend : Text.strip (quoteLine ["run", "x y\\", "\u00a0"]) ≠
      quoteLine ["run", "x y\\", "\u00a0"] := by decide +kernel
  refine ⟨(quoteLine_read_back_iff (by decide) rfl).mpr hinside, fun hread => ?_⟩
  exact hend ((quoteLine_read_back_iff (by decide) rfl).mp hread).2.1

end CommandFile
