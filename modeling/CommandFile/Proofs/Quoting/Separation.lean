import CommandFile.Proofs.Quoting.Positions
set_option autoImplicit false

/-!
Lines put together at separators. From one character to the next tokenizing knows the token begun
and whether it is inside quotes, and behind a backslash it looks one character ahead. A separator
outside quotes leaves nothing of this to what comes after it. Main statement: where separators stand
between two lines, the tokens of both are those of each.
-/
namespace CommandFile

namespace Quoting
variable {quoted : Bool} {token front gap : List Char} {tokens : List String}

theorem pushToken_append (token : List Char) (tokens others : List String) :
    pushToken token (tokens ++ others) = pushToken token tokens ++ others := by
  cases token <;> rfl

/-- Whatever it begins with, tokenizing gets some tokens out of the front of a line, and goes on
with any rest from what the front leaves it. The seam must not part a backslash from the quote that
it escapes. -/
theorem exists_split_append (quoted : Bool) (token front : List Char) :
    ∃ (tokens : List String) (inside : Bool) (begun : List Char), ∀ rest : List Char,
      (front.getLast? = some '\\' → rest.head? ≠ some '"') →
        split quoted token (front ++ rest) = (split inside begun rest).map (tokens ++ ·) := by
  fun_induction split quoted token front with
  | case1 token => exact ⟨[], true, token, by simp⟩
  | case2 quoted token hq => exact ⟨[], quoted, token, by simp⟩
  | case3 quoted token front ih =>
    obtain ⟨tokens, inside, begun, hread⟩ := ih
    refine ⟨tokens, inside, begun, fun rest hseam => ?_⟩
    exact hread rest fun hlast => hseam (by simp [List.getLast?_cons, hlast])
  | case4 quoted token front hc ih =>
    obtain ⟨tokens, inside, begun, hread⟩ := ih
    refine ⟨tokens, inside, begun, fun rest hseam => ?_⟩
    rw [List.cons_append, split_quote]
    exact hread rest fun hlast => hseam (by simp [List.getLast?_cons, hlast])
  | case5 quoted token c front hc hq hs ih =>
    obtain ⟨tokens, inside, begun, hread⟩ := ih
    obtain ⟨hseparator, rfl⟩ : isSeparator c = true ∧ quoted = false := by simpa using hs
    refine ⟨pushToken token tokens, inside, begun, fun rest hseam => ?_⟩
    rw [List.cons_append, split_separator hseparator,
      hread rest fun hlast => hseam (by simp [List.getLast?_cons, hlast])]
    simp [Function.comp_def, pushToken_append]
  | case6 quoted token c front hc hq hs ih =>
    obtain ⟨tokens, inside, begun, hread⟩ := ih
    refine ⟨tokens, inside, begun, fun rest hseam => ?_⟩
    have hnext : c = '\\' → (front ++ rest).head? ≠ some '"' := by
      rintro rfl
      cases front with
      | nil => exact hseam rfl
      | cons d others => simpa using fun hd => hc others rfl (by rw [hd])
    rw [List.cons_append, split_cons quoted token hnext, if_neg hq, if_neg hs]
    exact hread rest fun hlast => hseam (by simp [List.getLast?_cons, hlast])

theorem head?_gap (hgap : ∀ c ∈ gap, isSeparator c = true) : gap.head? ≠ some '"' := by
  intro hhead
  exact (ne_of_separator (hgap _ (List.mem_of_head? hhead))).1 rfl

theorem split_gap (hgap : ∀ c ∈ gap, isSeparator c = true) (quoted : Bool) (token : List Char) :
    split quoted token gap = split quoted token [] := by
  induction gap generalizing quoted token with
  | nil => rfl
  | cons c gap ih =>
    obtain ⟨hc, hgap⟩ := List.forall_mem_cons.mp hgap
    rw [split_separator hc, ih hgap, ih hgap]
    cases quoted <;> rfl

theorem split_append_gap (hgap : ∀ c ∈ gap, isSeparator c = true) (quoted : Bool)
    (token front : List Char) :
    split quoted token (front ++ gap) = split quoted token front := by
  obtain ⟨tokens, inside, begun, hread⟩ := exists_split_append quoted token front
  calc split quoted token (front ++ gap)
      = (split inside begun gap).map (tokens ++ ·) := hread gap fun _ => head?_gap hgap
    _ = (split inside begun []).map (tokens ++ ·) := by rw [split_gap hgap]
    _ = split quoted token front := by rw [← hread [] (by simp), List.append_nil]

theorem split_gap_append (hgap : ∀ c ∈ gap, isSeparator c = true) (rest : List Char) :
    split false [] (gap ++ rest) = split false [] rest := by
  induction gap with
  | nil => rfl
  | cons c gap ih =>
    obtain ⟨hc, hgap⟩ := List.forall_mem_cons.mp hgap
    rw [List.cons_append, split_separator hc, ih hgap]
    cases split false [] rest <;> rfl

theorem split_append_separator (hfront : split quoted token front = some tokens) {c : Char}
    (hc : isSeparator c = true) (rest : List Char) :
    split quoted token (front ++ c :: rest) = (split false [] rest).map (tokens ++ ·) := by
  obtain ⟨complete, inside, begun, hread⟩ := exists_split_append quoted token front
  have hall := hread [] (by simp)
  rw [List.append_nil, hfront] at hall
  cases inside with
  | true => simp [split] at hall
  | false =>
    obtain rfl : tokens = complete ++ pushToken begun [] := by simpa using hall
    rw [hread (c :: rest) fun _ => by simpa using (ne_of_separator hc).1, split_separator hc]
    simp [Function.comp_def, ← pushToken_append]

end Quoting

theorem tokenize_of_split {line whole : String} {f : List String → List String}
    (h : Quoting.split false [] whole.toList = (Quoting.split false [] line.toList).map f) :
    tokenize whole = ((tokenize line).map f).mapError fun _ => ⟨whole⟩ := by
  unfold tokenize
  rw [h]
  cases Quoting.split false [] line.toList <;> rfl

theorem tokenize_of_split_eq {line whole : String}
    (h : Quoting.split false [] whole.toList = Quoting.split false [] line.toList) :
    tokenize whole = (tokenize line).mapError fun _ => ⟨whole⟩ := by
  have hsame := @tokenize_of_split line whole id (by rw [h, Option.map_id_apply])
  simpa using hsame

/-- Behind a line with tokens and a gap of separators, a line gives the same tokens as by itself,
after those of the line in front, and fails if it fails by itself. A gap at either end changes
nothing but the line that an error tells. -/
theorem tokenize_separated {gap : String} (hne : gap ≠ "")
    (hgap : ∀ c ∈ gap.toList, Quoting.isSeparator c = true) (line : String) :
    (∀ front tokens, tokenize front = .ok tokens →
      tokenize (front ++ gap ++ line) =
        ((tokenize line).map (tokens ++ ·)).mapError fun _ => ⟨front ++ gap ++ line⟩) ∧
    tokenize (gap ++ line) = (tokenize line).mapError (fun _ => ⟨gap ++ line⟩) ∧
    tokenize (line ++ gap) = (tokenize line).mapError fun _ => ⟨line ++ gap⟩ := by
  refine ⟨fun front tokens hfront => tokenize_of_split ?_, tokenize_of_split_eq ?_,
    tokenize_of_split_eq ?_⟩
  · have hsplit := Quoting.tokenize_eq_ok_iff.mp hfront
    -- The first separator ends the front, the others stand before the rest.
    cases hcs : gap.toList with
    | nil => exact absurd (String.toList_eq_nil_iff.mp hcs) hne
    | cons c others =>
      rw [hcs] at hgap
      obtain ⟨hc, hothers⟩ := List.forall_mem_cons.mp hgap
      rw [String.toList_append, String.toList_append, hcs, List.append_assoc, List.cons_append,
        Quoting.split_append_separator hsplit hc, Quoting.split_gap_append hothers]
  · rw [String.toList_append, Quoting.split_gap_append hgap]
  · rw [String.toList_append, Quoting.split_append_gap hgap]

theorem tokenize_gap_before_quote :
    tokenize ("a\\" ++ " \t" ++ "\"b c\"") = .ok ["a\\", "b c"] ∧
      tokenize (" \t" ++ "\"b c\"") = .ok ["b c"] ∧
      tokenize ("\"b c" ++ " \t") = .error ⟨"\"b c" ++ " \t"⟩ := by
  have hgap : ∀ c ∈ " \t".toList, Quoting.isSeparator c = true :=
    List.all_eq_true.mp (by decide)
  have hfront : tokenize "a\\" = .ok ["a\\"] := by rw [Quoting.tokenize_eq_ok_iff]; decide
  have hquoted : tokenize "\"b c\"" = .ok ["b c"] := by rw [Quoting.tokenize_eq_ok_iff]; decide
  have hopen : tokenize "\"b c" = .error ⟨"\"b c"⟩ :=
    Quoting.tokenize_eq_error_iff.mpr ⟨by decide, rfl⟩
  obtain ⟨hbehind, hbefore, -⟩ := tokenize_separated (by decide) hgap "\"b c\""
  obtain ⟨-, -, hend⟩ := tokenize_separated (by decide) hgap "\"b c"
  refine ⟨?_, ?_, ?_⟩
  · rw [hbehind _ _ hfront, hquoted]
    rfl
  · rw [hbefore, hquoted]
    rfl
  · rw [hend, hopen]
    rfl

/-- Without a gap the backslash escapes the quote, and the other quote is left unmatched. -/
example : Quoting.split false [] ("a\\" ++ "\"b c\"").toList = none := by decide

end CommandFile
