import CommandFile.Proofs.Quoting.RoundTrip
set_option autoImplicit false

/-!
Tokens by positions. Whether a quote counts is seen from the character before it, and whether a
separator divides tokens from the quotes before it. So the tokens of a line can be told from its
positions alone, and tokenizing, which goes through the line once with little to remember, finds
just these.
-/
namespace CommandFile.Quoting

section Positions
variable (cs : List Char)

def afterBackslash : Nat → Bool
  | 0 => false
  | i + 1 => cs[i]? == some '\\'

def activeQuote (i : Nat) : Bool := cs[i]? == some '"' && !afterBackslash cs i

def activeQuotes (i : Nat) : Nat := (List.range i).countP (activeQuote cs)

def dividesAt (i : Nat) : Bool := cs[i]?.any isSeparator && activeQuotes cs i % 2 == 0

def pieces : List (List Nat) := (List.range cs.length).splitOnP (dividesAt cs)

def escapesQuote (i : Nat) : Bool := cs[i]? == some '\\' && cs[i + 1]? == some '"'

def keptChar? (i : Nat) : Option Char :=
  if activeQuote cs i || escapesQuote cs i then none else cs[i]?

def pieceText (piece : List Nat) : List Char := piece.filterMap (keptChar? cs)

def positionTokens : List String :=
  ((pieces cs).map fun piece => String.ofList (pieceText cs piece)).filter (· != "")

end Positions

def textTokens (texts : List (List Char)) : List String :=
  (texts.map String.ofList).filter (· != "")

theorem textTokens_cons (text : List Char) (texts : List (List Char)) :
    textTokens (text :: texts) = pushToken text.reverse (textTokens texts) := by
  cases text with
  | nil => rfl
  | cons c cs => simp [textTokens, pushToken]

theorem positionTokens_eq (cs : List Char) :
    positionTokens cs = textTokens ((pieces cs).map (pieceText cs)) := by
  simp [positionTokens, textTokens, Function.comp_def]

/-- The texts of the pieces from a position on. The first of them has begun before it, and is given
so far with its newest character first. -/
def textsFrom (cs token : List Char) (i : Nat) : List (List Char) :=
  (((List.range' i (cs.length - i)).splitOnP (dividesAt cs)).map (pieceText cs)).modifyHead
    (token.reverse ++ ·)

theorem textsFrom_zero (cs : List Char) :
    textsFrom cs [] 0 = (pieces cs).map (pieceText cs) := by
  rw [textsFrom, pieces, List.range_eq_range']
  cases (List.range' 0 cs.length).splitOnP (dividesAt cs) <;> rfl

section Steps
variable {cs : List Char} {i : Nat} {c : Char}

theorem textsFrom_length (cs token : List Char) :
    textsFrom cs token cs.length = [token.reverse] := by
  simp [textsFrom, pieceText]

theorem positions_cons (hi : cs[i]? = some c) :
    List.range' i (cs.length - i) = i :: List.range' (i + 1) (cs.length - (i + 1)) := by
  obtain ⟨hlt, -⟩ := List.getElem?_eq_some_iff.mp hi
  rw [← List.range'_succ]
  congr 1
  omega

theorem textsFrom_divided (hi : cs[i]? = some c) (h : dividesAt cs i = true)
    (token : List Char) :
    textsFrom cs token i = token.reverse :: textsFrom cs [] (i + 1) := by
  simp only [textsFrom, positions_cons hi, List.splitOnP_cons_eq_if_modifyHead, h]
  cases (List.range' (i + 1) (cs.length - (i + 1))).splitOnP (dividesAt cs) <;>
    simp [pieceText]

theorem textsFrom_undivided (hi : cs[i]? = some c) (h : dividesAt cs i = false)
    (token : List Char) :
    textsFrom cs token i = textsFrom cs ((keptChar? cs i).toList ++ token) (i + 1) := by
  have hpiece : ∀ piece, pieceText cs (i :: piece) =
      (keptChar? cs i).toList ++ pieceText cs piece := by
    intro piece
    cases hc : keptChar? cs i <;> simp [pieceText, hc]
  simp only [textsFrom, positions_cons hi, List.splitOnP_cons_eq_if_modifyHead, h]
  cases (List.range' (i + 1) (cs.length - (i + 1))).splitOnP (dividesAt cs) with
  | nil => rfl
  | cons piece rest => cases hc : keptChar? cs i <;> simp [hpiece, hc]

theorem activeQuotes_succ (cs : List Char) (i : Nat) :
    activeQuotes cs (i + 1) = activeQuotes cs i + if activeQuote cs i then 1 else 0 := by
  simp [activeQuotes, List.range_succ, List.countP_append, List.countP_singleton]

theorem activeQuote_of_ne (hi : cs[i]? = some c) (hc : c ≠ '"') :
    activeQuote cs i = false := by
  simp [activeQuote, hi, hc]

theorem activeQuotes_succ_of_ne (hi : cs[i]? = some c) (hc : c ≠ '"') :
    activeQuotes cs (i + 1) = activeQuotes cs i := by
  simp [activeQuotes_succ, activeQuote_of_ne hi hc]

theorem odd_activeQuotes_succ (h : activeQuote cs i = true) :
    (activeQuotes cs (i + 1) % 2 == 1) = !(activeQuotes cs i % 2 == 1) := by
  rw [activeQuotes_succ, if_pos h]
  rcases Nat.mod_two_eq_zero_or_one (activeQuotes cs i) with h | h <;> simp [Nat.add_mod, h]

theorem dividesAt_of_not_separator (hi : cs[i]? = some c) (hc : isSeparator c = false) :
    dividesAt cs i = false := by
  simp [dividesAt, hi, hc]

theorem textsFrom_escaped (hbackslash : cs[i]? = some '\\') (hquote : cs[i + 1]? = some '"')
    (token : List Char) : textsFrom cs token i = textsFrom cs ('"' :: token) (i + 2) := by
  have hinactive : activeQuote cs (i + 1) = false := by
    simp [activeQuote, afterBackslash, hbackslash]
  have hnone : keptChar? cs i = none := by simp [keptChar?, escapesQuote, hbackslash, hquote]
  have hkept : keptChar? cs (i + 1) = some '"' := by
    simp [keptChar?, escapesQuote, hinactive, hquote]
  rw [textsFrom_undivided hbackslash (dividesAt_of_not_separator hbackslash (by decide)), hnone,
    textsFrom_undivided hquote (dividesAt_of_not_separator hquote (by decide)), hkept]
  rfl

theorem activeQuotes_escaped (hbackslash : cs[i]? = some '\\') :
    activeQuotes cs (i + 2) = activeQuotes cs i := by
  have hinactive : activeQuote cs (i + 1) = false := by
    simp [activeQuote, afterBackslash, hbackslash]
  simp [activeQuotes_succ, hinactive, activeQuote_of_ne hbackslash]

theorem textsFrom_active (hi : cs[i]? = some '"') (h : activeQuote cs i = true)
    (token : List Char) : textsFrom cs token i = textsFrom cs token (i + 1) := by
  have hnone : keptChar? cs i = none := by simp [keptChar?, h]
  rw [textsFrom_undivided hi (dividesAt_of_not_separator hi (by decide)), hnone]
  rfl

theorem textsFrom_plain (hi : cs[i]? = some c) (hc : c ≠ '"')
    (hnext : c = '\\' → cs[i + 1]? ≠ some '"') (h : dividesAt cs i = false)
    (token : List Char) : textsFrom cs token i = textsFrom cs (c :: token) (i + 1) := by
  have hescapes : escapesQuote cs i = false := by simpa [escapesQuote, hi] using hnext
  have hkept : keptChar? cs i = some c := by
    simp [keptChar?, activeQuote_of_ne hi hc, hescapes, hi]
  rw [textsFrom_undivided hi h, hkept]
  rfl

end Steps

/-- Tokenizing goes from one position to the next. It knows whether the number of active quotes so
far is odd, and the character to come is no quote that the one before it escapes. -/
theorem split_eq_textsFrom {cs before rest : List Char} (hcs : cs = before ++ rest)
    {quoted : Bool} (hquoted : quoted = (activeQuotes cs before.length % 2 == 1))
    (hstart : afterBackslash cs before.length = true → rest.head? ≠ some '"')
    (token : List Char) :
    split quoted token rest =
      if activeQuotes cs cs.length % 2 = 1 then none
      else some (textTokens (textsFrom cs token before.length)) := by
  fun_induction split quoted token rest generalizing before with
  | case1 token =>
    obtain rfl : cs = before := by simpa using hcs
    simp [beq_iff_eq.mp hquoted.symm]
  | case2 quoted token hq =>
    obtain rfl : cs = before := by simpa using hcs
    obtain rfl : quoted = false := by simpa using hq
    have heven : ¬ activeQuotes cs cs.length % 2 = 1 := by simpa using hquoted
    rw [if_neg heven, textsFrom_length, textTokens_cons, List.reverse_reverse]
    rfl
  | case3 quoted token rest ih =>
    have hbackslash : cs[before.length]? = some '\\' := by simp [hcs]
    have hquote : cs[before.length + 1]? = some '"' := by simp [hcs]
    have hrest := ih (show cs = (before ++ ['\\', '"']) ++ rest by simp [hcs])
      (by simpa [activeQuotes_escaped hbackslash] using hquoted) (by simp [afterBackslash, hquote])
    rw [hrest, textsFrom_escaped hbackslash hquote, List.length_append]
    rfl
  | case4 quoted token rest hc ih =>
    have hi : cs[before.length]? = some '"' := by simp [hcs]
    have hactive : activeQuote cs before.length = true := by
      have hafter : afterBackslash cs before.length = false := by simpa using hstart
      simp [activeQuote, hi, hafter]
    have hrest := ih (show cs = (before ++ ['"']) ++ rest by simp [hcs])
      (by simp [odd_activeQuotes_succ hactive, hquoted]) (by simp [afterBackslash, hi])
    rw [hrest, textsFrom_active hi hactive, List.length_append]
    rfl
  | case5 quoted token c rest hc hq hs ih =>
    have hi : cs[before.length]? = some c := by simp [hcs]
    obtain ⟨hseparator, rfl⟩ : isSeparator c = true ∧ quoted = false := by simpa using hs
    have hdivides : dividesAt cs before.length = true := by
      simpa [dividesAt, hi, hseparator] using hquoted
    have hne : c ≠ '\\' := by
      rintro rfl
      exact absurd hseparator (by decide)
    have hrest := ih (show cs = (before ++ [c]) ++ rest by simp [hcs])
      (by simpa [activeQuotes_succ_of_ne hi hq] using hquoted) (by simp [afterBackslash, hi, hne])
    rw [textsFrom_divided hi hdivides, textTokens_cons, List.reverse_reverse, hrest]
    split <;> simp
  | case6 quoted token c rest hc hq hs ih =>
    have hi : cs[before.length]? = some c := by simp [hcs]
    have hnext : c = '\\' → rest.head? ≠ some '"' := by
      intro hbackslash hhead
      obtain ⟨others, rfl⟩ := List.head?_eq_some_iff.mp hhead
      exact hc others hbackslash rfl
    have hdivides : dividesAt cs before.length = false := by
      rw [hquoted] at hs
      cases hseparator : isSeparator c <;> simp_all [dividesAt]
    have hbehind : cs[before.length + 1]? = rest.head? := by
      rw [hcs, List.append_cons, List.head?_eq_getElem?, List.getElem?_append_right (by simp)]
      simp
    have hrest := ih (show cs = (before ++ [c]) ++ rest by simp [hcs])
      (by simpa [activeQuotes_succ_of_ne hi hq] using hquoted)
      (by simpa [afterBackslash, hi] using hnext)
    rw [hrest, textsFrom_plain hi hq (hbehind ▸ hnext) hdivides, List.length_append]
    rfl

theorem tokenize_eq_error_iff {line : String} {e : UnmatchedQuotes} :
    tokenize line = .error e ↔
      activeQuotes line.toList line.toList.length % 2 = 1 ∧ e = ⟨line⟩ := by
  have hsplit := @split_eq_textsFrom line.toList [] line.toList rfl false rfl
    (by simp [afterBackslash]) []
  rw [tokenize, hsplit]
  by_cases hodd : activeQuotes line.toList line.toList.length % 2 = 1 <;> simp [hodd, eq_comm]

/-- The tokens of a line are the texts of its pieces, as far as they are not empty. Only a line with
an odd number of active quotes has none. -/
theorem tokenize_eq_positionTokens (line : String) :
    tokenize line =
      if activeQuotes line.toList line.toList.length % 2 = 1 then .error ⟨line⟩
      else .ok (positionTokens line.toList) := by
  have hsplit := @split_eq_textsFrom line.toList [] line.toList rfl false rfl
    (by simp [afterBackslash]) []
  rw [List.length_nil, textsFrom_zero, ← positionTokens_eq] at hsplit
  rw [tokenize, hsplit]
  by_cases hodd : activeQuotes line.toList line.toList.length % 2 = 1 <;> simp [hodd]

/-- A quote inside a token, an escaped separator that divides all the same, and an empty pair of
quotes. -/
example : positionTokens "a\"b c\"\\ \\\"\"\" \"\"".toList = ["ab c\\", "\""] := by decide

end CommandFile.Quoting
