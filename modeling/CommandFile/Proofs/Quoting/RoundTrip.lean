import CommandFile.Quoting
set_option autoImplicit false

namespace CommandFile.Quoting

theorem split_cons (quoted : Bool) (token : List Char) {c : Char} {rest : List Char}
    (h : c = '\\' → rest.head? ≠ some '"') :
    split quoted token (c :: rest) =
      if c = '"' then split (!quoted) token rest
      else if isSeparator c && !quoted then (split false [] rest).map (pushToken token)
      else split quoted (c :: token) rest := by
  rw [split]
  rintro tail rfl rfl
  simp at h

@[simp] theorem split_nil_false (token : List Char) :
    split false token [] = some (pushToken token []) := rfl

@[simp] theorem split_quote (quoted : Bool) (token rest : List Char) :
    split quoted token ('"' :: rest) = split (!quoted) token rest := by
  rw [split_cons quoted token fun h => absurd h (by decide)]
  simp

@[simp] theorem split_escaped_quote (quoted : Bool) (token rest : List Char) :
    split quoted token ('\\' :: '"' :: rest) = split quoted ('"' :: token) rest := rfl

theorem ne_of_separator {c : Char} (h : isSeparator c = true) : c ≠ '"' ∧ c ≠ '\\' := by
  constructor <;> rintro rfl <;> revert h <;> decide

theorem split_separator {c : Char} (h : isSeparator c = true) (quoted : Bool)
    (token rest : List Char) :
    split quoted token (c :: rest) =
      if quoted then split true (c :: token) rest
      else (split false [] rest).map (pushToken token) := by
  rw [split_cons quoted token fun hc => absurd hc (ne_of_separator h).2]
  cases quoted <;> simp [(ne_of_separator h).1, h]

@[simp] theorem escape_nil : escape [] = [] := rfl

@[simp] theorem escape_quote (cs : List Char) : escape ('"' :: cs) = '\\' :: '"' :: escape cs := rfl

theorem escape_cons {c : Char} (h : c ≠ '"') (cs : List Char) :
    escape (c :: cs) = c :: escape cs := by simp [escape, h]

theorem head?_escape_append (cs rest : List Char) (h : cs = [] → rest.head? ≠ some '"') :
    (escape cs ++ rest).head? ≠ some '"' := by
  cases cs with
  | nil => simpa using h rfl
  | cons c cs =>
    by_cases hc : c = '"'
    · subst c; simp
    · simp [escape_cons hc, hc]

theorem getLast?_escape (cs : List Char) : (escape cs).getLast? = cs.getLast? := by
  induction cs with
  | nil => rfl
  | cons c cs ih =>
    by_cases hc : c = '"'
    · subst c
      simp [List.getLast?_cons, ih]
    · simp [escape_cons hc, List.getLast?_cons, ih]

theorem escape_eq_self {cs : List Char} (h : '"' ∉ cs) : escape cs = cs := by
  induction cs with
  | nil => rfl
  | cons c cs ih =>
    simp only [List.mem_cons, not_or] at h
    rw [escape_cons (Ne.symm h.1), ih h.2]

/-- An escaped text is read back into the token begun, unless a separator in it ends the token or a
backslash at its end escapes a quote behind it. -/
theorem split_escape (quoted : Bool) (token cs rest : List Char)
    (hsep : ∀ c ∈ cs, isSeparator c → quoted = true)
    (hend : cs.getLast? = some '\\' → rest.head? ≠ some '"') :
    split quoted token (escape cs ++ rest) = split quoted (cs.reverse ++ token) rest := by
  induction cs generalizing token with
  | nil => rfl
  | cons c cs ih =>
    have hsep' : ∀ d ∈ cs, isSeparator d → quoted = true := fun d hd => hsep d (by simp [hd])
    have hend' : cs.getLast? = some '\\' → rest.head? ≠ some '"' := fun h =>
      hend (by simp [List.getLast?_cons, h])
    by_cases hc : c = '"'
    · subst c
      simp [ih _ hsep' hend']
    · -- A backslash stands alone: what is escaped behind it never starts with a quote.
      have hnext : c = '\\' → (escape cs ++ rest).head? ≠ some '"' := by
        rintro rfl
        exact head?_escape_append cs rest fun h => hend (by simp [h])
      have hplain : (isSeparator c && !quoted) = false := by
        cases hs : isSeparator c with
        | false => rfl
        | true => simp [hsep c (by simp) hs]
      rw [escape_cons hc, List.cons_append, split_cons quoted token hnext]
      simp [hc, hplain, ih _ hsep' hend']

theorem splitBackslashes_append (cs : List Char) :
    (splitBackslashes cs).1 ++ (splitBackslashes cs).2 = cs := by
  simp [splitBackslashes, ← List.reverse_append]

theorem eq_backslash_of_mem_splitBackslashes {cs : List Char} {c : Char}
    (h : c ∈ (splitBackslashes cs).2) : c = '\\' := by
  simp only [splitBackslashes, List.mem_reverse] at h
  have hall : (cs.reverse.takeWhile (· == '\\')).all (· == '\\') := List.all_takeWhile
  simpa using List.all_eq_true.mp hall c h

theorem getLast?_splitBackslashes (cs : List Char) :
    (splitBackslashes cs).1.getLast? ≠ some '\\' := by
  intro h
  simp only [splitBackslashes, List.getLast?_reverse] at h
  simpa [h] using List.head?_dropWhile_not (· == '\\') cs.reverse

theorem splitBackslashes_append_eq {body backslashes : List Char}
    (hbody : body.getLast? ≠ some '\\') (hall : ∀ c ∈ backslashes, c = '\\') :
    splitBackslashes (body ++ backslashes) = (body, backslashes) := by
  have hpos : ∀ c ∈ backslashes.reverse, (c == '\\') = true := by
    intro c hc
    simpa using hall c (List.mem_reverse.mp hc)
  have hstop : body.reverse.dropWhile (· == '\\') = body.reverse ∧
      body.reverse.takeWhile (· == '\\') = [] := by
    cases hr : body.reverse with
    | nil => simp
    | cons c cs =>
      have hc : c ≠ '\\' := by
        rintro rfl
        exact hbody (by rw [← List.head?_reverse, hr]; rfl)
      simp [hc]
  simp only [splitBackslashes, List.reverse_append, List.dropWhile_append_of_pos hpos,
    List.takeWhile_append_of_pos hpos, hstop, List.append_nil, List.reverse_reverse]

theorem escape_splitBackslashes (cs : List Char) :
    escape (splitBackslashes cs).2 = (splitBackslashes cs).2 :=
  escape_eq_self fun h => absurd (eq_backslash_of_mem_splitBackslashes h) (by decide)

theorem splitBackslashes_escape (cs : List Char) :
    splitBackslashes (escape cs) = (escape (splitBackslashes cs).1, (splitBackslashes cs).2) := by
  have hcs : escape cs = escape (splitBackslashes cs).1 ++ (splitBackslashes cs).2 := by
    rw [← escape_splitBackslashes, ← escape_append, splitBackslashes_append]
  have hbody : (escape (splitBackslashes cs).1).getLast? ≠ some '\\' := by
    rw [getLast?_escape]
    exact getLast?_splitBackslashes cs
  rw [hcs]
  exact splitBackslashes_append_eq hbody fun _ => eq_backslash_of_mem_splitBackslashes

theorem quoteToken_of_separator {cs : List Char} (h : cs.any isSeparator = true) :
    quoteToken cs = '"' :: escape (splitBackslashes cs).1 ++ '"' :: (splitBackslashes cs).2 := by
  simp [quoteToken, h, splitBackslashes_escape]

/-- A quoted token is read back into the token begun, in front of any rest that starts with no
quote. -/
theorem split_quoteToken (token cs rest : List Char) (h : rest.head? ≠ some '"') :
    split false token (quoteToken cs ++ rest) = split false (cs.reverse ++ token) rest := by
  by_cases hsep : cs.any isSeparator = true
  · -- The backslashes at the end are read behind the closing quote, where they escape nothing.
    have hbody := split_escape true token (splitBackslashes cs).1
      ('"' :: (splitBackslashes cs).2 ++ rest) (fun _ _ _ => rfl)
      fun h => absurd h (getLast?_splitBackslashes cs)
    have htail := split_escape false ((splitBackslashes cs).1.reverse ++ token)
      (splitBackslashes cs).2 rest
      (fun c hc hs => absurd hs (by
        rw [eq_backslash_of_mem_splitBackslashes hc]
        decide)) fun _ => h
    rw [escape_splitBackslashes] at htail
    calc split false token (quoteToken cs ++ rest)
        = split true token (escape (splitBackslashes cs).1 ++
            ('"' :: (splitBackslashes cs).2 ++ rest)) := by
          simp [quoteToken_of_separator hsep]
      _ = split false ((splitBackslashes cs).1.reverse ++ token)
            ((splitBackslashes cs).2 ++ rest) := by rw [hbody]; simp
      _ = split false (cs.reverse ++ token) rest := by
          rw [htail, ← List.append_assoc, ← List.reverse_append, splitBackslashes_append]
  · have hplain : ∀ c ∈ cs, isSeparator c → false = true := by
      intro c hc hs
      exact absurd (List.any_eq_true.mpr ⟨c, hc, hs⟩) hsep
    have hq : quoteToken cs = escape cs := by simp [quoteToken, hsep]
    rw [hq]
    exact split_escape false token cs rest hplain fun _ => h

theorem pushToken_reverse (token : String) (tokens : List String) :
    pushToken token.toList.reverse tokens = if token = "" then tokens else token :: tokens := by
  by_cases h : token = ""
  · simp [h, pushToken]
  · simp [pushToken, h]

theorem split_quoteTokens (tokens : List String) :
    split false [] (quoteTokens tokens) = some (tokens.filter (· != "")) := by
  induction tokens with
  | nil => rfl
  | cons token rest ih =>
    have hpush := pushToken_reverse token (rest.filter (· != ""))
    have hfilter : (token :: rest).filter (· != "") =
        pushToken token.toList.reverse (rest.filter (· != "")) := by
      by_cases h : token = "" <;> simp [hpush, h]
    rw [hfilter]
    cases rest with
    | nil =>
      have h := split_quoteToken [] token.toList [] (by simp)
      simpa [quoteTokens] using h
    | cons next others =>
      have h := split_quoteToken [] token.toList (' ' :: quoteTokens (next :: others)) (by simp)
      calc split false [] (quoteTokens (token :: next :: others))
          = split false token.toList.reverse (' ' :: quoteTokens (next :: others)) := by
            simpa [quoteTokens] using h
        _ = (split false [] (quoteTokens (next :: others))).map
              (pushToken token.toList.reverse) := split_separator (by decide) false _ _
        _ = some (pushToken token.toList.reverse ((next :: others).filter (· != ""))) := by
            rw [ih]
            rfl

theorem empty_not_mem_split {quoted : Bool} {token cs : List Char} {tokens : List String}
    (h : split quoted token cs = some tokens) : "" ∉ tokens := by
  have hpush : ∀ (token : List Char) (tokens : List String), "" ∉ tokens →
      "" ∉ pushToken token tokens := by
    intro token tokens h
    cases token <;> simp [h]
  fun_induction split quoted token cs generalizing tokens with
  | case1 => simp at h
  | case2 quoted token hq =>
    cases h
    exact hpush token [] (by simp)
  | case3 quoted token rest ih => exact ih h
  | case4 quoted token rest hc ih => exact ih h
  | case5 quoted token c rest hc hq hs ih =>
    obtain ⟨others, ho, rfl⟩ := Option.map_eq_some_iff.mp h
    exact hpush token others (ih ho)
  | case6 quoted token c rest hc hq hs ih => exact ih h

theorem tokenize_eq_ok_iff {line : String} {tokens : List String} :
    tokenize line = .ok tokens ↔ split false [] line.toList = some tokens := by
  unfold tokenize
  cases split false [] line.toList <;> simp

theorem tokenize_quoteLine (tokens : List String) :
    tokenize (quoteLine tokens) = .ok (tokens.filter (· != "")) := by
  rw [tokenize_eq_ok_iff, quoteLine, String.toList_ofList]
  exact split_quoteTokens tokens

theorem empty_not_mem_tokenize {line : String} {tokens : List String}
    (h : tokenize line = .ok tokens) : "" ∉ tokens :=
  empty_not_mem_split (tokenize_eq_ok_iff.mp h)

theorem filter_nonempty_eq_self {tokens : List String} (h : "" ∉ tokens) :
    tokens.filter (· != "") = tokens := by
  rw [List.filter_eq_self]
  intro token ht
  simpa using ne_of_mem_of_not_mem ht h

/-- Quoting never spoils a line, and loses nothing but empty tokens. No tokenized line has an empty
token, so the lists that tokenizing can give are those without one, and on them quoting is undone by
tokenizing. -/
theorem tokenize_quoteLine_round_trip :
    (∀ tokens, tokenize (quoteLine tokens) = .ok (tokens.filter (· != ""))) ∧
    (∀ line tokens, tokenize line = .ok tokens → "" ∉ tokens) ∧
    (∀ tokens, (∃ line, tokenize line = .ok tokens) ↔ "" ∉ tokens) ∧
    (∀ line tokens, tokenize line = .ok tokens → tokenize (quoteLine tokens) = .ok tokens) := by
  have hback : ∀ tokens, "" ∉ tokens → tokenize (quoteLine tokens) = .ok tokens := by
    intro tokens h
    rw [tokenize_quoteLine, filter_nonempty_eq_self h]
  refine ⟨tokenize_quoteLine, fun _ _ => empty_not_mem_tokenize, fun tokens => ⟨?_, ?_⟩, ?_⟩
  · rintro ⟨line, h⟩
    exact empty_not_mem_tokenize h
  · intro h
    exact ⟨quoteLine tokens, hback tokens h⟩
  · intro line tokens h
    exact hback tokens (empty_not_mem_tokenize h)

theorem tokenize_quoteLine_back_again :
    tokenize "\"a\tb\"\\\\ \\\"c \"\" d\\" = .ok ["a\tb\\\\", "\"c", "d\\"] ∧
      tokenize (quoteLine ["a\tb\\\\", "\"c", "d\\"]) = .ok ["a\tb\\\\", "\"c", "d\\"] := by
  have h : tokenize "\"a\tb\"\\\\ \\\"c \"\" d\\" = .ok ["a\tb\\\\", "\"c", "d\\"] := by
    rw [tokenize_eq_ok_iff]
    decide
  exact ⟨h, tokenize_quoteLine_round_trip.2.2.2 _ _ h⟩

end CommandFile.Quoting
