import CommandFile.Proofs.Quoting.RoundTrip
set_option autoImplicit false

/-!
The characters of quoted lines. Tokenizing makes up no character, and quoting adds none but quotes,
backslashes and spaces. So what holds of every character of a line holds of those of its tokens, and
the other way round if it holds of these three.
-/
namespace CommandFile.Quoting
variable {P : Char → Prop}

theorem forall_pushToken {token : List Char} {tokens : List String} (htoken : ∀ c ∈ token, P c)
    (h : ∀ t ∈ tokens, ∀ c ∈ t.toList, P c) :
    ∀ t ∈ pushToken token tokens, ∀ c ∈ t.toList, P c := by
  cases token with
  | nil => exact h
  | cons c cs =>
    refine List.forall_mem_cons.mpr ⟨fun d hd => htoken d ?_, h⟩
    rwa [String.toList_ofList, List.mem_reverse] at hd

theorem forall_split {quoted : Bool} {token cs : List Char} {tokens : List String}
    (h : split quoted token cs = some tokens) (htoken : ∀ c ∈ token, P c) (hcs : ∀ c ∈ cs, P c) :
    ∀ t ∈ tokens, ∀ c ∈ t.toList, P c := by
  fun_induction split quoted token cs generalizing tokens with
  | case1 => simp at h
  | case2 quoted token hq =>
    cases h
    exact forall_pushToken htoken (by simp)
  | case3 quoted token rest ih =>
    obtain ⟨hquote, hrest⟩ := List.forall_mem_cons.mp (List.forall_mem_cons.mp hcs).2
    exact ih h (List.forall_mem_cons.mpr ⟨hquote, htoken⟩) hrest
  | case4 quoted token rest hc ih => exact ih h htoken (List.forall_mem_cons.mp hcs).2
  | case5 quoted token c rest hc hq hs ih =>
    obtain ⟨others, ho, rfl⟩ := Option.map_eq_some_iff.mp h
    exact forall_pushToken htoken (ih ho (by simp) (List.forall_mem_cons.mp hcs).2)
  | case6 quoted token c rest hc hq hs ih =>
    obtain ⟨hhead, hrest⟩ := List.forall_mem_cons.mp hcs
    exact ih h (List.forall_mem_cons.mpr ⟨hhead, htoken⟩) hrest

theorem forall_tokenize {line : String} {tokens : List String} (h : tokenize line = .ok tokens)
    (hline : ∀ c ∈ line.toList, P c) : ∀ t ∈ tokens, ∀ c ∈ t.toList, P c :=
  forall_split (tokenize_eq_ok_iff.mp h) (by simp) hline

theorem forall_escape (hbackslash : P '\\') {cs : List Char} (h : ∀ c ∈ cs, P c) :
    ∀ c ∈ escape cs, P c := by
  induction cs with
  | nil => exact h
  | cons c cs ih =>
    obtain ⟨hc, hcs⟩ := List.forall_mem_cons.mp h
    by_cases hq : c = '"'
    · subst c
      exact List.forall_mem_cons.mpr ⟨hbackslash, List.forall_mem_cons.mpr ⟨hc, ih hcs⟩⟩
    · rw [escape_cons hq]
      exact List.forall_mem_cons.mpr ⟨hc, ih hcs⟩

theorem forall_quoteToken (hbackslash : P '\\') (hquote : P '"') {cs : List Char}
    (h : ∀ c ∈ cs, P c) : ∀ c ∈ quoteToken cs, P c := by
  by_cases hsep : cs.any isSeparator = true
  · rw [← splitBackslashes_append cs] at h
    obtain ⟨hbody, hbackslashes⟩ := List.forall_mem_append.mp h
    rw [quoteToken_of_separator hsep]
    exact List.forall_mem_append.mpr
      ⟨List.forall_mem_cons.mpr ⟨hquote, forall_escape hbackslash hbody⟩,
        List.forall_mem_cons.mpr ⟨hquote, hbackslashes⟩⟩
  · have hq : quoteToken cs = escape cs := by simp [quoteToken, hsep]
    rw [hq]
    exact forall_escape hbackslash h

theorem forall_quoteTokens (hbackslash : P '\\') (hquote : P '"') (hspace : P ' ')
    {tokens : List String} (h : ∀ t ∈ tokens, ∀ c ∈ t.toList, P c) :
    ∀ c ∈ quoteTokens tokens, P c := by
  induction tokens with
  | nil => simp [quoteTokens]
  | cons token rest ih =>
    obtain ⟨htoken, hrest⟩ := List.forall_mem_cons.mp h
    have hfirst := forall_quoteToken hbackslash hquote htoken
    cases rest with
    | nil => exact hfirst
    | cons next others =>
      exact List.forall_mem_append.mpr ⟨hfirst, List.forall_mem_cons.mpr ⟨hspace, ih hrest⟩⟩

end CommandFile.Quoting
