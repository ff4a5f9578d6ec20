import CommandFile.Text.Integer
import Mathlib.Data.List.TakeWhile
set_option autoImplicit false

namespace CommandFile.Text

theorem toNat_of_isDigit {c : Char} (h : c.isDigit = true) : 48 ≤ c.toNat ∧ c.toNat ≤ 57 := by
  simp only [Char.isDigit, Bool.and_eq_true, decide_eq_true_eq, ge_iff_le,
    UInt32.le_iff_toNat_le] at h
  exact h

theorem digitValue?_of_isDigit {c : Char} (h : c.isDigit = true) :
    digitValue? c = some (c.toNat - 48) := by
  obtain ⟨hlow, hhigh⟩ := toNat_of_isDigit h
  have hbelow : c.toNat < 58 := by omega
  simp [digitValue?, zeroDigits, hlow, hbelow]

theorem isBlank_of_isDigit {c : Char} (h : c.isDigit = true) : isBlank c = false := by
  have hrange := toNat_of_isDigit h
  simp only [isBlank, Bool.or_eq_false_iff, Bool.and_eq_false_iff, beq_eq_false_iff_ne,
    decide_eq_false_iff_not]
  omega

theorem digits?_of_isDigit {cs : List Char} (h : ∀ c ∈ cs, c.isDigit = true) (afterDigit : Bool)
    (hne : afterDigit = true ∨ cs ≠ []) :
    digits? afterDigit cs = some (cs.map fun c => c.toNat - 48) := by
  induction cs generalizing afterDigit with
  | nil => simpa [digits?] using hne
  | cons c rest ih =>
    obtain ⟨hc, hrest⟩ := List.forall_mem_cons.mp h
    have hscore : c ≠ '_' := by
      rintro rfl
      exact absurd hc (by decide)
    simp [digits?, hscore, digitValue?_of_isDigit hc, ih hrest true (.inl rfl)]

theorem ofDigits_map (cs : List Char) :
    ofDigits (cs.map fun c => c.toNat - 48) = Nat.ofDigitChars 10 cs 0 := by
  simp only [ofDigits, Nat.ofDigitChars, List.foldl_map, Nat.mul_comm 10]
  rfl

theorem isDigit_of_mem_toDigits {n : Nat} {c : Char} (h : c ∈ Nat.toDigits 10 n) :
    c.isDigit = true := Nat.isDigit_of_mem_toDigits (by decide) (Nat.le_refl 10) h

theorem toDigits_ne_cons {c : Char} (hc : c.isDigit = false) (n : Nat) (rest : List Char) :
    Nat.toDigits 10 n ≠ c :: rest := by
  intro h
  have hdigit : c.isDigit = true := isDigit_of_mem_toDigits (h ▸ List.mem_cons_self)
  simp [hc] at hdigit

theorem natural?_toDigits {n : Nat} (h : (Nat.toDigits 10 n).length ≤ maxDigits) :
    natural? (Nat.toDigits 10 n) = some n := by
  have hdigits : digits? false (Nat.toDigits 10 n) =
      some ((Nat.toDigits 10 n).map fun c => c.toNat - 48) :=
    digits?_of_isDigit (fun _ => isDigit_of_mem_toDigits) false (.inr Nat.toDigits_ne_nil)
  simp [natural?, hdigits, h, ofDigits_map]

theorem toList_toString (n : Int) :
    (toString n).toList = (if n < 0 then ['-'] else []) ++ Nat.toDigits 10 n.natAbs := by
  cases n with
  | ofNat m =>
    have hspelled : toString (Int.ofNat m) = String.ofList (Nat.toDigits 10 m) :=
      Nat.toString_eq_ofList_toDigits
    rw [hspelled, String.toList_ofList, if_neg (by simp)]
    rfl
  | negSucc m =>
    have hspelled : toString (Int.negSucc m) = "-" ++ String.ofList (Nat.toDigits 10 (m + 1)) :=
      congrArg ("-" ++ ·) Nat.toString_eq_ofList_toDigits
    simp [hspelled]

theorem isBlank_of_mem_toString {n : Int} {c : Char} (h : c ∈ (toString n).toList) :
    isBlank c = false := by
  rw [toList_toString, List.mem_append] at h
  rcases h with hsign | hdigit
  · split at hsign
    · obtain rfl := List.mem_singleton.mp hsign
      rfl
    · cases hsign
  · exact isBlank_of_isDigit (isDigit_of_mem_toDigits hdigit)

theorem toString_ne_empty (n : Int) : toString n ≠ "" := by
  intro h
  have hlist := toList_toString n
  simp [h, Nat.toDigits_ne_nil] at hlist

section Ends
variable {cs : List Char} {p : Char → Bool}

theorem dropWhile_of_forall_not (h : ∀ c ∈ cs, p c = false) : cs.dropWhile p = cs :=
  List.dropWhile_eq_self_iff.mpr fun hl => by simp [h _ (List.getElem_mem hl)]

theorem withoutMargins_of_not_blank (h : ∀ c ∈ cs, isBlank c = false) :
    withoutMargins cs = cs := by
  have hmargin : ∀ c ∈ cs, isMargin c = false := fun c hc => by simp [isMargin, h c hc]
  have hreverse : ∀ c ∈ cs.reverse, isMargin c = false := by simpa using hmargin
  rw [withoutMargins, dropWhile_of_forall_not hmargin, dropWhile_of_forall_not hreverse,
    List.reverse_reverse]

theorem trim_of_not_blank (h : ∀ c ∈ cs, isBlank c = false) : trim cs = cs := by
  have hreverse : ∀ c ∈ cs.reverse, isBlank c = false := by simpa using h
  rw [trim, trimLeft, trimRight, dropWhile_of_forall_not h, dropWhile_of_forall_not hreverse,
    List.reverse_reverse]

end Ends

theorem strip_toString (n : Int) : strip (toString n) = toString n := by
  rw [strip, trim_of_not_blank fun _ => isBlank_of_mem_toString, String.ofList_toList]

theorem integer?_toString {n : Int} (h : (toString n.natAbs).length ≤ maxDigits) :
    integer? (toString n) = some n := by
  have hlength : (Nat.toDigits 10 n.natAbs).length ≤ maxDigits := by
    rwa [Nat.toString_eq_ofList_toDigits, String.length_ofList] at h
  have hnatural := natural?_toDigits hlength
  rw [integer?, withoutMargins_of_not_blank fun _ => isBlank_of_mem_toString, toList_toString]
  by_cases hn : n < 0
  · have hvalue : -(n.natAbs : Int) = n := by omega
    simp only [if_pos hn, List.singleton_append, hnatural]
    exact congrArg some hvalue
  · have hvalue : (n.natAbs : Int) = n := by omega
    rw [if_neg hn, List.nil_append]
    -- No sign stands in front of the digits.
    split
    · rename_i rest hsign
      exact absurd hsign (toDigits_ne_cons (by decide) _ rest)
    · rename_i rest hsign
      exact absurd hsign (toDigits_ne_cons (by decide) _ rest)
    · simp [hnatural, hvalue]

end CommandFile.Text
