import CommandFile.Parse
import CommandFile.Proofs.Expansion.Unresolved
import CommandFile.Proofs.Quoting.Characters
import CommandFile.Proofs.Reading.Stopping
import CommandFile.Proofs.Store.Refusals
import CommandFile.Proofs.Store.TextFiles
import Mathlib.Data.List.TakeWhile
set_option autoImplicit false

/-!
Messages fill one line. Texts of any origin are shown as literals, which hold no line feed. All else
that a message shows comes from a line of a file, or is the path of the first file.
-/
namespace CommandFile

def OneLine (text : String) : Prop := '\n' ∉ text.toList

instance (text : String) : Decidable (OneLine text) :=
  inferInstanceAs (Decidable ('\n' ∉ text.toList))

theorem oneLine_append {a b : String} : OneLine (a ++ b) ↔ OneLine a ∧ OneLine b := by
  simp [OneLine]

theorem oneLine_nat (n : Nat) : OneLine (toString n) := by
  rw [OneLine, Nat.toString_eq_ofList_toDigits, String.toList_ofList]
  intro hmem
  exact absurd (Nat.isDigit_of_mem_toDigits (by decide) (Nat.le_refl 10) hmem) (by decide)

theorem oneLine_int (n : Int) : OneLine (toString n) := by
  cases n with
  | ofNat m => exact oneLine_nat m
  | negSucc m => exact oneLine_append.mpr ⟨by decide, oneLine_nat (m + 1)⟩

theorem newline_not_mem_hexDigits (width n : Nat) : '\n' ∉ Text.hexDigits width n := by
  induction width generalizing n with
  | zero => simp [Text.hexDigits]
  | succ width ih =>
    have hdigit : ∀ m < 16, '\n' ≠ Nat.digitChar m := by decide
    simp [Text.hexDigits, ih, hdigit _ (Nat.mod_lt n (by decide : 0 < 16))]

theorem newline_not_mem_literalChar {quote : Char} (hquote : quote ≠ '\n') (c : Char) :
    '\n' ∉ Text.literalChar quote c := by
  unfold Text.literalChar
  split_ifs with hescaped htab hfeed hreturn
  · rcases hescaped with rfl | rfl
    · simp [hquote.symm]
    · decide
  · decide
  · decide
  · decide
  · unfold Text.codePointEscape
    split_ifs <;> simp [newline_not_mem_hexDigits]
  · simpa using Ne.symm hfeed

theorem oneLine_literal (text : String) : OneLine (Text.literal text) := by
  have hquote : Text.delimiter text.toList ≠ '\n' := by
    unfold Text.delimiter
    split <;> decide
  simp [OneLine, Text.literal, hquote.symm, newline_not_mem_literalChar hquote]

theorem oneLine_of_name? {token name : String} (h : Call.name? token = some name) :
    OneLine name := by
  simp only [Call.name?] at h
  split at h
  · cases h
    rw [OneLine, String.toList_ofList]
    intro hmem
    exact absurd (List.mem_takeWhile_imp hmem) (by decide)
  · cases h

theorem Text.Unbroken.oneLine_strip {raw : String} (h : Text.Unbroken raw.toList) :
    OneLine (Text.strip raw) := by
  rw [OneLine, Text.toList_strip]
  exact fun hmem => (h.trim _ hmem).1 rfl

theorem oneLine_of_mem_tokenize {line token : String} {tokens : List String}
    (h : tokenize line = .ok tokens) (hline : OneLine line) (ht : token ∈ tokens) :
    OneLine token := by
  have hchars : ∀ c ∈ line.toList, c ≠ '\n' := fun c hc he => hline (he ▸ hc)
  exact fun hmem => Quoting.forall_tokenize h hchars token ht _ hmem rfl

theorem CapError.oneLine (e : CapError) : OneLine e.message := by
  cases e with
  | numberNotPositive => decide
  | notInteger value => exact oneLine_append.mpr ⟨by decide, oneLine_literal value⟩
  | notPositive value => exact oneLine_append.mpr ⟨by decide, oneLine_int value⟩

theorem UnresolvedMacro.oneLine {e : UnresolvedMacro} {token : String}
    (h : Call.name? token = some e.name) : OneLine e.message := by
  unfold message
  simp only [oneLine_append, and_assoc]
  exact ⟨by decide, oneLine_of_name? h, by decide⟩

theorem Text.Utf8.Fault.oneLine (fault : Fault) : OneLine fault.message := by
  have hplace : OneLine fault.place := by
    unfold place
    split
    · rename_i octet _
      have hdigits : OneLine (String.ofList (hexDigits 2 octet.toNat)) := by
        simpa [OneLine] using newline_not_mem_hexDigits 2 octet.toNat
      simp only [oneLine_append, and_assoc]
      exact ⟨by decide, hdigits, by decide, oneLine_nat _⟩
    · simp only [oneLine_append, and_assoc]
      exact ⟨by decide, oneLine_nat _, by decide, oneLine_nat _⟩
  have hreason : OneLine fault.reason.text := by cases fault.reason <;> decide
  -- With the message among its lemmas, `simp` would try to evaluate the place.
  unfold message
  simp only [oneLine_append, and_assoc]
  exact ⟨by decide, hplace, by decide, hreason⟩

theorem Refusal.oneLine {reason : Refusal} (h : OneLine reason.text) : OneLine reason.message := by
  unfold message
  simp only [oneLine_append, and_assoc]
  exact ⟨by decide, oneLine_nat _, by decide, h⟩

theorem FileError.oneLine_refused {reason : Refusal} (h : OneLine reason.text) (path : String) :
    OneLine (refused reason path).message :=
  oneLine_append.mpr ⟨oneLine_append.mpr ⟨Refusal.oneLine h, by decide⟩, oneLine_literal path⟩

theorem Refuses.oneLine {path : String} {e : FileError} (h : Refuses path e) :
    OneLine e.message := by
  cases h with
  | nulInPath hmem => decide
  | @refused reason hreason =>
    have htext : OneLine reason.text := by
      cases reason with
      | other code text => exact absurd rfl (hreason code text)
      | notFound | notDirectory | isDirectory | nameTooLong => decide
    exact FileError.oneLine_refused htext path

theorem Store.oneLine_of_create {s : Store} {path : String} {fault : Option WriteFault}
    {e : FileError} (h : s.create path fault = .error e)
    (hfault : ∀ f ∈ fault, OneLine f.reason.text) : OneLine e.message := by
  obtain haddress | ⟨reason, rfl, rfl⟩ := create_eq_error h
  · exact (refuses_of_writeAddress haddress).oneLine
  · exact FileError.oneLine_refused (hfault _ rfl) path

theorem Store.oneLine_of_opener {s : Store} {path : String} {reason : ReadError}
    (h : s.opener path = .error reason) : OneLine reason.message := by
  unfold opener at h
  split at h
  · rename_i hread
    cases h
    exact (refuses_of_read hread).oneLine
  split at h
  · cases h
  · cases h
    exact Text.Utf8.Fault.oneLine _

section Scanning
variable {path : String}

theorem LineKind.oneLine_of_lineKind {raw : String} {kind : LineKind}
    (h : lineKind? raw = some kind) (hraw : Text.Unbroken raw.toList) :
    (∀ name, kind = .longMacro name → OneLine name) ∧
      ∀ included, kind = .inclusion included → OneLine included := by
  obtain ⟨-, tokens, htokens, hkind⟩ := lineKind?_eq_some.mp h
  have htoken : ∀ token ∈ tokens, OneLine token := fun token =>
    oneLine_of_mem_tokenize htokens hraw.oneLine_strip
  unfold classify at hkind
  split at hkind <;> subst hkind <;> simp_all

theorem FailsAt.oneLine {tailFault : Option Text.Utf8.Fault} {number : Nat} {lines : List String}
    {e : ScanError} (h : FailsAt path tailFault number lines e) (hpath : OneLine path)
    (hlines : ∀ raw ∈ lines, Text.Unbroken raw.toList) : OneLine e.message := by
  have hquotes : ∀ raw ∈ lines, ∀ n q, tokenize (Text.strip raw) = .error q →
      OneLine (ScanError.unmatchedQuotes path n q).message := by
    intro raw hraw n q hq
    have hq : q = ⟨Text.strip raw⟩ := by
      unfold tokenize at hq
      split at hq <;> cases hq
      rfl
    unfold ScanError.message UnmatchedQuotes.message
    simp only [hq, oneLine_append, and_assoc]
    exact ⟨hpath, by decide, oneLine_nat _, by decide, by decide, (hlines raw hraw).oneLine_strip⟩
  cases h with
  | line hcontent ht => exact hquotes _ (by simp) _ _ ht
  | body hheader hbody hend hcontent ht => exact hquotes _ (by simp) _ _ ht
  | unterminated htail hheader hbody =>
    have hname := (LineKind.oneLine_of_lineKind hheader (hlines _ (by simp))).1 _ rfl
    unfold ScanError.message
    simp only [oneLine_append, and_assoc]
    exact ⟨by decide, hname, by decide⟩
  | undecodable htail => exact Text.Utf8.Fault.oneLine _
  | undecodableBody htail hheader hbody => exact Text.Utf8.Fault.oneLine _

variable {openFile : Opener} {limit : Nat} {items : List Item} {e : ScanError}

theorem Stops.oneLine (hopen : UniversalNewlines openFile)
    (hrefused : ∀ path reason, openFile path = .error reason → OneLine reason.message)
    (h : Stops openFile limit path items e) (hpath : OneLine path) : OneLine e.message := by
  induction limit generalizing path items with
  | zero =>
    obtain ⟨-, rfl⟩ := h
    exact oneLine_append.mpr ⟨by decide, hpath⟩
  | succ limit ih =>
    rw [Stops] at h
    cases ho : openFile path with
    | error reason =>
      simp only [ho] at h
      obtain ⟨-, rfl⟩ := h
      exact hrefused path reason ho
    | ok file =>
      simp only [ho] at h
      have hlines := hopen path file ho
      cases h with
      | here hsplit hbefore hfails =>
        rw [hsplit] at hlines
        exact hfails.oneLine hpath fun raw hraw => hlines raw (List.mem_append_right _ hraw)
      | inside hsplit hbefore hkind hstops =>
        have hincluded := (LineKind.oneLine_of_lineKind hkind (hlines _ (by simp [hsplit]))).2 _ rfl
        exact ih hstops hincluded

/-- If the path of a source fills one line, then so does the message of a parse that fails. -/
theorem Store.oneLine_of_expand {files : Store} {cap : PassCap} {reason : ParseError}
    (h : (files.scan path).expand cap = .error reason) (hpath : OneLine path) :
    OneLine reason.message := by
  unfold Reading.expand at h
  split at h
  · rename_i e hfailure
    cases h
    have hscan : files.scan path = ⟨(files.scan path).items, some e⟩ := by rw [← hfailure]
    exact (stops_iff.mpr hscan).oneLine files.universalNewlines (fun _ _ => oneLine_of_opener) hpath
  · split at h
    · cases h
    · rename_i stopped unresolved hexpand
      cases h
      obtain ⟨token, hname, -, -⟩ := Context.expand_error hexpand
      exact UnresolvedMacro.oneLine hname

end Scanning
end CommandFile
