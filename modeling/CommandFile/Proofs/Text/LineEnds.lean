import CommandFile.Text.Blank
import CommandFile.TextFile
set_option autoImplicit false

namespace CommandFile
namespace Text

def Unbroken (cs : List Char) : Prop := ∀ c ∈ cs, c ≠ '\n' ∧ c ≠ '\r'

instance (cs : List Char) : Decidable (Unbroken cs) :=
  inferInstanceAs (Decidable (∀ c ∈ cs, c ≠ '\n' ∧ c ≠ '\r'))

@[simp] theorem unbroken_nil : Unbroken [] := by simp [Unbroken]

theorem unbroken_reverse {cs : List Char} : Unbroken cs.reverse ↔ Unbroken cs := by
  simp only [Unbroken, List.mem_reverse]

theorem mem_of_mem_trim {c : Char} {cs : List Char} (h : c ∈ trim cs) : c ∈ cs := by
  simp only [trim, trimRight, trimLeft, List.mem_reverse] at h
  have hleft := (List.dropWhile_sublist isBlank).subset h
  exact (List.dropWhile_sublist isBlank).subset (List.mem_reverse.mp hleft)

theorem Unbroken.trim {cs : List Char} (h : Unbroken cs) : Unbroken (trim cs) :=
  fun c hc => h c (mem_of_mem_trim hc)

theorem splitLines_unbroken {begun cs : List Char} (h : Unbroken begun) :
    (∀ line ∈ (splitLines begun cs).1, Unbroken line) ∧ Unbroken (splitLines begun cs).2 := by
  fun_induction splitLines begun cs with
  | case1 begun => exact ⟨by simp, unbroken_reverse.mpr h⟩
  | case2 begun rest lines tail hs ih =>
    obtain ⟨hlines, htail⟩ := ih unbroken_nil
    rw [hs] at hlines htail
    exact ⟨List.forall_mem_cons.mpr ⟨unbroken_reverse.mpr h, hlines⟩, htail⟩
  | case3 begun c rest hnot hc lines tail hs ih =>
    obtain ⟨hlines, htail⟩ := ih unbroken_nil
    rw [hs] at hlines htail
    exact ⟨List.forall_mem_cons.mpr ⟨unbroken_reverse.mpr h, hlines⟩, htail⟩
  | case4 begun c rest hnot hc ih =>
    rw [not_or] at hc
    exact ih (List.forall_mem_cons.mpr ⟨hc, h⟩)

theorem lines_unbroken (cs : List Char) : ∀ line ∈ lines cs, Unbroken line := by
  obtain ⟨hlines, htail⟩ := @splitLines_unbroken [] cs unbroken_nil
  intro line hl
  simp only [lines] at hl
  split at hl
  · exact hlines line hl
  · rcases List.mem_append.mp hl with hl | hl
    · exact hlines line hl
    · exact List.mem_singleton.mp hl ▸ htail

theorem endedLines_unbroken (cs : List Char) : ∀ line ∈ endedLines cs, Unbroken line :=
  (splitLines_unbroken unbroken_nil).1

def lineEnds : List (List Char) := [['\n'], ['\r'], ['\r', '\n']]

def withLineEnds (ending cs : List Char) : List Char :=
  (splitLines [] cs).1.flatMap (· ++ ending) ++ (splitLines [] cs).2

theorem splitLines_append_of_unbroken {line : List Char} (h : Unbroken line)
    (begun rest : List Char) :
    splitLines begun (line ++ rest) = splitLines (line.reverse ++ begun) rest := by
  induction line generalizing begun with
  | nil => rfl
  | cons c cs ih =>
    obtain ⟨⟨hlf, hcr⟩, hcs⟩ := List.forall_mem_cons.mp h
    rw [List.cons_append, splitLines.eq_3 _ _ _ (fun _ hc => absurd hc hcr),
      if_neg (by simp [hlf, hcr]), ih hcs]
    simp

theorem splitLines_lineEnd {ending : List Char} (hending : ending ∈ lineEnds) {rest : List Char}
    (hrest : ending = ['\r'] → '\n' ∉ rest) (begun : List Char) :
    splitLines begun (ending ++ rest) =
      (begun.reverse :: (splitLines [] rest).1, (splitLines [] rest).2) := by
  simp only [lineEnds, List.mem_cons, List.not_mem_nil, or_false] at hending
  obtain rfl | rfl | rfl := hending
  · simp [splitLines]
  · cases rest with
    | nil => simp [splitLines]
    | cons c cs =>
      have hc : c ≠ '\n' := fun hc => hrest rfl (by simp [hc])
      rw [List.singleton_append, splitLines.eq_3 _ _ _ fun _ _ he => by simp_all]
      simp
  · simp [splitLines]

theorem splitLines_joined {ending : List Char} (hending : ending ∈ lineEnds)
    {lines : List (List Char)} {tail : List Char} (hlines : ∀ line ∈ lines, Unbroken line)
    (htail : Unbroken tail) :
    splitLines [] (lines.flatMap (· ++ ending) ++ tail) = (lines, tail) := by
  induction lines with
  | nil =>
    have hsplit := splitLines_append_of_unbroken htail [] []
    simpa [splitLines] using hsplit
  | cons line rest ih =>
    obtain ⟨hline, hrest⟩ := List.forall_mem_cons.mp hlines
    have hfeed : ending = ['\r'] → '\n' ∉ rest.flatMap (· ++ ending) ++ tail := by
      rintro rfl hmem
      simp only [List.mem_append, List.mem_flatMap, List.mem_singleton] at hmem
      obtain ⟨other, hother, hmem | hmem⟩ | hmem := hmem
      · exact (hrest other hother _ hmem).1 rfl
      · exact absurd hmem (by decide)
      · exact (htail _ hmem).1 rfl
    rw [List.flatMap_cons, List.append_assoc, List.append_assoc,
      splitLines_append_of_unbroken hline, splitLines_lineEnd hending hfeed, ih hrest]
    simp

theorem splitLines_withLineEnds {ending : List Char} (h : ending ∈ lineEnds) (cs : List Char) :
    splitLines [] (withLineEnds ending cs) = splitLines [] cs := by
  obtain ⟨hlines, htail⟩ := @splitLines_unbroken [] cs unbroken_nil
  exact splitLines_joined h hlines htail

theorem lines_withLineEnds {ending : List Char} (h : ending ∈ lineEnds) (cs : List Char) :
    lines (withLineEnds ending cs) = lines cs := by
  rw [lines, splitLines_withLineEnds h, lines]

end Text

theorem TextFile.ofOctets_withLineEnds {ending text : List Char} (h : ending ∈ Text.lineEnds)
    {octets others : List UInt8} (hoctets : Text.Utf8.decode octets = .ok ⟨text, none⟩)
    (hothers : Text.Utf8.decode others = .ok ⟨Text.withLineEnds ending text, none⟩) :
    TextFile.ofOctets others = TextFile.ofOctets octets := by
  simp only [ofOctets, hoctets, hothers, Text.lines_withLineEnds h]

theorem TextFile.lines_unbroken {octets : List UInt8} {file : TextFile}
    (h : TextFile.ofOctets octets = .ok file) : ∀ raw ∈ file.lines, Text.Unbroken raw.toList := by
  intro raw hraw
  unfold ofOctets at h
  split at h
  · cases h
  · cases h
    obtain ⟨line, hline, rfl⟩ := List.mem_map.mp hraw
    rw [String.toList_ofList]
    exact Text.lines_unbroken _ line hline
  · cases h
    obtain ⟨line, hline, rfl⟩ := List.mem_map.mp hraw
    rw [String.toList_ofList]
    exact Text.endedLines_unbroken _ line hline

end CommandFile
