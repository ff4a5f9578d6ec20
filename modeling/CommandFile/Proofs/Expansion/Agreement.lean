import CommandFile.Proofs.Expansion.Pass
set_option autoImplicit false

namespace CommandFile

structure Macros.AgreeOn (Known : String → Prop) (m other : Macros) : Prop where
  short (name : String) : Known name → other.short.find? name = m.short.find? name
  long (name : String) : Known name → other.long.find? name = m.long.find? name

def DirtyWithin (Known : String → Prop) (lines : List PendingLine) : Prop :=
  ∀ line ∈ lines, line.dirty = true → CallsWithin Known line.tokens

namespace Macros.AgreeOn
variable {Known : String → Prop} {m other : Macros}

theorem called?_congr (h : m.AgreeOn Known other) {token : String}
    (htoken : ∀ name ∈ Call.name? token, Known name) :
    other.short.called? token = m.short.called? token := by
  cases hn : Call.name? token with
  | none => rw [Table.called?_of_not_call _ hn, Table.called?_of_not_call _ hn]
  | some name =>
    rw [Table.called?_of_name _ hn, Table.called?_of_name _ hn, h.short name (htoken name hn)]

theorem substitute_congr (h : m.AgreeOn Known other) {tokens : List String}
    (htokens : CallsWithin Known tokens) :
    substitute other.short tokens = substitute m.short tokens := by
  have hcalled : ∀ token ∈ tokens, other.short.called? token = m.short.called? token :=
    fun token ht => h.called?_congr fun name hn => htokens name (mem_calledNames_of_mem ht hn)
  have hreplace : tokens.flatMap other.short.replace = tokens.flatMap m.short.replace :=
    List.flatMap_congr fun token ht => by rw [Table.replace, hcalled token ht, Table.replace]
  have hchanged : (tokens.any fun token => (other.short.called? token).isSome) =
      tokens.any fun token => (m.short.called? token).isSome := by
    rw [Bool.eq_iff_iff, List.any_eq_true, List.any_eq_true]
    exact exists_congr fun token => and_congr_right fun ht => by rw [hcalled token ht]
  rw [substitute_eq, substitute_eq, hreplace, hchanged]

theorem fanOut_congr (h : m.AgreeOn Known other) {tokens : List String}
    (htokens : CallsWithin Known tokens) (requireDefined : Bool) :
    fanOut other.long tokens requireDefined = fanOut m.long tokens requireDefined := by
  unfold fanOut
  cases hc : firstCall tokens with
  | none => rfl
  | some call =>
    obtain ⟨token, rfl, hn, -⟩ := firstCall_eq_some hc
    have hknown : Known call.name := htokens _ (mem_calledNames_of_mem (by simp) hn)
    simp only [h.long call.name hknown]

theorem expandLine_congr (h : m.AgreeOn Known other) (hm : m.Encloses Known)
    {tokens : List String} (htokens : CallsWithin Known tokens) :
    expandLine other tokens = expandLine m tokens := by
  simp only [expandLine, h.substitute_congr htokens, h.fanOut_congr (htokens.substitute hm)]

theorem expandPass_congr (h : m.AgreeOn Known other) (hm : m.Encloses Known)
    {lines : List PendingLine} (hlines : DirtyWithin Known lines) :
    expandPass other lines = expandPass m lines := by
  induction lines with
  | nil => rfl
  | cons line rest ih =>
    obtain ⟨hline, hrest⟩ := List.forall_mem_cons.mp hlines
    have hfirst : expandPending other line = expandPending m line := by
      cases hd : line.dirty with
      | false => rw [expandPending_of_clean _ hd, expandPending_of_clean _ hd]
      | true =>
        rw [expandPending_of_dirty _ hd, expandPending_of_dirty _ hd,
          h.expandLine_congr hm (hline hd)]
    rw [expandPass, hfirst, ih hrest, expandPass]

end Macros.AgreeOn

theorem DirtyWithin.expandPass {Known : String → Prop} {m : Macros} (hm : m.Encloses Known)
    {lines next : List PendingLine} (h : DirtyWithin Known lines)
    (hp : expandPass m lines = .ok next) : DirtyWithin Known next := by
  induction lines generalizing next with
  | nil =>
    cases hp
    exact h
  | cons line rest ih =>
    obtain ⟨hline, hrest⟩ := List.forall_mem_cons.mp h
    obtain ⟨lines, others, he, hothers, rfl⟩ := expandPass_cons_eq_ok hp
    refine List.forall_mem_append.mpr ⟨?_, ih hrest hothers⟩
    obtain ⟨hd, he⟩ | ⟨-, rfl⟩ := expandPending_eq_ok he
    · exact fun other hother _ => (hline hd).expandLine hm he other hother
    · exact List.forall_mem_singleton.mpr hline

namespace Macros.AgreeOn
variable {Known : String → Prop} {m other : Macros}

theorem expandFrom_congr (h : m.AgreeOn Known other) (hm : m.Encloses Known) (passes left : Nat)
    {lines : List PendingLine} (hlines : DirtyWithin Known lines) :
    expandFrom other passes lines (dirtyCount lines) left =
      expandFrom m passes lines (dirtyCount lines) left := by
  induction left generalizing passes lines with
  | zero => rfl
  | succ left ih =>
    rw [expandFrom_succ, expandFrom_succ, h.expandPass_congr hm hlines]
    cases hp : expandPass m lines with
    | error i => rfl
    | ok next => simp only [ih (passes + 1) (hlines.expandPass hm hp)]

theorem expandLines_congr (h : m.AgreeOn Known other) (hm : m.Encloses Known)
    {lines : List PendingLine} (hlines : DirtyWithin Known lines) (cap : Int) :
    expandLines other lines cap = expandLines m lines cap :=
  h.expandFrom_congr hm 0 cap.toNat hlines

end Macros.AgreeOn

structure Macros.Agree (m other : Macros) : Prop where
  short (name : String) : other.short.find? name = m.short.find? name
  long (name : String) : other.long.find? name = m.long.find? name

theorem Macros.Agree.expandLines_congr {m other : Macros} (h : m.Agree other)
    (lines : List PendingLine) (cap : Int) :
    expandLines other lines cap = expandLines m lines cap := by
  have hknown : m.AgreeOn (fun _ => True) other :=
    ⟨fun name _ => h.short name, fun name _ => h.long name⟩
  exact hknown.expandLines_congr (fun _ _ _ _ _ _ => trivial) (fun _ _ _ _ _ => trivial) cap

end CommandFile
