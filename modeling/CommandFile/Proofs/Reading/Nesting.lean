import CommandFile.Proofs.Reading.Walk
import CommandFile.Proofs.Store.TextFiles
import Mathlib.Data.List.Nodup
set_option autoImplicit false

/-!
How deep inclusions nest. There is no check for cycles. A scan exceeds a limit when a chain of open
files grows longer than it, and a chain in which no path stands twice cannot grow far, because all
paths but the first are those of inclusions. So the scans without end are those that come to the
path of a file that is still open, and a limit beyond the number of inclusion paths is enough for
all others.
-/
namespace CommandFile

def Reading.Exceeded (r : Reading) : Prop := ∃ path, r.failure = some (.endlessInclusion path)

def Endless (openFile : Opener) (path : String) : Prop :=
  ∀ limit, (scan openFile limit path).Exceeded

/-- A scan of the file comes to an inclusion in it: all that stands before the inclusion can be
read, and the files included there can be read to their ends. -/
def Meets (openFile : Opener) (path included : String) : Prop :=
  ∃ file before after, openFile path = .ok file ∧
    (readFile path file).items = before ++ .inclusion included :: after ∧
    ∀ earlier, .inclusion earlier ∈ before → ∃ limit, (scan openFile limit earlier).failure = none

inductive OpenChain (openFile : Opener) (path : String) : List String → Prop where
  | start : OpenChain openFile path [path]
  | deeper {inner included : String} {outer : List String} :
      OpenChain openFile path (inner :: outer) → Meets openFile inner included →
      OpenChain openFile path (included :: inner :: outer)

section Items
variable {read other : String → Reading} {path : String} {rest : List Item}

theorem inlineItems_cons_exceeded_iff {item : Item} (h : item.includedPath? = none) :
    (inlineItems read (item :: rest)).Exceeded ↔ (inlineItems read rest).Exceeded := by
  rw [inlineItems_cons h]
  rfl

theorem inlineItems_inclusion_exceeded_iff :
    (inlineItems read (.inclusion path :: rest)).Exceeded ↔
      (read path).Exceeded ∨ (read path).failure = none ∧ (inlineItems read rest).Exceeded := by
  cases hf : (read path).failure with
  | none =>
    rw [inlineItems_inclusion_of_success hf]
    simp [Reading.Exceeded, hf]
  | some e =>
    rw [inlineItems_inclusion_of_failure hf]
    simp [Reading.Exceeded, hf]

theorem inlineItems_exceeded {items : List Item} (h : (inlineItems read items).Exceeded) :
    ∃ before included after, items = before ++ .inclusion included :: after ∧
      (∀ earlier, .inclusion earlier ∈ before → (read earlier).failure = none) ∧
      (read included).Exceeded := by
  induction items with
  | nil => simp [inlineItems, Reading.Exceeded] at h
  | cons item rest ih =>
    obtain ⟨path, rfl⟩ | hitem := item.inclusion_or
    · obtain hpath | ⟨hpath, hrest⟩ := inlineItems_inclusion_exceeded_iff.mp h
      · exact ⟨[], path, rest, rfl, by simp, hpath⟩
      · obtain ⟨before, included, after, rfl, hbefore, hincluded⟩ := ih hrest
        refine ⟨.inclusion path :: before, included, after, rfl, fun earlier he => ?_, hincluded⟩
        rcases List.mem_cons.mp he with he | he
        · cases he
          exact hpath
        · exact hbefore earlier he
    · have hrest := (inlineItems_cons_exceeded_iff hitem).mp h
      obtain ⟨before, included, after, rfl, hbefore, hincluded⟩ := ih hrest
      refine ⟨item :: before, included, after, rfl, fun earlier he => ?_, hincluded⟩
      rcases List.mem_cons.mp he with rfl | he
      · cases hitem
      · exact hbefore earlier he

theorem exceeded_inlineItems {before after : List Item} {included : String}
    (hbefore : ∀ earlier, .inclusion earlier ∈ before →
      (read earlier).failure = none ∨ (read earlier).Exceeded)
    (h : (read included).Exceeded) :
    (inlineItems read (before ++ .inclusion included :: after)).Exceeded := by
  induction before with
  | nil => exact inlineItems_inclusion_exceeded_iff.mpr (.inl h)
  | cons item rest ih =>
    have hrest := ih fun earlier he => hbefore earlier (List.mem_cons_of_mem item he)
    obtain ⟨path, rfl⟩ | hitem := item.inclusion_or
    · refine inlineItems_inclusion_exceeded_iff.mpr ?_
      obtain hpath | hpath := hbefore path (by simp)
      · exact .inr ⟨hpath, hrest⟩
      · exact .inl hpath
    · exact (inlineItems_cons_exceeded_iff hitem).mpr hrest

theorem inlineItems_eq_of_not_exceeded {items : List Item}
    (h : ¬ (inlineItems read items).Exceeded)
    (hsame : ∀ path, ¬ (read path).Exceeded → other path = read path) :
    inlineItems other items = inlineItems read items := by
  induction items with
  | nil => rfl
  | cons item rest ih =>
    obtain ⟨path, rfl⟩ | hitem := item.inclusion_or
    · rw [inlineItems_inclusion_exceeded_iff] at h
      have hpath : other path = read path := hsame path fun he => h (.inl he)
      cases hf : (read path).failure with
      | none =>
        have hrest := ih fun he => h (.inr ⟨hf, he⟩)
        rw [inlineItems_inclusion_of_success hf, inlineItems_inclusion_of_success (hpath ▸ hf),
          hpath, hrest]
      | some e =>
        rw [inlineItems_inclusion_of_failure hf, inlineItems_inclusion_of_failure (hpath ▸ hf),
          hpath]
    · rw [inlineItems_cons hitem, inlineItems_cons hitem,
        ih fun he => h ((inlineItems_cons_exceeded_iff hitem).mpr he)]

end Items

theorem readLines_not_exceeded (path : String) (tailFault : Option Text.Utf8.Fault) (number : Nat)
    (begun : Option OpenMacro) (lines : List String) :
    ¬ (readLines path tailFault number begun lines).Exceeded := by
  induction lines generalizing number begun with
  | nil =>
    rw [readLines_nil]
    cases tailFault <;> cases begun <;> simp [endOfLines, Reading.failed, Reading.Exceeded]
  | cons raw rest ih =>
    rw [readLines_cons]
    cases readLine begun raw with
    | error e => simp [Reading.failed, Reading.Exceeded]
    | ok step => exact ih (number + 1) step.1

theorem Reading.inlined_exceeded_iff {read : String → Reading} {own : Reading}
    (h : ¬ own.Exceeded) :
    (own.inlined read).Exceeded ↔ (inlineItems read own.items).Exceeded := by
  cases hi : inlineItems read own.items with
  | mk items failure =>
    cases failure with
    | none => simpa [Reading.inlined, hi, Reading.Exceeded] using h
    | some e => simp [Reading.inlined, hi]

variable {openFile : Opener} {path included : String} {limit more : Nat}

theorem scan_exceeded_iff {file : TextFile} (h : openFile path = .ok file) :
    (scan openFile (limit + 1) path).Exceeded ↔
      (inlineItems (scan openFile limit) (readFile path file).items).Exceeded := by
  rw [scan_succ, h]
  exact Reading.inlined_exceeded_iff (readLines_not_exceeded _ _ _ _ _)

theorem scan_eq_of_not_exceeded (h : ¬ (scan openFile limit path).Exceeded) (hle : limit ≤ more) :
    scan openFile more path = scan openFile limit path := by
  induction limit generalizing path more with
  | zero => simp [scan, Reading.failed, Reading.Exceeded] at h
  | succ fewer ih =>
    obtain ⟨many, rfl⟩ : ∃ many, more = many + 1 := ⟨more - 1, by omega⟩
    rw [scan_succ, scan_succ]
    cases ho : openFile path with
    | error e => rfl
    | ok file =>
      rw [scan_exceeded_iff ho] at h
      have hinline : inlineItems (scan openFile many) (readFile path file).items =
          inlineItems (scan openFile fewer) (readFile path file).items :=
        inlineItems_eq_of_not_exceeded h fun included hi => ih hi (by omega)
      simp only [Reading.inlined, hinline]

/-- The outcome of a scan does not depend on the limit, unless this is exceeded. -/
theorem scan_success_or_exceeded (h : (scan openFile more path).failure = none) :
    (scan openFile limit path).failure = none ∨ (scan openFile limit path).Exceeded := by
  by_cases he : (scan openFile limit path).Exceeded
  · exact .inr he
  · have hne : ¬ (scan openFile more path).Exceeded := by simp [Reading.Exceeded, h]
    have hlimit := scan_eq_of_not_exceeded he (Nat.le_max_left limit more)
    have hmore := scan_eq_of_not_exceeded hne (Nat.le_max_right limit more)
    rw [← hlimit, hmore]
    exact .inl h

theorem scan_exceeded_succ_iff :
    (scan openFile (limit + 1) path).Exceeded ↔
      ∃ included, Meets openFile path included ∧ (scan openFile limit included).Exceeded := by
  constructor
  · intro h
    cases ho : openFile path with
    | error e => simp [scan, ho, Reading.failed, Reading.Exceeded] at h
    | ok file =>
      obtain ⟨before, included, after, hitems, hbefore, hincluded⟩ :=
        inlineItems_exceeded ((scan_exceeded_iff ho).mp h)
      exact ⟨included, ⟨file, before, after, ho, hitems, fun earlier he =>
        ⟨limit, hbefore earlier he⟩⟩, hincluded⟩
  · rintro ⟨included, ⟨file, before, after, ho, hitems, hbefore⟩, hincluded⟩
    rw [scan_exceeded_iff ho, hitems]
    refine exceeded_inlineItems (fun earlier he => ?_) hincluded
    obtain ⟨enough, hearlier⟩ := hbefore earlier he
    exact scan_success_or_exceeded hearlier

theorem scan_zero_exceeded : (scan openFile 0 path).Exceeded := ⟨path, rfl⟩

theorem endless_of_successors {P : String → Prop}
    (h : ∀ path, P path → ∃ included, Meets openFile path included ∧ P included) (hp : P path) :
    Endless openFile path := by
  intro limit
  induction limit generalizing path with
  | zero => exact scan_zero_exceeded
  | succ fewer ih =>
    obtain ⟨included, hmeets, hincluded⟩ := h path hp
    exact scan_exceeded_succ_iff.mpr ⟨included, hmeets, ih hincluded⟩

namespace OpenChain
variable {chain outer : List String}

theorem outside (hmeets : Meets openFile path included) (h : OpenChain openFile included chain) :
    OpenChain openFile path (chain ++ [path]) := by
  induction h with
  | start => exact .deeper .start hmeets
  | deeper _ hinner ih => exact ih.deeper hinner

theorem mem_start (h : OpenChain openFile path chain) : path ∈ chain := by
  induction h with
  | start => simp
  | deeper _ _ ih => exact List.mem_cons_of_mem _ ih

theorem of_exceeded (h : (scan openFile limit path).Exceeded) :
    ∃ chain, OpenChain openFile path chain ∧ chain.length = limit + 1 := by
  induction limit generalizing path with
  | zero => exact ⟨[path], .start, rfl⟩
  | succ fewer ih =>
    obtain ⟨included, hmeets, hincluded⟩ := scan_exceeded_succ_iff.mp h
    obtain ⟨chain, hchain, hlength⟩ := ih hincluded
    exact ⟨chain ++ [path], hchain.outside hmeets, by simp [hlength]⟩

theorem meets_inner (h : OpenChain openFile path chain) :
    ∀ opened ∈ chain.tail, ∃ inner ∈ chain, Meets openFile opened inner := by
  induction h with
  | start => simp
  | @deeper inner included outer _ hmeets ih =>
    intro opened ho
    rcases List.mem_cons.mp ho with rfl | ho
    · exact ⟨included, by simp, hmeets⟩
    · obtain ⟨next, hnext, hmeets⟩ := ih opened ho
      exact ⟨next, List.mem_cons_of_mem _ hnext, hmeets⟩

theorem endless_of_repetition (h : OpenChain openFile path (included :: outer))
    (hrepeated : included ∈ outer) : Endless openFile path := by
  have hstart : path ∈ outer := by
    rcases List.mem_cons.mp h.mem_start with rfl | hp
    · exact hrepeated
    · exact hp
  refine endless_of_successors (P := (· ∈ outer)) (fun opened ho => ?_) hstart
  obtain ⟨inner, hinner, hmeets⟩ := h.meets_inner opened ho
  rcases List.mem_cons.mp hinner with rfl | hinner
  · exact ⟨inner, hmeets, hrepeated⟩
  · exact ⟨inner, hmeets, hinner⟩

theorem exists_repetition (h : OpenChain openFile path chain) (hn : ¬ chain.Nodup) :
    ∃ included outer, OpenChain openFile path (included :: outer) ∧ included ∈ outer := by
  induction h with
  | start => simp at hn
  | @deeper inner included outer hchain hmeets ih =>
    by_cases hi : included ∈ inner :: outer
    · exact ⟨included, inner :: outer, hchain.deeper hmeets, hi⟩
    · exact ih fun hnodup => hn (List.nodup_cons.mpr ⟨hi, hnodup⟩)

end OpenChain

theorem readLines_items_eq (path other : String) (tailFault : Option Text.Utf8.Fault)
    (number : Nat) (begun : Option OpenMacro) (lines : List String) :
    (readLines path tailFault number begun lines).items =
      (readLines other tailFault number begun lines).items := by
  induction lines generalizing number begun with
  | nil => rw [readLines_nil, readLines_nil]
  | cons raw rest ih =>
    rw [readLines_cons, readLines_cons]
    cases readLine begun raw with
    | error e => rfl
    | ok step => simp only [Reading.items_prepend, ih]

section FinitelyMany
variable {files : List TextFile}

theorem Meets.mem_inclusionPaths (hfiles : ∀ path file, openFile path = .ok file → file ∈ files)
    (h : Meets openFile path included) : included ∈ inclusionPaths files := by
  obtain ⟨file, before, after, ho, hitems, -⟩ := h
  have hsame : (readFile "" file).items = (readFile path file).items := readLines_items_eq ..
  have hincluded : .inclusion included ∈ (readFile "" file).items := by
    rw [hsame, hitems]
    simp
  rw [inclusionPaths, List.mem_eraseDups, List.mem_flatMap]
  exact ⟨file, hfiles path file ho, Reading.mem_inclusions.mpr hincluded⟩

namespace OpenChain
variable {chain : List String}

theorem eq_append_start (hfiles : ∀ path file, openFile path = .ok file → file ∈ files)
    (h : OpenChain openFile path chain) :
    ∃ inside, chain = inside ++ [path] ∧ inside ⊆ inclusionPaths files := by
  induction h with
  | start => exact ⟨[], rfl, by simp⟩
  | @deeper inner included outer _ hmeets ih =>
    obtain ⟨inside, hchain, hinside⟩ := ih
    refine ⟨included :: inside, by rw [hchain]; rfl, ?_⟩
    exact List.cons_subset.mpr ⟨hmeets.mem_inclusionPaths hfiles, hinside⟩

theorem length_le (hfiles : ∀ path file, openFile path = .ok file → file ∈ files)
    (h : OpenChain openFile path chain) (hn : chain.Nodup) :
    chain.length ≤ (inclusionPaths files).length + 1 := by
  obtain ⟨inside, rfl, hinside⟩ := h.eq_append_start hfiles
  have hnodup : inside.Nodup := (List.nodup_append.mp hn).1
  have hlength := hnodup.length_le_of_subset hinside
  simpa using hlength

end OpenChain

/-- Beyond the number of inclusion paths, only a chain with a repetition exceeds a limit. -/
theorem exists_repetition_of_exceeded
    (hfiles : ∀ path file, openFile path = .ok file → file ∈ files)
    (hlimit : (inclusionPaths files).length + 1 ≤ limit)
    (h : (scan openFile limit path).Exceeded) :
    ∃ included outer, OpenChain openFile path (included :: outer) ∧ included ∈ outer := by
  obtain ⟨chain, hchain, hlength⟩ := OpenChain.of_exceeded h
  refine hchain.exists_repetition fun hn => ?_
  have := hchain.length_le hfiles hn
  omega

theorem scan_settled (hfiles : ∀ path file, openFile path = .ok file → file ∈ files)
    (hlimit : (inclusionPaths files).length + 1 ≤ limit) (hle : limit ≤ more) :
    (Endless openFile path ∧ (scan openFile limit path).Exceeded ∧
      (scan openFile more path).Exceeded) ∨
    (¬ Endless openFile path ∧ ¬ (scan openFile limit path).Exceeded ∧
      scan openFile more path = scan openFile limit path) := by
  by_cases he : (scan openFile limit path).Exceeded
  · obtain ⟨included, outer, hchain, hrepeated⟩ := exists_repetition_of_exceeded hfiles hlimit he
    have hendless := hchain.endless_of_repetition hrepeated
    exact .inl ⟨hendless, he, hendless more⟩
  · exact .inr ⟨fun hendless => he (hendless limit), he, scan_eq_of_not_exceeded he hle⟩

end FinitelyMany

/-- The limit for the files of a store is exceeded only by scans without end. -/
theorem Store.scan_settled {s : Store} (hle : nestingLimit s.textFiles ≤ more) :
    (Endless s.opener path ∧ (s.scan path).Exceeded ∧
      (CommandFile.scan s.opener more path).Exceeded) ∨
    (¬ Endless s.opener path ∧ ¬ (s.scan path).Exceeded ∧
      CommandFile.scan s.opener more path = s.scan path) :=
  CommandFile.scan_settled (fun _ _ => mem_textFiles) (Nat.le_succ _) hle

/-- A scan has no end if and only if it comes to an inclusion of a file that is still open. A scan
that ends has no more files open at a time than there are inclusion paths, and the first file; any
limit that allows so many gives what every larger limit gives. -/
theorem endless_iff_meets_open_file (openFile : Opener) (files : List TextFile) (path : String)
    (hfiles : ∀ path file, openFile path = .ok file → file ∈ files) :
    (Endless openFile path ↔
      ∃ included outer, OpenChain openFile path (included :: outer) ∧ included ∈ outer) ∧
    (¬ Endless openFile path → ∀ chain, OpenChain openFile path chain →
      chain.length ≤ (inclusionPaths files).length + 1) ∧
    (∀ limit more, (inclusionPaths files).length + 1 ≤ limit → limit ≤ more →
      (Endless openFile path ∧ (scan openFile limit path).Exceeded ∧
        (scan openFile more path).Exceeded) ∨
      (¬ Endless openFile path ∧ ¬ (scan openFile limit path).Exceeded ∧
        scan openFile more path = scan openFile limit path)) := by
  refine ⟨⟨fun h => exists_repetition_of_exceeded hfiles (Nat.le_refl _) (h _), ?_⟩, ?_,
    fun limit more => scan_settled hfiles⟩
  · rintro ⟨included, outer, hchain, hrepeated⟩
    exact hchain.endless_of_repetition hrepeated
  · intro hends chain hchain
    refine hchain.length_le hfiles (Classical.not_not.mp fun hn => hends ?_)
    obtain ⟨included, outer, hrepeating, hrepeated⟩ := hchain.exists_repetition hn
    exact hrepeating.endless_of_repetition hrepeated

def nestedFiles : Opener
  | "main" => .ok ⟨["INCLUDE part", "LONG MACRO M", "INCLUDE main", "END MACRO", "INCLUDE part"],
      none⟩
  | "part" => .ok ⟨["run M()"], none⟩
  | "ring" => .ok ⟨["INCLUDE main", "INCLUDE back"], none⟩
  | "back" => .ok ⟨["MACRO A = b", "INCLUDE ring"], none⟩
  | path => .error (.file (.refused .notFound path))

def nestedTexts : List TextFile :=
  ["main", "part", "ring", "back"].filterMap fun path => (nestedFiles path).toOption

theorem nestedFiles_main_ends_ring_endless :
    ¬ Endless nestedFiles "main" ∧ Endless nestedFiles "ring" ∧
    (∀ chain, OpenChain nestedFiles "main" chain → chain.length ≤ 5) ∧
    ∀ more, 5 ≤ more → scan nestedFiles more "main" = scan nestedFiles 5 "main" := by
  have hfiles : ∀ path file, nestedFiles path = .ok file → file ∈ nestedTexts := by
    intro path file h
    unfold nestedFiles at h
    split at h <;> cases h <;> simp [nestedTexts, nestedFiles, Except.toOption]
  have hcount : (inclusionPaths nestedTexts).length = 4 := by decide +kernel
  have hmain : (scan nestedFiles 2 "main").failure = none := by decide +kernel
  have hback : Meets nestedFiles "ring" "back" := by
    refine ⟨_, [.inclusion "main"], [], rfl, by decide +kernel, fun earlier he => ⟨2, ?_⟩⟩
    cases List.mem_singleton.mp he
    exact hmain
  have hring : Meets nestedFiles "back" "ring" :=
    ⟨_, [.shortMacro "A" ["b"]], [], rfl, by decide +kernel, by simp⟩
  have hends : ¬ Endless nestedFiles "main" := by
    intro h
    obtain ⟨path, hp⟩ := h 2
    simp [hmain] at hp
  obtain ⟨-, hdepth, hsettled⟩ := endless_iff_meets_open_file nestedFiles nestedTexts "main" hfiles
  obtain ⟨hring_iff, -⟩ := endless_iff_meets_open_file nestedFiles nestedTexts "ring" hfiles
  rw [hcount] at hdepth hsettled
  refine ⟨hends, hring_iff.mpr ⟨"ring", _, (OpenChain.start.deeper hback).deeper hring, by simp⟩,
    hdepth hends, fun more hmore => ?_⟩
  obtain ⟨hendless, -⟩ | ⟨-, -, hsame⟩ := hsettled 5 more (Nat.le_refl _) hmore
  · exact absurd hendless hends
  · exact hsame

end CommandFile
