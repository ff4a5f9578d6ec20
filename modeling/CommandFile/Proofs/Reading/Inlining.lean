import CommandFile.Proofs.Reading.Walk
set_option autoImplicit false

/-!
Inclusion is inlining. The flat lines of a file have the flat lines of the included files in place
of the inclusions, and reading them comes to the same context as a scan, which opens the files in
preorder. A line inside a long macro is never an inclusion, so that the lines of a file alone tell
where the others go.
-/
namespace CommandFile

def lineKind? (raw : String) : Option LineKind :=
  if isContent (Text.strip raw) then
    match tokenize (Text.strip raw) with
    | .ok tokens => some (classify tokens)
    | .error _ => none
  else none

def LineKind.begun? : LineKind → Option OpenMacro
  | .longMacro name => some ⟨name, []⟩
  | _ => none

section Kinds
variable {begun next : Option OpenMacro} {raw : String}

theorem lineKind?_eq_some {kind : LineKind} : lineKind? raw = some kind ↔
    isContent (Text.strip raw) = true ∧
      ∃ tokens, tokenize (Text.strip raw) = .ok tokens ∧ classify tokens = kind := by
  by_cases hcontent : isContent (Text.strip raw) = true
  · cases ht : tokenize (Text.strip raw) <;> simp [lineKind?, hcontent, ht]
  · simp [lineKind?, hcontent]

theorem readLine_of_lineKind {kind : LineKind} (h : lineKind? raw = some kind) :
    readLine none raw = .ok (kind.begun?, kind.item?) := by
  obtain ⟨hcontent, tokens, ht, rfl⟩ := lineKind?_eq_some.mp h
  simp only [readLine, hcontent, if_true, ht, Except.map]
  cases classify tokens <;> rfl

theorem lineKind?_of_inclusion {included : String}
    (h : readLine begun raw = .ok (next, some (.inclusion included))) :
    lineKind? raw = some (.inclusion included) := by
  cases lineRead_of_readLine h with
  | @completed tokens _ hcontent ht hc =>
    refine lineKind?_eq_some.mpr ⟨hcontent, tokens, ht, ?_⟩
    cases hk : classify tokens <;> rw [hk] at hc <;> cases hc
    rfl

end Kinds

inductive Piece where
  | line (raw : String)
  | inclusion (path : String)
  deriving DecidableEq

def Piece.path? : Piece → Option String
  | .line _ => none
  | .inclusion path => some path

def Piece.lines (flat : String → List String) : Piece → List String
  | .line raw => [raw]
  | .inclusion path => flat path

/-- The lines of a file, with the inclusions among them found. Lines inside of long macros are kept
up to the one that ends it. -/
def pieces (inside : Bool) : List String → List Piece
  | [] => []
  | raw :: rest =>
    if inside then .line raw :: pieces (Text.strip raw != endMacro) rest
    else match lineKind? raw with
      | some (.inclusion path) => .inclusion path :: pieces false rest
      | some (.longMacro _) => .line raw :: pieces true rest
      | _ => .line raw :: pieces false rest

def flatLines (openFile : Opener) : Nat → String → List String
  | 0, _ => []
  | limit + 1, path =>
    match openFile path with
    | .error _ => []
    | .ok file => (pieces false file.lines).flatMap (Piece.lines (flatLines openFile limit))

/-- A file and the files that it includes, depth first, once for each inclusion. -/
def preorder (openFile : Opener) : Nat → String → List String
  | 0, path => [path]
  | limit + 1, path =>
    match openFile path with
    | .error _ => [path]
    | .ok file =>
      path :: ((pieces false file.lines).filterMap Piece.path?).flatMap (preorder openFile limit)

def Piece.ofItem (raw : String) (item : Option Item) : Piece :=
  match item.bind Item.includedPath? with
  | some path => .inclusion path
  | none => .line raw

theorem pieces_cons_of_readLine {begun next : Option OpenMacro} {raw : String} {item : Option Item}
    (h : readLine begun raw = .ok (next, item)) (rest : List String) :
    pieces begun.isSome (raw :: rest) = Piece.ofItem raw item :: pieces next.isSome rest := by
  cases lineRead_of_readLine h with
  | skipped begun hblank =>
    have hkind : lineKind? raw = none := by simp [lineKind?, hblank]
    have hend : (Text.strip raw != endMacro) = true :=
      bne_iff_ne.mpr (ne_endMacro_of_skipped hblank)
    cases begun <;> simp [pieces, Piece.ofItem, hkind, hend]
  | ended m hend => simp [pieces, Piece.ofItem, Item.includedPath?, hend]
  | kept m hend hcontent ht =>
    have hinside : (Text.strip raw != endMacro) = true := by simpa using hend
    simp [pieces, Piece.ofItem, hinside]
  | begun hcontent ht hc => simp [pieces, Piece.ofItem, lineKind?, hcontent, ht, hc]
  | @completed tokens item hcontent ht hc =>
    have hkind : lineKind? raw = some (classify tokens) := by simp [lineKind?, hcontent, ht]
    cases hk : classify tokens with
    | longMacro name => simp [hk, LineKind.item?] at hc
    | shortMacro | inclusion | command =>
      rw [hk] at hc
      cases hc
      simp [pieces, Piece.ofItem, Item.includedPath?, hkind, hk]

theorem readLine_inclusion {begun next : Option OpenMacro} {raw path : String}
    (h : readLine begun raw = .ok (next, some (.inclusion path))) : begun = none ∧ next = none := by
  cases lineRead_of_readLine h
  exact ⟨rfl, rfl⟩

def effective (items : List Item) : List Item := items.filter fun item => item.includedPath?.isNone

@[simp] theorem effective_append (as bs : List Item) :
    effective (as ++ bs) = effective as ++ effective bs := List.filter_append ..

@[simp] theorem effective_inclusion_cons (path : String) (items : List Item) :
    effective (.inclusion path :: items) = effective items := rfl

theorem effective_cons_of_ne {item : Item} (h : item.includedPath? = none) (items : List Item) :
    effective (item :: items) = item :: effective items := by
  simp [effective, h]

theorem inclusions_effective (items : List Item) :
    (effective items).filterMap Item.includedPath? = [] := by
  refine List.filterMap_eq_nil_iff.mpr fun item hmem => ?_
  simpa using (List.mem_filter.mp hmem).2

theorem Context.store_effective (c : Context) (items : List Item) :
    c.store (effective items) = c.store items := by
  induction items generalizing c with
  | nil => rfl
  | cons item rest ih =>
    obtain ⟨path, rfl⟩ | hitem := item.inclusion_or
    · exact ih c
    · rw [effective_cons_of_ne hitem, store_cons, ih, ← store_cons]

theorem inlineItems_effective (read : String → Reading) (items : List Item) :
    inlineItems read (effective items) = ⟨effective items, none⟩ := by
  induction items with
  | nil => rfl
  | cons item rest ih =>
    obtain ⟨path, rfl⟩ | hitem := item.inclusion_or
    · exact ih
    · rw [effective_cons_of_ne hitem, inlineItems_cons hitem, ih]
      rfl

/-- The lines are read as the items and leave no long macro open, wherever they stand. -/
def ReadAs (begun : Option OpenMacro) (lines : List String) (items : List Item) : Prop :=
  ∀ path number rest, readLines path none number begun (lines ++ rest) =
    (readLines path none (number + lines.length) none rest).prepend items

namespace ReadAs

variable {begun next : Option OpenMacro} {item : Option Item} {raw : String}
  {lines more : List String} {items moreItems : List Item}

theorem nil : ReadAs none [] [] := fun _ _ _ => rfl

theorem cons (hl : readLine begun raw = .ok (next, item)) (h : ReadAs next lines items) :
    ReadAs begun (raw :: lines) (item.toList ++ items) := by
  intro path number rest
  rw [List.cons_append, readLines_cons, hl]
  simp only [h path (number + 1) rest, Reading.prepend_prepend, List.length_cons]
  rw [show number + 1 + lines.length = number + (lines.length + 1) by omega]

theorem append (h : ReadAs begun lines items) (hmore : ReadAs none more moreItems) :
    ReadAs begun (lines ++ more) (items ++ moreItems) := by
  intro path number rest
  rw [List.append_assoc, h, hmore, Reading.prepend_prepend, List.length_append, Nat.add_assoc]

theorem readFile_eq (h : ReadAs none lines items) (path : String) :
    readFile path ⟨lines, none⟩ = ⟨items, none⟩ := by
  have := h path 1 []
  rw [List.append_nil] at this
  simpa [readFile, endOfLines, Reading.prepend] using this

end ReadAs

/-- Flat lines are read as the items of the lines with the inclusions inlined, if those of each
included file are. -/
theorem readAs_flat {path : String} {tailFault : Option Text.Utf8.Fault} {number : Nat}
    {begun : Option OpenMacro} {lines : List String} {flat : String → List String}
    {read : String → Reading}
    (h : (readLines path tailFault number begun lines).failure = none)
    (hincluded : ∀ included,
      .inclusion included ∈ (readLines path tailFault number begun lines).items →
        ReadAs none (flat included) (effective (read included).items)) :
    ReadAs begun ((pieces begun.isSome lines).flatMap (Piece.lines flat))
      (effective ((readLines path tailFault number begun lines).items.flatMap
        (Item.inlined read))) := by
  induction lines generalizing number begun with
  | nil =>
    rw [readLines_nil] at h ⊢
    obtain ⟨rfl, rfl⟩ := endOfLines_success h
    exact .nil
  | cons raw rest ih =>
    obtain ⟨next, item, hl, hrest, hitems⟩ := readLines_cons_success h
    rw [hitems] at hincluded ⊢
    have htail := ih hrest fun included hi => hincluded included (List.mem_append_right _ hi)
    rw [pieces_cons_of_readLine hl, List.flatMap_cons, List.flatMap_append, effective_append]
    cases item with
    | none => exact htail.cons hl
    | some item =>
      obtain ⟨included, rfl⟩ | hitem := item.inclusion_or
      · -- No long macro is open, so the lines of the included file are read as in a file of theirs.
        obtain ⟨rfl, rfl⟩ := readLine_inclusion hl
        have hhead := hincluded included (List.mem_append_left _ (by simp))
        simpa [Item.inlined_inclusion, Piece.ofItem, Item.includedPath?, Piece.lines]
          using hhead.append htail
      · simpa [Item.inlined_of_ne hitem, Piece.ofItem, hitem, Piece.lines, effective]
          using htail.cons hl

theorem filterMap_pieces {path : String} {tailFault : Option Text.Utf8.Fault} {number : Nat}
    {begun : Option OpenMacro} {lines : List String}
    (h : (readLines path tailFault number begun lines).failure = none) :
    (pieces begun.isSome lines).filterMap Piece.path? =
      (readLines path tailFault number begun lines).inclusions := by
  induction lines generalizing number begun with
  | nil =>
    rw [readLines_nil] at h ⊢
    obtain ⟨rfl, rfl⟩ := endOfLines_success h
    rfl
  | cons raw rest ih =>
    obtain ⟨next, item, hl, hrest, hitems⟩ := readLines_cons_success h
    rw [pieces_cons_of_readLine hl, Reading.inclusions, hitems, List.filterMap_append,
      List.filterMap_cons, ih hrest]
    cases item with
    | none => rfl
    | some item =>
      obtain ⟨included, rfl⟩ | hitem := item.inclusion_or
      · rfl
      · simp [Piece.ofItem, hitem, Piece.path?, Reading.inclusions]

theorem filterMap_inlined (read : String → Reading) (items : List Item) :
    (items.flatMap (Item.inlined read)).filterMap Item.includedPath? =
      (items.filterMap Item.includedPath?).flatMap fun path => openedPaths path (read path) := by
  induction items with
  | nil => rfl
  | cons item rest ih =>
    rw [List.flatMap_cons, List.filterMap_append, ih]
    obtain ⟨path, rfl⟩ | hitem := item.inclusion_or
    · simp [Item.inlined_inclusion, Item.includedPath?, openedPaths, Reading.inclusions]
    · simp [Item.inlined_of_ne hitem, hitem]

variable {openFile : Opener} {limit more : Nat} {path : String}

theorem scan_success_pieces (h : (scan openFile limit path).failure = none) :
    ∃ fewer file, limit = fewer + 1 ∧ openFile path = .ok file ∧
      ∀ included ∈ (pieces false file.lines).filterMap Piece.path?,
        (scan openFile fewer included).failure = none := by
  obtain ⟨fewer, file, hlimit, ho, hown, hincluded, -⟩ := scan_success h
  refine ⟨fewer, file, hlimit, ho, fun included hi => hincluded included ?_⟩
  exact Reading.mem_inclusions.mp (filterMap_pieces hown ▸ hi)

theorem readAs_flatLines (h : (scan openFile limit path).failure = none) :
    ReadAs none (flatLines openFile limit path) (effective (scan openFile limit path).items) := by
  induction limit generalizing path with
  | zero => simp [scan, Reading.failed] at h
  | succ fewer ih =>
    obtain ⟨_, file, hlimit, ho, hown, hincluded, hitems⟩ := scan_success h
    cases hlimit
    rw [hitems]
    simp only [flatLines, ho]
    exact readAs_flat hown fun included hi => ih (hincluded included hi)

theorem openedPaths_eq_preorder (h : (scan openFile limit path).failure = none) :
    openedPaths path (scan openFile limit path) = preorder openFile limit path := by
  induction limit generalizing path with
  | zero => simp [scan, Reading.failed] at h
  | succ fewer ih =>
    obtain ⟨_, file, hlimit, ho, hown, hincluded, hitems⟩ := scan_success h
    cases hlimit
    have hpieces : (pieces false file.lines).filterMap Piece.path? =
        (readFile path file).inclusions := filterMap_pieces hown
    simp only [preorder, ho, hpieces, openedPaths, Reading.inclusions, hitems, filterMap_inlined]
    congr 1
    exact List.flatMap_congr fun included hi =>
      ih (hincluded included (Reading.mem_inclusions.mp hi))

theorem flatLines_eq_of_le (h : (scan openFile limit path).failure = none) (hle : limit ≤ more) :
    flatLines openFile more path = flatLines openFile limit path := by
  induction limit generalizing path more with
  | zero => simp [scan, Reading.failed] at h
  | succ fewer ih =>
    obtain ⟨_, file, hlimit, ho, hincluded⟩ := scan_success_pieces h
    cases hlimit
    obtain ⟨many, rfl⟩ : ∃ many, more = many + 1 := ⟨more - 1, by omega⟩
    simp only [flatLines, ho]
    refine List.flatMap_congr fun piece hp => ?_
    cases piece with
    | line raw => rfl
    | inclusion included =>
      exact ih (hincluded included (List.mem_filterMap.mpr ⟨_, hp, rfl⟩)) (by omega)

theorem preorder_eq_of_le (h : (scan openFile limit path).failure = none) (hle : limit ≤ more) :
    preorder openFile more path = preorder openFile limit path := by
  induction limit generalizing path more with
  | zero => simp [scan, Reading.failed] at h
  | succ fewer ih =>
    obtain ⟨_, file, hlimit, ho, hincluded⟩ := scan_success_pieces h
    cases hlimit
    obtain ⟨many, rfl⟩ : ∃ many, more = many + 1 := ⟨more - 1, by omega⟩
    simp only [preorder, ho]
    congr 1
    exact List.flatMap_congr fun included hi => ih (hincluded included hi) (by omega)

theorem scan_of_flatLines {other : Opener} {name : String}
    (h : (scan openFile limit path).failure = none)
    (hother : other name = .ok ⟨flatLines openFile limit path, none⟩) (k : Nat) :
    scan other (k + 1) name = ⟨effective (scan openFile limit path).items, none⟩ := by
  rw [scan, hother]
  simp only [(readAs_flatLines h).readFile_eq name, inlineItems_effective]

/-- A scan that succeeds has the effect of a single file, in which all inclusions are inlined. The
files that it opens are those of the preorder of inclusions, one opening for each, and the walk over
a shared context opens them in this order. -/
theorem scan_eq_scan_flatLines (openFile : Opener) (limit : Nat) (path : String) (c : Context)
    (h : (scan openFile limit path).failure = none) :
    (∀ (other : Opener) (name : String) (k : Nat),
      other name = .ok ⟨flatLines openFile limit path, none⟩ →
        (scan other (k + 1) name).failure = none ∧
        openedPaths name (scan other (k + 1) name) = [name] ∧
        c.store (scan other (k + 1) name).items = c.store (scan openFile limit path).items) ∧
    openedPaths path (scan openFile limit path) = preorder openFile limit path ∧
    (∀ opened, walk openFile limit path ⟨c, opened⟩ =
      (⟨c.store (scan openFile limit path).items, opened ++ preorder openFile limit path⟩, none)) ∧
    ∀ more, limit ≤ more →
      flatLines openFile more path = flatLines openFile limit path ∧
      preorder openFile more path = preorder openFile limit path := by
  have hopened := openedPaths_eq_preorder h
  refine ⟨fun other name k hother => ?_, hopened, fun opened => ?_, fun more hle =>
    ⟨flatLines_eq_of_le h hle, preorder_eq_of_le h hle⟩⟩
  · rw [scan_of_flatLines h hother]
    exact ⟨rfl, congrArg (name :: ·) (inclusions_effective _), c.store_effective _⟩
  · rw [walk_eq, ← hopened]
    simp [Walk.after, Walk.opening, openedPaths, h]

def layeredFiles : Opener
  | "main" => .ok ⟨["MACRO A = one", "INCLUDE shared", "LONG MACRO B", "INCLUDE shared",
      "END MACRO", "INCLUDE middle", "A() B()"], none⟩
  | "middle" => .ok ⟨["# once more", "INCLUDE shared", "MACRO A = two"], none⟩
  | "shared" => .ok ⟨["MACRO A = three", "run A()"], none⟩
  | path => .error (.file (.refused .notFound path))

def layeredLines : List String :=
  ["MACRO A = one", "MACRO A = three", "run A()", "LONG MACRO B", "INCLUDE shared", "END MACRO",
    "# once more", "MACRO A = three", "run A()", "MACRO A = two", "A() B()"]

theorem scan_layeredFiles :
    (scan layeredFiles 3 "main").failure = none ∧
    flatLines layeredFiles 3 "main" = layeredLines ∧
    openedPaths "main" (scan layeredFiles 3 "main") = ["main", "shared", "middle", "shared"] ∧
    Context.empty.store (scan (fun _ => .ok ⟨layeredLines, none⟩) 1 "flat").items =
      Context.empty.store (scan layeredFiles 3 "main").items := by
  have hscan : (scan layeredFiles 3 "main").failure = none := by decide +kernel
  have hflat : flatLines layeredFiles 3 "main" = layeredLines := by decide +kernel
  have hpreorder : preorder layeredFiles 3 "main" = ["main", "shared", "middle", "shared"] := by
    decide +kernel
  obtain ⟨hsame, hopened, -⟩ := scan_eq_scan_flatLines layeredFiles 3 "main" .empty hscan
  rw [hflat] at hsame
  exact ⟨hscan, hflat, hopened.trans hpreorder, (hsame _ "flat" 0 rfl).2.2⟩

end CommandFile
