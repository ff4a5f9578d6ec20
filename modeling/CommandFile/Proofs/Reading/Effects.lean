import CommandFile.Item
set_option autoImplicit false

namespace CommandFile

def Context.storeItem (c : Context) : Item → Context
  | .shortMacro name replacement => c.defineShort name replacement
  | .longMacro name body => c.defineLong name body
  | .inclusion _ => c
  | .command tokens => c.addLine tokens

theorem Context.store_eq_foldl (c : Context) (items : List Item) :
    c.store items = items.foldl storeItem c := by
  induction items generalizing c with
  | nil => simp
  | cons item rest ih =>
    have hfirst : c.store [item] = c.storeItem item := by
      cases item with
      | inclusion path => exact c.store_nil
      | shortMacro | longMacro | command =>
        simp [store, storeItem, Item.defineIn, Item.pendingLine?, defineShort, defineLong, addLine]
    rw [List.foldl_cons, ← ih, ← hfirst]
    exact c.store_append [item] rest

namespace Table
variable {α : Type}

def defineAll (t : Table α) (definitions : List (String × α)) : Table α :=
  definitions.foldl (fun t definition => t.define definition.1 definition.2) t

theorem find?_defineAll (t : Table α) (definitions : List (String × α)) (name : String) :
    (t.defineAll definitions).find? name =
      (definitions.reverse.lookup name).or (t.find? name) := by
  induction definitions generalizing t with
  | nil => rfl
  | cons definition rest ih =>
    obtain ⟨other, value⟩ := definition
    have hrest : (t.defineAll ((other, value) :: rest)).find? name =
        (rest.reverse.lookup name).or ((t.define other value).find? name) := ih _
    have hlast : (t.define other value).find? name =
        ([(other, value)].lookup name).or (t.find? name) := by
      by_cases h : name = other
      · simp [h]
      · have h' : (name == other) = false := by simpa using h
        simp [find?_define_of_ne t h, List.lookup_cons, h']
    rw [hrest, hlast, List.reverse_cons, List.lookup_append, Option.or_assoc]

end Table

def Item.shortDefinition? : Item → Option (String × List String)
  | .shortMacro name replacement => some (name, replacement)
  | _ => none

def Item.longDefinition? : Item → Option (String × List (List String))
  | .longMacro name body => some (name, body)
  | _ => none

theorem mem_pendingLines {items : List Item} {line : PendingLine} :
    line ∈ items.filterMap Item.pendingLine? ↔
      line.dirty = true ∧ .command line.tokens ∈ items := by
  rw [List.mem_filterMap]
  constructor
  · rintro ⟨item, hitem, hline⟩
    cases item <;> cases hline
    exact ⟨rfl, hitem⟩
  · rintro ⟨hdirty, hitem⟩
    refine ⟨_, hitem, ?_⟩
    rw [Item.pendingLine?, ← hdirty]

def lastShort? (items : List Item) (name : String) : Option (List String) :=
  (items.filterMap Item.shortDefinition?).reverse.lookup name

def lastLong? (items : List Item) (name : String) : Option (List (List String)) :=
  (items.filterMap Item.longDefinition?).reverse.lookup name

theorem foldl_defineIn (m : Macros) (items : List Item) :
    items.foldl Item.defineIn m =
      ⟨m.short.defineAll (items.filterMap Item.shortDefinition?),
        m.long.defineAll (items.filterMap Item.longDefinition?)⟩ := by
  induction items generalizing m with
  | nil => rfl
  | cons item rest ih =>
    rw [List.foldl_cons, ih]
    cases item <;> rfl

theorem Context.find?_short_store (c : Context) (items : List Item) (name : String) :
    (c.store items).macros.short.find? name =
      (lastShort? items name).or (c.macros.short.find? name) := by
  simp only [store, foldl_defineIn, Table.find?_defineAll, lastShort?]

theorem Context.find?_long_store (c : Context) (items : List Item) (name : String) :
    (c.store items).macros.long.find? name =
      (lastLong? items name).or (c.macros.long.find? name) := by
  simp only [store, foldl_defineIn, Table.find?_defineAll, lastLong?]

end CommandFile
