import EffectGraph.Proofs.Value.Parts
import EffectGraph.Catalog.Show

/-!
# What is shown and what is displayed

A value becomes a text in two ways. `Value.display` knows what every part of it looks like, and
`Catalog.Formatters.format` asks for each part who formats its shape. Both go through lists and records,
and the leaves are what they may differ in.

So what is shown is what is displayed of another value, one with the same lists and records and with the
formatted leaves in the place of the leaves (`Catalog.Formatters.format_eq_display`). The default formatters
differ from the display in unit alone, and formatters that are registered for other shapes than lists and
records reach the leaves at any depth (`Catalog.Formatters.shows_as_displayed`).
-/

namespace EffectGraph

namespace Value

/-- The value is neither a list nor a record. -/
def IsLeaf (value : Value) : Prop := value.shape ≠ .list ∧ value.shape ≠ .record

mutual

/-- The value with its leaves replaced, at any depth of lists and records. -/
def mapLeaves (f : Value → Value) : Value → Value
  | .list items => .list (mapLeavesOfItems f items)
  | .record fields => .record (mapLeavesOfFields f fields)
  | leaf => f leaf

/-- The items of a list with their leaves replaced. -/
def mapLeavesOfItems (f : Value → Value) : List Value → List Value
  | [] => []
  | item :: rest => item.mapLeaves f :: mapLeavesOfItems f rest

/-- The fields of a record with their leaves replaced, under the same keys. -/
def mapLeavesOfFields (f : Value → Value) : List (String × Value) → List (String × Value)
  | [] => []
  | (key, value) :: rest => (key, value.mapLeaves f) :: mapLeavesOfFields f rest

end

variable {f : Value → Value}

theorem mapLeavesOfItems_eq_map (items : List Value) :
    mapLeavesOfItems f items = items.map (mapLeaves f) := by
  induction items with
  | nil => rfl
  | cons item rest ih => rw [mapLeavesOfItems, ih, List.map_cons]

theorem mapLeavesOfFields_eq_map (fields : List (String × Value)) :
    mapLeavesOfFields f fields = fields.map fun field => (field.1, field.2.mapLeaves f) := by
  induction fields with
  | nil => rfl
  | cons field rest ih => rw [mapLeavesOfFields, ih, List.map_cons]

theorem display_mapLeaves_list (items : List Value) : (mapLeaves f (.list items)).display =
    "[" ++ ", ".intercalate (items.map fun item => (item.mapLeaves f).display) ++ "]" := by
  rw [mapLeaves, display, displayItems_eq_map, mapLeavesOfItems_eq_map, List.map_map]
  rfl

theorem display_mapLeaves_record (fields : List (String × Value)) :
    (mapLeaves f (.record fields)).display = "\x7b" ++ ", ".intercalate
      (fields.map fun field => field.1 ++ ": " ++ (field.2.mapLeaves f).display) ++ "\x7d" := by
  rw [mapLeaves, display, displayFields_eq_map, mapLeavesOfFields_eq_map, List.map_map]
  rfl

end Value

namespace Catalog.Formatters

variable {formatters : Formatters}

/-! ## Parts -/

theorem formatItems_eq (items : List Value) : formatters.formatItems items =
    (items.map fun item => (formatters.format item).1,
      items.flatMap fun item => (formatters.format item).2) := by
  induction items with
  | nil => rfl
  | cons item rest ih => rw [formatItems, ih, List.map_cons, List.flatMap_cons]

theorem formatFields_eq (fields : List (String × Value)) : formatters.formatFields fields =
    (fields.map fun field => field.1 ++ ": " ++ (formatters.format field.2).1,
      fields.flatMap fun field => (formatters.format field.2).2) := by
  induction fields with
  | nil => rfl
  | cons field rest ih => rw [formatFields, ih, List.map_cons, List.flatMap_cons]

/-- A leaf is left to the function that is registered for its shape, and to the display if there is none. -/
theorem format_leaf {leaf : Value} (h : leaf.IsLeaf) : (formatters.format leaf).1 =
    match formatters.get? leaf.shape with
    | some (.custom f) => f leaf
    | _ => leaf.display := by
  rw [format]
  · split
    · rename_i hnone
      rw [hnone]
      rfl
    · rename_i hcustom
      rw [hcustom]
    · rename_i hnested
      rw [hnested]
  · exact fun items heq => h.1 (heq ▸ rfl)
  · exact fun fields heq => h.2 (heq ▸ rfl)

/-- **What is shown is displayed.** Formatters that show lists and records by what is in them show a value as
the display does the value with other leaves, if they show each leaf as the display does the other one. -/
theorem format_eq_display (hlist : formatters.get? .list = some .nested)
    (hrecord : formatters.get? .record = some .nested) {f : Value → Value}
    (hleaf : ∀ leaf : Value, leaf.IsLeaf → (formatters.format leaf).1 = (f leaf).display)
    (value : Value) : (formatters.format value).1 = (value.mapLeaves f).display := by
  induction value using Value.induction_on_parts with
  -- The texts of the parts are the same, and both put the same around them.
  | list items ih =>
    rw [Value.display_mapLeaves_list, ← List.map_congr_left ih, format]
    simp only [Value.shape, hlist, formatItems_eq]
  | record fields ih =>
    have htexts : (fields.map fun field => field.1 ++ ": " ++ (formatters.format field.2).1) =
        fields.map fun field => field.1 ++ ": " ++ (field.2.mapLeaves f).display :=
      List.map_congr_left fun field hfield => by rw [ih field hfield]
    rw [Value.display_mapLeaves_record, ← htexts, format]
    simp only [Value.shape, hrecord, formatFields_eq]
  | _ => exact hleaf _ ⟨nofun, nofun⟩

/-! ## Registered functions -/

/-- The formatters with functions registered for some shapes, one after the other. -/
def registerAll (formatters : Formatters) (changes : List (Shape × (Value → String))) : Formatters :=
  changes.foldl (fun all change => all.register change.1 (.custom change.2)) formatters

/-- The function that is registered for a shape: the last one counts. -/
def registered? (changes : List (Shape × (Value → String))) (shape : Shape) :
    Option (Value → String) :=
  (changes.reverse.find? (·.1 = shape)).map (·.2)

/-- What stands for a leaf when it is displayed instead of shown: nothing for unit. -/
def blanked : Value → Value
  | .unit => .text ""
  | leaf => leaf

/-- What stands for a leaf when functions are registered: the text that the function for its shape gives. -/
def reworded (changes : List (Shape × (Value → String))) (leaf : Value) : Value :=
  match registered? changes leaf.shape with
  | some f => .text (f leaf)
  | none => blanked leaf

theorem get?_registerAll (changes : List (Shape × (Value → String))) (shape : Shape) :
    (formatters.registerAll changes).get? shape =
      ((registered? changes shape).map .custom).or (formatters.get? shape) := by
  induction changes generalizing formatters with
  | nil => rfl
  | cons change rest ih =>
    have hall : formatters.registerAll (change :: rest) =
        (formatters.register change.1 (.custom change.2)).registerAll rest := rfl
    -- What is registered first is found last.
    rw [hall, ih, get?_register, registered?, registered?, List.reverse_cons, List.find?_append]
    cases hfound : rest.reverse.find? (·.1 = shape) with
    | some found => rfl
    | none =>
      by_cases h : shape = change.1
      · simp [h]
      · simp [h, Ne.symm h]

/-- Functions for other shapes leave the formatter of a shape. -/
theorem get?_registerAll_of_ne {changes : List (Shape × (Value → String))} {shape : Shape}
    (h : ∀ change ∈ changes, change.1 ≠ shape) :
    (formatters.registerAll changes).get? shape = formatters.get? shape := by
  have hnone : changes.reverse.find? (·.1 = shape) = none := by
    rw [List.find?_eq_none]
    intro change hchange
    simpa using h change (List.mem_reverse.1 hchange)
  rw [get?_registerAll, registered?, hnone]
  rfl

/-- The default formatters show a leaf as it is displayed, except for unit. -/
theorem format_default_leaf {leaf : Value} (h : leaf.IsLeaf) :
    (default.format leaf).1 = (blanked leaf).display := by
  rw [format_leaf h]
  cases leaf with
  | list items => exact absurd rfl h.1
  | record fields => exact absurd rfl h.2
  | _ => rfl

/-- A leaf is shown by the function that is registered for its shape, and by default if there is none. -/
theorem format_registerAll_leaf (changes : List (Shape × (Value → String))) {leaf : Value}
    (h : leaf.IsLeaf) :
    ((default.registerAll changes).format leaf).1 = (reworded changes leaf).display := by
  rw [format_leaf h, get?_registerAll, reworded]
  cases registered? changes leaf.shape with
  | some f => rfl
  | none => exact (format_leaf h).symm.trans (format_default_leaf h)

/-- **Shown values are displayed values.** The default formatters show every value as the display does, with
nothing in the place of the unit values in it. With functions registered for any shapes but those of lists
and records, one after the other, the leaves of these shapes are what the last function for them gives, at
any depth; brackets, keys, separators and order are those of the display. -/
theorem shows_as_displayed :
    (∀ value : Value, (default.format value).1 = (value.mapLeaves blanked).display) ∧
    ∀ changes : List (Shape × (Value → String)),
      (∀ change ∈ changes, change.1 ≠ .list ∧ change.1 ≠ .record) →
      ∀ value : Value, ((default.registerAll changes).format value).1 =
        (value.mapLeaves (reworded changes)).display := by
  refine ⟨fun value => ?_, fun changes hchanges value => ?_⟩
  · exact format_eq_display rfl rfl (fun leaf => format_default_leaf) value
  · have hlist : (default.registerAll changes).get? .list = some .nested :=
      get?_registerAll_of_ne fun change hchange => (hchanges change hchange).1
    have hrecord : (default.registerAll changes).get? .record = some .nested :=
      get?_registerAll_of_ne fun change hchange => (hchanges change hchange).2
    exact format_eq_display hlist hrecord (fun leaf => format_registerAll_leaf changes) value

/-- Truth values in words, the first words replaced by others, and elements without their numbers. -/
private def wordings : List (Shape × (Value → String)) :=
  [(.bool, fun _ => "maybe"), (.element, fun _ => "someone"),
   (.bool, fun value => if value.holds then "yes" else "no")]

/-- Votes, one of them in a list of its own. -/
private def votes : Value :=
  .record [("by", .element ⟨4⟩), ("votes", .list [.bool true, .unit, .list [.bool false]])]

theorem shows_as_displayed_votes :
    (∀ change ∈ wordings, change.1 ≠ .list ∧ change.1 ≠ .record) ∧
      ((default.registerAll wordings).format votes).1 =
        "\x7bby: someone, votes: [yes, , [no]]\x7d" := by
  have hwordings : ∀ change ∈ wordings, change.1 ≠ .list ∧ change.1 ≠ .record := by
    simp [wordings]
  exact ⟨hwordings, (shows_as_displayed.2 wordings hwordings votes).trans (by cbv)⟩

end Catalog.Formatters

end EffectGraph
