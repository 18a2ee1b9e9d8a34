import EffectGraph.Proofs.Value.Parts
import EffectGraph.Value.Json

/-!
# Values that come back from JSON

A value is written as JSON, handed to a library of JSON documents and read back. What the library does to
a document is a function that keeps all that JSON documents are about (`Json.Keeps`); the order of the
fields of an object is not among this. `Value.comes_back_iff` says which values come back: those without
handles whose numbers are finite. Handles come back as records, and other numbers as unit.
-/

namespace EffectGraph

/-! ## Keyed lists -/

namespace Keyed

variable {α : Type} {key : String} {value : α} {pairs sorted : List (String × α)}

theorem insert_perm (h : key ∉ pairs.map (·.1)) :
    (insert key value pairs).Perm ((key, value) :: pairs) := by
  induction pairs with
  | nil => exact .refl _
  | cons pair rest ih =>
    obtain ⟨k, v⟩ := pair
    rw [List.map_cons, List.mem_cons, not_or] at h
    unfold insert
    split
    · exact .refl _
    · rw [if_neg h.1]
      exact ((ih h.2).cons (k, v)).trans (.swap ..)

/-- No pair is lost if no two have the same key. -/
theorem ofList_perm (h : (pairs.map (·.1)).Nodup) : (ofList pairs).Perm pairs := by
  suffices hall : ∀ acc : List (String × α), ((acc ++ pairs).map (·.1)).Nodup →
      (pairs.foldl (fun sorted pair => insert pair.1 pair.2 sorted) acc).Perm (acc ++ pairs) from
    hall [] h
  clear h
  induction pairs with
  | nil => exact fun acc _ => .of_eq (List.append_nil acc).symm
  | cons pair rest ih =>
    intro acc hnodup
    have hmiddle : (acc ++ pair :: rest).Perm (pair :: acc ++ rest) := List.perm_middle
    have hnodup' : ((pair :: acc ++ rest).map (·.1)).Nodup := (hmiddle.map _).nodup_iff.1 hnodup
    have hnew : pair.1 ∉ acc.map (·.1) := by
      intro hmem
      rw [List.cons_append, List.map_cons, List.nodup_cons, List.map_append, List.mem_append] at hnodup'
      exact hnodup'.1 (.inl hmem)
    have hinserted : (insert pair.1 pair.2 acc ++ rest).Perm (pair :: acc ++ rest) :=
      (insert_perm hnew).append_right rest
    exact (ih _ ((hinserted.map _).nodup_iff.2 hnodup')).trans (hinserted.trans hmiddle.symm)

theorem Sorted.nodup_keys (h : Sorted pairs) : (pairs.map (·.1)).Nodup :=
  List.pairwise_map.2 (h.imp fun hlt => String.ne_of_lt hlt)

/-- In whatever order the pairs of a keyed list are given, it is built from them again. -/
theorem Sorted.ofList_eq_of_perm (h : Sorted sorted) (hperm : pairs.Perm sorted) :
    ofList pairs = sorted := by
  have hnodup : (pairs.map (·.1)).Nodup := (hperm.map _).nodup_iff.2 h.nodup_keys
  refine ((ofList_perm hnodup).trans hperm).eq_of_pairwise (fun a b _ _ hab hba => ?_)
    (sorted_ofList pairs) h
  exact absurd (String.lt_trans hab hba) (String.lt_irrefl _)

end Keyed

/-- What a library of JSON documents keeps of a document that it is handed: numbers that are finite, the
items of an array in their order, and the fields of an object, in whatever order, if no two of them have
the same key. -/
structure Json.Keeps (store : Json → Json) : Prop where
  null : store .null = .null
  bool : ∀ b, store (.bool b) = .bool b
  real : ∀ x : Float, x.isFinite → store (.real x) = .real x
  string : ∀ s, store (.string s) = .string s
  array : ∀ items, store (.array items) = .array (items.map store)
  object : ∀ fields : List (String × Json), (fields.map (·.1)).Nodup →
    ∃ stored, store (.object fields) = .object stored ∧
      stored.Perm (fields.map fun field => (field.1, store field.2))

namespace Value

/-- The fields of every record in the value ascend by key. -/
inductive Ordered : Value → Prop where
  | unit : Ordered .unit
  | bool (b : Bool) : Ordered (.bool b)
  | number (x : Float) : Ordered (.number x)
  | text (s : String) : Ordered (.text s)
  | list {items : List Value} (hitems : ∀ item ∈ items, Ordered item) : Ordered (.list items)
  | record {fields : List (String × Value)} (hsorted : Keyed.Sorted fields)
    (hfields : ∀ field ∈ fields, Ordered field.2) : Ordered (.record fields)
  | element (id : ElementId) : Ordered (.element id)
  | source (id : SourceId) : Ordered (.source id)
  | signal (id : SignalId) : Ordered (.signal id)

/-- There is no handle in the value, of an element, a source or a signal, and its numbers are finite. -/
inductive Portable : Value → Prop where
  | unit : Portable .unit
  | bool (b : Bool) : Portable (.bool b)
  | number {x : Float} (hfinite : x.isFinite) : Portable (.number x)
  | text (s : String) : Portable (.text s)
  | list {items : List Value} (hitems : ∀ item ∈ items, Portable item) : Portable (.list items)
  | record {fields : List (String × Value)} (hfields : ∀ field ∈ fields, Portable field.2) :
    Portable (.record fields)

theorem portable_list {items : List Value} :
    (Value.list items).Portable ↔ ∀ item ∈ items, item.Portable :=
  ⟨fun (.list hitems) => hitems, .list⟩

theorem portable_record {fields : List (String × Value)} :
    (Value.record fields).Portable ↔ ∀ field ∈ fields, field.2.Portable :=
  ⟨fun (.record hfields) => hfields, .record⟩

/-! ## Items and fields -/

theorem toJsonItems_eq (items : List Value) : toJsonItems items = items.map toJson := by
  induction items with
  | nil => rfl
  | cons item rest ih => rw [toJsonItems, ih, List.map_cons]

theorem toJsonFields_eq (fields : List (String × Value)) :
    toJsonFields fields = fields.map fun field => (field.1, field.2.toJson) := by
  induction fields with
  | nil => rfl
  | cons field rest ih => rw [toJsonFields, ih, List.map_cons]

theorem ofJsonItems_eq (items : List Json) : ofJsonItems items = items.map ofJson := by
  induction items with
  | nil => rfl
  | cons item rest ih => rw [ofJsonItems, ih, List.map_cons]

theorem ofJsonFields_eq (fields : List (String × Json)) :
    ofJsonFields fields = fields.map fun field => (field.1, ofJson field.2) := by
  induction fields with
  | nil => rfl
  | cons field rest ih => rw [ofJsonFields, ih, List.map_cons]

/-! ## What comes back -/

section

variable {store : Json → Json} (h : Json.Keeps store)

include h

theorem ofJson_list (items : List Value) : ofJson (store (Value.list items).toJson) =
    .list (items.map fun item => ofJson (store item.toJson)) := by
  rw [toJson, toJsonItems_eq, h.array, ofJson, ofJsonItems_eq, List.map_map, List.map_map]
  rfl

/-- Whatever comes back from an object with different keys is a record of what comes back from its
fields. -/
theorem exists_ofJson_object {fields : List (String × Json)} (hnodup : (fields.map (·.1)).Nodup) :
    ∃ pairs : List (String × Value), ofJson (store (.object fields)) = ofPairs pairs ∧
      pairs.Perm (fields.map fun field => (field.1, ofJson (store field.2))) := by
  obtain ⟨stored, hstored, hperm⟩ := h.object fields hnodup
  refine ⟨stored.map fun field => (field.1, ofJson field.2), ?_, ?_⟩
  · rw [hstored, ofJson, ofJsonFields_eq]
  · have hread := hperm.map fun field => (field.1, ofJson field.2)
    rwa [List.map_map] at hread

theorem ofJson_record {fields : List (String × Value)} (hsorted : Keyed.Sorted fields) :
    ofJson (store (Value.record fields).toJson) =
      .record (fields.map fun field => (field.1, ofJson (store field.2.toJson))) := by
  have hkeys : (fields.map fun field => (field.1, field.2.toJson)).map (·.1) = fields.map (·.1) := by
    rw [List.map_map]
    rfl
  obtain ⟨pairs, hpairs, hperm⟩ := exists_ofJson_object h (hkeys ▸ hsorted.nodup_keys)
  rw [List.map_map] at hperm
  have hsent : Keyed.Sorted (fields.map fun field => (field.1, ofJson (store field.2.toJson))) :=
    List.pairwise_map.2 hsorted
  rw [toJson, toJsonFields_eq, hpairs, ofPairs, hsent.ofList_eq_of_perm hperm]

/-- From a handle a record comes back. -/
theorem exists_ofJson_handle (kind : String) (n : Int) :
    ∃ fields, ofJson (store (.object [(kind, .integer n)])) = .record fields := by
  have hnodup : ([(kind, Json.integer n)].map (·.1)).Nodup := List.nodup_singleton kind
  obtain ⟨pairs, hpairs, -⟩ := exists_ofJson_object h hnodup
  exact ⟨_, hpairs⟩

end

private theorem map_eq_self_iff {α : Type} {f : α → α} {l : List α} :
    l.map f = l ↔ ∀ a ∈ l, f a = a := by
  simpa using List.map_inj_left (l := l) (f := f) (g := id)

/-- **Exactly the portable values come back from JSON.** Write a value as JSON, hand the document to a
library that keeps finite numbers, arrays and objects with different keys, and read what it gives back.
This is the value itself, with the items of its lists and the fields of its records in the same order,
exactly if it has no handles and its numbers are finite. -/
theorem comes_back_iff {store : Json → Json} (h : Json.Keeps store) {value : Value}
    (hvalue : value.Ordered) : ofJson (store value.toJson) = value ↔ value.Portable := by
  induction hvalue with
  | unit =>
    rw [toJson, h.null, ofJson]
    exact iff_of_true rfl .unit
  | bool b =>
    rw [toJson, h.bool, ofJson]
    exact iff_of_true rfl (.bool b)
  | text s =>
    rw [toJson, h.string, ofJson]
    exact iff_of_true rfl (.text s)
  | number x =>
    rw [toJson, numberJson]
    split
    · rename_i hfinite
      rw [h.real x hfinite, ofJson]
      exact iff_of_true rfl (.number hfinite)
    · rename_i hinfinite
      rw [h.null, ofJson]
      exact iff_of_false nofun fun (.number hfinite) => hinfinite hfinite
  | @list items _ ih =>
    rw [ofJson_list h, Value.list.injEq, map_eq_self_iff, portable_list]
    exact forall₂_congr ih
  | @record fields hsorted _ ih =>
    rw [ofJson_record h hsorted, Value.record.injEq, map_eq_self_iff, portable_record]
    refine forall₂_congr fun field hfield => ?_
    rw [← ih field hfield, Prod.ext_iff]
    exact and_iff_right rfl
  | element id =>
    obtain ⟨fields, hfields⟩ := exists_ofJson_handle h "element" id.index
    rw [toJson, hfields]
    exact iff_of_false nofun nofun
  | source id =>
    obtain ⟨fields, hfields⟩ := exists_ofJson_handle h "source" id.index
    rw [toJson, hfields]
    exact iff_of_false nofun nofun
  | signal id =>
    obtain ⟨fields, hfields⟩ := exists_ofJson_handle h "signal" id.index
    rw [toJson, hfields]
    exact iff_of_false nofun nofun

/-- What is to be bought. -/
private def shopping : Value :=
  .record [("done", .bool false), ("items", .list [.text "milk", .number 1.5, .unit, .record []])]

private theorem shopping_ordered : shopping.Ordered := by
  refine .record (List.pairwise_pair.2 (by decide)) ?_
  simp only [List.forall_mem_cons]
  refine ⟨.bool false, .list ?_, nofun⟩
  simp only [List.forall_mem_cons]
  exact ⟨.text _, .number _, .unit, .record .nil nofun, nofun⟩

private theorem shopping_portable : shopping.Portable := by
  refine .record ?_
  simp only [List.forall_mem_cons]
  refine ⟨.bool false, .list ?_, nofun⟩
  simp only [List.forall_mem_cons]
  exact ⟨.text _, .number (by decide), .unit, .record nofun, nofun⟩

theorem comes_back_iff_shopping : Json.Keeps id ∧ shopping.Ordered ∧ shopping.Portable ∧
    ofJson (id shopping.toJson) = shopping := by
  have hkeeps : Json.Keeps id :=
    ⟨rfl, fun _ => rfl, fun _ _ => rfl, fun _ => rfl, fun items => by simp,
      fun fields _ => ⟨fields, rfl, by simp⟩⟩
  exact ⟨hkeeps, shopping_ordered, shopping_portable,
    (comes_back_iff hkeeps shopping_ordered).2 shopping_portable⟩

end Value

end EffectGraph
