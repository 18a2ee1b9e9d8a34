import EffectGraph.Document

/-!
# What is found in a document

Writing a property leaves the elements as they are, so each is found under its id as before
(`SameElements.find?_eq`), and of all properties it changes one (`exists_setProperty`).
-/

namespace EffectGraph

/-! ## Keyed lists -/

namespace Keyed

variable {α : Type} {key k : String} {value : α}

theorem get?_insert (key k : String) (value : α) (pairs : List (String × α)) :
    get? k (insert key value pairs) = if k = key then some value else get? k pairs := by
  induction pairs with
  | nil => simp only [insert, get?, eq_comm (a := key)]
  | cons pair rest ih =>
    obtain ⟨other, v⟩ := pair
    unfold insert
    split
    · simp only [get?, eq_comm (a := key)]
    · split
      · rename_i hkey
        subst hkey
        by_cases hk : k = key
        · simp [get?, hk]
        · simp [get?, hk, Ne.symm hk]
      · rename_i hother
        rw [get?, get?, ih]
        by_cases hk : other = k
        · subst hk
          simp [Ne.symm hother]
        · simp [hk]

/-- Of pairs with different keys each is found. -/
theorem get?_ofList {pairs : List (String × α)} (hnodup : (pairs.map (·.1)).Nodup)
    (h : (k, value) ∈ pairs) : get? k (ofList pairs) = some value := by
  -- Whatever is inserted after a pair has another key.
  have hkept : ∀ (later sorted : List (String × α)), k ∉ later.map (·.1) →
      get? k (later.foldl (fun sorted pair => insert pair.1 pair.2 sorted) sorted) =
        get? k sorted := by
    intro later
    induction later with
    | nil => exact fun _ _ => rfl
    | cons pair rest ih =>
      intro sorted hnew
      rw [List.map_cons, List.mem_cons, not_or] at hnew
      rw [List.foldl_cons, ih _ hnew.2, get?_insert, if_neg hnew.1]
  obtain ⟨front, back, rfl⟩ := List.append_of_mem h
  rw [List.map_append, List.map_cons] at hnodup
  have hback : k ∉ back.map (·.1) := (List.nodup_cons.1 (List.nodup_append.1 hnodup).2.1).1
  unfold ofList
  rw [List.foldl_append, List.foldl_cons, hkept _ _ hback, get?_insert, if_pos rfl]

end Keyed

namespace Document

variable {document document' : Document} {id : ElementId} {element : Element} {domId : String}

theorem get_eq_ok : document.get id = .ok element ↔ document.elements[id.index]? = some element := by
  unfold get
  cases document.elements[id.index]? <;> simp

/-- What is found under an id is an element with this id. -/
theorem get_of_find? (h : document.find? domId = some id) :
    ∃ element, document.get id = .ok element ∧ element.domId = domId := by
  obtain ⟨i, hfound, rfl⟩ := Option.map_eq_some_iff.1 h
  have hany := List.find?_some hfound
  cases hslot : document.elements[i]? with
  | none => simp [hslot] at hany
  | some element => exact ⟨element, get_eq_ok.2 hslot, by simpa [hslot] using hany⟩

/-- Under different ids different elements are found. -/
theorem ne_of_find? {other : ElementId} {otherId : String} (h : document.find? domId = some id)
    (hother : document.find? otherId = some other) (hne : domId ≠ otherId) : id ≠ other := by
  rintro rfl
  obtain ⟨element, helement, rfl⟩ := get_of_find? h
  obtain ⟨element', helement', rfl⟩ := get_of_find? hother
  obtain rfl := Except.ok.inj (helement.symm.trans helement')
  exact hne rfl

/-- Two documents have the same elements, apart from their properties. -/
structure SameElements (document document' : Document) : Prop where
  size_eq : document'.elements.size = document.elements.size
  domId_eq : ∀ i : Nat,
    document'.elements[i]?.map (·.domId) = document.elements[i]?.map (·.domId)

namespace SameElements

theorem refl (document : Document) : SameElements document document := ⟨rfl, fun _ => rfl⟩

theorem trans {document₁ : Document} (h : SameElements document document₁)
    (h' : SameElements document₁ document') : SameElements document document' :=
  ⟨h'.size_eq.trans h.size_eq, fun i => (h'.domId_eq i).trans (h.domId_eq i)⟩

theorem find?_eq (h : SameElements document document') (domId : String) :
    document'.find? domId = document.find? domId := by
  have hany (i : Nat) : document'.elements[i]?.any (·.domId = domId) =
      document.elements[i]?.any (·.domId = domId) := by
    have hids := congrArg (Option.any (· = domId)) (h.domId_eq i)
    rwa [Option.any_map, Option.any_map] at hids
  unfold find?
  rw [h.size_eq]
  simp only [hany]

end SameElements

/-- A property of an element can be written, and no other one is changed by that. -/
theorem exists_setProperty (h : document.get id = .ok element) (name : String) (value : Value) :
    ∃ document', document.setProperty id name value = .ok document' ∧
      SameElements document document' ∧
      ∀ other key, document'.property other key =
        if other = id ∧ key = name then .ok value else document.property other key := by
  have hstands := get_eq_ok.1 h
  have hlt : id.index < document.elements.size := (Array.getElem?_eq_some_iff.1 hstands).1
  refine ⟨_, by rw [setProperty, h]; rfl, ⟨by simp, fun i => ?_⟩, fun other key => ?_⟩
  · rw [Array.getElem?_setIfInBounds]
    split
    · rename_i hi
      subst hi
      rw [hstands]
      rfl
    · rfl
  · by_cases hother : other = id
    · subst hother
      have hwritten : get ⟨document.elements.setIfInBounds other.index { element with
          properties := Keyed.insert name value element.properties }⟩ other = .ok { element with
          properties := Keyed.insert name value element.properties } :=
        get_eq_ok.2 (by simp [hlt])
      rw [property, hwritten, property, h]
      simp only [Except.map, Keyed.get?_insert, true_and]
      split <;> rfl
    · have hindex : id.index ≠ other.index := fun heq => hother (by cases other; cases heq; rfl)
      rw [if_neg fun hboth => hother hboth.1]
      unfold property get
      dsimp only
      rw [Array.getElem?_setIfInBounds_ne hindex]

/-- An element shows the text that its property `textContent` is set to. -/
theorem textContent_eq_ok {text : String} (h : document.property id "textContent" = .ok (.text text)) :
    document.textContent id = .ok text := by
  rw [textContent, h]
  rfl

end Document

end EffectGraph
