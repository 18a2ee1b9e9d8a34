import EffectGraph.Demo.Page
import EffectGraph.Proofs.Catalog.Answers
import EffectGraph.Proofs.Event.Reaching

/-!
# Starting the applications of the demonstration

Each application of the page consists of a source, which the clicks on its button fire, and of chains of
signals that stand next to each other. Started over any signals and sources, an application adds its own
behind them and writes its elements (`Page.start_counter`, `Page.start_list`).
-/

namespace EffectGraph

namespace Hub

/-- The hub with one more source, which the clicks on an element fire. -/
def clicking (hub : Hub) (element : ElementId) (source : Source) : Hub where
  sources := hub.sources.push source
  bindings := hub.bindings ++ [((element, "click"), ⟨hub.sources.size⟩)]

variable (hub : Hub) (element : ElementId) (source : Source)

theorem get_clicking : (hub.clicking element source).get ⟨hub.sources.size⟩ = .ok source := by
  simp [get, clicking]

theorem subscribe_clicking (subscriber : Subscriber) :
    (hub.clicking element source).subscribe ⟨hub.sources.size⟩ subscriber =
      .ok (hub.clicking element
        { source with subscribers := source.subscribers ++ [subscriber] }) := by
  rw [subscribe, get_clicking]
  have hsources (later : Source) : (hub.sources.push source).setIfInBounds hub.sources.size later =
      hub.sources.push later := by
    simp [Array.setIfInBounds, Array.set_push]
  simp only [Except.map, clicking, hsources]

end Hub

namespace Demo

open Catalog Exec EffectGraph.Graph Program Session World

namespace Page

/-- The elements of the page are found in the document. -/
structure FoundIn (page : Page) (document : Document) : Prop where
  button : document.find? "increment" = some page.button
  count : document.find? "count" = some page.count
  field : document.find? "todo-input" = some page.field
  submit : document.find? "todo-button" = some page.submit
  todos : document.find? "todo-list" = some page.todos

namespace FoundIn

variable {page : Page} {document document' : Document}

/-- The elements of the page stay when properties are written. -/
theorem of_sameElements (h : page.FoundIn document) (hsame : document.SameElements document') :
    page.FoundIn document' where
  button := (hsame.find?_eq _).trans h.button
  count := (hsame.find?_eq _).trans h.count
  field := (hsame.find?_eq _).trans h.field
  submit := (hsame.find?_eq _).trans h.submit
  todos := (hsame.find?_eq _).trans h.todos

theorem button_ne_submit (h : page.FoundIn document) : page.button ≠ page.submit :=
  Document.ne_of_find? h.button h.submit (by decide)

theorem count_ne_todos (h : page.FoundIn document) : page.count ≠ page.todos :=
  Document.ne_of_find? h.count h.todos (by decide)

end FoundIn

/-! ## The signals of the applications -/

/-- One more than before for each click, from zero on. -/
def counted : Nat → Float
  | 0 => 0
  | k + 1 => counted k + 1

/-- A node that has been evaluated once, and once more for each of some changes. -/
def nodeAfter (changes : Nat) (kind : NodeKind) (value : Value) (rank : Nat)
    (inputs outputs : List SignalId) : Node :=
  { kind, value, settled := true, rank, inputs, outputs, evaluations := changes + 1 }

/-- The text of the counter. -/
def label (clicks : Nat) : String := "Clicks: " ++ Number.display (counted clicks)

/-- The text of the list. -/
def line (items : List Value) : String := ", ".intercalate (items.map Value.display)

variable (page : Page) (n : Nat)

/-- The signals of the counter from slot `n` on, after some clicks. -/
def counterNodes (clicks : Nat) : List Node :=
  [nodeAfter clicks .cell (.number (counted clicks)) 0 [] [⟨n + 1⟩],
   nodeAfter clicks (Show.follower n) (.text (Number.display (counted clicks))) 1 [⟨n⟩] [⟨n + 2⟩],
   nodeAfter clicks (Texts.follower "Clicks: " (n + 1)) (.text (label clicks)) 2 [⟨n + 1⟩] [⟨n + 3⟩],
   nodeAfter clicks (Elements.follower page.count "textContent" (n + 2)) .unit 3 [⟨n + 2⟩] []]

/-- The source of the counter whose cell is in slot `n`, after some clicks. -/
def counterSource (clicks : Nat) : Source where
  name := "click" ++ "@" ++ page.button.text
  subscribers := [.fold ⟨n⟩ fun current payload =>
    (Events.runPure (.pure (increment current payload))).script]
  occurrences := clicks

/-- What is done with the list of things to do when it is submitted. -/
def submission (items _occurrence : Value) : Program :=
  Lists.append (.value items)
    (.program (Elements.getProperty (literal "value") (.value (.element page.field))))

/-- The signals of the list from slot `n` on, after some items. -/
def todoNodes (items : List Value) : List Node :=
  [nodeAfter items.length .cell (.list items) 0 [] [⟨n + 1⟩],
   nodeAfter items.length (Lists.follower n ", ") (.text (line items)) 1 [⟨n⟩] [⟨n + 2⟩],
   nodeAfter items.length (Elements.follower page.todos "textContent" (n + 1)) .unit 2 [⟨n + 1⟩] [],
   nodeAfter items.length .cell (.text "") 0 [] [⟨n + 4⟩],
   nodeAfter items.length (Elements.follower page.field "value" (n + 3)) .unit 1 [⟨n + 3⟩] []]

/-- The source of the list whose signals start in slot `n`, after some submissions. -/
def todoSource (submissions : Nat) : Source where
  name := "click" ++ "@" ++ page.submit.text
  subscribers := [.foldProgram ⟨n⟩ page.submission, .fold ⟨n + 3⟩ fun _ _ => .done (.ok (.text ""))]
  occurrences := submissions

/-! ## Starting -/

section

variable {page} {session : Session} {hooks : Hooks} {w : World} {front : List Node} {n}

/-- Started, the counter has its signals and its source, and shows that there were no clicks. -/
theorem gives_counter (hoffers : session.OffersCatalog) (hgraph : w.graph = .ofNodes front)
    (hlength : front.length = n) (hfound : page.FoundIn w.document) {document : Document}
    (hwrite : w.document.setProperty page.count "textContent" (.text (label 0)) = .ok document) :
    Gives (dispatch session hooks) counter w .unit
      { w with
        graph := .ofNodes (front ++ page.counterNodes n 0)
        hub := w.hub.clicking page.button (page.counterSource n 0)
        document } := by
  let source : SourceId := ⟨w.hub.sources.size⟩
  let w₁ : World := { w with
    hub := w.hub.clicking page.button { name := "click" ++ "@" ++ page.button.text } }
  let w₂ : World := { w₁ with
    graph := .ofNodes (front ++ [cellNode (.number 0)])
    hub := w.hub.clicking page.button (page.counterSource n 0) }
  let cell : Node := addOutput ⟨n + 1⟩ (cellNode (.number 0))
  let shown : Node := settledNode (.text (Number.display 0)) (freshNode (Show.follower n) [⟨n⟩] 1)
  let w₃ : World := { w₂ with graph := .ofNodes (front ++ [cell] ++ [shown]) }
  let labelled : Node :=
    settledNode (.text (label 0)) (freshNode (Texts.follower "Clicks: " (n + 1)) [⟨n + 1⟩] 2)
  let w₄ : World := { w₃ with
    graph := .ofNodes (front ++ [cell] ++ [addOutput ⟨n + 2⟩ shown] ++ [labelled]) }
  have hclicks : Gives (dispatch session hooks) (Events.on (literal "click")
      (.value (.element page.button))) w (.source source) w₁ := gives_on hoffers
  have hcount : Gives (dispatch session hooks) (Events.fold (.value (.source source))
      (.value (.number 0)) increment) w₁ (.signal ⟨n⟩) w₂ :=
    gives_fold hoffers hlength (show w₁.graph = _ from hgraph) rfl (w.hub.get_clicking _ _)
      (w.hub.subscribe_clicking _ _ _)
  have hshow : Gives (dispatch session hooks) (Show.«show» (.value (.signal ⟨n⟩))) w₂
      (.signal ⟨n + 1⟩) w₃ := gives_show hoffers hlength (show w₂.graph = _ from rfl)
  have hlabel : Gives (dispatch session hooks) (Texts.concat (literal "Clicks: ")
      (.value (.signal ⟨n + 1⟩))) w₃ (.signal ⟨n + 2⟩) w₄ :=
    gives_concat hoffers (by simp [hlength]) (show w₃.graph = _ from rfl) "Clicks: " rfl
  have hset : Gives (dispatch session hooks) (Elements.setProperty (literal "textContent")
      (.value (.signal ⟨n + 2⟩)) (.value (.element page.count))) w₄ .unit _ :=
    gives_setProperty hoffers (by simp [hlength]) (show w₄.graph = _ from rfl) hwrite
  have hline : Gives (dispatch session hooks) (Texts.concat (literal "Clicks: ") (.program
      (Show.«show» (.program (Events.fold (.program (Events.on (literal "click")
        (.value (.element page.button)))) (.value (.number 0)) increment))))) w (.signal ⟨n + 2⟩) w₄ :=
    .operand rfl (.operand rfl (.operand rfl hclicks hcount) hshow) hlabel
  have hnodes : belowLastWith (front ++ [cell] ++ [addOutput ⟨n + 2⟩ shown]) labelled (n + 2)
      (Elements.follower page.count "textContent" (n + 2)) .unit = front ++ page.counterNodes n 0 := by
    simp only [belowLastWith, List.append_assoc, List.cons_append, List.nil_append]
    rfl
  rw [hnodes] at hset
  refine (gives_element hoffers hfound.button).bind ((gives_element hoffers hfound.count).bind ?_)
  exact .operand rfl hline hset

/-- Started, the list has its signals and its source, and shows that there are no items. -/
theorem gives_todoList (hoffers : session.OffersCatalog) (hsettings : session.settings = {})
    (hgraph : w.graph = .ofNodes front) (hlength : front.length = n) (hfound : page.FoundIn w.document)
    {shown document : Document}
    (hshow : w.document.setProperty page.todos "textContent" (.text (line [])) = .ok shown)
    (hclear : shown.setProperty page.field "value" (.text "") = .ok document) :
    Gives (dispatch session hooks) todoList w .unit
      { w with
        graph := .ofNodes (front ++ page.todoNodes n [])
        hub := w.hub.clicking page.submit (page.todoSource n 0)
        document } := by
  let source : SourceId := ⟨w.hub.sources.size⟩
  let named : Source := { name := "click" ++ "@" ++ page.submit.text }
  let w₁ : World := { w with hub := w.hub.clicking page.submit named }
  let folded : Source := { named with subscribers := [.foldProgram ⟨n⟩ page.submission] }
  let w₂ : World := { w₁ with
    graph := .ofNodes (front ++ [cellNode (.list [])])
    hub := w.hub.clicking page.submit folded }
  let cell : Node := addOutput ⟨n + 1⟩ (cellNode (.list []))
  let joined : Node := settledNode (.text (line [])) (freshNode (Lists.follower n ", ") [⟨n⟩] 1)
  let w₃ : World := { w₂ with graph := .ofNodes (front ++ [cell] ++ [joined]) }
  let nodes : List Node := belowLastWith (front ++ [cell]) joined (n + 1)
    (Elements.follower page.todos "textContent" (n + 1)) .unit
  let w₄ : World := { w₃ with graph := .ofNodes nodes, document := shown }
  let w₅ : World := { w₄ with
    graph := .ofNodes (nodes ++ [cellNode (.text "")])
    hub := w.hub.clicking page.submit (page.todoSource n 0) }
  have hnodes : nodes.length = n + 3 := by simp [nodes, belowLastWith, hlength]
  have hsubmit : Gives (dispatch session hooks) (Events.on (literal "click")
      (.value (.element page.submit))) w (.source source) w₁ := gives_on hoffers
  have htodos : Gives (dispatch session hooks) (Events.foldM (.value (.source source))
      (.value (.list [])) page.submission) w₁ (.signal ⟨n⟩) w₂ :=
    gives_foldM hoffers hlength (show w₁.graph = _ from hgraph) rfl (w.hub.get_clicking _ _) hsettings
      (w.hub.subscribe_clicking _ _ _)
  have hjoin : Gives (dispatch session hooks) (Lists.join (.value (.signal ⟨n⟩)) (literal ", ")) w₂
      (.signal ⟨n + 1⟩) w₃ := gives_join hoffers hlength (show w₂.graph = _ from rfl) ", " rfl
  have hline : Gives (dispatch session hooks) (Elements.setProperty (literal "textContent")
      (.value (.signal ⟨n + 1⟩)) (.value (.element page.todos))) w₃ .unit w₄ :=
    gives_setProperty hoffers (by simp [hlength]) (show w₃.graph = _ from rfl) hshow
  have hcleared : Gives (dispatch session hooks) (Events.constantOn (.value (.source source))
      (literal "")) w₄ (.signal ⟨n + 3⟩) w₅ :=
    gives_constantOn hoffers hnodes (show w₄.graph = _ from rfl) rfl (w.hub.get_clicking _ _)
      (w.hub.subscribe_clicking _ _ _)
  have hset : Gives (dispatch session hooks) (Elements.setProperty (literal "value")
      (.value (.signal ⟨n + 3⟩)) (.value (.element page.field))) w₅ .unit _ :=
    gives_setProperty hoffers hnodes (show w₅.graph = _ from rfl) hclear
  have hall : belowLastWith nodes (cellNode (.text "")) (n + 3)
      (Elements.follower page.field "value" (n + 3)) .unit = front ++ page.todoNodes n [] := by
    simp only [nodes, belowLastWith, List.append_assoc, List.cons_append, List.nil_append]
    rfl
  rw [hall] at hset
  have hfirst : Gives (dispatch session hooks) (Elements.setProperty (literal "textContent")
      (.program (Lists.join (.program (Events.foldM (.value (.source source)) (.value (.list []))
        page.submission)) (literal ", "))) (.value (.element page.todos))) w₁ .unit w₄ :=
    .operand rfl (.operand rfl htodos hjoin) hline
  have hsecond : Gives (dispatch session hooks) (Elements.setProperty (literal "value")
      (.program (Events.constantOn (.value (.source source)) (literal "")))
      (.value (.element page.field))) w₄ .unit _ := .operand rfl hcleared hset
  refine (gives_element hoffers hfound.field).bind ((gives_element hoffers hfound.submit).bind
    ((gives_element hoffers hfound.todos).bind (hsubmit.bind ?_)))
  exact ((gives_pure .unit w₁).bind hfirst).bind hsecond

theorem start_counter (hoffers : session.OffersCatalog) (hsettings : session.settings = {})
    (hgraph : w.graph = .ofNodes front) (hlength : front.length = n) (hfound : page.FoundIn w.document)
    (level : Nat) :
    ∃ w', session.Replies (level + 1) (Script.run counter) (.ok .unit) w w' ∧
      w'.graph = .ofNodes (front ++ page.counterNodes n 0) ∧
      w'.hub = w.hub.clicking page.button (page.counterSource n 0) ∧ w'.queue = w.queue ∧
      w'.settling = w.settling ∧ page.FoundIn w'.document ∧
      ∀ other key, w'.document.property other key =
        if other = page.count ∧ key = "textContent" then .ok (.text (label 0))
        else w.document.property other key := by
  obtain ⟨element, helement, -⟩ := Document.get_of_find? hfound.count
  obtain ⟨document, hwrite, hsame, hproperty⟩ :=
    Document.exists_setProperty helement "textContent" (.text (label 0))
  have hgives : Gives (session.hooksAt (level + 1)).dispatch counter w .unit _ :=
    gives_counter hoffers hgraph hlength hfound hwrite
  obtain ⟨w', ⟨journal, past, rfl⟩, hreplies⟩ :=
    replies_run (by rw [hsettings]) (by rw [hsettings]) hgives
  exact ⟨_, hreplies, rfl, rfl, rfl, rfl, hfound.of_sameElements hsame, hproperty⟩

theorem start_list (hoffers : session.OffersCatalog) (hsettings : session.settings = {})
    (hgraph : w.graph = .ofNodes front) (hlength : front.length = n) (hfound : page.FoundIn w.document)
    (level : Nat) :
    ∃ w', session.Replies (level + 1) (Script.run todoList) (.ok .unit) w w' ∧
      w'.graph = .ofNodes (front ++ page.todoNodes n []) ∧
      w'.hub = w.hub.clicking page.submit (page.todoSource n 0) ∧ w'.queue = w.queue ∧
      w'.settling = w.settling ∧ page.FoundIn w'.document ∧
      ∀ other key, w'.document.property other key =
        if other = page.field ∧ key = "value" then .ok (.text "")
        else if other = page.todos ∧ key = "textContent" then .ok (.text (line []))
        else w.document.property other key := by
  obtain ⟨element, helement, -⟩ := Document.get_of_find? hfound.todos
  obtain ⟨shown, hshow, hkept, hshown⟩ :=
    Document.exists_setProperty helement "textContent" (.text (line []))
  obtain ⟨element, helement, -⟩ := Document.get_of_find? (hfound.of_sameElements hkept).field
  obtain ⟨document, hclear, hsame, hproperty⟩ :=
    Document.exists_setProperty helement "value" (.text "")
  have hgives : Gives (session.hooksAt (level + 1)).dispatch todoList w .unit _ :=
    gives_todoList hoffers hsettings hgraph hlength hfound hshow hclear
  obtain ⟨w', ⟨journal, past, rfl⟩, hreplies⟩ :=
    replies_run (by rw [hsettings]) (by rw [hsettings]) hgives
  refine ⟨_, hreplies, rfl, rfl, rfl, rfl, (hfound.of_sameElements hkept).of_sameElements hsame,
    fun other key => ?_⟩
  rw [← hshown]
  exact hproperty other key

end

end Page

end Demo

end EffectGraph
