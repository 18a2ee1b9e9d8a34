import EffectGraph.Proofs.Demo.Clicks

/-!
# The page of the demonstration

Both applications are started in one session over a document that has the elements of the page, in
either order. Whatever the user does then, a click is answered by one source, the page shows how often
the button of the counter was clicked and which values the field held when they were submitted, and no
signals are added or removed.

The state of the session is known at any time: each application has its own chains of signals, whose
values follow from what was done so far (`Page.Runs`).
-/

namespace EffectGraph

namespace Demo

open Catalog Exec EffectGraph.Graph Program Session World

namespace Page

/-! ## Both applications -/

/-- Which application is started first. -/
inductive Order where
  | counterFirst
  | listFirst

namespace Order

/-- The slot of the first signal of the counter. -/
def counterSlot : Order → Nat
  | counterFirst => 0
  | listFirst => 5

/-- The slot of the first signal of the list. -/
def listSlot : Order → Nat
  | counterFirst => 4
  | listFirst => 0

/-- The source of the counter. -/
def counterSource : Order → SourceId
  | counterFirst => ⟨0⟩
  | listFirst => ⟨1⟩

/-- The source of the list. -/
def listSource : Order → SourceId
  | counterFirst => ⟨1⟩
  | listFirst => ⟨0⟩

end Order

/-- The signals of both applications. -/
def nodes (page : Page) (order : Order) (clicks : Nat) (items : List Value) : List Node :=
  match order with
  | .counterFirst => page.counterNodes 0 clicks ++ page.todoNodes 4 items
  | .listFirst => page.todoNodes 0 items ++ page.counterNodes 5 clicks

/-- The sources of both applications. -/
def hub (page : Page) (order : Order) (clicks submissions : Nat) : Hub :=
  match order with
  | .counterFirst => (Hub.empty.clicking page.button (page.counterSource 0 clicks)).clicking
      page.submit (page.todoSource 4 submissions)
  | .listFirst => (Hub.empty.clicking page.submit (page.todoSource 0 submissions)).clicking
      page.button (page.counterSource 5 clicks)

/-- What the user has done so far, as far as it matters. -/
structure Contents where
  /-- How often the counter was clicked. -/
  clicks : Nat
  /-- What the field held whenever it was submitted, in order. -/
  items : List Value
  /-- What the field holds. -/
  field : Value

/-- What the user does. -/
inductive Input where
  /-- Clicks the button of the counter. -/
  | increment (payload : Value)
  /-- Puts a value into the field. -/
  | enter (value : Value)
  /-- Clicks the button that submits the field. -/
  | submit (payload : Value)

namespace Contents

/-- Before anything is done the field is empty. -/
def initial : Contents := ⟨0, [], .text ""⟩

/-- What is done counts as a click, replaces what the field holds, or submits it and clears it. -/
def after (contents : Contents) : Input → Contents
  | .increment _ => { contents with clicks := contents.clicks + 1 }
  | .enter value => { contents with field := value }
  | .submit _ => { contents with items := contents.items ++ [contents.field], field := .text "" }

end Contents

/-- The document shows how often the counter was clicked, what was submitted, and what the field
holds. -/
structure Shows (page : Page) (contents : Contents) (document : Document) : Prop where
  count : document.property page.count "textContent" = .ok (.text (label contents.clicks))
  todos : document.property page.todos "textContent" = .ok (.text (line contents.items))
  field : document.property page.field "value" = .ok contents.field

/-- Both applications are running, and the user has done some things. -/
structure Runs (page : Page) (order : Order) (contents : Contents) (w : World) : Prop where
  graph_eq : w.graph = .ofNodes (page.nodes order contents.clicks contents.items)
  hub_eq : w.hub = page.hub order contents.clicks contents.items.length
  queue_eq : w.queue = []
  calm : w.settling = false
  found : page.FoundIn w.document
  shows : page.Shows contents w.document
  plain : ∀ value ∈ contents.field :: contents.items, value.isReactive = false

/-! ## Sources -/

theorem bound_counter {page : Page} (hne : page.button ≠ page.submit) (order : Order)
    (clicks submissions : Nat) :
    (page.hub order clicks submissions).bound page.button "click" = [order.counterSource] := by
  cases order with
  | counterFirst => simp [hub, Hub.clicking, Hub.bound, Hub.empty, Order.counterSource, hne.symm]
  | listFirst => simp [hub, Hub.clicking, Hub.bound, Hub.empty, Order.counterSource, hne.symm]

theorem bound_list {page : Page} (hne : page.button ≠ page.submit) (order : Order)
    (clicks submissions : Nat) :
    (page.hub order clicks submissions).bound page.submit "click" = [order.listSource] := by
  cases order with
  | counterFirst => simp [hub, Hub.clicking, Hub.bound, Hub.empty, Order.listSource, hne]
  | listFirst => simp [hub, Hub.clicking, Hub.bound, Hub.empty, Order.listSource, hne]

theorem deliver_counter (page : Page) (order : Order) (clicks submissions : Nat) :
    (page.hub order clicks submissions).deliver order.counterSource =
      .ok ((page.counterSource order.counterSlot clicks).subscribers,
        page.hub order (clicks + 1) submissions) := by
  have hdirect : ∀ s ∈ (page.counterSource order.counterSlot clicks).subscribers,
      s.place? = none := by
    simp [counterSource, Subscriber.place?]
  cases order with
  | counterFirst =>
    have hfound : (page.hub .counterFirst clicks submissions).get ⟨0⟩ =
        .ok (page.counterSource 0 clicks) := rfl
    exact Hub.deliver_direct hfound hdirect
  | listFirst =>
    have hfound : (page.hub .listFirst clicks submissions).get ⟨1⟩ =
        .ok (page.counterSource 5 clicks) := rfl
    exact Hub.deliver_direct hfound hdirect

theorem deliver_list (page : Page) (order : Order) (clicks submissions : Nat) :
    (page.hub order clicks submissions).deliver order.listSource =
      .ok ((page.todoSource order.listSlot submissions).subscribers,
        page.hub order clicks (submissions + 1)) := by
  have hdirect : ∀ s ∈ (page.todoSource order.listSlot submissions).subscribers,
      s.place? = none := by
    simp [todoSource, Subscriber.place?]
  cases order with
  | counterFirst =>
    have hfound : (page.hub .counterFirst clicks submissions).get ⟨1⟩ =
        .ok (page.todoSource 4 submissions) := rfl
    exact Hub.deliver_direct hfound hdirect
  | listFirst =>
    have hfound : (page.hub .listFirst clicks submissions).get ⟨0⟩ =
        .ok (page.todoSource 0 submissions) := rfl
    exact Hub.deliver_direct hfound hdirect

/-! ## Signals -/

/-- The signals of the counter stand together. -/
theorem exists_nodes_counter (page : Page) (order : Order) (items : List Value) :
    ∃ front back, front.length = order.counterSlot ∧ ∀ clicks,
      page.nodes order clicks items = front ++ page.counterNodes order.counterSlot clicks ++ back := by
  cases order with
  | counterFirst => exact ⟨[], page.todoNodes 4 items, rfl, fun _ => rfl⟩
  | listFirst => exact ⟨page.todoNodes 0 items, [], rfl, fun _ => (List.append_nil _).symm⟩

/-- So do the signals of the list. -/
theorem exists_nodes_list (page : Page) (order : Order) (clicks : Nat) :
    ∃ front back, front.length = order.listSlot ∧ ∀ items,
      page.nodes order clicks items = front ++ page.todoNodes order.listSlot items ++ back := by
  cases order with
  | counterFirst => exact ⟨page.counterNodes 0 clicks, [], rfl, fun _ => (List.append_nil _).symm⟩
  | listFirst => exact ⟨[], page.counterNodes 5 clicks, rfl, fun _ => rfl⟩

/-- The ranks and outputs of the signals of both applications. -/
def Order.wires (order : Order) : List Node :=
  let counter (n : Nat) : List Node :=
    [bare (nodeAfter 0 .cell .unit 0 [] [⟨n + 1⟩]), bare (nodeAfter 0 .cell .unit 1 [] [⟨n + 2⟩]),
     bare (nodeAfter 0 .cell .unit 2 [] [⟨n + 3⟩]), bare (nodeAfter 0 .cell .unit 3 [] [])]
  let list (n : Nat) : List Node :=
    [bare (nodeAfter 0 .cell .unit 0 [] [⟨n + 1⟩]), bare (nodeAfter 0 .cell .unit 1 [] [⟨n + 2⟩]),
     bare (nodeAfter 0 .cell .unit 2 [] []), bare (nodeAfter 0 .cell .unit 0 [] [⟨n + 4⟩]),
     bare (nodeAfter 0 .cell .unit 1 [] [])]
  match order with
  | counterFirst => counter 0 ++ list 4
  | listFirst => list 0 ++ counter 5

theorem map_bare_nodes (page : Page) (order : Order) (clicks : Nat) (items : List Value) :
    (page.nodes order clicks items).map bare = order.wires := by
  cases order with
  | counterFirst => rfl
  | listFirst => rfl

theorem plan_counter (order : Order) : (ofNodes order.wires).plan [⟨order.counterSlot⟩] =
    [⟨order.counterSlot + 1⟩, ⟨order.counterSlot + 2⟩, ⟨order.counterSlot + 3⟩] := by
  cases order with
  | counterFirst => cbv
  | listFirst => cbv

/-- The watch of the field comes before the watch of the list, because its rank is lower. -/
theorem plan_list (order : Order) :
    (ofNodes order.wires).plan [⟨order.listSlot⟩, ⟨order.listSlot + 3⟩] =
      [⟨order.listSlot + 1⟩, ⟨order.listSlot + 4⟩, ⟨order.listSlot + 2⟩] := by
  cases order with
  | counterFirst => cbv
  | listFirst => cbv

section

variable {page : Page} {session : Session} {w w' : World} {order : Order} {contents : Contents}

theorem Runs.of_alike (h : page.Runs order contents w) (halike : w.Alike w') :
    page.Runs order contents w' := by
  obtain ⟨journal, past, rfl⟩ := halike
  exact ⟨h.graph_eq, h.hub_eq, h.queue_eq, h.calm, h.found, h.shows, h.plain⟩

/-! ## What the document shows -/

section

variable {document document' : Document}

theorem Shows.increment (h : page.Shows contents document) (hfound : page.FoundIn document)
    (hproperty : ∀ other key, document'.property other key =
      if other = page.count ∧ key = "textContent" then .ok (.text (label (contents.clicks + 1)))
      else document.property other key) (payload : Value) :
    page.Shows (contents.after (.increment payload)) document' := by
  refine ⟨?_, ?_, ?_⟩
  · rw [hproperty, if_pos ⟨rfl, rfl⟩]
    rfl
  · rw [hproperty, if_neg fun heq => hfound.count_ne_todos heq.1.symm]
    exact h.todos
  · rw [hproperty, if_neg fun heq => absurd heq.2 (by decide)]
    exact h.field

theorem Shows.enter (h : page.Shows contents document) {value : Value}
    (hproperty : ∀ other key, document'.property other key =
      if other = page.field ∧ key = "value" then .ok value else document.property other key) :
    page.Shows (contents.after (.enter value)) document' := by
  refine ⟨?_, ?_, ?_⟩
  · rw [hproperty, if_neg fun heq => absurd heq.2 (by decide)]
    exact h.count
  · rw [hproperty, if_neg fun heq => absurd heq.2 (by decide)]
    exact h.todos
  · rw [hproperty, if_pos ⟨rfl, rfl⟩]
    rfl

theorem Shows.submit (h : page.Shows contents document) (hfound : page.FoundIn document)
    {cleared : Document} (hcleared : ∀ other key, cleared.property other key =
      if other = page.field ∧ key = "value" then .ok (.text "") else document.property other key)
    (hproperty : ∀ other key, document'.property other key =
      if other = page.todos ∧ key = "textContent" then
        .ok (.text (line (contents.items ++ [contents.field])))
      else cleared.property other key) (payload : Value) :
    page.Shows (contents.after (.submit payload)) document' := by
  refine ⟨?_, ?_, ?_⟩
  · rw [hproperty, if_neg fun heq => hfound.count_ne_todos heq.1, hcleared,
      if_neg fun heq => absurd heq.2 (by decide)]
    exact h.count
  · rw [hproperty, if_pos ⟨rfl, rfl⟩]
    rfl
  · rw [hproperty, if_neg fun heq => absurd heq.2 (by decide), hcleared, if_pos ⟨rfl, rfl⟩]
    rfl

end

/-! ## What the user does -/

/-- The signals of the counter are brought up to date, wherever they stand. -/
theorem Runs.deliver_counter (h : page.Runs order contents w) (level : Nat) (payload : Value)
    {document : Document} (hwrite : w.document.setProperty page.count "textContent"
      (.text (label (contents.clicks + 1))) = .ok document) :
    (deliver session (session.hooksAt (level + 1)) order.counterSource payload).Ends
      { w with settling := true } []
      { w with
        settling := true
        graph := .ofNodes (page.nodes order (contents.clicks + 1) contents.items)
        hub := page.hub order (contents.clicks + 1) contents.items.length
        document } := by
  obtain ⟨front, back, hlength, hnodes⟩ := exists_nodes_counter page order contents.items
  have hplan := plan_counter order
  rw [← map_bare_nodes page order contents.clicks contents.items, hnodes] at hplan
  have hgraph := h.graph_eq
  rw [hnodes] at hgraph ⊢
  have hdeliver := Page.deliver_counter page order contents.clicks contents.items.length
  rw [← h.hub_eq] at hdeliver
  exact ends_deliver_counter (w := { w with settling := true }) hlength hgraph hplan hdeliver hwrite

/-- So are those of the list. -/
theorem Runs.deliver_list (hoffers : session.OffersCatalog) (hsettings : session.settings = {})
    (h : page.Runs order contents w) (level : Nat) (payload : Value) {cleared document : Document}
    (hclear : w.document.setProperty page.field "value" (.text "") = .ok cleared)
    (hshow : cleared.setProperty page.todos "textContent"
      (.text (line (contents.items ++ [contents.field]))) = .ok document) :
    (deliver session (session.hooksAt (level + 1)) order.listSource payload).Ends
      { w with settling := true } []
      { w with
        settling := true
        graph := .ofNodes (page.nodes order contents.clicks (contents.items ++ [contents.field]))
        hub := page.hub order contents.clicks (contents.items.length + 1)
        document } := by
  obtain ⟨front, back, hlength, hnodes⟩ := exists_nodes_list page order contents.clicks
  have hplan := plan_list order
  rw [← map_bare_nodes page order contents.clicks contents.items, hnodes] at hplan
  have hgraph := h.graph_eq
  rw [hnodes] at hgraph ⊢
  have hdeliver := Page.deliver_list page order contents.clicks contents.items.length
  rw [← h.hub_eq] at hdeliver
  exact ends_deliver_list (w := { w with settling := true }) hoffers hsettings hlength hgraph hplan
    hdeliver h.shows.field h.plain hclear hshow

/-- A click on the button of the counter reaches one source. -/
theorem Runs.increment (h : page.Runs order contents w) (level : Nat) (payload : Value) :
    ∃ w', session.Replies (level + 2) (Script.dispatchEvent page.button "click" payload) (.ok 1) w w' ∧
      page.Runs order (contents.after (.increment payload)) w' := by
  obtain ⟨element, helement, -⟩ := Document.get_of_find? h.found.count
  obtain ⟨document, hwrite, hsame, hproperty⟩ := Document.exists_setProperty helement "textContent"
    (.text (label (contents.clicks + 1)))
  have hbound : w.hub.bound page.button "click" = [order.counterSource] := by
    rw [h.hub_eq]
    exact bound_counter h.found.button_ne_submit order _ _
  have hfound : w.hub.get order.counterSource =
      .ok (page.counterSource order.counterSlot contents.clicks) := by
    rw [h.hub_eq]
    cases order <;> rfl
  obtain ⟨v, hv, hreplies⟩ := replies_dispatchEvent hbound
    (ends_fire hfound h.calm (h.deliver_counter level payload hwrite) h.queue_eq)
  have hruns : page.Runs order (contents.after (.increment payload)) { w with
      graph := .ofNodes (page.nodes order (contents.clicks + 1) contents.items)
      hub := page.hub order (contents.clicks + 1) contents.items.length
      settling := false
      document } :=
    ⟨rfl, rfl, h.queue_eq, rfl, h.found.of_sameElements hsame,
      h.shows.increment h.found hproperty payload, h.plain⟩
  exact ⟨v, hreplies, hruns.of_alike hv⟩

/-- The field can be given any plain value. -/
theorem Runs.enter (h : page.Runs order contents w) (level : Nat) {value : Value}
    (hvalue : value.isReactive = false) :
    ∃ w', session.Replies level (Script.ask (.setProperty page.field "value" value)) (.ok ()) w w' ∧
      page.Runs order (contents.after (.enter value)) w' := by
  obtain ⟨element, helement, -⟩ := Document.get_of_find? h.found.field
  obtain ⟨document, hwrite, hsame, hproperty⟩ :=
    Document.exists_setProperty helement "value" value
  have hwritten : w.setProperty page.field "value" value =
      (.ok (), { w.report (.propertyWritten page.field "value" value) with document }) := by
    unfold World.setProperty
    rw [hwrite]
  have hask : (modifyGet (World.answer session (.setProperty page.field "value" value)) :
      Exec (Except Failure Unit)) w =
        (some (.ok ()), { w.report (.propertyWritten page.field "value" value) with document }) :=
    congrArg (fun answered : Except Failure Unit × World => (some answered.1, answered.2)) hwritten
  have hplain : ∀ value' ∈ value :: contents.items, value'.isReactive = false :=
    List.forall_mem_cons.2 ⟨hvalue, (List.forall_mem_cons.1 h.plain).2⟩
  exact ⟨_, fun next => bind_eq_of_eq_some hask, h.graph_eq, h.hub_eq, h.queue_eq, h.calm,
    h.found.of_sameElements hsame, h.shows.enter hproperty, hplain⟩

/-- A click on the button that submits the field reaches one source. -/
theorem Runs.submit (hoffers : session.OffersCatalog) (hsettings : session.settings = {})
    (h : page.Runs order contents w) (level : Nat) (payload : Value) :
    ∃ w', session.Replies (level + 2) (Script.dispatchEvent page.submit "click" payload) (.ok 1) w w' ∧
      page.Runs order (contents.after (.submit payload)) w' := by
  obtain ⟨element, helement, -⟩ := Document.get_of_find? h.found.field
  obtain ⟨cleared, hclear, hkept, hcleared⟩ :=
    Document.exists_setProperty helement "value" (.text "")
  obtain ⟨element, helement, -⟩ := Document.get_of_find? (h.found.of_sameElements hkept).todos
  obtain ⟨document, hshow, hsame, hproperty⟩ := Document.exists_setProperty helement "textContent"
    (.text (line (contents.items ++ [contents.field])))
  have hbound : w.hub.bound page.submit "click" = [order.listSource] := by
    rw [h.hub_eq]
    exact bound_list h.found.button_ne_submit order _ _
  have hfound : w.hub.get order.listSource =
      .ok (page.todoSource order.listSlot contents.items.length) := by
    rw [h.hub_eq]
    cases order <;> rfl
  obtain ⟨v, hv, hreplies⟩ := replies_dispatchEvent hbound (ends_fire hfound h.calm
    (h.deliver_list hoffers hsettings level payload hclear hshow) h.queue_eq)
  have hplain : ∀ value ∈ .text "" :: (contents.items ++ [contents.field]),
      value.isReactive = false := by
    intro value hvalue
    rcases List.mem_cons.1 hvalue with rfl | hvalue
    · rfl
    · exact h.plain value ((List.perm_append_singleton _ _).mem_iff.1 hvalue)
  have hruns : page.Runs order (contents.after (.submit payload)) { w with
      graph := .ofNodes (page.nodes order contents.clicks (contents.items ++ [contents.field]))
      hub := page.hub order contents.clicks (contents.items.length + 1)
      settling := false
      document } := by
    refine ⟨rfl, ?_, h.queue_eq, rfl, (h.found.of_sameElements hkept).of_sameElements hsame,
      h.shows.submit h.found hcleared hproperty payload, hplain⟩
    simp only [Contents.after, List.length_append, List.length_singleton]
  exact ⟨v, hreplies, hruns.of_alike hv⟩

end

/-! ## Starting both -/

section

variable {page : Page} {session : Session}

/-- The applications in the order of their start. -/
def Order.applications : Order → List Program
  | counterFirst => [counter, todoList]
  | listFirst => [todoList, counter]

/-- Both applications start in a new session. -/
theorem exists_runs (hoffers : session.OffersCatalog) (hsettings : session.settings = {})
    {document : Document} (hfound : page.FoundIn document) (journal : Array Entry) (level : Nat)
    (order : Order) :
    ∃ w, OneByOne (fun application => session.Replies (level + 1) (Script.run application) (.ok .unit))
        order.applications { document, journal } w ∧ page.Runs order .initial w := by
  have hnone : ({ document, journal } : World).graph = .ofNodes [] := rfl
  have hplain : ∀ value ∈ [Value.text ""], value.isReactive = false := by simp [Value.isReactive]
  cases order with
  | counterFirst =>
    obtain ⟨w₁, hcounter, hgraph₁, hhub₁, hqueue₁, hcalm₁, hfound₁, hproperty₁⟩ :=
      start_counter hoffers hsettings hnone rfl hfound level
    obtain ⟨w, hlist, hgraph, hhub, hqueue, hcalm, hfound, hproperty⟩ :=
      start_list hoffers hsettings hgraph₁ rfl hfound₁ level
    refine ⟨w, ⟨w₁, hcounter, w, hlist, rfl⟩, hgraph, ?_, hqueue.trans hqueue₁, hcalm.trans hcalm₁,
      hfound, ⟨?_, ?_, ?_⟩, hplain⟩
    · rw [hhub, hhub₁]
      rfl
    · rw [hproperty, if_neg fun heq => absurd heq.2 (by decide),
        if_neg fun heq => hfound.count_ne_todos heq.1, hproperty₁, if_pos ⟨rfl, rfl⟩]
      rfl
    · rw [hproperty, if_neg fun heq => absurd heq.2 (by decide), if_pos ⟨rfl, rfl⟩]
      rfl
    · rw [hproperty, if_pos ⟨rfl, rfl⟩]
      rfl
  | listFirst =>
    obtain ⟨w₁, hlist, hgraph₁, hhub₁, hqueue₁, hcalm₁, hfound₁, hproperty₁⟩ :=
      start_list hoffers hsettings hnone rfl hfound level
    obtain ⟨w, hcounter, hgraph, hhub, hqueue, hcalm, hfound, hproperty⟩ :=
      start_counter hoffers hsettings hgraph₁ rfl hfound₁ level
    refine ⟨w, ⟨w₁, hlist, w, hcounter, rfl⟩, hgraph, ?_, hqueue.trans hqueue₁, hcalm.trans hcalm₁,
      hfound, ⟨?_, ?_, ?_⟩, hplain⟩
    · rw [hhub, hhub₁]
      rfl
    · rw [hproperty, if_pos ⟨rfl, rfl⟩]
      rfl
    · rw [hproperty, if_neg fun heq => hfound.count_ne_todos heq.1.symm, hproperty₁,
        if_neg fun heq => absurd heq.2 (by decide), if_pos ⟨rfl, rfl⟩]
      rfl
    · rw [hproperty, if_neg fun heq => absurd heq.2 (by decide), hproperty₁, if_pos ⟨rfl, rfl⟩]
      rfl

end

/-! ## Whatever the user does -/

/-- The user does something in one state, which succeeds and leads to another. A click reaches one
source. -/
def Input.Succeeds (page : Page) (session : Session) (level : Nat) : Input → World → World → Prop
  | .increment payload =>
    session.Replies level (Script.dispatchEvent page.button "click" payload) (.ok 1)
  | .enter value => session.Replies level (Script.ask (.setProperty page.field "value" value)) (.ok ())
  | .submit payload =>
    session.Replies level (Script.dispatchEvent page.submit "click" payload) (.ok 1)

section

variable {page : Page} {session : Session} {w : World} {order : Order} {contents : Contents}

theorem Runs.step (hoffers : session.OffersCatalog) (hsettings : session.settings = {})
    (h : page.Runs order contents w) (level : Nat) (input : Input)
    (hplain : ∀ value, input = .enter value → value.isReactive = false) :
    ∃ w', input.Succeeds page session (level + 2) w w' ∧ page.Runs order (contents.after input) w' := by
  cases input with
  | increment payload => exact h.increment level payload
  | enter value => exact h.enter (level + 2) (hplain value rfl)
  | submit payload => exact h.submit hoffers hsettings level payload

theorem Runs.run (hoffers : session.OffersCatalog) (hsettings : session.settings = {})
    (h : page.Runs order contents w) (level : Nat) {inputs : List Input}
    (hplain : ∀ value, Input.enter value ∈ inputs → value.isReactive = false) :
    ∃ w', OneByOne (Input.Succeeds page session (level + 2)) inputs w w' ∧
      page.Runs order (inputs.foldl Contents.after contents) w' := by
  induction inputs generalizing contents w with
  | nil => exact ⟨w, rfl, h⟩
  | cons input rest ih =>
    obtain ⟨w₁, hfirst, h₁⟩ := h.step hoffers hsettings level input fun value hvalue =>
      hplain value (hvalue ▸ List.mem_cons_self)
    obtain ⟨w', hrest, h'⟩ := ih h₁ fun value hvalue => hplain value (List.mem_cons_of_mem _ hvalue)
    exact ⟨w', ⟨w₁, hfirst, hrest⟩, h'⟩

theorem Input.Succeeds.unique {level : Nat} (input : Input) {w₁ w₂ : World}
    (h₁ : input.Succeeds page session level w w₁) (h₂ : input.Succeeds page session level w w₂) :
    w₂ = w₁ := by
  cases input with
  | increment payload => exact Replies.unique h₁ h₂
  | enter value => exact Replies.unique h₁ h₂
  | submit payload => exact Replies.unique h₁ h₂

/-- The signals are those of the start. -/
theorem Runs.liveIds_eq (h : page.Runs order contents w) :
    w.graph.live = 9 ∧ w.graph.liveIds = (List.range 9).map SignalId.mk := by
  have hlength : (page.nodes order contents.clicks contents.items).length = 9 := by
    cases order <;> rfl
  rw [h.graph_eq, liveIds_ofNodes, hlength]
  exact ⟨hlength, rfl⟩

end

/-- The session of the demonstration, with the default settings. -/
def defaultSession : Session := (standard.install Elements.bundle).session {}

/-- Both applications start in one session over a document with the elements of the page, in either
order. Then all that the user does succeeds, and each click reaches one source. At any time the
counter shows how often it was clicked and the list shows what the field held whenever it was
submitted; submitting clears the field; and there are as many signals as at the start. -/
theorem shows_what_was_done {page : Page} {document : Document} (hfound : page.FoundIn document)
    (journal : Array Entry) (level : Nat) (order : Order) :
    ∃ w, OneByOne (fun application =>
        defaultSession.Replies (level + 2) (Script.run application) (.ok .unit))
        order.applications { document, journal } w ∧
      ∀ inputs : List Input, (∀ value, Input.enter value ∈ inputs → value.isReactive = false) →
        (∃ w', OneByOne (Input.Succeeds page defaultSession (level + 2)) inputs w w') ∧
        ∀ w', OneByOne (Input.Succeeds page defaultSession (level + 2)) inputs w w' →
          let contents := inputs.foldl Contents.after .initial
          w'.document.textContent page.count =
            .ok ("Clicks: " ++ Number.display (counted contents.clicks)) ∧
          w'.document.textContent page.todos =
            .ok (", ".intercalate (contents.items.map Value.display)) ∧
          w'.document.property page.field "value" = .ok contents.field ∧
          (∀ before payload, inputs = before ++ [.submit payload] →
            w'.document.property page.field "value" = .ok (.text "")) ∧
          w'.graph.live = w.graph.live ∧ w'.graph.liveIds = w.graph.liveIds := by
  have hoffers : defaultSession.OffersCatalog := offersCatalog_standard {}
  obtain ⟨w, hstarted, hruns⟩ := exists_runs hoffers rfl hfound journal (level + 1) order
  refine ⟨w, hstarted, fun inputs hplain => ?_⟩
  obtain ⟨v, hdone, hthen⟩ := hruns.run hoffers rfl level hplain
  refine ⟨⟨v, hdone⟩, fun w' hw' => ?_⟩
  have hunique (input : Input) {u u₁ u₂ : World} :
      input.Succeeds page defaultSession (level + 2) u u₁ →
      input.Succeeds page defaultSession (level + 2) u u₂ → u₂ = u₁ := Input.Succeeds.unique input
  obtain rfl : w' = v := OneByOne.unique hunique hdone hw'
  have hfield := hthen.shows.field
  have hcleared : ∀ before payload, inputs = before ++ [.submit payload] →
      w'.document.property page.field "value" = .ok (.text "") := by
    rintro before payload rfl
    rwa [List.foldl_append] at hfield
  obtain ⟨hlive, hids⟩ := hruns.liveIds_eq
  obtain ⟨hlive', hids'⟩ := hthen.liveIds_eq
  exact ⟨Document.textContent_eq_ok hthen.shows.count, Document.textContent_eq_ok hthen.shows.todos,
    hfield, hcleared, hlive'.trans hlive.symm, hids'.trans hids.symm⟩

/-- The counter is clicked twice, two values are submitted, and a third one is not. -/
def shopping : List Input :=
  [.increment .unit, .enter (.text "milk"), .submit .unit, .enter (.bool true),
   .submit (.text "again"), .increment .unit, .enter (.text "bread")]

theorem shows_what_was_done_shopping : Page.create.1.FoundIn Page.create.2 ∧
    (∀ value, Input.enter value ∈ shopping → value.isReactive = false) ∧
    ∃ w w', OneByOne (fun application =>
        defaultSession.Replies 2 (Script.run application) (.ok .unit))
        [counter, todoList] { document := Page.create.2 } w ∧
      OneByOne (Input.Succeeds Page.create.1 defaultSession 2) shopping w w' ∧
      w'.document.textContent Page.create.1.count =
        .ok ("Clicks: " ++ Number.display (0 + 1 + 1)) ∧
      w'.document.textContent Page.create.1.todos = .ok "milk, true" ∧
      w'.document.property Page.create.1.field "value" = .ok (.text "bread") ∧
      w'.graph.liveIds = w.graph.liveIds := by
  have hfound : Page.create.1.FoundIn Page.create.2 := ⟨rfl, rfl, rfl, rfl, rfl⟩
  have hplain : ∀ value, Input.enter value ∈ shopping → value.isReactive = false := by
    intro value hvalue
    simp only [shopping, List.mem_cons, List.not_mem_nil, or_false, reduceCtorEq, false_or,
      Input.enter.injEq] at hvalue
    rcases hvalue with rfl | rfl | rfl
    · rfl
    · rfl
    · rfl
  obtain ⟨w, hstarted, hthen⟩ := shows_what_was_done hfound #[] 0 .counterFirst
  obtain ⟨⟨w', hdone⟩, hshows⟩ := hthen shopping hplain
  obtain ⟨hcount, htodos, hfield, -, -, hids⟩ := hshows w' hdone
  exact ⟨hfound, hplain, w, w', hstarted, hdone, hcount, htodos, hfield, hids⟩

end Page

end Demo

end EffectGraph
