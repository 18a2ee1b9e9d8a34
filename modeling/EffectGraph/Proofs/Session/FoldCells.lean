import EffectGraph.Proofs.Event.Reaching
import EffectGraph.Proofs.Session.Spans

/-!
# Cells that are folded over the occurrences of a source

A fold attaches a reducer to a source and to a cell of its own. As long as the cell exists and nobody
else writes it, all that happens to its value is that the reducer is applied to it, once for each
payload. `FoldCell.Moves` says of two states which payloads these are, and how many occurrences the
source has had in between.
-/

namespace EffectGraph

open Exec World

/-- A cell that is folded over the occurrences of a source. -/
structure FoldCell where
  /-- The sources at some time after the fold was attached. -/
  hub : Hub
  source : SourceId
  target : SignalId
  reducer : Value → Value → Script
  /-- What the reducer makes of the value of the cell and a payload. -/
  step : Value → Value → Except Interrupt Value

def Subscriber.writes (cell : SignalId) (subscriber : Subscriber) : Bool :=
  subscriber.target? = some cell

theorem Subscriber.place?_of_writes {cell : SignalId} {subscriber : Subscriber}
    (h : subscriber.writes cell = true) : subscriber.place? = none := by
  cases subscriber with
  | forward source => simp [writes, target?] at h
  | fold | foldProgram | listener => rfl

/-- The payload of an occurrence that reaches a source. -/
def Change.payload? (hub : Hub) (source : SourceId) : Change → Option Value
  | .fired origin payload => if hub.Reaches origin source then some payload else none
  | .written _ => none

/-- The payloads that were fired on sources from which the given one is reached, in order. -/
def payloadsTo (hub : Hub) (source : SourceId) (changes : List Change) : List Value :=
  changes.filterMap (·.payload? hub source)

theorem payloadsTo_fired (hub : Hub) (source origin : SourceId) (payload : Value) :
    payloadsTo hub source [.fired origin payload] =
      if hub.Reaches origin source then [payload] else [] := by
  by_cases hreaches : hub.Reaches origin source
  · simp [payloadsTo, Change.payload?, hreaches]
  · simp [payloadsTo, Change.payload?, hreaches]

theorem payloadsTo_append (hub : Hub) (source : SourceId) (changes later : List Change) :
    payloadsTo hub source (changes ++ later) =
      payloadsTo hub source changes ++ payloadsTo hub source later :=
  List.filterMap_append

namespace FoldCell

variable (c : FoldCell)

/-- The value of the cell after a payload. If the reducer fails, the cell keeps its value. -/
def next (current payload : Value) : Value :=
  match c.step current payload with
  | .ok value => value
  | .error _ => current

/-- Nobody requests a write of the cell. -/
def Undisturbed (since : List Moment) : Prop :=
  .written c.target ∉ queuedIn since ∧ .written c.target ∉ appliedIn since

/-- The fold is attached to its source: it is the only subscriber that writes the cell. -/
structure Subscribed (hub : Hub) : Prop where
  known : c.source.index < hub.sources.size
  reaches_iff : ∀ a, hub.Reaches a c.source ↔ c.hub.Reaches a c.source
  once : ∀ k, (hub.roads.items k).filter (·.writes c.target) =
    if k = c.source.index then [.fold c.target c.reducer] else []

/-- The fold is attached, and no write of the cell waits. -/
structure Attached (w : World) : Prop where
  cell : w.graph.OnlyEver (· = .cell) c.target
  subscribed : c.Subscribed w.hub
  unqueued : .written c.target ∉ w.queue

variable {c}

/-! ## Sources -/

namespace Subscribed

variable {hub hub' : Hub}

theorem extend (h : c.Subscribed hub) (hextends : hub.Extends hub')
    (honce : ∀ k, (hub'.roads.items k).filter (·.writes c.target) =
      (hub.roads.items k).filter (·.writes c.target)) : c.Subscribed hub' where
  known := h.known.trans_le hextends.size_le
  reaches_iff a := (hextends.reaches_iff h.known).trans (h.reaches_iff a)
  once k := (honce k).trans (h.once k)

theorem create (h : c.Subscribed hub) (name : String) : c.Subscribed (hub.create name).2 := by
  refine h.extend (Hub.extends_of_items ?_ (hub.items_create name)) fun k => ?_
  · simp [Hub.create]
  · rw [Hub.items_create]

theorem subscribe (h : c.Subscribed hub) {id : SourceId} {subscriber : Subscriber}
    (hplace : subscriber.place? = none) (hother : subscriber.writes c.target = false)
    (hsubscribe : hub.subscribe id subscriber = .ok hub') : c.Subscribed hub' := by
  refine h.extend (Hub.extends_subscribe hplace hsubscribe) fun k => ?_
  rw [Hub.items_subscribe hsubscribe, List.filter_append]
  split
  · simp [hother]
  · simp

theorem merge (h : c.Subscribed hub) {left right merged : SourceId}
    (hmerge : hub.merge left right = .ok (merged, hub')) : c.Subscribed hub' := by
  refine h.extend (Hub.extends_merge hmerge) fun k => ?_
  have hforward : (Subscriber.forward merged).writes c.target = false := by
    simp [Subscriber.writes, Subscriber.target?]
  rw [Hub.items_merge hmerge, List.filter_append, List.filter_append]
  split
  · split
    · simp [hforward]
    · simp [hforward]
  · split
    · simp [hforward]
    · simp

theorem detach (h : c.Subscribed hub) {removed : List SignalId} (hkept : c.target ∉ removed) :
    c.Subscribed (hub.detach removed) := by
  refine h.extend (hub.extends_detach removed) fun k => ?_
  rw [Hub.items_detach, List.filter_filter]
  refine List.filter_congr fun s _ => ?_
  by_cases hwrites : s.writes c.target = true
  · have htarget : s.target? = some c.target := by simpa [Subscriber.writes] using hwrites
    simp [hwrites, htarget, hkept]
  · simp [hwrites]

theorem deliver (h : c.Subscribed hub) {id : SourceId} {subscribers : List Subscriber}
    (hdeliver : hub.deliver id = .ok (subscribers, hub')) : c.Subscribed hub' := by
  obtain ⟨-, hitems, -⟩ := Hub.deliver_spec hdeliver
  refine h.extend (Hub.extends_of_items (Hub.size_deliver hdeliver).ge hitems) fun k => ?_
  rw [hitems]

/-- An occurrence that reaches the source goes to the fold, once, and is counted. Any other goes to
nobody who writes the cell, and is not counted. -/
theorem delivered (h : c.Subscribed hub) {origin : SourceId} {subscribers : List Subscriber}
    (hdeliver : hub.deliver origin = .ok (subscribers, hub')) :
    (subscribers.filter (·.writes c.target) =
      if c.hub.Reaches origin c.source then [.fold c.target c.reducer] else []) ∧
      hub'.occurrencesOf c.source = hub.occurrencesOf c.source +
        if c.hub.Reaches origin c.source then 1 else 0 := by
  obtain ⟨rfl, -, hcounts⟩ := Hub.deliver_spec hdeliver
  have hcount := hcounts c.source h.known
  have hwriters := Hub.reached_filter (·.writes c.target)
    (fun s hs => Subscriber.place?_of_writes hs) h.once origin
  simp only [Hub.mem_reached, h.reaches_iff] at hcount hwriters
  exact ⟨hwriters, hcount⟩

/-- An occurrence of a source that does not exist reaches no other. -/
theorem not_reaches_of_error (h : c.Subscribed hub) {origin : SourceId} {failure : Failure}
    (hdeliver : hub.deliver origin = .error failure) : ¬ c.hub.Reaches origin c.source := by
  intro hreaches
  obtain ⟨subscribers, hub', hok⟩ :=
    Hub.exists_deliver ((h.reaches_iff origin).2 hreaches).index_lt
  rw [hdeliver] at hok
  cases hok

end Subscribed

/-! ## What happens to the cell -/

/-- What happens between two states. If nobody else writes the cell and it still exists, its value has
been folded over some payloads; and the source has had so many occurrences. -/
structure Moves (c : FoldCell) (since : List Moment) (folded : List Value) (counted : Nat)
    (w w' : World) : Prop where
  past_eq : w'.past = since ++ w.past
  follows : Follows w w'
  keeps : c.Undisturbed since → w'.graph.contains c.target → c.Attached w →
    c.Attached w' ∧
      (∀ value, w.graph.value c.target = .ok value →
        w'.graph.value c.target = .ok (folded.foldl c.next value)) ∧
      w'.hub.occurrencesOf c.source = w.hub.occurrencesOf c.source + counted

theorem Undisturbed.append {later earlier : List Moment} (h : c.Undisturbed (later ++ earlier)) :
    c.Undisturbed later ∧ c.Undisturbed earlier := by
  obtain ⟨hqueued, happlied⟩ := h
  rw [queuedIn_append, List.mem_append, not_or] at hqueued
  rw [appliedIn_append, List.mem_append, not_or] at happlied
  exact ⟨⟨hqueued.2, happlied.2⟩, ⟨hqueued.1, happlied.1⟩⟩

namespace Moves

variable {since later : List Moment} {folded folded' : List Value} {counted counted' : Nat}
  {w w₁ w' : World}

theorem refl (w : World) : c.Moves [] [] 0 w w where
  past_eq := rfl
  follows := .refl w
  keeps _ _ h := ⟨h, fun _ hvalue => hvalue, rfl⟩

theorem trans (h : c.Moves since folded counted w w₁) (h' : c.Moves later folded' counted' w₁ w') :
    c.Moves (later ++ since) (folded ++ folded') (counted + counted') w w' where
  past_eq := by rw [h'.past_eq, h.past_eq, List.append_assoc]
  follows := h.follows.trans h'.follows
  keeps hundisturbed hcontains hattached := by
    obtain ⟨hlater, hsince⟩ := hundisturbed.append
    have hcontains₁ : w₁.graph.contains c.target :=
      (hattached.cell.follows h.follows).contains_before h'.follows hcontains
    obtain ⟨hattached₁, hvalue₁, hcount₁⟩ := h.keeps hsince hcontains₁ hattached
    obtain ⟨hattached', hvalue', hcount'⟩ := h'.keeps hlater hcontains hattached₁
    refine ⟨hattached', fun value hvalue => ?_, ?_⟩
    · rw [List.foldl_append]
      exact hvalue' _ (hvalue₁ value hvalue)
    · rw [hcount', hcount₁, Nat.add_assoc]

/-- Nothing happens to the cell while its value and its subscription stay. -/
theorem of_kept (hpast : w'.past = since ++ w.past) (hfollows : Follows w w')
    (hqueue : .written c.target ∉ w.queue → .written c.target ∉ w'.queue)
    (hkept : w'.graph.contains c.target → c.Attached w →
      w'.graph.value c.target = w.graph.value c.target ∧ c.Subscribed w'.hub ∧
        w'.hub.occurrencesOf c.source = w.hub.occurrencesOf c.source) :
    c.Moves since [] 0 w w' where
  past_eq := hpast
  follows := hfollows
  keeps _ hcontains h := by
    obtain ⟨hvalue, hsubscribed, hcount⟩ := hkept hcontains h
    refine ⟨⟨h.cell.follows hfollows, hsubscribed, hqueue h.unqueued⟩, fun value heq => ?_, hcount⟩
    rw [hvalue]
    exact heq

theorem of_same (hpast : w'.past = since ++ w.past) (hfollows : Follows w w')
    (hqueue : .written c.target ∉ w.queue → .written c.target ∉ w'.queue)
    (hgraph : w'.graph = w.graph) (hhub : w'.hub = w.hub) : c.Moves since [] 0 w w' := by
  refine of_kept hpast hfollows hqueue fun _ h => ⟨by rw [hgraph], ?_, by rw [hhub]⟩
  rw [hhub]
  exact h.subscribed

end Moves

end FoldCell

/-! ## Acts -/

namespace World

variable {w w' : World}

theorem Act.value_eq (h : Act w w') {cell : SignalId} (hcell : w.graph.OnlyEver (· = .cell) cell)
    (hcontains : w'.graph.contains cell) : w'.graph.value cell = w.graph.value cell := by
  obtain ⟨node', hnode'⟩ := Graph.contains_iff.1 hcontains
  obtain ⟨node, hnode, -⟩ := (Steps.follows h.steps).node_of_old hcell.1 hnode'
  have hiscell : w.graph.IsCell cell := ⟨node, hnode, hcell.2 node hnode⟩
  cases h with
  | host | evaluating | source | bind | merge | listen => rfl
  | @store id value graph hother hstore =>
    obtain ⟨-, rfl⟩ := Graph.settle_eq_ok.1 hstore
    have hne : cell ≠ id := by
      rintro rfl
      exact hother hiscell
    have hkept : (w.graph.modify id (Graph.settledNode value)).node? cell = some node := by
      rw [Graph.node?_modify, if_neg hne, hnode]
    exact Graph.value_eq_of_node? hnode hkept rfl
  | cell value =>
    have hkept := (Graph.grows_insertCell w.graph value).node?_old hnode
    exact Graph.value_eq_of_node? hnode hkept (Graph.joined_value _ _ _ _)
  | @insert kind id graph _ hinsert =>
    obtain ⟨rank, -, hg⟩ := Graph.grows_insert kind.nodup_dependencies hinsert
    exact Graph.value_eq_of_node? hnode (hg.node?_old hnode) (Graph.joined_value _ _ _ _)
  | remove hremove =>
    obtain ⟨graph, hgraph, rfl⟩ := removeSignal_eq_ok.1 hremove
    obtain ⟨-, -, rfl⟩ := Graph.remove_eq_ok.1 hgraph
    obtain ⟨-, old, hold, rfl⟩ := Graph.node?_of_erase hnode'
    exact Graph.value_eq_of_node? hold hnode' rfl
  | drop _ hremove =>
    obtain ⟨-, -, rfl⟩ := Graph.remove_eq_ok.1 hremove
    obtain ⟨-, old, hold, rfl⟩ := Graph.node?_of_erase hnode'
    exact Graph.value_eq_of_node? hold hnode' rfl
  | @attach source initial subscriber hub htarget hsubscribe =>
    have hkept := (Graph.grows_insertCell w.graph initial).node?_old hnode
    exact Graph.value_eq_of_node? hnode hkept (Graph.joined_value _ _ _ _)

/-- An act leaves the subscription of a fold alone, and counts no occurrence. -/
theorem Act.subscribed (h : Act w w') {c : FoldCell} (hattached : c.Attached w)
    (hcontains : w'.graph.contains c.target) :
    c.Subscribed w'.hub ∧
      w'.hub.occurrencesOf c.source = w.hub.occurrencesOf c.source := by
  have hsubscribed := hattached.subscribed
  cases h with
  | host | evaluating | store | cell | insert | drop => exact ⟨hsubscribed, rfl⟩
  | bind element event id =>
    exact ⟨⟨hsubscribed.known, hsubscribed.reaches_iff, hsubscribed.once⟩, rfl⟩
  | source name =>
    exact ⟨hsubscribed.create name, Hub.occurrencesOf_create name hsubscribed.known⟩
  | merge hmerge =>
    exact ⟨hsubscribed.merge hmerge, Hub.occurrencesOf_merge hmerge hsubscribed.known⟩
  | listen hsubscribe =>
    exact ⟨hsubscribed.subscribe rfl rfl hsubscribe, Hub.occurrencesOf_subscribe hsubscribe⟩
  | remove hremove =>
    obtain ⟨graph, hgraph, rfl⟩ := removeSignal_eq_ok.1 hremove
    obtain ⟨-, rfl, rfl⟩ := Graph.remove_eq_ok.1 hgraph
    obtain ⟨node', hnode'⟩ := Graph.contains_iff.1 hcontains
    have hkept := (Graph.node?_of_erase hnode').1
    exact ⟨hsubscribed.detach hkept, Hub.occurrencesOf_detach _⟩
  | @attach source initial subscriber hub htarget hsubscribe =>
    -- The new subscriber writes a new cell.
    have hother : subscriber.writes c.target = false := by
      have hne : (w.createCell initial).1 ≠ c.target := by
        intro heq
        have hlt := hattached.cell.1
        rw [← heq] at hlt
        exact lt_irrefl _ hlt
      simp [Subscriber.writes, htarget, hne]
    have hplace : subscriber.place? = none := by
      cases subscriber with
      | forward source => cases htarget
      | fold | foldProgram | listener => rfl
    exact ⟨hsubscribed.subscribe hplace hother hsubscribe, Hub.occurrencesOf_subscribe hsubscribe⟩

theorem Act.past_eq (h : Act w w') : ∃ since, w'.past = since ++ w.past ∧ appliedIn since = [] := by
  cases h with
  | host | store | cell | insert | drop | source | bind | merge | listen | attach =>
    exact ⟨[], rfl, rfl⟩
  | evaluating id inputs => exact ⟨[⟨.evaluating id inputs, .of w.toScene⟩], rfl, rfl⟩
  | remove hremove =>
    obtain ⟨graph, -, rfl⟩ := removeSignal_eq_ok.1 hremove
    exact ⟨[], rfl, rfl⟩

end World

/-! ## Scripts -/

namespace FoldCell

variable {c : FoldCell} {w w' : World}

/-- The payloads that were delivered to the source. -/
def payloads (c : FoldCell) (since : List Moment) : List Value :=
  payloadsTo c.hub c.source (appliedIn since)

theorem payloads_append (later earlier : List Moment) :
    c.payloads (later ++ earlier) = c.payloads earlier ++ c.payloads later := by
  rw [payloads, appliedIn_append, payloadsTo_append]
  rfl

theorem payloads_of_appliedIn_eq_nil {since : List Moment} (h : appliedIn since = []) :
    c.payloads since = [] := by
  rw [payloads, h]
  rfl

/-- The cell is folded over the payloads that are delivered, and the source counts them. -/
abbrev Receives (c : FoldCell) (since : List Moment) : World → World → Prop :=
  c.Moves since (c.payloads since) (c.payloads since).length

/-- One state leads to another, and while a change is being settled none is applied. -/
def Leads (c : FoldCell) (w w' : World) : Prop :=
  ∃ since, (w.settling = true → w'.settling = true ∧ appliedIn since = []) ∧ c.Receives since w w'

theorem Receives.trans {since later : List Moment} {w₁ : World} (h : c.Receives since w w₁)
    (h' : c.Receives later w₁ w') : c.Receives (later ++ since) w w' := by
  have hboth := Moves.trans h h'
  rw [← payloads_append, ← List.length_append, ← payloads_append] at hboth
  exact hboth

theorem Receives.of_moves {since : List Moment} (happlied : appliedIn since = [])
    (h : c.Moves since [] 0 w w') : c.Receives since w w' := by
  rw [Receives, payloads_of_appliedIn_eq_nil happlied]
  exact h

theorem leads_act (h : Act w w') : c.Leads w w' := by
  have hfollows := Steps.follows h.steps
  obtain ⟨hsettling, hqueue⟩ := h.queue_eq
  have hmoves {since : List Moment} (hpast : w'.past = since ++ w.past) :
      c.Moves since [] 0 w w' := by
    refine .of_kept hpast hfollows (by rw [hqueue]; exact id) fun hcontains hattached => ?_
    exact ⟨h.value_eq hattached.cell hcontains, h.subscribed hattached hcontains⟩
  obtain ⟨since, hpast, happlied⟩ := h.past_eq
  exact ⟨since, fun hset => ⟨hsettling.trans hset, happlied⟩, .of_moves happlied (hmoves hpast)⟩

theorem composes_leads (c : FoldCell) : Composes c.Leads fun _ _ => True where
  refl w := ⟨[], fun hsettling => ⟨hsettling, rfl⟩, .of_moves rfl (.refl w)⟩
  trans := by
    rintro w w₁ w' ⟨since, hsince, hmoves⟩ ⟨later, hlater, hmoves'⟩
    refine ⟨later ++ since, fun hsettling => ?_, hmoves.trans hmoves'⟩
    obtain ⟨hsettling₁, happlied⟩ := hsince hsettling
    obtain ⟨hsettling', happlied'⟩ := hlater hsettling₁
    refine ⟨hsettling', ?_⟩
    rw [appliedIn_append, happlied, happlied', List.append_nil]
  cut _ := trivial
  trans_cut _ _ := trivial

theorem admits_leads (c : FoldCell) : Admits c.Leads fun _ _ => True :=
  c.composes_leads.admits c.leads_act fun ⟨_, _, hmoves⟩ => hmoves.follows

end FoldCell

end EffectGraph
