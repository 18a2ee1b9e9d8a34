import EffectGraph.Proofs.Demo.Starting

/-!
# Clicks on the page of the demonstration

The signals of an application may stand anywhere among others. When its source has an occurrence, its
cells are written and a pass goes along its chains; all other signals stay as they are. The counter
counts (`Page.ends_deliver_counter`). The list takes what the field holds before the field is cleared,
because reducers come before watches (`Page.ends_deliver_list`).
-/

namespace EffectGraph

namespace Demo

open Catalog Exec EffectGraph.Graph Program Session World

namespace Page

variable {page : Page} {session : Session} {hooks : Hooks} {w : World} {n : Nat}

/-! ## The counter -/

/-- The label of the counter follows its cell, and the element shows it. -/
theorem pass_counter {front back : List Node} {clicks : Nat} {document : Document}
    (hlength : front.length = n)
    (hgraph : w.graph = .ofNodes (front ++ (page.counterNodes n clicks).modify 0
      (settledNode (.number (counted (clicks + 1)))) ++ back))
    (hplan : w.graph.plan [⟨n⟩] = [⟨n + 1⟩, ⟨n + 2⟩, ⟨n + 3⟩])
    (hwrite : w.document.setProperty page.count "textContent" (.text (label (clicks + 1))) =
      .ok document) :
    (propagate session hooks [⟨n⟩]).Ends w []
      { w with graph := .ofNodes (front ++ page.counterNodes n (clicks + 1) ++ back), document } := by
  let counted' := (page.counterNodes n clicks).modify 0 (settledNode (.number (counted (clicks + 1))))
  let shown := counted'.modify 1 (settledNode (.text (Number.display (counted (clicks + 1)))))
  let labelled := shown.modify 2 (settledNode (.text (label (clicks + 1))))
  have hpartition : (w.graph.plan [⟨n⟩]).partition (isWatch w.graph) =
      ([⟨n + 3⟩], [⟨n + 1⟩, ⟨n + 2⟩]) := by
    have hshow : isWatch w.graph ⟨n + 1⟩ = false :=
      isWatch_within (i := 1) hlength hgraph rfl rfl
    have hlabel : isWatch w.graph ⟨n + 2⟩ = false :=
      isWatch_within (i := 2) hlength hgraph rfl rfl
    have hwatch : isWatch w.graph ⟨n + 3⟩ = true :=
      isWatch_within (i := 3) hlength hgraph rfl rfl
    simp [hplan, List.partition_eq_filter_filter, hshow, hlabel, hwatch]
  have hwatch : (evaluateAll session hooks [⟨n + 3⟩]).Ends
      { w with graph := .ofNodes (front ++ labelled ++ back) } []
      { w with graph := .ofNodes (front ++ page.counterNodes n (clicks + 1) ++ back), document } :=
    ends_evaluateAll_within (j := 2) hlength rfl rfl rfl rfl (recomputes_writing hwrite) rfl
      (ends_evaluateAll_nil _)
  have hconcat : (evaluateAll session hooks [⟨n + 2⟩, ⟨n + 3⟩]).Ends
      { w with graph := .ofNodes (front ++ shown ++ back) } [] _ :=
    ends_evaluateAll_within (j := 1) hlength rfl rfl rfl rfl (recomputes_concat _ _) rfl hwatch
  have hshow : (evaluateAll session hooks [⟨n + 1⟩, ⟨n + 2⟩, ⟨n + 3⟩]).Ends w [] _ :=
    ends_evaluateAll_within (j := 0) hlength hgraph rfl rfl rfl (recomputes_show _) rfl hconcat
  exact ends_propagate (List.cons_ne_nil _ _) hpartition hshow

/-- A click counts, and the element shows that. -/
theorem ends_deliver_counter {front back : List Node} {clicks : Nat} {document : Document}
    {source : SourceId} {payload : Value} {hub : Hub} (hlength : front.length = n)
    (hgraph : w.graph = .ofNodes (front ++ page.counterNodes n clicks ++ back))
    (hplan : (ofNodes ((front ++ page.counterNodes n clicks ++ back).map bare)).plan [⟨n⟩] =
      [⟨n + 1⟩, ⟨n + 2⟩, ⟨n + 3⟩])
    (hdeliver : w.hub.deliver source = .ok ((page.counterSource n clicks).subscribers, hub))
    (hwrite : w.document.setProperty page.count "textContent" (.text (label (clicks + 1))) =
      .ok document) :
    (deliver session hooks source payload).Ends w []
      { w with
        graph := .ofNodes (front ++ page.counterNodes n (clicks + 1) ++ back)
        hub
        document } := by
  let later := front ++ (page.counterNodes n clicks).modify 0
    (settledNode (.number (counted (clicks + 1)))) ++ back
  have hcell : (page.counterNodes n clicks)[0]? =
      some (nodeAfter clicks .cell (.number (counted clicks)) 0 [] [⟨n + 1⟩]) := rfl
  have hcurrent : w.graph.value ⟨n⟩ = .ok (.number (counted clicks)) := by
    rw [hgraph]
    exact value_within hlength back hcell
  have hstore : w.graph.settle ⟨n⟩ (.number (counted (clicks + 1))) = .ok (.ofNodes later) := by
    rw [hgraph]
    exact settle_within hlength back hcell _
  have hreduce : (reduceAll session hooks payload [] (page.counterSource n clicks).subscribers).Ends
      { w with hub } ([⟨n⟩], []) { w with graph := .ofNodes later, hub } :=
    ends_reduceAll_fold hcurrent (ends_runPure _ _) rfl hstore (ends_reduceAll_nil _ _ _)
  have hsame : later.map bare = (front ++ page.counterNodes n clicks ++ back).map bare := by
    simp only [later, List.map_append]
    rfl
  have hplan' : (ofNodes later).plan [⟨n⟩] = [⟨n + 1⟩, ⟨n + 2⟩, ⟨n + 3⟩] := by
    rw [plan_bare, hsame, hplan]
  exact ends_deliver hdeliver hreduce (pass_counter hlength rfl hplan' hwrite)
    (by simp [counterSource, Subscriber.listening?])

/-! ## The list -/

/-- The signals of the list once its cells have been written, and before the pass. -/
def submittedNodes (page : Page) (n : Nat) (items : List Value) (field : Value) : List Node :=
  ((page.todoNodes n items).modify 0 (settledNode (.list (items ++ [field])))).modify 3
    (settledNode (.text ""))

/-- The line follows the items, the field is cleared, and then the element shows the line. -/
theorem pass_list {front back : List Node} {items : List Value} {field : Value}
    {cleared document : Document} (hlength : front.length = n)
    (hgraph : w.graph = .ofNodes (front ++ page.submittedNodes n items field ++ back))
    (hplan : w.graph.plan [⟨n⟩, ⟨n + 3⟩] = [⟨n + 1⟩, ⟨n + 4⟩, ⟨n + 2⟩])
    (hclear : w.document.setProperty page.field "value" (.text "") = .ok cleared)
    (hshow : cleared.setProperty page.todos "textContent" (.text (line (items ++ [field]))) =
      .ok document) :
    (propagate session hooks [⟨n⟩, ⟨n + 3⟩]).Ends w []
      { w with
        graph := .ofNodes (front ++ page.todoNodes n (items ++ [field]) ++ back)
        document } := by
  let joined := (page.submittedNodes n items field).modify 1
    (settledNode (.text (line (items ++ [field]))))
  let emptied := joined.modify 4 (settledNode .unit)
  have hpartition : (w.graph.plan [⟨n⟩, ⟨n + 3⟩]).partition (isWatch w.graph) =
      ([⟨n + 4⟩, ⟨n + 2⟩], [⟨n + 1⟩]) := by
    have hline : isWatch w.graph ⟨n + 1⟩ = false := isWatch_within (i := 1) hlength hgraph rfl rfl
    have hfield : isWatch w.graph ⟨n + 4⟩ = true := isWatch_within (i := 4) hlength hgraph rfl rfl
    have htodos : isWatch w.graph ⟨n + 2⟩ = true := isWatch_within (i := 2) hlength hgraph rfl rfl
    simp [hplan, List.partition_eq_filter_filter, hline, hfield, htodos]
  have hnodes : emptied.modify 2 (settledNode .unit) = page.todoNodes n (items ++ [field]) := by
    simp only [todoNodes, List.length_append, List.length_singleton]
    rfl
  have htodos : (evaluateAll session hooks [⟨n + 2⟩]).Ends
      { w with graph := .ofNodes (front ++ emptied ++ back), document := cleared } []
      { w with
        graph := .ofNodes (front ++ page.todoNodes n (items ++ [field]) ++ back)
        document } := by
    rw [← hnodes]
    exact ends_evaluateAll_within (j := 1) hlength rfl rfl rfl rfl (recomputes_writing hshow) rfl
      (ends_evaluateAll_nil _)
  have hfield : (evaluateAll session hooks [⟨n + 4⟩, ⟨n + 2⟩]).Ends
      { w with graph := .ofNodes (front ++ joined ++ back) } [] _ :=
    ends_evaluateAll_within (j := 3) hlength rfl rfl rfl rfl (recomputes_writing hclear) rfl htodos
  have hline : (evaluateAll session hooks [⟨n + 1⟩, ⟨n + 4⟩, ⟨n + 2⟩]).Ends w [] _ :=
    ends_evaluateAll_within (j := 0) hlength hgraph rfl rfl rfl (recomputes_join _ ", ") rfl hfield
  exact ends_propagate (List.cons_ne_nil _ _) hpartition hline

/-- The program of the first reducer reads the field and appends what it holds to the items. -/
theorem runs_submission {level : Nat} {items : List Value} {field payload : Value}
    (hoffers : session.OffersCatalog) (hsettings : session.settings = {})
    (hfield : w.document.property page.field "value" = .ok field)
    (hplain : ∀ value ∈ field :: items, value.isReactive = false) :
    (runProgram session.settings (session.hooksAt (level + 1)).dispatch
      (page.submission (.list items) payload)).Ends w (.ok (.list (items ++ [field]))) w := by
  obtain ⟨hfieldPlain, hitemsPlain⟩ := List.forall_mem_cons.1 hplain
  have hoperands : ∀ value ∈ [.list items, field], value.isReactive = false :=
    List.forall_mem_cons.2 ⟨Value.not_isReactive_list.2 hitemsPlain, by simpa using hfieldPlain⟩
  have hprogram : Gives (session.hooksAt (level + 1)).dispatch (page.submission (.list items) payload)
      w (.list (items ++ [field])) w :=
    .operand rfl (gives_getProperty hoffers hfield) (gives_append hoffers hoperands)
  exact ends_runProgram (by rw [hsettings]) (by rw [hsettings]) hprogram

/-- The first reducer takes what the field holds to the items, before anything has cleared the field,
and the second one empties the cell of the field. -/
theorem ends_reduceAll_list {level : Nat} {front back : List Node} {items : List Value}
    {field payload : Value} {submissions : Nat} (hoffers : session.OffersCatalog)
    (hsettings : session.settings = {}) (hlength : front.length = n)
    (hgraph : w.graph = .ofNodes (front ++ page.todoNodes n items ++ back))
    (hfield : w.document.property page.field "value" = .ok field)
    (hplain : ∀ value ∈ field :: items, value.isReactive = false) :
    (reduceAll session (session.hooksAt (level + 1)) payload []
      (page.todoSource n submissions).subscribers).Ends w ([⟨n⟩, ⟨n + 3⟩], [])
      { w with graph := .ofNodes (front ++ page.submittedNodes n items field ++ back) } := by
  let taken := front ++ (page.todoNodes n items).modify 0 (settledNode (.list (items ++ [field]))) ++
    back
  have hitems : (page.todoNodes n items)[0]? =
      some (nodeAfter items.length .cell (.list items) 0 [] [⟨n + 1⟩]) := rfl
  have hempty : ((page.todoNodes n items).modify 0 (settledNode (.list (items ++ [field]))))[3]? =
      some (nodeAfter items.length .cell (.text "") 0 [] [⟨n + 4⟩]) := rfl
  have hcurrent : w.graph.value ⟨n⟩ = .ok (.list items) := by
    rw [hgraph]
    exact value_within hlength back hitems
  have hstore : w.graph.settle ⟨n⟩ (.list (items ++ [field])) = .ok (.ofNodes taken) := by
    rw [hgraph]
    exact settle_within hlength back hitems _
  have hread : w.graph.resolve (.list (items ++ [field])) = .ok (.list (items ++ [field])) := by
    refine Value.resolveWith_of_not_isReactive (Value.not_isReactive_list.2 fun item hitem => ?_)
    rcases List.mem_append.1 hitem with hitem | hitem
    · exact hplain item (List.mem_cons_of_mem _ hitem)
    · exact hplain item (List.mem_singleton.1 hitem ▸ List.mem_cons_self)
  have hclearing : (reduceAll session (session.hooksAt (level + 1)) payload [⟨n⟩]
      [.fold ⟨n + 3⟩ fun _ _ => .done (.ok (.text ""))]).Ends { w with graph := .ofNodes taken }
      ([⟨n⟩, ⟨n + 3⟩], [])
      { w with graph := .ofNodes (front ++ page.submittedNodes n items field ++ back) } := by
    refine ends_reduceAll_fold (value_within hlength back hempty) (ends_pure _ _) rfl
      (settle_within hlength back hempty _) ?_
    have hnew : (⟨n + 3⟩ : SignalId) ∉ [⟨n⟩] := by simp
    rw [if_neg hnew]
    exact ends_reduceAll_nil _ _ _
  exact ends_reduceAll_foldProgram hcurrent (runs_submission hoffers hsettings hfield hplain) hread
    (createdSince_mark w.graph) hstore hclearing

/-- A click takes what the field holds to the list and clears the field. -/
theorem ends_deliver_list {level : Nat} {front back : List Node} {items : List Value} {field : Value}
    {cleared document : Document} {source : SourceId} {payload : Value} {submissions : Nat} {hub : Hub}
    (hoffers : session.OffersCatalog) (hsettings : session.settings = {})
    (hlength : front.length = n)
    (hgraph : w.graph = .ofNodes (front ++ page.todoNodes n items ++ back))
    (hplan : (ofNodes ((front ++ page.todoNodes n items ++ back).map bare)).plan [⟨n⟩, ⟨n + 3⟩] =
      [⟨n + 1⟩, ⟨n + 4⟩, ⟨n + 2⟩])
    (hdeliver : w.hub.deliver source = .ok ((page.todoSource n submissions).subscribers, hub))
    (hfield : w.document.property page.field "value" = .ok field)
    (hplain : ∀ value ∈ field :: items, value.isReactive = false)
    (hclear : w.document.setProperty page.field "value" (.text "") = .ok cleared)
    (hshow : cleared.setProperty page.todos "textContent" (.text (line (items ++ [field]))) =
      .ok document) :
    (deliver session (session.hooksAt (level + 1)) source payload).Ends w []
      { w with
        graph := .ofNodes (front ++ page.todoNodes n (items ++ [field]) ++ back)
        hub
        document } := by
  let later := front ++ page.submittedNodes n items field ++ back
  have hreduce : (reduceAll session (session.hooksAt (level + 1)) payload []
      (page.todoSource n submissions).subscribers).Ends { w with hub } ([⟨n⟩, ⟨n + 3⟩], [])
      { w with graph := .ofNodes later, hub } :=
    ends_reduceAll_list (w := { w with hub }) hoffers hsettings hlength hgraph hfield hplain
  have hsame : later.map bare = (front ++ page.todoNodes n items ++ back).map bare := by
    simp only [later, List.map_append]
    rfl
  have hplan' : (ofNodes later).plan [⟨n⟩, ⟨n + 3⟩] = [⟨n + 1⟩, ⟨n + 4⟩, ⟨n + 2⟩] := by
    rw [plan_bare, hsame, hplan]
  exact ends_deliver hdeliver hreduce (pass_list hlength rfl hplan' hclear hshow)
    (by simp [todoSource, Subscriber.listening?])

end Page

end Demo

end EffectGraph
