import EffectGraph.Catalog.Standard
import EffectGraph.Proofs.Session.Calls

/-!
# Programs over the catalog

The handlers of the catalog remove no nodes but those that a reaction has created, and the listeners
that they add are reactions: each runs a program over the instructions that the program which added it
was over. So whatever is said of scripts that make such calls holds of programs over the catalog
(`Session.HandlesCatalog.makes`).
-/

namespace EffectGraph

/-- The listener runs a program over some instructions in reaction to an occurrence. -/
def ReactsWith (tags : Tag → Prop) (listener : Value → Script) : Prop :=
  ∀ payload, ∃ (program : Program) (finish : Except Failure Value → Except Interrupt Value),
    program.Over tags ∧ listener payload = .react program fun result => .done (finish result)

/-- No nodes are removed but by reactions, and listeners are reactions. -/
def Calls.reactions (tags : Tag → Prop) : Calls := ⟨False, tags, ReactsWith tags⟩

/-! ## Routines -/

namespace Routine

variable {calls : Calls} {α β : Type} {routine : Routine α} {f : α → Routine β}

/-- Whatever comes after it, the routine makes such calls only. -/
def Makes (calls : Calls) (routine : Routine α) : Prop :=
  ∀ next, (∀ result, (next result).Makes calls) → (routine next).Makes calls

theorem Makes.script {routine : Routine Value} (h : routine.Makes calls) :
    routine.script.Makes calls := h _ fun result => .done result

theorem makes_pure (a : α) : (pure a : Routine α).Makes calls := fun _ hnext => hnext _

theorem makes_interrupt (i : Interrupt) : (interrupt i : Routine α).Makes calls :=
  fun _ hnext => hnext _

theorem Makes.bind (h : routine.Makes calls) (hf : ∀ a, (f a).Makes calls) :
    (routine >>= f).Makes calls := by
  refine fun next hnext => h _ fun result => ?_
  cases result with
  | error i => exact hnext _
  | ok a => exact hf a next hnext

/-- What comes after a result that may be a failure matters only if it is none. -/
theorem makes_ofExcept_bind {result : Except Failure α} (hf : ∀ a, result = .ok a → (f a).Makes calls) :
    (ofExcept result >>= f).Makes calls := by
  cases result with
  | error failure => exact fun _ hnext => hnext _
  | ok a => exact hf a rfl

theorem makes_ofExcept (result : Except Failure α) : (ofExcept result).Makes calls := by
  cases result with
  | error failure => exact makes_interrupt _
  | ok a => exact makes_pure a

/-- A call is one that is allowed if that is so whatever comes after it. -/
theorem makes_call {script : (Except Failure α → Script) → Script}
    (h : ∀ next, (∀ reply, (next reply).Makes calls) → (script next).Makes calls) :
    (call script).Makes calls :=
  fun _ hnext => h _ fun reply => makes_ofExcept reply _ hnext

theorem makes_ask {request : Request} (hrequest : ¬ request.Removes) :
    (ask request).Makes calls :=
  fun _ hnext => .ask (fun hremoves => absurd hremoves hrequest) fun _ => hnext _

theorem makes_read (value : Value) : (read value).Makes calls :=
  makes_call fun _ hnext => .ask False.elim hnext

theorem makes_sample (id : SignalId) : (sample id).Makes calls :=
  makes_call fun _ hnext => .ask False.elim hnext

theorem makes_merge (left right : SourceId) : (merge left right).Makes calls :=
  makes_call fun _ hnext => .ask False.elim hnext

theorem makes_property (id : ElementId) (name : String) : (property id name).Makes calls :=
  makes_call fun _ hnext => .ask False.elim hnext

theorem makes_setProperty (id : ElementId) (name : String) (value : Value) :
    (setProperty id name value).Makes calls :=
  makes_call fun _ hnext => .ask False.elim hnext

theorem makes_report (event : Event) : (report event).Makes calls := makes_ask id

theorem makes_set (cell : SignalId) (value : Value) : (set cell value).Makes calls :=
  makes_call fun _ hnext => .set hnext

theorem makes_derive (operands : List Value) {compute : List Value → Routine Value}
    (hcompute : ∀ inputs, (compute inputs).Makes calls) : (derive operands compute).Makes calls :=
  fun _ hnext => .derive (fun inputs => (hcompute inputs).script) hnext

theorem makes_watch (input : Value) {effect : Value → Routine Value}
    (heffect : ∀ value, (effect value).Makes calls) : (watch input effect).Makes calls :=
  fun _ hnext => .watch (fun value => (heffect value).script) hnext

theorem makes_fold (source : SourceId) (initial : Value) (reducer : Value → Value → Routine Value) :
    (fold source initial reducer).Makes calls :=
  makes_call fun _ hnext => .fold hnext

theorem makes_constantOn (source : SourceId) (value : Value) :
    (constantOn source value).Makes calls :=
  makes_call fun _ hnext => .fold hnext

/-- The first value comes from a reaction. -/
theorem makes_foldM (source : SourceId) {initial : Program} (hinitial : initial.Over calls.tags)
    (reducer : Value → Value → Program) : (foldM source initial reducer).Makes calls := by
  refine makes_call fun next hnext => .ask False.elim fun name => ?_
  cases name with
  | error failure => exact hnext _
  | ok _ =>
    refine .react hinitial fun seed => ?_
    cases seed with
    | error failure => exact hnext _
    | ok value => exact .foldProgram hnext

theorem makes_listen (source : SourceId) {listener : Value → Routine Value}
    (hlistens : calls.listens fun payload => (listener payload).script) :
    (listen source listener).Makes calls :=
  makes_call fun _ hnext => .listen hlistens hnext

theorem makes_run {program : Program} (hprogram : program.Over calls.tags) :
    (run program).Makes calls :=
  makes_call fun _ hnext => .run hprogram hnext

/-- The script of a reaction is a reaction. -/
theorem reactsWith_react {tags : Tag → Prop} {program : Value → Program}
    (hprogram : ∀ payload, (program payload).Over tags) :
    ReactsWith tags fun payload => (react (program payload)).script := by
  refine fun payload => ⟨program payload, Except.mapError Interrupt.ofFailure, hprogram payload, ?_⟩
  refine congrArg (Script.react (program payload)) (funext fun result => ?_)
  cases result with
  | error failure => rfl
  | ok value => rfl

end Routine

/-! ## Handlers -/

namespace Catalog

open Routine

variable {tags : Tag → Prop} {i : Instruction}

namespace Events

theorem handleOn_makes (i : Instruction) : (handleOn i).Makes (.reactions tags) := by
  refine Makes.script (Makes.bind (makes_ofExcept _) fun event => ?_)
  refine Makes.bind (makes_ofExcept _) fun target => ?_
  exact Makes.bind (makes_ask id) fun _ => makes_pure _

theorem handleSource_makes (i : Instruction) : (handleSource i).Makes (.reactions tags) := by
  refine Makes.script (Makes.bind (makes_ofExcept _) fun name => ?_)
  exact Makes.bind (makes_ask id) fun _ => makes_pure _

theorem handleFold_makes (i : Instruction) : (handleFold i).Makes (.reactions tags) := by
  refine Makes.script (Makes.bind (makes_ofExcept _) fun source => ?_)
  refine Makes.bind (makes_ofExcept _) fun initial => Makes.bind (makes_read _) fun _ => ?_
  refine Makes.bind (makes_ofExcept _) fun reducer => ?_
  exact Makes.bind (makes_fold _ _ _) fun _ => makes_pure _

theorem handleFoldM_makes (i : Instruction) : (handleFoldM i).Makes (.reactions tags) := by
  refine Makes.script (Makes.bind (makes_ofExcept _) fun source => ?_)
  refine Makes.bind (makes_ofExcept _) fun initial => Makes.bind (makes_read _) fun value => ?_
  refine Makes.bind (makes_ofExcept _) fun reducer => ?_
  exact Makes.bind (makes_foldM _ (.pure value) _) fun _ => makes_pure _

theorem handleConstantOn_makes (i : Instruction) :
    (handleConstantOn i).Makes (.reactions tags) := by
  refine Makes.script (Makes.bind (makes_ofExcept _) fun source => ?_)
  refine Makes.bind (makes_ofExcept _) fun value => Makes.bind (makes_read _) fun _ => ?_
  exact Makes.bind (makes_constantOn _ _) fun _ => makes_pure _

/-- The listener performs what the function among the operands gives. -/
theorem handleListen_makes (h : i.Over tags) : (handleListen i).Makes (.reactions tags) := by
  refine Makes.script (Makes.bind (makes_ofExcept _) fun source => ?_)
  refine makes_ofExcept_bind fun handler hhandler => ?_
  refine Makes.bind (makes_listen _ (reactsWith_react fun payload => ?_)) fun _ => makes_pure _
  exact h.function hhandler [payload]

theorem handleMerge_makes (i : Instruction) : (handleMerge i).Makes (.reactions tags) := by
  refine Makes.script (Makes.bind (makes_ofExcept _) fun left => ?_)
  refine Makes.bind (makes_ofExcept _) fun right => ?_
  exact Makes.bind (makes_merge _ _) fun _ => makes_pure _

theorem bundle_makes (h : i.Over tags) :
    ∀ entry ∈ bundle.handlers, (entry.2 i).Makes (.reactions tags) := by
  simp only [bundle, List.forall_mem_cons, List.not_mem_nil, false_imp_iff, implies_true, and_true]
  exact ⟨handleOn_makes i, handleSource_makes i, handleFold_makes i, handleFoldM_makes i,
    handleConstantOn_makes i, handleListen_makes h, handleMerge_makes i⟩

end Events

namespace Signals

theorem handleCell_makes (i : Instruction) : (handleCell i).Makes (.reactions tags) := by
  refine Makes.script (Makes.bind (makes_ofExcept _) fun initial => ?_)
  refine Makes.bind (makes_read _) fun _ => ?_
  exact Makes.bind (makes_ask id) fun _ => makes_pure _

theorem handleSample_makes (i : Instruction) : (handleSample i).Makes (.reactions tags) :=
  Makes.script (Makes.bind (makes_ofExcept _) fun _ => makes_read _)

theorem handleSet_makes (i : Instruction) : (handleSet i).Makes (.reactions tags) := by
  refine Makes.script (Makes.bind (makes_ofExcept _) fun target => ?_)
  refine Makes.bind (makes_ofExcept _) fun value => Makes.bind (makes_read _) fun _ => ?_
  exact Makes.bind (makes_set _ _) fun _ => makes_pure _

/-- The new value is that of a program which the function among the operands gives. -/
theorem handleModify_makes (h : i.Over tags) : (handleModify i).Makes (.reactions tags) := by
  refine Makes.script (Makes.bind (makes_ofExcept _) fun target => ?_)
  refine makes_ofExcept_bind fun update hupdate => Makes.bind (makes_sample _) fun current => ?_
  refine Makes.bind (makes_run (h.function hupdate [current])) fun next => ?_
  exact Makes.bind (makes_set _ _) fun _ => makes_pure _

theorem bundle_makes (h : i.Over tags) :
    ∀ entry ∈ bundle.handlers, (entry.2 i).Makes (.reactions tags) := by
  simp only [bundle, List.forall_mem_cons, List.not_mem_nil, false_imp_iff, implies_true, and_true]
  exact ⟨handleCell_makes i, handleSample_makes i, handleSet_makes i, handleModify_makes h⟩

end Signals

theorem binaryHandler_makes (first second : String)
    (compute : Tag → List Value → Except Interrupt Value) (i : Instruction) :
    (binaryHandler first second compute i).Makes (.reactions tags) := by
  refine Makes.script (Makes.bind (makes_ofExcept _) fun a => ?_)
  refine Makes.bind (makes_ofExcept _) fun b => makes_derive _ fun inputs => ?_
  exact fun _ hnext => hnext _

theorem Arithmetic.bundle_makes (i : Instruction) :
    ∀ entry ∈ bundle.handlers, (entry.2 i).Makes (.reactions tags) := by
  simp only [bundle, List.forall_mem_cons, List.not_mem_nil, false_imp_iff, implies_true, and_true]
  exact ⟨binaryHandler_makes _ _ _ i, binaryHandler_makes _ _ _ i, binaryHandler_makes _ _ _ i,
    binaryHandler_makes _ _ _ i⟩

theorem Texts.bundle_makes (i : Instruction) :
    ∀ entry ∈ bundle.handlers, (entry.2 i).Makes (.reactions tags) := by
  simp only [bundle, List.forall_mem_singleton]
  exact binaryHandler_makes _ _ _ i

theorem Lists.bundle_makes (i : Instruction) :
    ∀ entry ∈ bundle.handlers, (entry.2 i).Makes (.reactions tags) := by
  simp only [bundle, List.forall_mem_cons, List.not_mem_nil, false_imp_iff, implies_true, and_true]
  exact ⟨binaryHandler_makes _ _ _ i, binaryHandler_makes _ _ _ i⟩

namespace Logic

theorem handler_makes (rule : Rule) (i : Instruction) :
    (handler rule i).Makes (.reactions tags) := by
  refine Makes.script (Makes.bind (makes_ofExcept _) fun operands => ?_)
  exact makes_derive _ fun inputs => makes_ofExcept _

theorem bundle_makes (i : Instruction) :
    ∀ entry ∈ bundle.handlers, (entry.2 i).Makes (.reactions tags) := by
  intro entry hentry
  obtain ⟨rule, hrule⟩ : ∃ rule, entry.2 = handler rule := by
    simp only [bundle, List.mem_cons, List.not_mem_nil, or_false] at hentry
    rcases hentry with rfl | rfl | rfl | rfl | rfl | rfl | rfl | rfl
    all_goals exact ⟨_, rfl⟩
  rw [hrule]
  exact handler_makes rule i

end Logic

namespace Show

theorem reportMissing_makes {calls : Calls} (shapes : List Shape) :
    (reportMissing shapes).Makes calls := by
  induction shapes with
  | nil => exact makes_pure _
  | cons shape rest ih => exact Makes.bind (makes_report _) fun _ => ih

theorem bundle_makes (formatters : Formatters) (i : Instruction) :
    ∀ entry ∈ (bundle formatters).handlers, (entry.2 i).Makes (.reactions tags) := by
  simp only [bundle, List.forall_mem_singleton]
  refine Makes.script (Makes.bind (makes_ofExcept _) fun value => makes_derive _ fun inputs => ?_)
  refine Makes.bind (makes_ofExcept _) fun value => ?_
  exact Makes.bind (reportMissing_makes _) fun _ => makes_pure _

end Show

namespace Elements

theorem handleGetElementById_makes (i : Instruction) :
    (handleGetElementById i).Makes (.reactions tags) := by
  refine Makes.script (Makes.bind (makes_ofExcept _) fun domId => ?_)
  exact Makes.bind (makes_ask id) fun _ => makes_pure _

theorem handleGetProperty_makes (i : Instruction) :
    (handleGetProperty i).Makes (.reactions tags) := by
  refine Makes.script (Makes.bind (makes_ofExcept _) fun prop => ?_)
  exact Makes.bind (makes_ofExcept _) fun target => makes_property _ _

theorem handleSetProperty_makes (i : Instruction) :
    (handleSetProperty i).Makes (.reactions tags) := by
  refine Makes.script (Makes.bind (makes_ofExcept _) fun prop => ?_)
  refine Makes.bind (makes_ofExcept _) fun target => ?_
  refine Makes.bind (makes_ofExcept _) fun value => ?_
  refine Makes.bind (makes_watch _ fun current => ?_) fun _ => makes_pure _
  exact Makes.bind (makes_setProperty _ _ _) fun _ => makes_pure _

theorem bundle_makes (i : Instruction) :
    ∀ entry ∈ bundle.handlers, (entry.2 i).Makes (.reactions tags) := by
  simp only [bundle, List.forall_mem_cons, List.not_mem_nil, false_imp_iff, implies_true, and_true]
  exact ⟨handleGetElementById_makes i, handleGetProperty_makes i, handleSetProperty_makes i⟩

end Elements

theorem Log.bundle_makes (i : Instruction) :
    ∀ entry ∈ bundle.handlers, (entry.2 i).Makes (.reactions tags) := by
  simp only [bundle, List.forall_mem_singleton]
  refine Makes.script (Makes.bind (makes_ofExcept _) fun message => ?_)
  refine Makes.bind (makes_watch _ fun current => ?_) fun _ => makes_pure _
  exact Makes.bind (makes_report _) fun _ => makes_pure _

/-! ## Sessions -/

/-- All bundles of the catalog. -/
def bundles (formatters : Formatters) : List Bundle :=
  [Events.bundle, Signals.bundle, Arithmetic.bundle, Texts.bundle, Lists.bundle, Logic.bundle,
   Show.bundle formatters, Log.bundle, Elements.bundle]

/-- The handlers of the catalog with their tags. -/
def handlers (formatters : Formatters) : List (Tag × Handler) :=
  (bundles formatters).flatMap (·.handlers)

theorem bundle_subset_handlers {formatters : Formatters} {bundle : Bundle}
    (h : bundle ∈ bundles formatters) : bundle.handlers ⊆ handlers formatters :=
  fun _ hentry => List.mem_flatMap.2 ⟨bundle, h, hentry⟩

/-- The tag is that of an instruction of the catalog. -/
def Names (tag : Tag) : Prop := tag ∈ (handlers .default).map (·.1)

instance : DecidablePred Names := fun tag =>
  inferInstanceAs (Decidable (tag ∈ (handlers .default).map (·.1)))

theorem handlers_make (h : i.Over tags) {formatters : Formatters} {entry : Tag × Handler}
    (hentry : entry ∈ handlers formatters) : (entry.2 i).Makes (.reactions tags) := by
  obtain ⟨bundle, hbundle, hmem⟩ := List.mem_flatMap.1 hentry
  simp only [bundles, List.mem_cons, List.not_mem_nil, or_false] at hbundle
  rcases hbundle with rfl | rfl | rfl | rfl | rfl | rfl | rfl | rfl | rfl
  · exact Events.bundle_makes h entry hmem
  · exact Signals.bundle_makes h entry hmem
  · exact Arithmetic.bundle_makes i entry hmem
  · exact Texts.bundle_makes i entry hmem
  · exact Lists.bundle_makes i entry hmem
  · exact Logic.bundle_makes i entry hmem
  · exact Show.bundle_makes formatters i entry hmem
  · exact Log.bundle_makes i entry hmem
  · exact Elements.bundle_makes i entry hmem

end Catalog

namespace Session

variable {session : Session}

/-- Instructions of the catalog are handled as the catalog has it, if they are handled at all. -/
def HandlesCatalog (session : Session) : Prop :=
  ∀ tag handler, Catalog.Names tag → Keyed.get? tag session.handlers = some handler →
    ∃ formatters, (tag, handler) ∈ Catalog.handlers formatters

/-- The handlers make reaction calls on the instructions of the catalog. -/
theorem HandlesCatalog.makes (h : session.HandlesCatalog) :
    session.Makes (.reactions Catalog.Names) := by
  intro i handler hi hhandler
  obtain ⟨formatters, hmem⟩ := h i.tag handler hi.tag hhandler
  exact Catalog.handlers_make hi hmem

end Session

/-! ## Tables -/

namespace Keyed

variable {α : Type} {key k : String} {value v : α} {pairs : List (String × α)}

theorem mem_of_get?_eq_some (h : get? key pairs = some value) : (key, value) ∈ pairs := by
  induction pairs with
  | nil => cases h
  | cons pair rest ih =>
    obtain ⟨k, v⟩ := pair
    unfold get? at h
    split at h
    · rename_i hkey
      obtain rfl := Option.some.inj h
      exact hkey ▸ List.mem_cons_self
    · exact List.mem_cons_of_mem _ (ih h)

theorem mem_of_mem_insert (h : (k, v) ∈ insert key value pairs) :
    (k, v) = (key, value) ∨ (k, v) ∈ pairs := by
  induction pairs with
  | nil => exact .inl (List.mem_singleton.1 h)
  | cons pair rest ih =>
    obtain ⟨k', v'⟩ := pair
    unfold insert at h
    split at h
    · exact List.mem_cons.1 h
    · split at h
      · exact (List.mem_cons.1 h).imp_right (List.mem_cons_of_mem _)
      · rcases List.mem_cons.1 h with heq | hmem
        · exact .inr (heq ▸ List.mem_cons_self)
        · exact (ih hmem).imp_right (List.mem_cons_of_mem _)

end Keyed

namespace HandlerTable

variable {entry : Tag × Handler}

/-- Whoever is in a table after some handlers were set was there before or is one of these. -/
private theorem mem_foldl_insert {entries : List (Tag × Handler)} {table : HandlerTable}
    (h : entry ∈ (entries.foldl (fun t e => t.insert e.1 e.2) table).handlers) :
    entry ∈ table.handlers ∨ entry ∈ entries := by
  induction entries generalizing table with
  | nil => exact .inl h
  | cons first rest ih =>
    rcases ih h with hmem | hmem
    · rcases Keyed.mem_of_mem_insert hmem with heq | hmem
      · have hfirst : entry = first := heq
        exact .inr (hfirst ▸ List.mem_cons_self)
      · exact .inl hmem
    · exact .inr (List.mem_cons_of_mem _ hmem)

theorem mem_foldl_install {bundles : List Bundle} {table : HandlerTable}
    (h : entry ∈ (bundles.foldl install table).handlers) :
    entry ∈ table.handlers ∨ ∃ bundle ∈ bundles, entry ∈ bundle.handlers := by
  induction bundles generalizing table with
  | nil => exact .inl h
  | cons bundle rest ih =>
    rcases ih h with hmem | ⟨other, hother, hmem⟩
    · exact (mem_foldl_insert hmem).imp_right fun hmem => ⟨bundle, List.mem_cons_self, hmem⟩
    · exact .inr ⟨other, List.mem_cons_of_mem _ hother, hmem⟩

end HandlerTable

/-- A session with handlers of the catalog handles its instructions as the catalog has it. -/
theorem Catalog.handlesCatalog_of_subset (formatters : Formatters) {session : Session}
    (h : session.handlers ⊆ handlers formatters) : session.HandlesCatalog :=
  fun _ _ _ hhandler => ⟨formatters, h (Keyed.mem_of_get?_eq_some hhandler)⟩

/-- So does a session with bundles of the catalog. -/
theorem Catalog.handlesCatalog_of_bundles {formatters : Formatters} {installed : List Bundle}
    (h : installed ⊆ bundles formatters) (settings : Settings) :
    ((installed.foldl HandlerTable.install .empty).session settings).HandlesCatalog := by
  refine handlesCatalog_of_subset formatters fun entry hentry => ?_
  rcases HandlerTable.mem_foldl_install hentry with hmem | ⟨bundle, hbundle, hmem⟩
  · cases hmem
  · exact bundle_subset_handlers (h hbundle) hmem

end EffectGraph
