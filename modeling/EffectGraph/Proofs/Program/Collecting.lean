import EffectGraph.Program.Combinators
import EffectGraph.Proofs.Program.Calling

/-!
# Running programs in a row

`Program.sequence` and `Program.chain` fold a list of programs into binds that are nested to the left:
what has been done so far is always the first part of the next bind, and the list that is being
collected is an ordinary value that is passed along. Either all programs yield, one after another
(`YieldAll`), or there is a first one that does not (`Program.yieldAll_or_fails`). In the first case
each of the two makes the calls of all programs in turn; in the second it ends like that program and
calls nothing more (`Program.collects_in_order`).
-/

namespace EffectGraph

variable {σ : Type}

/-- From the state `s`, the programs yield these values one after another, hand the interpreter these
calls, and leave it in the state `t`. -/
inductive YieldAll (answers : Answers σ) :
    List Program → σ → List Instruction → List Value → σ → Prop where
  | nil {s : σ} : YieldAll answers [] s [] [] s
  | cons {p : Program} {rest : List Program} {s s' t : σ} {own calls : List Instruction} {value : Value}
    {values : List Value} (hp : p.RunsTo answers s own (some (.ok value)) s')
    (hrest : YieldAll answers rest s' calls values t) :
    YieldAll answers (p :: rest) s (own ++ calls) (value :: values) t

namespace Program

variable {answers : Answers σ} {p done : Program} {programs front : List Program} {s s' u t : σ}
  {before calls : List Instruction} {values items : List Value} {answer : Option (Except Interrupt Value)}

theorem length_of_yieldAll (h : YieldAll answers programs s calls values t) :
    values.length = programs.length := by
  induction h with
  | nil => rfl
  | cons _ _ ih => rw [List.length_cons, List.length_cons, ih]

/-- What every answer keeps, the programs keep. -/
theorem keeps_of_yieldAll {P : σ → Prop}
    (hanswers : ∀ i s reply s', P s → answers i s = (some reply, s') → P s')
    (h : YieldAll answers programs s calls values t) (hs : P s) : P t := by
  induction h with
  | nil => exact hs
  | cons hp _ ih => exact ih (hp.keeps hanswers hs)

/-- The programs all yield, or there is a first one that does not. -/
theorem yieldAll_or_fails (answers : Answers σ) (programs : List Program) (s : σ) :
    (∃ calls values t, YieldAll answers programs s calls values t) ∨
      ∃ front p later before values u calls answer t, programs = front ++ p :: later ∧
        YieldAll answers front s before values u ∧ p.RunsTo answers u calls answer t ∧
          ∀ value, answer ≠ some (.ok value) := by
  induction programs generalizing s with
  | nil => exact .inl ⟨[], [], s, .nil⟩
  | cons p rest ih =>
    obtain ⟨own, answer, s', hp⟩ := exists_runsTo answers p s
    by_cases hvalue : ∃ value, answer = some (.ok value)
    · obtain ⟨value, rfl⟩ := hvalue
      rcases ih s' with ⟨calls, values, t, h⟩ |
        ⟨front, q, later, before, values, u, calls, answer, t, hrest, hfront, h⟩
      · exact .inl ⟨_, _, t, .cons hp h⟩
      · exact .inr ⟨p :: front, q, later, _, _, u, calls, answer, t, congrArg (p :: ·) hrest,
          .cons hp hfront, h⟩
    · exact .inr ⟨[], p, rest, [], [], s, own, answer, s', rfl, .nil, hp,
        fun value h => hvalue ⟨value, h⟩⟩

theorem RunsTo.map {value : Value} (h : p.RunsTo answers s calls (some (.ok value)) t)
    (f : Value → Value) : (p.map f).RunsTo answers s calls (some (.ok (f value))) t := by
  have hbind : (p.map f).RunsTo answers s (calls ++ []) (some (.ok (f value))) t :=
    h.bind (.ofPure answers (f value) t)
  rwa [List.append_nil] at hbind

/-! ## Binds that are nested to the left -/

/-- What does not yield is the end of everything that is folded around it. -/
theorem runsTo_foldl_of_fails (step : Program → Continuation)
    (h : done.RunsTo answers s calls answer t) (hfails : ∀ value, answer ≠ some (.ok value))
    (programs : List Program) :
    (programs.foldl (fun done p => done.bind (step p)) done).RunsTo answers s calls answer t := by
  induction programs generalizing done with
  | nil => exact h
  | cons p rest ih => exact ih (h.bind_of_fails hfails (step p))

/-- Each program in turn has its value added to the list that was collected before. -/
theorem runsTo_collect (hdone : done.RunsTo answers s before (some (.ok (.list items))) s')
    (h : YieldAll answers programs s' calls values t) :
    (programs.foldl (fun done p => done.bind fun items => p.map (pushItem items)) done).RunsTo answers s
      (before ++ calls) (some (.ok (.list (items ++ values)))) t := by
  induction h generalizing done before items with
  | nil => simpa only [List.foldl_nil, List.append_nil] using hdone
  | @cons p rest _ s₁ _ own _ value _ hp _ ih =>
    have hpushed : (p.map (pushItem (.list items))).RunsTo answers _ own
        (some (.ok (.list (items ++ [value])))) s₁ := hp.map _
    have hthis : (done.bind fun items => p.map (pushItem items)).RunsTo answers s (before ++ own)
        (some (.ok (.list (items ++ [value])))) s₁ := hdone.bind hpushed
    have hrest := ih hthis
    rwa [List.append_assoc, List.append_assoc, List.singleton_append] at hrest

/-- Each program in turn has its value take the place of the one before. -/
theorem runsTo_replace {value : Value} (hdone : done.RunsTo answers s before (some (.ok value)) s')
    (h : YieldAll answers programs s' calls values t) :
    (programs.foldl followedBy done).RunsTo answers s (before ++ calls)
      (some (.ok (values.getLastD value))) t := by
  induction h generalizing done before value with
  | nil => simpa only [List.foldl_nil, List.append_nil, List.getLastD_nil] using hdone
  | @cons p rest _ s₁ _ own _ value' _ hp _ ih =>
    have hthis : (done.followedBy p).RunsTo answers s (before ++ own) (some (.ok value')) s₁ :=
      hdone.bind hp
    have hrest := ih hthis
    rwa [List.append_assoc, ← List.foldl_cons, ← List.getLastD_cons] at hrest

theorem runsTo_sequence (h : YieldAll answers programs s calls values t) :
    (sequence programs).RunsTo answers s calls (some (.ok (.list values))) t :=
  runsTo_collect (.ofPure answers (.list []) s) h

theorem runsTo_chain (h : YieldAll answers programs s calls values t) :
    (chain programs).RunsTo answers s calls (some (.ok (values.getLastD .unit))) t :=
  runsTo_replace (.ofPure answers .unit s) h

theorem runsTo_sequence_of_fails (hfront : YieldAll answers front s before values u)
    (hp : p.RunsTo answers u calls answer t) (hfails : ∀ value, answer ≠ some (.ok value))
    (later : List Program) :
    (sequence (front ++ p :: later)).RunsTo answers s (before ++ calls) answer t := by
  have hthis : ((sequence front).bind fun items => p.map (pushItem items)).RunsTo answers s
      (before ++ calls) answer t := (runsTo_sequence hfront).bind (hp.bind_of_fails hfails _)
  rw [sequence, List.foldl_append]
  exact runsTo_foldl_of_fails (fun p items => p.map (pushItem items)) hthis hfails later

theorem runsTo_chain_of_fails (hfront : YieldAll answers front s before values u)
    (hp : p.RunsTo answers u calls answer t) (hfails : ∀ value, answer ≠ some (.ok value))
    (later : List Program) :
    (chain (front ++ p :: later)).RunsTo answers s (before ++ calls) answer t := by
  have hthis : ((chain front).followedBy p).RunsTo answers s (before ++ calls) answer t :=
    (runsTo_chain hfront).bind hp
  rw [chain, List.foldl_append]
  exact runsTo_foldl_of_fails (fun p _ => p) hthis hfails later

/-- **Programs in a row run in order.** Whatever the interpreter, `sequence` makes the calls of its
programs in the order of the list. If they all yield, it yields the list of their values, as long as
the list of programs and in the same order, and `chain` makes the same calls and yields the last of
the values, or unit if there is none. Otherwise there is a first program that raises, aborts or gets
no answer: both end just so, and no program behind it makes any call. `traverse` is `sequence` of the
programs of its items. `lift2` runs its first program and then its second one, and combines their
values; if one of them does not yield, it ends like that one. -/
theorem collects_in_order (answers : Answers σ) :
    (∀ programs s calls values t, YieldAll answers programs s calls values t →
      values.length = programs.length ∧
        (sequence programs).RunsTo answers s calls (some (.ok (.list values))) t ∧
          (chain programs).RunsTo answers s calls (some (.ok (values.getLastD .unit))) t) ∧
    (∀ front p later s before values u calls answer t, YieldAll answers front s before values u →
      p.RunsTo answers u calls answer t → (∀ value, answer ≠ some (.ok value)) →
        (sequence (front ++ p :: later)).RunsTo answers s (before ++ calls) answer t ∧
          (chain (front ++ p :: later)).RunsTo answers s (before ++ calls) answer t) ∧
    (∀ programs s, (∃ calls values t, YieldAll answers programs s calls values t) ∨
      ∃ front p later before values u calls answer t, programs = front ++ p :: later ∧
        YieldAll answers front s before values u ∧ p.RunsTo answers u calls answer t ∧
          ∀ value, answer ≠ some (.ok value)) ∧
    (∀ (α : Type) (items : List α) (f : α → Program), traverse items f = sequence (items.map f)) ∧
    (∀ a b f s calls x u calls' y t, a.RunsTo answers s calls (some (.ok x)) u →
      b.RunsTo answers u calls' (some (.ok y)) t →
        (lift2 a b f).RunsTo answers s (calls ++ calls') (some (.ok (f x y))) t) ∧
    (∀ a b f s calls answer t, a.RunsTo answers s calls answer t →
      (∀ value, answer ≠ some (.ok value)) → (lift2 a b f).RunsTo answers s calls answer t) ∧
    ∀ a b f s calls x u calls' answer t, a.RunsTo answers s calls (some (.ok x)) u →
      b.RunsTo answers u calls' answer t → (∀ value, answer ≠ some (.ok value)) →
        (lift2 a b f).RunsTo answers s (calls ++ calls') answer t := by
  refine ⟨fun programs s calls values t h => ?_, ?_, yieldAll_or_fails answers, fun _ _ _ => rfl,
    ?_, ?_, ?_⟩
  · exact ⟨length_of_yieldAll h, runsTo_sequence h, runsTo_chain h⟩
  · intro front p later s before values u calls answer t hfront hp hfails
    exact ⟨runsTo_sequence_of_fails hfront hp hfails later, runsTo_chain_of_fails hfront hp hfails later⟩
  · intro a b f s calls x u calls' y t ha hb
    exact ha.bind (hb.map (f x))
  · intro a b f s calls answer t ha hfails
    exact ha.bind_of_fails hfails _
  · intro a b f s calls x u calls' answer t ha hb hfails
    exact ha.bind (hb.bind_of_fails hfails _)

/-- Answers every instruction with a list of whether it is the first one, and counts them. -/
private def tallying : Answers Nat := fun _ n => (some (.ok (.list [.bool (n = 0)])), n + 1)

private def ring : Instruction := ⟨"ring", [], .list⟩

/-- Two programs that both yield lists are collected into a list of two. If the second of three raises
a payload, the third makes no call. -/
theorem collects_in_order_raising :
    (sequence [.perform ring, .pure (.list [])]).RunsTo tallying 0 [ring]
      (some (.ok (.list [.list [.bool true], .list []]))) 1 ∧
    (sequence [.perform ring, .throw .unit, .perform ring]).RunsTo tallying 0 [ring]
      (some (.error (.raised .unit))) 1 ∧
    (lift2 (.perform ring) (.throw .unit) fun x _ => x).RunsTo tallying 0 [ring]
      (some (.error (.raised .unit))) 1 := by
  have hring : (Program.perform ring).RunsTo tallying 0 [ring] (some (.ok (.list [.bool true]))) 1 :=
    runsTo_iff.2 rfl
  have hraise : (Program.throw .unit).RunsTo tallying 1 [] (some (.error (.raised .unit))) 1 :=
    .ofThrow tallying .unit 1
  obtain ⟨hyield, hfail, -, -, -, -, hlift⟩ := collects_in_order tallying
  refine ⟨(hyield _ _ _ _ _ (.cons hring (.cons (.ofPure tallying (.list []) 1) .nil))).2.1, ?_, ?_⟩
  · exact (hfail [_] _ [_] _ _ _ _ _ _ _ (.cons hring .nil) hraise (by simp)).1
  · exact hlift _ _ _ _ _ _ _ _ _ _ hring hraise (by simp)

end Program

end EffectGraph
