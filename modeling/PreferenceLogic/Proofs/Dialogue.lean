import PreferenceLogic.Console
import PreferenceLogic.Proofs.Text.Lines

/-!
# What dialogues add to a sink

A text is written in parts as it is written at once, on every sink. On a sink that takes everything,
a dialogue adds to what the sink holds. What it adds, what it gives and how it leaves the generator
do not depend on what the sink holds already, so a dialogue that is a part of a longer one writes
there just what it writes to a sink of its own.

Definitions:
* `Dialogue.outcome`: what a dialogue gives, and the console it leaves.
* `Dialogue.Alone`: what a dialogue does with a sink of its own.
* `Dialogue.Adds`: what a dialogue does with a sink that holds something already.

Results:
* `Sink.put_append`: bytes are taken in parts as they are taken at once.
* `Dialogue.forM_write`: texts are written one after the other as they are written at once.
* `Dialogue.Adds.bind`, `Dialogue.Adds.tryCatch`: what is added by one dialogue after the other, and
  by the dialogue that answers an error.
* `Task.exists_adds`: a task writes a report, or it says why there is none and writes nothing. Only
  the exemplification uses the generator.
-/

namespace PreferenceLogic

/-! ## Sinks -/

namespace Sink

theorem append_append_list (before : Array UInt8) (w w' : List UInt8) :
    before ++ w ++ w' = before ++ (w ++ w') :=
  Array.ext' (by simp)

theorem put_nil (s : Sink) : s.put [] = (true, s) := by
  obtain ⟨_ | room, written⟩ := s <;> simp [put]

theorem put_append (s : Sink) (x y : List UInt8) :
    s.put (x ++ y) = if (s.put x).1 then (s.put x).2.put y else s.put x := by
  obtain ⟨_ | room, written⟩ := s
  · simp only [put, if_true, append_append_list]
  · simp only [put, decide_eq_true_eq, List.length_append]
    split
    · rename_i hx
      have hlength : (x.length + y.length ≤ room) ↔ y.length ≤ room - x.length := by omega
      rw [List.take_append, List.take_of_length_le hx, append_append_list, Nat.sub_sub]
      simp only [hlength]
    · rename_i hx
      have hboth : ¬ x.length + y.length ≤ room := by omega
      have hnone : room - x.length = 0 := by omega
      have hleft : room - (x.length + y.length) = 0 := by omega
      rw [decide_eq_false hx, decide_eq_false hboth, List.take_append, hleft, hnone, List.take_zero,
        List.append_nil]

end Sink

namespace Dialogue

variable {α β : Type}

/-! ## Texts in parts -/

/-- What a dialogue gives on a console, and the console it leaves. -/
def outcome (d : Dialogue α) (c : Console) : Except Dialogue.Error α × Console := d.run.run c

theorem outcome_bind (d : Dialogue α) (f : α → Dialogue β) (c : Console) :
    (d >>= f).outcome c = match d.outcome c with
      | (.ok a, c') => (f a).outcome c'
      | (.error e, c') => (.error e, c') := by
  unfold outcome
  rw [ExceptT.run_bind, StateT.run_bind]
  rcases d.run.run c with ⟨e | a, c'⟩ <;> rfl

theorem outcome_write (t : Text) (s : Sink) (g : Generator) :
    (write t).outcome ⟨s, g⟩ =
      (if (s.put (Utf8.encode t)).1 then .ok () else .error .full,
        ⟨(s.put (Utf8.encode t)).2, g⟩) := rfl

theorem ext_outcome {d d' : Dialogue α} (h : ∀ s g, d.outcome ⟨s, g⟩ = d'.outcome ⟨s, g⟩) :
    d = d' :=
  funext fun c => h c.sink c.generator

theorem write_nil : write [] = pure () := by
  refine ext_outcome fun s g => ?_
  rw [outcome_write, show Utf8.encode [] = [] from rfl, s.put_nil]
  rfl

theorem write_append (t t' : Text) : write (t ++ t') = write t >>= fun _ => write t' := by
  refine ext_outcome fun s g => ?_
  rw [outcome_bind, outcome_write, outcome_write, Utf8.encode_append, s.put_append]
  split <;> rfl

/-- Writing texts one after the other is writing them at once. -/
theorem forM_write (parts : List Text) :
    (parts.forM write : Dialogue Unit) = write parts.flatten := by
  induction parts with
  | nil => exact write_nil.symm
  | cons part parts ih =>
    show (write part >>= fun _ => parts.forM write) = _
    rw [ih, List.flatten_cons, write_append]

theorem print_eq_write (parts : List Text) : print parts = write parts.flatten := forM_write parts

/-! ## Additions -/

/-- With a sink of its own, which takes everything, and the generator `g`, the dialogue `d` gives
`r`, writes `w` and leaves the generator `g'`. -/
def Alone (d : Dialogue α) (g : Generator) (r : Except Dialogue.Error α) (w : List UInt8)
    (g' : Generator) : Prop :=
  d.outcome { generator := g } = (r, { sink := { written := w.toArray }, generator := g' })

/-- Whatever a sink that takes everything holds already, the dialogue `d` gives `r`, writes `w`
after it and leaves the generator `g'`. -/
def Adds (d : Dialogue α) (g : Generator) (r : Except Dialogue.Error α) (w : List UInt8)
    (g' : Generator) : Prop :=
  ∀ before : Array UInt8, d.outcome { sink := { written := before }, generator := g } =
    (r, { sink := { written := before ++ w }, generator := g' })

variable {d : Dialogue α} {f : α → Dialogue β} {g g' g'' : Generator} {w w' : List UInt8} {a : α}

theorem Adds.alone {r : Except Dialogue.Error α} (h : Adds d g r w g') : Alone d g r w g' := by
  have hempty : (#[] : Array UInt8) ++ w = w.toArray := Array.ext' (by simp)
  unfold Alone
  rw [← hempty]
  exact h #[]

/-- A dialogue does one thing only. -/
theorem Alone.unique {r r' : Except Dialogue.Error α} (h : Alone d g r w g')
    (h' : Alone d g r' w' g'') : r = r' ∧ w = w' ∧ g' = g'' := by
  unfold Alone at h h'
  rw [h] at h'
  simpa using h'

/-! ## Steps -/

theorem adds_pure (a : α) (g : Generator) : Adds (pure a) g (.ok a) [] g := by
  intro before
  rw [Array.appendList_nil]
  rfl

theorem adds_write (t : Text) (g : Generator) : Adds (write t) g (.ok ()) (Utf8.encode t) g :=
  fun _ => rfl

theorem adds_print (parts : List Text) (g : Generator) :
    Adds (print parts) g (.ok ()) (Utf8.encode parts.flatten) g := by
  rw [print_eq_write]
  exact adds_write _ g

/-- Sampling writes nothing. -/
theorem adds_sample (s : Problem.Sampling α) (g : Generator) :
    Adds (sample s) g ((s.run.run g).1.mapError .problem) [] (s.run.run g).2 := by
  intro before
  rw [Array.appendList_nil]
  rfl

/-! ## Sequences of steps -/

theorem Adds.bind {r : Except Dialogue.Error β} (hd : Adds d g (.ok a) w g')
    (hf : Adds (f a) g' r w' g'') : Adds (d >>= f) g r (w ++ w') g'' := by
  intro before
  rw [outcome_bind, hd before]
  show (f a).outcome _ = _
  rw [hf, Sink.append_append_list]

/-- What is made of a result at the end adds nothing. -/
theorem Adds.map (hd : Adds d g (.ok a) w g') (f : α → β) :
    Adds (d >>= fun x => pure (f x)) g (.ok (f a)) w g' := by
  have hbind := hd.bind (f := fun x => pure (f x)) (adds_pure (f a) g')
  rwa [List.append_nil] at hbind

theorem Adds.bind_error {e : Dialogue.Error} (hd : Adds d g (.error e) w g')
    (f : α → Dialogue β) : Adds (d >>= f) g (.error e) w g' := by
  intro before
  rw [outcome_bind, hd before]

theorem outcome_tryCatch (d : Dialogue α) (answer : Dialogue.Error → Dialogue α) (c : Console) :
    outcome (tryCatch d answer) c = match d.outcome c with
      | (.ok a, c') => (.ok a, c')
      | (.error e, c') => (answer e).outcome c' := by
  unfold outcome
  rw [ExceptT.run_tryCatch, StateT.run_bind]
  rcases d.run.run c with ⟨e | a, c'⟩ <;> rfl

theorem Adds.tryCatch {answer : Dialogue.Error → Dialogue α} (hd : Adds d g (.ok a) w g') :
    Adds (MonadExcept.tryCatch d answer) g (.ok a) w g' := by
  intro before
  rw [outcome_tryCatch, hd before]

theorem Adds.tryCatch_error {answer : Dialogue.Error → Dialogue α} {e : Dialogue.Error}
    {r : Except Dialogue.Error α} (hd : Adds d g (.error e) w g')
    (hanswer : Adds (answer e) g' r w' g'') :
    Adds (MonadExcept.tryCatch d answer) g r (w ++ w') g'' := by
  intro before
  rw [outcome_tryCatch, hd before]
  show (answer e).outcome _ = _
  rw [hanswer, Sink.append_append_list]

end Dialogue

/-! ## Tasks -/

/-- A task writes its report, or the problem has no answer and nothing is written. Only the
exemplification uses the generator. -/
theorem Task.exists_adds (sampler : Sampler) (p : Problem) (logic : Logic) (task : Task)
    (g : Generator) :
    ∃ g', (task = .exemplification ∨ g' = g) ∧
      ((∃ w, Dialogue.Adds (task.perform sampler p logic) g (.ok ()) w g') ∨
        ∃ cause,
          Dialogue.Adds (task.perform sampler p logic) g (.error (.problem cause)) [] g') := by
  cases task with
  | encoding => exact ⟨g, .inr rfl, .inl ⟨_, Dialogue.adds_print _ g⟩⟩
  | feasibility => exact ⟨g, .inr rfl, .inl ⟨_, Dialogue.adds_print _ g⟩⟩
  | table => exact ⟨g, .inr rfl, .inl ⟨_, Dialogue.adds_print _ g⟩⟩
  | optimization => exact ⟨g, .inr rfl, .inl ⟨_, Dialogue.adds_print _ g⟩⟩
  | exemplification =>
    have hsample := Dialogue.adds_sample (p.sampleExample sampler logic) g
    refine ⟨((p.sampleExample sampler logic).run.run g).2, .inl rfl, ?_⟩
    cases hresult : ((p.sampleExample sampler logic).run.run g).1 with
    | ok e =>
      rw [hresult] at hsample
      exact .inl ⟨_, hsample.bind (Dialogue.adds_print _ _)⟩
    | error cause =>
      rw [hresult] at hsample
      exact .inr ⟨cause, hsample.bind_error _⟩

/-- A task does on any sink what it does with a sink of its own. -/
theorem Task.adds_of_alone {sampler : Sampler} {p : Problem} {logic : Logic} {task : Task}
    {g g' : Generator} {r : Except Dialogue.Error Unit} {w : List UInt8}
    (h : (task.perform sampler p logic).Alone g r w g') :
    (task.perform sampler p logic).Adds g r w g' := by
  obtain ⟨g'', -, ⟨w', hadds⟩ | ⟨cause, hadds⟩⟩ := exists_adds sampler p logic task g
  · obtain ⟨rfl, rfl, rfl⟩ := h.unique hadds.alone
    exact hadds
  · obtain ⟨rfl, rfl, rfl⟩ := h.unique hadds.alone
    exact hadds

end PreferenceLogic
