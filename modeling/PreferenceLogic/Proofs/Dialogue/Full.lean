import PreferenceLogic.Proofs.Menu.Positions
import PreferenceLogic.Proofs.Pointwise

/-!
# Sinks that run full

A sink that takes only so many bytes gets the first bytes of what a sink without a bound would get.
The dialogue ends where the sink is full, in the middle of a text as well as between two texts, and
the error is that of the sink: no part of a dialogue answers it, also not the menu, which answers
errors about the problem.

Definitions:
* `Dialogue.Streams`: what a dialogue gives and writes, whatever the sink takes of it.
* `Dialogue.Steady`: a dialogue writes the same to all sinks, as far as they take it.
* `Dialogue.Cut`: what a dialogue does on sinks that take a number of bytes.

Results:
* `Dialogue.Steady.bind`, `Dialogue.Steady.tryCatch`: steady dialogues are put together to such.
* `Menu.steady_session`: a session is steady.
* `Dialogue.Steady.exists_cut`: a steady dialogue on a sink that runs full.
* `Dialogue.output_cut`: the reports and the sessions on a sink that runs full.
-/

namespace PreferenceLogic

namespace Dialogue

variable {α β : Type} {d : Dialogue α} {f : α → Dialogue β} {g g' g'' : Generator}
  {w w' : List UInt8} {a : α}

/-! ## What is written to a sink -/

/-- With the generator `g`, the dialogue `d` writes `w` to every sink as far as the sink takes it.
If all of it is taken, the dialogue gives `r` and leaves the generator `g'`. Otherwise it fails,
since the sink is full. -/
def Streams (d : Dialogue α) (g : Generator) (r : Except Dialogue.Error α) (w : List UInt8)
    (g' : Generator) : Prop :=
  ∀ s : Sink, if (s.put w).1 then d.outcome ⟨s, g⟩ = (r, ⟨(s.put w).2, g'⟩)
    else ∃ g'', d.outcome ⟨s, g⟩ = (.error .full, ⟨(s.put w).2, g''⟩)

theorem streams_pure (a : α) (g : Generator) : Streams (pure a) g (.ok a) [] g := by
  intro s
  rw [s.put_nil]
  rfl

theorem streams_throw (e : Dialogue.Error) (g : Generator) :
    Streams (throw e : Dialogue α) g (.error e) [] g := by
  intro s
  rw [s.put_nil]
  rfl

theorem streams_sample (s : Problem.Sampling α) (g : Generator) :
    Streams (sample s) g ((s.run.run g).1.mapError .problem) [] (s.run.run g).2 := by
  intro sink
  rw [sink.put_nil]
  rfl

theorem streams_write (t : Text) (g : Generator) :
    Streams (write t) g (.ok ()) (Utf8.encode t) g := by
  intro s
  rw [outcome_write]
  split
  · rfl
  · exact ⟨g, rfl⟩

/-- After a dialogue that has filled the sink, nothing more is written. -/
theorem Streams.bind {r : Except Dialogue.Error β} (hd : Streams d g (.ok a) w g')
    (hf : Streams (f a) g' r w' g'') : Streams (d >>= f) g r (w ++ w') g'' := by
  intro s
  have hfirst := hd s
  rw [outcome_bind, s.put_append]
  split at hfirst
  · rename_i htaken
    rw [if_pos htaken, hfirst]
    exact hf (s.put w).2
  · rename_i hfull
    obtain ⟨left, hfirst⟩ := hfirst
    rw [if_neg hfull, if_neg hfull, hfirst]
    exact ⟨left, rfl⟩

theorem Streams.bind_error {e : Dialogue.Error} (hd : Streams d g (.error e) w g')
    (f : α → Dialogue β) : Streams (d >>= f) g (.error e) w g' := by
  intro s
  have hfirst := hd s
  rw [outcome_bind]
  split at hfirst
  · rename_i htaken
    rw [if_pos htaken, hfirst]
  · rename_i hfull
    obtain ⟨left, hfirst⟩ := hfirst
    rw [if_neg hfull, hfirst]
    exact ⟨left, rfl⟩

section

variable {answer : Dialogue.Error → Dialogue α} (hfull : answer .full = throw .full)

include hfull

theorem Streams.tryCatch (hd : Streams d g (.ok a) w g') :
    Streams (MonadExcept.tryCatch d answer) g (.ok a) w g' := by
  intro s
  have hfirst := hd s
  rw [outcome_tryCatch]
  split at hfirst
  · rename_i htaken
    rw [if_pos htaken, hfirst]
  · rename_i hfilled
    obtain ⟨left, hfirst⟩ := hfirst
    rw [if_neg hfilled, hfirst]
    exact ⟨left, congrArg (outcome · _) hfull⟩

theorem Streams.tryCatch_error {e : Dialogue.Error} {r : Except Dialogue.Error α}
    (hd : Streams d g (.error e) w g') (hanswer : Streams (answer e) g' r w' g'') :
    Streams (MonadExcept.tryCatch d answer) g r (w ++ w') g'' := by
  intro s
  have hfirst := hd s
  rw [outcome_tryCatch, s.put_append]
  split at hfirst
  · rename_i htaken
    rw [if_pos htaken, hfirst]
    exact hanswer (s.put w).2
  · rename_i hfilled
    obtain ⟨left, hfirst⟩ := hfirst
    rw [if_neg hfilled, if_neg hfilled, hfirst]
    exact ⟨left, congrArg (outcome · _) hfull⟩

end

/-! ## Steady dialogues -/

/-- A dialogue writes the same to all sinks, as far as they take it, and fails since a sink is full
only if the sink is full. -/
def Steady (d : Dialogue α) : Prop :=
  ∀ g, ∃ r w g', Streams d g r w g' ∧ r ≠ .error .full

theorem steady_pure (a : α) : Steady (pure a : Dialogue α) := fun g =>
  ⟨_, _, _, streams_pure a g, nofun⟩

theorem steady_throw {e : Dialogue.Error} (h : e ≠ .full) : Steady (throw e : Dialogue α) :=
  fun g => ⟨_, _, _, streams_throw e g, fun heq => h (Except.error.inj heq)⟩

theorem steady_write (t : Text) : Steady (write t) := fun g =>
  ⟨_, _, _, streams_write t g, nofun⟩

theorem steady_print (parts : List Text) : Steady (print parts) := by
  rw [print_eq_write]
  exact steady_write _

theorem steady_sample (s : Problem.Sampling α) : Steady (sample s) := by
  intro g
  refine ⟨_, _, _, streams_sample s g, fun hfull => ?_⟩
  obtain ⟨_, -, hcause⟩ := mapError_eq_error_iff.mp hfull
  cases hcause

theorem Steady.bind (hd : Steady d) (hf : ∀ a, Steady (f a)) : Steady (d >>= f) := by
  intro g
  obtain ⟨r, w, g', hfirst, hne⟩ := hd g
  cases r with
  | ok a =>
    obtain ⟨r', w', g'', hrest, hne'⟩ := hf a g'
    exact ⟨_, _, _, hfirst.bind hrest, hne'⟩
  | error e => exact ⟨_, _, _, hfirst.bind_error f, fun heq => hne (by cases heq; rfl)⟩

theorem Steady.tryCatch {answer : Dialogue.Error → Dialogue α} (hd : Steady d)
    (hfull : answer .full = throw .full) (hanswer : ∀ e, e ≠ .full → Steady (answer e)) :
    Steady (MonadExcept.tryCatch d answer) := by
  intro g
  obtain ⟨r, w, g', hfirst, hne⟩ := hd g
  cases r with
  | ok a => exact ⟨_, _, _, hfirst.tryCatch hfull, hne⟩
  | error e =>
    obtain ⟨r', w', g'', hrest, hne'⟩ := hanswer e (fun heq => hne (heq ▸ rfl)) g'
    exact ⟨_, _, _, hfirst.tryCatch_error hfull hrest, hne'⟩

theorem steady_exemplify (sampler : Sampler) (p : Problem) (logic : Logic) :
    Steady (exemplify sampler p logic) :=
  (steady_sample _).bind fun _ => steady_print _

end Dialogue

/-! ## Reports and sessions -/

theorem Task.steady_perform (sampler : Sampler) (p : Problem) (logic : Logic) (task : Task) :
    (task.perform sampler p logic).Steady := by
  cases task with
  | encoding => exact Dialogue.steady_print _
  | feasibility => exact Dialogue.steady_print _
  | table => exact Dialogue.steady_print _
  | exemplification => exact Dialogue.steady_exemplify sampler p logic
  | optimization => exact Dialogue.steady_print _

namespace Menu

variable (sampler : Sampler) (p : Problem)

/-- Only an error about the problem is answered, and the answer is written. -/
theorem steady_attempt (logic : Logic) (task : Task) : (attempt sampler p logic task).Steady := by
  refine (task.steady_perform sampler p logic).tryCatch rfl fun e he => ?_
  cases e with
  | full => exact absurd rfl he
  | undecodable => exact Dialogue.steady_throw nofun
  | problem cause => exact Dialogue.steady_print _

theorem steady_answer (position : Position) (t : Text) : (answer sampler p position t).Steady := by
  cases position with
  | logics =>
    rw [answer]
    split
    · exact Dialogue.steady_pure _
    · exact (Dialogue.steady_write _).bind fun _ => Dialogue.steady_pure _
    · exact (Dialogue.steady_write _).bind fun _ => Dialogue.steady_pure _
  | tasks logic =>
    rw [answer]
    split
    · exact (steady_attempt sampler p logic _).bind fun _ => Dialogue.steady_pure _
    · exact Dialogue.steady_pure _
    · exact (Dialogue.steady_write _).bind fun _ => Dialogue.steady_pure _

theorem steady_respond (position : Position) (line : List UInt8) :
    (respond sampler p position line).Steady := by
  unfold respond
  split
  · exact Dialogue.steady_throw nofun
  · exact steady_answer sampler p position _

theorem steady_converse (lines : List (List UInt8)) (position : Position) :
    (converse sampler p position lines).Steady := by
  induction lines generalizing position with
  | nil =>
    exact (Dialogue.steady_write _).bind fun _ =>
      (Dialogue.steady_write _).bind fun _ => Dialogue.steady_pure _
  | cons line rest ih =>
    refine (Dialogue.steady_write _).bind fun _ =>
      (steady_respond sampler p position line).bind fun next => ?_
    cases next with
    | none => exact Dialogue.steady_pure rest
    | some next => exact ih next

theorem steady_session (input : List UInt8) : (session sampler p input).Steady := by
  rw [session_eq_converse]
  exact (Dialogue.steady_print _).bind fun _ => steady_converse sampler p _ _

end Menu

/-! ## Sinks that run full -/

namespace Dialogue

variable {α : Type} {d : Dialogue α}

/-- With the generator `g`, a dialogue that gives `r`, writes `w` and leaves the generator `g'` on a
sink that takes everything, beside what it does on a sink that takes `c` bytes and then fails. -/
structure Cut (d : Dialogue α) (g : Generator) (r : Except Dialogue.Error α) (w : List UInt8)
    (g' : Generator) : Prop where
  alone : d.Alone g r w g'
  /-- A sink that takes everything does not fail. -/
  result_ne_full : r ≠ .error .full
  /-- If there is room for all that is written, nothing is different. -/
  outcome_of_le : ∀ c, w.length ≤ c →
    d.outcome { sink := { room := some c }, generator := g } =
      (r, { sink := { room := some (c - w.length), written := w.toArray }, generator := g' })
  /-- Otherwise the error is that of the sink, which holds the first `c` bytes. -/
  outcome_of_lt : ∀ c, c < w.length →
    ∃ g'', d.outcome { sink := { room := some c }, generator := g } =
      (.error .full,
        { sink := { room := some 0, written := (w.take c).toArray }, generator := g'' })

theorem Steady.exists_cut (h : Steady d) (g : Generator) : ∃ r w g', d.Cut g r w g' := by
  obtain ⟨r, w, g', hstreams, hne⟩ := h g
  have hempty : ∀ bytes : List UInt8, (#[] : Array UInt8) ++ bytes = bytes.toArray := fun bytes =>
    Array.ext' (by simp)
  refine ⟨r, w, g', ?_, hne, fun c hc => ?_, fun c hc => ?_⟩
  · have hwhole := hstreams {}
    simp only [Sink.put, if_true, hempty] at hwhole
    exact hwhole
  · have hcut := hstreams { room := some c }
    simp only [Sink.put, decide_eq_true hc, if_true, hempty, List.take_of_length_le hc] at hcut
    exact hcut
  · have hcut := hstreams { room := some c }
    have hleft : c - w.length = 0 := by omega
    simp only [Sink.put, decide_eq_false (Nat.not_le.mpr hc), hempty, hleft] at hcut
    exact hcut

/-- **Sinks that run full.** Every report and every session, for every problem, way to sample,
generator and input, does on a sink that takes only some number of bytes what it does on a sink that
takes everything, as long as these bytes suffice. If they do not, it fails with the error of the
sink, and the sink holds just the bytes that it takes, the first ones of what the other sink holds.
This is so wherever a report or a prompt is cut, since a text is written in parts as it is written
at once. -/
theorem output_cut (sampler : Sampler) (p : Problem) (g : Generator) :
    (∀ logic task, ∃ r w g', (Task.perform sampler p logic task).Cut g r w g') ∧
    (∀ logic, ∃ r w g', (exemplify sampler p logic).Cut g r w g') ∧
    (∀ input, ∃ r w g', (Menu.session sampler p input).Cut g r w g') ∧
    ∀ parts : List Text, (parts.forM write : Dialogue Unit) = write parts.flatten :=
  ⟨fun logic task => (task.steady_perform sampler p logic).exists_cut g,
    fun logic => (steady_exemplify sampler p logic).exists_cut g,
    fun input => (Menu.steady_session sampler p input).exists_cut g, forM_write⟩

end Dialogue

end PreferenceLogic
