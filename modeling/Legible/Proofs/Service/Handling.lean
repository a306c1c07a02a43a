import Legible.Proofs.Service.Effect
/-!
# What comes of a job

The ledger leaves out who waits, in which order things happen, and where the formatter is. Here is what becomes
of these when an event about a job happens: a handful of small changes (`Alters`), of which only the completion
reaches beyond the job, and that wakes those who waited for it at the end of the queue.
-/

namespace Legible.Service

/-- What changes only if the program changes the settings, or a diagnostic is shown or closed. -/
structure SameScene (s t : Service) : Prop where
  config : t.config = s.config
  locator : t.locator = s.locator
  which : t.which = s.which
  formatter : t.formatter = s.formatter
  onClock : t.onClock = s.onClock
  onRender : t.onRender = s.onRender
  current : t.session.current = s.session.current
  pending : t.session.pending = s.session.pending

theorem SameScene.refl (s : Service) : SameScene s s := ⟨rfl, rfl, rfl, rfl, rfl, rfl, rfl, rfl⟩

theorem SameScene.trans {s t u : Service} (h : SameScene s t) (h' : SameScene t u) : SameScene s u :=
  ⟨h'.config.trans h.config, h'.locator.trans h.locator, h'.which.trans h.which,
    h'.formatter.trans h.formatter, h'.onClock.trans h.onClock, h'.onRender.trans h.onRender,
    h'.current.trans h.current, h'.pending.trans h.pending⟩

/-- What no event about a job changes. -/
structure SameSetting (s t : Service) : Prop extends SameScene s t where
  waits : t.waits = s.waits
  awake : t.awake = s.awake
  now : t.clock.now = s.clock.now

theorem SameSetting.refl (s : Service) : SameSetting s s := ⟨.refl s, rfl, rfl, rfl⟩

theorem SameSetting.trans {s t u : Service} (h : SameSetting s t) (h' : SameSetting t u) : SameSetting s u :=
  ⟨h.toSameScene.trans h'.toSameScene, h'.waits.trans h.waits, h'.awake.trans h.awake, h'.now.trans h.now⟩

/-- Telling a listener runs and stores nothing, and wakes those who waited for it at the end of the queue. -/
structure Tells (s t : Service) : Prop where
  setting : SameSetting s t
  cache : t.cache = s.cache
  runs : t.runs = s.runs
  clock : ∃ ws : List Waiter, t.clock = { s.clock with queue := s.clock.queue ++ ws.map .wake }

namespace Tells

variable {s t u : Service}

theorem refl (s : Service) : Tells s s := ⟨.refl s, rfl, rfl, [], by simp⟩

theorem trans (h : Tells s t) (h' : Tells t u) : Tells s u := by
  obtain ⟨ws, hws⟩ := h.clock
  obtain ⟨ws', hws'⟩ := h'.clock
  exact ⟨h.setting.trans h'.setting, h'.cache.trans h.cache, h'.runs.trans h.runs, ws ++ ws', by simp [hws, hws']⟩

/-- Nobody is woken. -/
theorem of_setting (h : SameSetting s t) (hcache : t.cache = s.cache) (hruns : t.runs = s.runs)
    (hclock : t.clock = s.clock) : Tells s t :=
  ⟨h, hcache, hruns, [], by simp [hclock]⟩

end Tells

section Tells

variable (s : Service)

theorem wakeAll_eq (ws : List Waiter) :
    s.wakeAll ws = { s with clock := { s.clock with queue := s.clock.queue ++ ws.map .wake } } := by
  unfold wakeAll
  induction ws generalizing s with
  | nil => simp
  | cons w r ih =>
    rw [List.foldl_cons, ih]
    simp [push, Clock.push]

theorem tells_wakeAll (ws : List Waiter) : Tells s (s.wakeAll ws) := by
  rw [wakeAll_eq]
  exact ⟨⟨⟨rfl, rfl, rfl, rfl, rfl, rfl, rfl, rfl⟩, rfl, rfl, rfl⟩, rfl, rfl, ws, rfl⟩

theorem tells_settle (n : Nat) : Tells s (s.settle n) := by
  unfold settle
  split
  · exact .refl s
  · rename_i b _
    split
    · have hset (bs : List Batch) : Tells s { s with batches := bs } :=
        .of_setting ⟨⟨rfl, rfl, rfl, rfl, rfl, rfl, rfl, rfl⟩, rfl, rfl, rfl⟩ rfl rfl rfl
      exact (hset _).trans (tells_wakeAll _ b.waiters)
    · exact .refl s

theorem tells_render (d : Diagnostic) (segments : List Segment) : Tells s (s.render d segments).1 := by
  obtain ⟨_, _, h⟩ := render_aside s d segments
  rw [h]
  exact .of_setting ⟨⟨rfl, rfl, rfl, rfl, rfl, rfl, rfl, rfl⟩, rfl, rfl, rfl⟩ rfl rfl rfl

theorem tells_land (batch index : Nat) (o : Outcome) : Tells s (s.land batch index o).1 := by
  unfold land
  split
  · exact .refl s
  · rename_i b _
    dsimp only
    have hset (bs : List Batch) (segments : List Segment) (errors : List Text) :
        Tells s { s with batches := bs, session := { s.session with segments, errors } } :=
      .of_setting ⟨⟨rfl, rfl, rfl, rfl, rfl, rfl, rfl, rfl⟩, rfl, rfl, rfl⟩ rfl rfl rfl
    split
    · exact ((hset _ _ _).trans (tells_render _ _ _)).trans (tells_settle _ _)
    · exact (hset _ s.session.segments s.session.errors).trans (tells_settle _ _)

theorem tells_tell (l : Listener) (o : Outcome) : Tells s (s.tell l o).1 := by
  cases l with
  | nobody => exact .refl s
  | watcher n raises => exact .of_setting ⟨⟨rfl, rfl, rfl, rfl, rfl, rfl, rfl, rfl⟩, rfl, rfl, rfl⟩ rfl rfl rfl
  | program => exact ⟨⟨⟨rfl, rfl, rfl, rfl, rfl, rfl, rfl, rfl⟩, rfl, rfl, rfl⟩, rfl, rfl, [.program], rfl⟩
  | slot b i => exact tells_land s b i o

theorem tells_complete (n : Nat) (o : Outcome) : Tells s (s.complete n o).1 := by
  unfold complete
  split
  · exact .refl s
  · rename_i j _
    split
    · exact .refl s
    · have hmodify (f : Job → Job) : Tells s (s.modifyJob n f) :=
        .of_setting ⟨⟨rfl, rfl, rfl, rfl, rfl, rfl, rfl, rfl⟩, rfl, rfl, rfl⟩ rfl rfl rfl
      exact (hmodify _).trans (tells_tell _ j.listener o)

theorem tells_completeInTask (n : Nat) (o : Outcome) : Tells s (s.completeInTask n o) := by
  have hcomplete := tells_complete s n o
  have hend (t : Service) (e : Ending) : Tells t (t.endTask n e) :=
    .of_setting ⟨⟨rfl, rfl, rfl, rfl, rfl, rfl, rfl, rfl⟩, rfl, rfl, rfl⟩ rfl rfl rfl
  unfold completeInTask
  split <;> rename_i h <;> rw [h] at hcomplete <;> exact hcomplete.trans (hend _ _)

theorem tells_completeAlone (n : Nat) (o : Outcome) : Tells s (s.completeAlone n o) := by
  have hcomplete := tells_complete s n o
  have hfault (t : Service) (notices : List Notice) : Tells t { t with notices } :=
    .of_setting ⟨⟨rfl, rfl, rfl, rfl, rfl, rfl, rfl, rfl⟩, rfl, rfl, rfl⟩ rfl rfl rfl
  unfold completeAlone
  split <;> rename_i h <;> rw [h] at hcomplete
  · exact hcomplete.trans (hfault _ _)
  · exact hcomplete

end Tells

/-! ## Events about a job -/

/-- One of the things that an event about job `n` does. -/
inductive Alters (n : Nat) (s : Service) : Service → Prop
  | task (t : Task) : Alters n s (s.modifyJob n fun j => { j with task := t })
  | push : Alters n s (s.push (.resume n))
  | after (delay : Nat) : Alters n s (s.after delay (.finish n))
  | complete (o : Outcome) : Alters n s (s.complete n o).1
  /-- What was run, stored, cancelled, reported or warned of. -/
  | aside (runs : List Run) (cache : Cache) (cancelled : Nat) (notices : List Notice) (warnings : List Text) :
      Alters n s { s with runs, cache, cancelled, notices, warnings }

/-- What an event about a job does, one thing after the other. -/
abbrev Altered (n : Nat) : Service → Service → Prop := Relation.ReflTransGen (Alters n)

section Altered

variable {s : Service} {n : Nat}

theorem altered_completeInTask (s : Service) (n : Nat) (o : Outcome) : Altered n s (s.completeInTask n o) := by
  have hcomplete : Alters n s (s.complete n o).1 := .complete o
  unfold completeInTask
  split <;> rename_i h <;> rw [h] at hcomplete <;> exact (Relation.ReflTransGen.single hcomplete).tail (.task _)

theorem altered_completeAlone (s : Service) (n : Nat) (o : Outcome) : Altered n s (s.completeAlone n o) := by
  have hcomplete : Alters n s (s.complete n o).1 := .complete o
  unfold completeAlone
  split <;> rename_i h <;> rw [h] at hcomplete
  · exact (Relation.ReflTransGen.single hcomplete).tail (.aside _ _ _ _ _)
  · exact .single hcomplete

theorem altered_finishTask (s : Service) (n : Nat) (j : Job) (r : Reply) : Altered n s (s.finishTask n j r) := by
  unfold finishTask
  split
  · exact .single (.task _)
  · refine .head (b := (s.conclude j.content (resultOf j.argv r)).2) ?_ (altered_completeInTask ..)
    unfold conclude
    dsimp only
    split
    · exact .aside _ _ _ _ _
    · exact .aside _ _ _ _ _

theorem altered_resume (s : Service) (n : Nat) : Altered n s (s.resume n) := by
  unfold resume
  split
  · exact .refl
  · rename_i j _
    split
    · have hrun : Alters n s (s.run ⟨j.argv, j.wrapped, none⟩).2 := .aside _ _ _ _ _
      generalize s.run ⟨j.argv, j.wrapped, none⟩ = p at hrun
      obtain ⟨reply, t⟩ := p
      refine .head hrun ?_
      dsimp only
      split
      · exact .head (.aside _ _ _ _ _) (altered_completeInTask (t.warnStart _ _) n _)
      · split
        · exact altered_finishTask t n j reply
        · exact .tail (.single (.task _)) (.after _)
    · exact altered_finishTask ..
    · exact .tail (.single (.task _)) (.aside _ _ _ _ _)
    · exact .refl

theorem altered_expire (s : Service) (n : Nat) : Altered n s (s.expire n) := by
  unfold expire
  split
  · exact .refl
  · rename_i j _
    split
    · exact .refl
    · refine Relation.ReflTransGen.trans ?_ (altered_completeAlone _ n _)
      unfold stop
      split
      · exact .single (.task _)
      · exact .tail (.single (.task _)) .push
      · exact .single (.task _)
      · exact .refl

/-- An event about a job does nothing else. -/
theorem altered_handle {e : Event} (he : e.job? = some n) (s : Service) : Altered n s (handle s e) := by
  cases e with
  | resume m =>
    cases he
    exact altered_resume s n
  | finish m =>
    cases he
    rw [handle, finish]
    split
    · exact .tail (.single (.task _)) .push
    · exact .refl
  | expire m =>
    cases he
    exact altered_expire s n
  | deliver m o =>
    cases he
    exact altered_completeAlone s n o
  | rested => cases he
  | wake w => cases he

end Altered

theorem Alters.setting {s t : Service} {n : Nat} (h : Alters n s t) : SameSetting s t := by
  cases h with
  | complete o => exact (s.tells_complete n o).setting
  | _ => exact ⟨⟨rfl, rfl, rfl, rfl, rfl, rfl, rfl, rfl⟩, rfl, rfl, rfl⟩

theorem Altered.setting {s t : Service} {n : Nat} (h : Altered n s t) : SameSetting s t := by
  induction h with
  | refl => exact .refl s
  | tail _ halt ih => exact ih.trans halt.setting

end Legible.Service
