import Legible.Cli.Action
import Legible.Proofs.Config.Effective
/-!
# Work that goes well

What a part of the work gives and what has come of the call when it ends (`Action.Runs`), and what it writes on
standard output if it goes well (`Action.Prints`). Warnings and logs go elsewhere. Where the work does not go well, it
ends early for a reason of some kind (`Action.StopsFor`); most parts of the work are safe from most kinds of reasons
(`Action.Spares`).
-/

namespace Legible.Cli

namespace Action

variable {α β : Type}

/-- The work goes well: it gives the value, and so much has come of the call before it and after it. -/
def Runs (a : Action α) (before : Progress) (x : α) (after : Progress) : Prop :=
  StateT.run (ExceptT.run a) before = (.ok x, after)

instance [DecidableEq α] (a : Action α) (before : Progress) (x : α) (after : Progress) :
    Decidable (a.Runs before x after) :=
  match hrun : StateT.run (ExceptT.run a) before with
  | (.ok y, q) => decidable_of_iff (y = x ∧ q = after)
      ⟨fun ⟨hx, hq⟩ => hx ▸ hq ▸ hrun, fun h => ⟨Except.ok.inj (Prod.mk.inj (hrun.symm.trans h)).1,
        (Prod.mk.inj (hrun.symm.trans h)).2⟩⟩
  | (.error _, _) => isFalse fun h => nomatch hrun.symm.trans h

/-- If the work goes well, this is what it writes on standard output. -/
def Prints (a : Action α) (t : Text) : Prop :=
  ∀ before x after, a.Runs before x after → after.output.out = before.output.out ++ t

variable {a : Action α} {f : α → Action β} {p q r : Progress} {x y : α}

theorem Runs.unique (hx : a.Runs p x q) (hy : a.Runs p y r) : x = y ∧ q = r := by
  have heq := hx.symm.trans hy
  exact ⟨Except.ok.inj (Prod.mk.inj heq).1, (Prod.mk.inj heq).2⟩

theorem runs_pure_iff : (pure x : Action α).Runs p y q ↔ x = y ∧ p = q := by
  constructor
  · intro h
    exact ⟨Except.ok.inj (Prod.mk.inj h).1, (Prod.mk.inj h).2⟩
  · rintro ⟨rfl, rfl⟩
    rfl

theorem runs_bind_iff {z : β} : (a >>= f).Runs p z r ↔ ∃ x q, a.Runs p x q ∧ (f x).Runs q z r := by
  obtain ⟨e | x, q, hrun⟩ : ∃ u q, StateT.run (ExceptT.run a) p = (u, q) := ⟨_, _, rfl⟩
  · have hstops : StateT.run (ExceptT.run (a >>= f)) p = (.error e, q) := by
      rw [ExceptT.run_bind, StateT.run_bind, hrun]
      rfl
    refine iff_of_false (fun h => ?_) ?_
    · cases hstops.symm.trans h
    · rintro ⟨x, q', hx, -⟩
      cases hrun.symm.trans hx
  · have hgoes : StateT.run (ExceptT.run (a >>= f)) p = StateT.run (ExceptT.run (f x)) q := by
      rw [ExceptT.run_bind, StateT.run_bind, hrun]
      rfl
    rw [Runs, hgoes]
    refine ⟨fun h => ⟨x, q, hrun, h⟩, ?_⟩
    rintro ⟨x', q', hx, h⟩
    obtain ⟨rfl, rfl⟩ := Runs.unique hrun hx
    exact h

theorem Runs.exists_bind (h : a.Runs p x q) (hf : ∃ y r, (f x).Runs q y r) : ∃ y r, (a >>= f).Runs p y r := by
  obtain ⟨y, r, hy⟩ := hf
  exact ⟨y, r, runs_bind_iff.mpr ⟨x, q, h, hy⟩⟩

theorem not_runs_throw (s : Stop) : ¬ (throw s : Action α).Runs p x q := nofun

theorem runs_emit_iff {o : Output} {u : Unit} : (emit o).Runs p u q ↔
    (∀ c ∈ o.out, c.isSurrogate = false) ∧
      q = { p with output := p.output ++ { o with err := showSurrogates o.err } } := by
  have hfind : Utf8.EncodeError.find? CodePoint.isSurrogate o.out = none ↔ ∀ c ∈ o.out, c.isSurrogate = false := by
    rw [Utf8.EncodeError.find?, Option.map_eq_none_iff, List.findIdx?_eq_none_iff]
  rw [← hfind, emit]
  split
  · rename_i e he
    refine iff_of_false (not_runs_throw _) fun h => ?_
    rw [he] at h
    cases h.1
  · rename_i hnone
    refine ⟨fun h => ⟨hnone, (Prod.mk.inj h).2.symm⟩, ?_⟩
    rintro ⟨-, rfl⟩
    rfl

/-- Work on items goes well if it goes well for each of them, where nothing that came before matters. -/
theorem exists_runs_forM_iff {γ : Type} {as : List γ} {f : γ → Action PUnit} {Q : γ → Prop}
    (hf : ∀ a p, (∃ q, (f a).Runs p ⟨⟩ q) ↔ Q a) : (∃ q, (as.forM f).Runs p ⟨⟩ q) ↔ ∀ a ∈ as, Q a := by
  induction as generalizing p with
  | nil => exact iff_of_true ⟨p, runs_pure_iff.mpr ⟨rfl, rfl⟩⟩ nofun
  | cons a as ih =>
    rw [List.forall_mem_cons, ← hf a p]
    constructor
    · rintro ⟨r, h⟩
      obtain ⟨⟨⟩, q, ha, has⟩ := runs_bind_iff.mp h
      exact ⟨⟨q, ha⟩, ih.mp ⟨r, has⟩⟩
    · rintro ⟨⟨q, ha⟩, has⟩
      obtain ⟨r, hr⟩ := ih (p := q).mpr has
      exact ⟨r, runs_bind_iff.mpr ⟨⟨⟩, q, ha, hr⟩⟩

/-! ## What is written -/

theorem prints_pure (x : α) : (pure x : Action α).Prints [] := fun p y q h => by
  rw [(runs_pure_iff.mp h).2, List.append_nil]

theorem prints_throw (s : Stop) (t : Text) : (throw s : Action α).Prints t :=
  fun _ _ _ h => absurd h (not_runs_throw s)

theorem Prints.bind {t u : Text} (ha : a.Prints t) (hf : ∀ x, (f x).Prints u) : (a >>= f).Prints (t ++ u) :=
  fun p z r h => by
    obtain ⟨x, q, hx, hz⟩ := runs_bind_iff.mp h
    rw [hf x q z r hz, ha p x q hx, List.append_assoc]

theorem prints_emit (o : Output) : (emit o).Prints o.out := fun p u q h => by
  rw [(runs_emit_iff.mp h).2]
  rfl

theorem prints_forM {γ : Type} {as : List γ} {f : γ → Action PUnit} {g : γ → Text} (hf : ∀ a ∈ as, (f a).Prints (g a)) :
    (as.forM f).Prints (as.flatMap g) := by
  induction as with
  | nil => exact prints_pure PUnit.unit
  | cons a as ih =>
    obtain ⟨ha, hf⟩ := List.forall_mem_cons.mp hf
    exact ha.bind fun _ => ih hf

theorem prints_nothing_forM {γ : Type} {as : List γ} {f : γ → Action PUnit} (hf : ∀ a ∈ as, (f a).Prints []) :
    (as.forM f).Prints [] := by
  have hnothing : as.flatMap (fun _ => ([] : Text)) = [] := List.flatMap_eq_nil_iff.mpr fun _ _ => rfl
  exact hnothing ▸ prints_forM hf

theorem prints_orFail (x : Except Failure α) : (orFail x).Prints [] := by
  cases x with
  | ok x => exact prints_pure x
  | error e => exact prints_throw _ []

/-! ## Ends that come early -/

/-- The work ends early, for a reason of this kind. -/
def StopsFor (a : Action α) (P : Stop → Prop) (before : Progress) : Prop :=
  ∃ s after, StateT.run (ExceptT.run a) before = (.error s, after) ∧ P s

/-- The work never ends early for a reason of this kind. -/
def Spares (a : Action α) (P : Stop → Prop) : Prop := ∀ before, ¬ a.StopsFor P before

variable {P : Stop → Prop}

theorem not_stopsFor_of_runs (h : a.Runs p x q) : ¬ a.StopsFor P p := by
  rintro ⟨s, r, hstop, -⟩
  cases h.symm.trans hstop

theorem stopsFor_throw_iff {s : Stop} : (throw s : Action α).StopsFor P p ↔ P s :=
  ⟨fun ⟨_, _, hrun, hs⟩ => Except.error.inj (Prod.mk.inj hrun).1 ▸ hs, fun hs => ⟨s, p, rfl, hs⟩⟩

theorem stopsFor_bind_iff : (a >>= f).StopsFor P p ↔ a.StopsFor P p ∨ ∃ x q, a.Runs p x q ∧ (f x).StopsFor P q := by
  obtain ⟨e | x, q, hrun⟩ : ∃ u q, StateT.run (ExceptT.run a) p = (u, q) := ⟨_, _, rfl⟩
  · have hstops : StateT.run (ExceptT.run (a >>= f)) p = StateT.run (ExceptT.run (throw e : Action β)) q := by
      rw [ExceptT.run_bind, StateT.run_bind, hrun]
      rfl
    have hnone : ¬ ∃ x r, a.Runs p x r ∧ (f x).StopsFor P r := fun ⟨_, _, hx, _⟩ => by cases hrun.symm.trans hx
    rw [or_iff_left hnone, StopsFor, StopsFor, hstops, hrun]
    constructor <;>
    · rintro ⟨_, _, heq, hs⟩
      cases heq
      exact ⟨_, _, rfl, hs⟩
  · have hgoes : StateT.run (ExceptT.run (a >>= f)) p = StateT.run (ExceptT.run (f x)) q := by
      rw [ExceptT.run_bind, StateT.run_bind, hrun]
      rfl
    rw [or_iff_right (not_stopsFor_of_runs hrun), StopsFor, hgoes]
    refine ⟨fun h => ⟨x, q, hrun, h⟩, ?_⟩
    rintro ⟨x', q', hx, h⟩
    obtain ⟨rfl, rfl⟩ := Runs.unique hrun hx
    exact h

theorem runs_orStop_iff {e : Except Stop α} : (orStop e).Runs p x q ↔ e = .ok x ∧ p = q := by
  cases e with
  | ok y => exact runs_pure_iff.trans (and_congr_left fun _ => ⟨congrArg _, Except.ok.inj⟩)
  | error s => exact iff_of_false (not_runs_throw s) nofun

theorem stopsFor_orStop_iff {e : Except Stop α} : (orStop e).StopsFor P p ↔ ∃ s, e = .error s ∧ P s := by
  cases e with
  | ok y => exact iff_of_false (not_stopsFor_of_runs (runs_orStop_iff.mpr ⟨rfl, rfl⟩)) nofun
  | error s =>
    refine stopsFor_throw_iff.trans ⟨fun hs => ⟨s, rfl, hs⟩, ?_⟩
    rintro ⟨_, heq, hs⟩
    exact Except.error.inj heq ▸ hs

theorem runs_orFail_iff {e : Except Failure α} : (orFail e).Runs p x q ↔ e = .ok x ∧ p = q := by
  rw [orFail, runs_orStop_iff, mapError_eq_ok_iff]

theorem stopsFor_orFail_iff {e : Except Failure α} :
    (orFail e).StopsFor P p ↔ ∃ f, e = .error f ∧ P (.failure f) := by
  rw [orFail, stopsFor_orStop_iff]
  constructor
  · rintro ⟨_, hs, h⟩
    obtain ⟨f, hf, rfl⟩ := mapError_eq_error_iff.mp hs
    exact ⟨f, hf, h⟩
  · rintro ⟨f, hf, h⟩
    exact ⟨_, mapError_eq_error_iff.mpr ⟨f, hf, rfl⟩, h⟩

theorem spares_pure (x : α) : (pure x : Action α).Spares P := fun _ =>
  not_stopsFor_of_runs (runs_pure_iff.mpr ⟨rfl, rfl⟩)

theorem spares_throw {s : Stop} (hs : ¬ P s) : (throw s : Action α).Spares P := fun _ h => hs (stopsFor_throw_iff.mp h)

theorem Spares.bind (ha : a.Spares P) (hf : ∀ x, (f x).Spares P) : (a >>= f).Spares P := fun p h => by
  rcases stopsFor_bind_iff.mp h with h | ⟨x, q, -, h⟩
  · exact ha p h
  · exact hf x q h

theorem runs_modify (g : Progress → Progress) (p : Progress) : (modify g : Action PUnit).Runs p ⟨⟩ (g p) := rfl

theorem spares_ite {c : Prop} [Decidable c] {b : Action α} (ha : a.Spares P) (hb : b.Spares P) :
    (if c then a else b).Spares P := by
  split
  · exact ha
  · exact hb

theorem spares_modify (g : Progress → Progress) : (modify g : Action PUnit).Spares P := fun p =>
  not_stopsFor_of_runs (runs_modify g p)

theorem spares_emit (hP : ∀ u, ¬ P (.failure (.output u))) (o : Output) : (emit o).Spares P := by
  rw [emit]
  split
  · exact spares_throw (hP _)
  · exact spares_modify _

theorem spares_forM {γ : Type} {as : List γ} {f : γ → Action PUnit} (hf : ∀ a, (f a).Spares P) :
    (as.forM f).Spares P := by
  induction as with
  | nil => exact spares_pure PUnit.unit
  | cons a as ih => exact (hf a).bind fun _ => ih

theorem spares_orFail {e : Except Failure α} (he : ∀ f, e = .error f → ¬ P (.failure f)) : (orFail e).Spares P :=
  fun _ h => by
    obtain ⟨f, hf, hs⟩ := stopsFor_orFail_iff.mp h
    exact he f hf hs

end Action

end Legible.Cli
