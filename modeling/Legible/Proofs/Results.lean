import Mathlib.Logic.Basic
/-!
# Results that may be errors

When work in steps gives a value and when it ends in an error, told by its steps.
-/

namespace Legible

variable {ε ε' α β : Type} {x : Except ε α}

theorem bind_eq_ok_iff {f : α → Except ε β} {b : β} : x >>= f = .ok b ↔ ∃ a, x = .ok a ∧ f a = .ok b := by
  cases x <;> simp [bind, Except.bind]

theorem pure_eq_ok_iff {a b : α} : (pure a : Except ε α) = .ok b ↔ a = b := by
  simp [pure, Except.pure]

theorem mapError_eq_ok_iff {f : ε → ε'} {a : α} : x.mapError f = .ok a ↔ x = .ok a := by
  cases x with
  | error e => exact iff_of_false nofun nofun
  | ok b => exact ⟨fun h => congrArg _ (Except.ok.inj h), fun h => congrArg _ (Except.ok.inj h)⟩

theorem map_eq_ok_iff {f : α → β} {b : β} : x.map f = .ok b ↔ ∃ a, x = .ok a ∧ f a = b := by
  cases x <;> simp [Except.map]

theorem mapM_eq_ok {f : α → Except ε β} {g : α → β} (hf : ∀ a b, f a = .ok b → b = g a) {as : List α} {bs : List β}
    (h : as.mapM f = .ok bs) : bs = as.map g := by
  induction as generalizing bs with
  | nil => exact (pure_eq_ok_iff.mp h).symm
  | cons a as ih =>
    simp only [List.mapM_cons, bind_eq_ok_iff, pure_eq_ok_iff] at h
    obtain ⟨b, hb, rest, hrest, rfl⟩ := h
    rw [hf a b hb, ih hrest, List.map_cons]

theorem bind_eq_error_iff {f : α → Except ε β} {e : ε} :
    x >>= f = .error e ↔ x = .error e ∨ ∃ a, x = .ok a ∧ f a = .error e := by
  cases x <;> simp [bind, Except.bind]

/-- Steps that can fail for one and the same reason fail if one of them does. -/
theorem bind_eq_error_iff_or {f : α → Except ε β} {reason : ε} {P Q : Prop}
    (hx : ∀ e, x = .error e ↔ e = reason ∧ P) (hf : ∀ a e, f a = .error e ↔ e = reason ∧ Q) {e : ε} :
    x >>= f = .error e ↔ e = reason ∧ (P ∨ Q) := by
  cases x with
  | error e' =>
    obtain ⟨rfl, hP⟩ := (hx e').mp rfl
    exact ⟨fun h => ⟨(Except.error.inj h).symm, .inl hP⟩, fun h => h.1 ▸ rfl⟩
  | ok a =>
    have hP : ¬ P := fun hP => nomatch (hx reason).mpr ⟨rfl, hP⟩
    exact (hf a e).trans (and_congr_right fun _ => (or_iff_right hP).symm)

theorem mapError_eq_error_iff {f : ε → ε'} {e : ε'} : x.mapError f = .error e ↔ ∃ e', x = .error e' ∧ f e' = e := by
  cases x with
  | error e' =>
    refine ⟨fun h => ⟨e', rfl, Except.error.inj h⟩, ?_⟩
    rintro ⟨_, ⟨⟩, rfl⟩
    rfl
  | ok a => exact iff_of_false nofun fun ⟨_, h, _⟩ => nomatch h

theorem map_eq_error_iff {f : α → β} {e : ε} : x.map f = .error e ↔ x = .error e := by
  cases x <;> simp [Except.map]

theorem toOption_eq_some_iff {a : α} : x.toOption = some a ↔ x = .ok a := by
  cases x <;> simp [Except.toOption]

theorem exists_of_mapM_eq_error {f : α → Except ε β} {e : ε} {as : List α} (h : as.mapM f = .error e) :
    ∃ a ∈ as, f a = .error e := by
  induction as with
  | nil => cases h
  | cons a as ih =>
    simp only [List.mapM_cons, bind_eq_error_iff] at h
    rcases h with h | ⟨_, -, h | ⟨_, -, h⟩⟩
    · exact ⟨a, List.mem_cons_self, h⟩
    · obtain ⟨b, hb, h⟩ := ih h
      exact ⟨b, List.mem_cons_of_mem _ hb, h⟩
    · cases h

end Legible
