import Legible.Cli.Program
import Legible.Proofs.Cli.Dump
import Legible.Proofs.Cli.Level
/-!
# Numerals that end a call

A call can come to its end, unprepared, for a numeral that it cannot read. Most parts of its work are safe from that
end (`Action.Spares`); it comes from the level that the environment asks for, and from the severity or the document that
a task is about (`Call.Meets`).
-/

namespace Legible.Cli

/-- The work ends for a numeral that cannot be read. -/
def Stop.IsUnread (s : Stop) : Prop := ∃ e, e ≠ .tooWide ∧ s = .failure (.numeral e)

/-- A number that is too wide to be written was read. -/
theorem not_isUnread_of_tooWide {e : NumeralError} (he : e = .tooWide) : ¬ Stop.IsUnread (.failure (.numeral e)) := by
  rintro ⟨_, hne, h⟩
  cases h
  exact hne he

/-! ## Parts of the work that are safe -/

namespace Scene

open Legible.Cli.Action

variable (s : Scene)

theorem spares_emit_unread (o : Output) : (emit o).Spares Stop.IsUnread := spares_emit (fun _ => nofun) o

theorem spares_print (t : Text) : (s.print t).Spares Stop.IsUnread := spares_emit_unread _

theorem spares_warn (t : Text) : (s.warn t).Spares Stop.IsUnread := spares_emit_unread _

theorem spares_logWarning (t : Text) : (s.logWarning t).Spares Stop.IsUnread := spares_emit_unread _

/-- A failure of another kind that is passed on is no numeral. -/
theorem spares_orFail_mapError {ε α : Type} {x : Except ε α} {f : ε → Failure}
    (hf : ∀ e, ¬ Stop.IsUnread (.failure (f e))) : (orFail (x.mapError f)).Spares Stop.IsUnread :=
  spares_orFail fun _ h => by
    obtain ⟨e, -, rfl⟩ := mapError_eq_error_iff.mp h
    exact hf e

theorem spares_follow (seen : Nat) (service : Service) : (s.follow seen service).Spares Stop.IsUnread :=
  (spares_modify _).bind fun _ => spares_forM s.spares_logWarning

theorem spares_service (config : Config) (onClock : Bool) : (s.service config onClock).Spares Stop.IsUnread :=
  (spares_orFail_mapError fun _ => by nofun).bind fun _ => spares_pure _

theorem spares_requireFile (p : Path) : (s.requireFile p).Spares Stop.IsUnread := by
  refine (spares_orFail_mapError fun _ => by nofun).bind fun stands => ?_
  cases stands
  · exact spares_throw nofun
  · exact spares_pure ()

theorem spares_settings (w : Values) : (s.settings w).Spares Stop.IsUnread := by
  unfold settings
  refine (spares_forM s.spares_requireFile).bind fun _ => ?_
  refine (spares_forM s.spares_logWarning).bind fun _ => ?_
  -- a number that is too wide to be told is not read either
  have hfreeze {d : Draft} : (orFail (d.freeze.mapError Failure.numeral)).Spares Stop.IsUnread :=
    spares_orFail fun f hf => by
      obtain ⟨e, he, rfl⟩ := mapError_eq_error_iff.mp hf
      exact not_isUnread_of_tooWide (Draft.freeze_eq_error_iff.mp he).1
  have hend {d : Draft} {seen : Nat} : (orFail (d.freeze.mapError Failure.numeral) >>= fun c =>
      (c.issues.drop seen).forM s.logWarning >>= fun _ => pure c).Spares Stop.IsUnread :=
    hfreeze.bind fun _ => (spares_forM s.spares_logWarning).bind fun _ => spares_pure _
  dsimp only
  split
  · exact (spares_throw nofun).bind fun _ => hend
  · exact hend

theorem spares_reports (w : Values) (config : Config) (ds : List Diagnostic) :
    (s.reports w config ds).Spares Stop.IsUnread := by
  unfold reports
  refine (s.spares_service _ _).bind fun service => ?_
  split
  · exact spares_orFail_mapError fun _ => by nofun
  · exact (s.spares_follow _ _).bind fun _ => spares_orFail_mapError fun _ => by nofun

theorem spares_printReport (format : OutputFormat) (r : Report) : (s.printReport format r).Spares Stop.IsUnread := by
  have hend : (s.print r.view.text >>= fun _ => if 0 < s.verbosity then
      r.errors.forM fun e => s.warn ("[formatter] " ++ e) else pure ()).Spares Stop.IsUnread :=
    (s.spares_print _).bind fun _ => spares_ite (spares_forM fun _ => s.spares_warn _) (spares_pure ())
  unfold printReport
  exact spares_ite ((s.spares_print _).bind fun _ => (s.spares_print _).bind fun _ => hend)
    ((s.spares_print _).bind fun _ => hend)

theorem spares_separated {α : Type} {write : α → Action Unit} (hwrite : ∀ a, (write a).Spares Stop.IsUnread)
    (as : List α) : (s.separated write as).Spares Stop.IsUnread := by
  cases as with
  | nil => exact spares_pure ()
  | cons a as => exact (hwrite a).bind fun _ => spares_forM fun b => (s.spares_print []).bind fun _ => hwrite b

theorem spares_printInline (service : Service) (ds : List Diagnostic) :
    (s.printInline service ds).Spares Stop.IsUnread := by
  induction ds generalizing service with
  | nil => exact spares_pure ()
  | cons d ds ih =>
    exact (s.spares_follow _ _).bind fun _ => (spares_orFail_mapError fun _ => by nofun).bind fun _ =>
      (s.spares_print _).bind fun _ => ih _

theorem spares_dump (w : Values) : (s.dump w).Spares Stop.IsUnread := by
  rw [dump_eq]
  refine (s.spares_settings w).bind fun c => Spares.bind ?_ fun _ => ?_
  · exact spares_ite (spares_forM fun _ => s.spares_print _) (spares_pure ())
  · refine (spares_forM fun _ => s.spares_warn _).bind fun _ => (s.spares_print _).bind fun _ => spares_ite ?_ ?_
    · exact spares_throw (not_isUnread_of_tooWide rfl)
    · exact (s.spares_print _).bind fun _ => s.spares_print _

theorem spares_printDocument (title toml : Text) : (s.printDocument title toml).Spares Stop.IsUnread := by
  unfold printDocument
  have hend : (s.print (s.console.styled (.ofInk (.named .cyan false)) (chomp toml)) >>= fun _ =>
      if 0 < s.verbosity then
        s.print (s.console.styled { foreground := some (.named .cyan false), dim := some true } endMark)
      else pure ()).Spares Stop.IsUnread :=
    (s.spares_print _).bind fun _ => spares_ite (s.spares_print _) (spares_pure ())
  exact spares_ite ((s.spares_print _).bind fun _ => (s.spares_print _).bind fun _ => hend) hend

theorem spares_printStarter : s.printStarter.Spares Stop.IsUnread := by
  unfold printStarter
  refine (spares_orFail_mapError fun _ => by nofun).bind fun t => ?_
  split
  · exact (s.spares_logWarning _).bind fun _ => (s.spares_warn _).bind fun _ => s.spares_printDocument _ _
  · exact s.spares_printDocument _ _

theorem spares_showVersion (w : Values) : (s.showVersion w).Spares Stop.IsUnread := by
  unfold showVersion
  split
  · exact s.spares_print _
  · exact (s.spares_print _).bind fun _ => s.spares_print _
  · exact spares_ite ((s.spares_print _).bind fun _ => s.spares_print _) (s.spares_print _)

theorem spares_showHint : s.showHint.Spares Stop.IsUnread :=
  (s.spares_print _).bind fun _ => (s.spares_print _).bind fun _ => s.spares_print _

end Scene

/-! ## Settings that can be had -/

/-- The settings that options ask for can be had: each file that they name stands, so do all layers, and no number out of
range has too many digits to be told. -/
structure HasSettings (h : Host) (w : Values) : Prop where
  stands : ∀ t ∈ w.configs, h.isFile (.ofText t) = .ok true
  layers : (h.gatherLayers h.environment.directory (w.configs.map .ofText) w.noConfig).2 = none
  tellable : ¬ ((h.gatherLayers h.environment.directory (w.configs.map .ofText) w.noConfig).1.override
    w.overrides).HasUntellable

namespace Scene

open Legible.Cli.Action

variable {s : Scene} {w : Values} {p : Progress}

theorem exists_runs_requireFile_iff {f : Path} :
    (∃ q, (s.requireFile f).Runs p () q) ↔ s.call.host.isFile f = .ok true := by
  unfold requireFile
  simp only [runs_bind_iff, runs_orFail_iff, mapError_eq_ok_iff]
  constructor
  · rintro ⟨q, stands, _, ⟨hfile, rfl⟩, h⟩
    cases stands with
    | true => exact hfile
    | false => exact absurd h (not_runs_throw _)
  · exact fun hfile => ⟨p, true, p, ⟨hfile, rfl⟩, rfl⟩

/-- A log takes any text. -/
theorem exists_runs_logWarnings (ts : List Text) : ∃ q, (ts.forM s.logWarning).Runs p () q :=
  (exists_runs_forM_iff (Q := fun _ => True) fun _ _ =>
    iff_of_true ⟨_, runs_emit_iff.mpr ⟨fun _ hc => absurd hc List.not_mem_nil, rfl⟩⟩ trivial).mpr fun _ _ => trivial

theorem exists_runs_settings_iff : (∃ c q, (s.settings w).Runs p c q) ↔ HasSettings s.call.host w := by
  constructor
  · rintro ⟨c, q, h⟩
    obtain ⟨d, hlayers, hfreeze, -⟩ := settings_cases h
    refine ⟨?_, congrArg Prod.snd hlayers, ?_⟩
    · unfold settings at h
      obtain ⟨_, r, hnamed, -⟩ := runs_bind_iff.mp h
      have hall := (exists_runs_forM_iff fun _ _ => exists_runs_requireFile_iff).mp ⟨r, hnamed⟩
      exact fun t ht => hall _ (List.mem_map_of_mem ht)
    · rw [hlayers]
      exact Draft.exists_freeze_eq_ok_iff.mp ⟨c, hfreeze⟩
  · rintro ⟨hstands, hnone, htellable⟩
    obtain ⟨d, hlayers⟩ : ∃ d, s.call.host.gatherLayers s.call.host.environment.directory (w.configs.map .ofText)
        w.noConfig = (d, none) := ⟨_, Prod.ext rfl hnone⟩
    obtain ⟨named, hnamed⟩ : ∃ q, ((w.configs.map Path.ofText).forM s.requireFile).Runs p () q :=
      (exists_runs_forM_iff fun _ _ => exists_runs_requireFile_iff).mpr (List.forall_mem_map.mpr hstands)
    obtain ⟨warned, hwarned⟩ := exists_runs_logWarnings (s := s) (p := named) d.issues
    rw [hlayers] at htellable
    obtain ⟨c, hfreeze⟩ := Draft.exists_freeze_eq_ok_iff.mpr htellable
    obtain ⟨frozen, hfrozen⟩ := exists_runs_logWarnings (s := s) (p := warned) (c.issues.drop d.issues.length)
    refine ⟨c, frozen, ?_⟩
    unfold settings
    refine runs_bind_iff.mpr ⟨⟨⟩, named, hnamed, ?_⟩
    simp only [hlayers]
    refine runs_bind_iff.mpr ⟨⟨⟩, warned, hwarned, runs_bind_iff.mpr ⟨c, warned, ?_,
      runs_bind_iff.mpr ⟨⟨⟩, frozen, hfrozen, rfl⟩⟩⟩
    exact runs_orFail_iff.mpr ⟨mapError_eq_ok_iff.mpr hfreeze, rfl⟩

/-! ## Tasks -/

/-- What the options of a task say of a plain message; only where diagnostics are shown at length there are such
options. -/
def labels (v : Verb) (w : Values) : Input.Labels := if v = .showing then w.labels else {}

/-- A task about diagnostics meets a numeral that it cannot read if it has the settings that it needs, and misreads what
it is about. -/
structure Misreads (c : Call) (v : Verb) (w : Values) (messages : List Text) : Prop where
  takesMessage : v.takesMessage = true
  hasSettings : v ≠ .segmenting → HasSettings c.host w
  misread : Input.Misread messages w.json (labels v w) c.stdin

theorem stopsFor_diagnostics_iff {α : Type} {messages : List Text} {json : Bool} {labels : Input.Labels}
    {f : List Diagnostic → Action α} (hf : ∀ ds, (f ds).Spares Stop.IsUnread) :
    (orFail (Input.diagnostics messages json labels s.call.stdin) >>= f).StopsFor Stop.IsUnread p ↔
      Input.Misread messages json labels s.call.stdin := by
  rw [stopsFor_bind_iff, or_iff_left fun ⟨_, q, _, h⟩ => hf _ q h, stopsFor_orFail_iff,
    ← Input.exists_diagnostics_eq_numeral_iff]
  constructor
  · rintro ⟨_, h, e, -, he⟩
    cases he
    exact ⟨e, h⟩
  · rintro ⟨e, h⟩
    exact ⟨_, h, e, Input.ne_tooWide_of_diagnostics h, rfl⟩

theorem stopsFor_settings_bind_iff {α : Type} {f : Config → Action α} {Q : Prop}
    (hf : ∀ c q, (f c).StopsFor Stop.IsUnread q ↔ Q) :
    (s.settings w >>= f).StopsFor Stop.IsUnread p ↔ HasSettings s.call.host w ∧ Q := by
  rw [stopsFor_bind_iff, or_iff_right (s.spares_settings w p), ← exists_runs_settings_iff (p := p)]
  constructor
  · rintro ⟨c, q, hc, h⟩
    exact ⟨⟨c, q, hc⟩, (hf c q).mp h⟩
  · rintro ⟨⟨c, q, hc⟩, h⟩
    exact ⟨c, q, hc, (hf c q).mpr h⟩

theorem stopsFor_work_iff {v : Verb} {messages : List Text} :
    (s.work v w messages).StopsFor Stop.IsUnread p ↔ Misreads s.call v w messages := by
  have hother {a : Action Unit} (ha : a.Spares Stop.IsUnread) (hv : v.takesMessage = false) :
      a.StopsFor Stop.IsUnread p ↔ Misreads s.call v w messages :=
    iff_of_false (ha p) fun h => Bool.false_ne_true (hv.symm.trans h.takesMessage)
  cases v with
  | showing =>
    refine (stopsFor_settings_bind_iff fun c q => stopsFor_diagnostics_iff fun ds => ?_).trans
      ⟨fun h => ⟨rfl, fun _ => h.1, h.2⟩, fun h => ⟨h.hasSettings nofun, h.misread⟩⟩
    refine (s.spares_reports _ _ _).bind fun rs => ?_
    split
    · exact s.spares_print _
    · exact s.spares_separated (s.spares_printReport _) _
  | inlining =>
    refine (stopsFor_settings_bind_iff fun c q => stopsFor_diagnostics_iff fun ds => ?_).trans
      ⟨fun h => ⟨rfl, fun _ => h.1, h.2⟩, fun h => ⟨h.hasSettings nofun, h.misread⟩⟩
    exact (s.spares_service _ _).bind fun _ => s.spares_printInline _ _
  | segmenting =>
    refine (stopsFor_diagnostics_iff fun ds => ?_).trans
      ⟨fun h => ⟨rfl, fun hv => absurd rfl hv, h⟩, fun h => h.misread⟩
    split
    · exact s.spares_print _
    · exact s.spares_separated (fun _ => spares_forM fun _ => s.spares_print _) _
  | dumping => exact hother (s.spares_dump w) rfl
  | defaults => exact hother (s.spares_printDocument _ _) rfl
  | starting => exact hother s.spares_printStarter rfl
  | version => exact hother (s.spares_showVersion w) rfl
  | program => exact hother s.spares_showHint rfl
  | settings => exact hother (spares_throw nofun) rfl

end Scene

/-! ## Options -/

namespace Values

variable {h : Host} {v : Verb} {stop : Stop}

theorem not_isUnread_of_last {α : Type} {o : Opt} {read : Text → Except Text α} {gs : List Given}
    (hlast : last v o read gs = .error stop) : ¬ stop.IsUnread := by
  rw [last] at hlast
  split at hlast
  · cases hlast
  · obtain ⟨e, -, rfl⟩ := mapError_eq_error_iff.mp (map_eq_error_iff.mp hlast)
    nofun

theorem not_isUnread_of_files {ts : List Text} (hfiles : files h v ts = .error stop) : ¬ stop.IsUnread := by
  obtain ⟨t, -, ht⟩ := exists_of_mapM_eq_error hfiles
  split at ht
  · cases ht
    nofun
  · split at ht <;> cases ht
    nofun

theorem not_isUnread_of_set {w : Values} {o : Opt} {gs : List Given} (hset : set h v w o gs = .error stop) :
    ¬ stop.IsUnread := by
  cases o with
  | help =>
    cases hset
    nofun
  | color | format | timeout | printWidth => exact not_isUnread_of_last (map_eq_error_iff.mp hset)
  | config => exact not_isUnread_of_files (map_eq_error_iff.mp hset)
  | _ => cases hset

theorem not_isUnread_of_foldlM {a : Arguments} {os : List Opt} {w : Values}
    (hfold : os.foldlM (fun w o => set h v w o (a.given o)) w = .error stop) : ¬ stop.IsUnread := by
  induction os generalizing w with
  | nil => cases hfold
  | cons o os ih =>
    rw [List.foldlM_cons] at hfold
    rcases bind_eq_error_iff.mp hfold with hset | ⟨w', -, hfold⟩
    · exact not_isUnread_of_set hset
    · exact ih hfold

/-- Numbers that options take are judged when the options are read. -/
theorem not_isUnread_of_read {args : List Text} (hread : read h v args = .error stop) : ¬ stop.IsUnread := by
  rw [read] at hread
  rcases bind_eq_error_iff.mp hread with hcut | ⟨a, -, hread⟩
  · obtain ⟨m, -, rfl⟩ := mapError_eq_error_iff.mp hcut
    nofun
  · rcases bind_eq_error_iff.mp hread with hread | ⟨w, -, hread⟩
    · rw [ofArguments] at hread
      split at hread
      · cases hread
        nofun
      · exact not_isUnread_of_foldlM hread
    · cases hread

end Values

/-! ## Words that name a task -/

namespace Scene

open Legible.Cli.Action

variable {s : Scene} {c : Call} {p q : Progress} {v : Verb} {w : Values} {args : List Text}

theorem spares_read : (orStop (Values.read c.host v args)).Spares Stop.IsUnread := fun _ h => by
  obtain ⟨stop, hread, hstop⟩ := stopsFor_orStop_iff.mp h
  exact Values.not_isUnread_of_read hread hstop

theorem spares_namedPart {word : Text} : (namedPart c.host v word args).Spares Stop.IsUnread := by
  rw [namedPart]
  split
  · exact spares_pure _
  · exact spares_read.bind fun _ => spares_throw nofun

theorem runs_namedPart_iff {word : Text} {part : Verb} :
    (namedPart c.host v word args).Runs p part q ↔ v.part? word = some part ∧ p = q := by
  rw [namedPart]
  cases v.part? word with
  | some part' => exact runs_pure_iff.trans (and_congr_left fun _ => ⟨congrArg some, Option.some.inj⟩)
  | none =>
    refine iff_of_false (fun h => ?_) nofun
    obtain ⟨_, _, -, hthrow⟩ := runs_bind_iff.mp h
    exact not_runs_throw _ hthrow

/-- A task on these arguments meets a numeral that it cannot read. -/
def TaskMisreads (c : Call) (v : Verb) (args : List Text) : Prop :=
  ∃ w messages, Values.read c.host v args = .ok (w, messages) ∧ Misreads c v w messages

theorem not_taskMisreads (hv : v.takesMessage = false) : ¬ TaskMisreads c v args := fun ⟨_, _, _, h⟩ =>
  Bool.false_ne_true (hv.symm.trans h.takesMessage)

theorem stopsFor_perform_iff : (s.perform v args).StopsFor Stop.IsUnread p ↔ TaskMisreads s.call v args := by
  have hwork {w : Values} {rest : List Text} {q : Progress} :
      (if !v.takesMessage && !rest.isEmpty then
        (throw (.mistake v (.surplus rest)) : Action PUnit) >>= fun _ => s.work v w rest
      else s.work v w rest).StopsFor Stop.IsUnread q ↔ Misreads s.call v w rest := by
    split
    · rename_i hsurplus
      have hv : v.takesMessage = false := by simp_all
      refine iff_of_false (fun h => ?_) fun h => Bool.false_ne_true (hv.symm.trans h.takesMessage)
      rcases stopsFor_bind_iff.mp h with h | ⟨_, _, hthrow, -⟩
      · exact spares_throw (by nofun) q h
      · exact not_runs_throw _ hthrow
    · exact stopsFor_work_iff
  unfold perform
  rw [stopsFor_bind_iff, or_iff_right (spares_read p)]
  simp only [runs_orStop_iff]
  constructor
  · rintro ⟨⟨w, rest⟩, q, ⟨hread, rfl⟩, h⟩
    exact ⟨w, rest, hread, hwork.mp h⟩
  · rintro ⟨w, rest, hread, h⟩
    exact ⟨(w, rest), p, ⟨hread, rfl⟩, hwork.mpr h⟩

/-- The tasks about settings take no message. -/
theorem spares_enter_settings : (s.enter .settings args).Spares Stop.IsUnread := by
  have hpart {part : Verb} {q : Progress} {args : List Text} (hknown : part ∈ Verb.settings.parts) :
      ¬ (s.perform part args).StopsFor Stop.IsUnread q := fun h => by
    have hall : ∀ part ∈ Verb.settings.parts, part.takesMessage = false := by decide
    exact not_taskMisreads (hall part hknown) (stopsFor_perform_iff.mp h)
  have hword (word : Text) (args : List Text) :
      (namedPart s.call.host .settings word args >>= fun part => s.perform part args).Spares Stop.IsUnread := by
    intro q h
    rcases stopsFor_bind_iff.mp h with h | ⟨part, r, hruns, h⟩
    · exact spares_namedPart q h
    · exact hpart (List.mem_of_find?_eq_some (runs_namedPart_iff.mp hruns).1) h
  have hidle : ¬ Stop.IsUnread (.idle .settings) := by rintro ⟨_, -, h⟩; cases h
  have hmissing : ¬ Stop.IsUnread (.mistake .settings .verbMissing) := by rintro ⟨_, -, h⟩; cases h
  unfold enter
  rw [if_pos rfl]
  refine spares_ite ((spares_throw hidle).bind fun _ => spares_read.bind fun r => ?_)
    (spares_read.bind fun r => ?_) <;>
  · obtain ⟨_, rest⟩ := r
    cases rest with
    | nil => exact spares_throw hmissing
    | cons word args => exact hword word args

theorem stopsFor_enter_iff : (s.enter v args).StopsFor Stop.IsUnread p ↔ TaskMisreads s.call v args := by
  by_cases hv : v = .settings
  · subst v
    exact iff_of_false (spares_enter_settings p) (not_taskMisreads rfl)
  · unfold enter
    rw [if_neg hv]
    exact stopsFor_perform_iff

end Scene

/-! ## The level of the log -/

section Prepare

open Legible.Cli.Action

variable {c : Call} {w : Values} {p : Progress}

/-- The wishes for more words and for fewer do not go together. -/
def Values.IsTorn (w : Values) : Prop := 0 < w.verbose ∧ 0 < w.quiet

theorem exists_verbosity_eq_ok_iff : (∃ n, Values.verbosity w.verbose w.quiet = .ok n) ↔ ¬ w.IsTorn := by
  rw [Values.verbosity, Values.IsTorn]
  split
  · rename_i h
    exact iff_of_false nofun fun hnot => hnot (by simpa using h)
  · rename_i h
    exact iff_of_true ⟨_, rfl⟩ (by simpa using h)

theorem ne_tooWide_of_ofEnvironment {env : Environment} {e : NumeralError} (h : LogLevel.ofEnvironment env = .error e) :
    e ≠ .tooWide := by
  rw [LogLevel.ofEnvironment] at h
  split at h
  · cases h
  · rename_i t _
    exact ne_tooWide_of_numberOrName (LogLevel.parse_eq t ▸ h)

/-- A level that was read need not be read again. -/
theorem exists_setUp_eq_ok {env : Environment} {l : Option LogLevel} (h : LogLevel.ofEnvironment env = .ok l) :
    ∃ log, Log.setUp env l = .ok log := by
  cases l with
  | none => exact ⟨_, by rw [Log.setUp, h]; rfl⟩
  | some l => exact ⟨_, rfl⟩

theorem runs_prepare (hw : ¬ w.IsTorn) (hl : ¬ LogLevel.Misasked c.host.environment) :
    ∃ s q, (prepare c w).Runs p s q := by
  obtain ⟨n, hn⟩ := exists_verbosity_eq_ok_iff.mpr hw
  obtain ⟨l, hl⟩ : ∃ l, LogLevel.ofEnvironment c.host.environment = .ok l := by
    cases h : LogLevel.ofEnvironment c.host.environment with
    | ok l => exact ⟨l, rfl⟩
    | error e => exact absurd (LogLevel.exists_ofEnvironment_eq_error_iff.mp ⟨e, h⟩) hl
  obtain ⟨log, hlog⟩ := exists_setUp_eq_ok hl
  unfold prepare
  refine (runs_orFail_iff.mpr ⟨hn, rfl⟩).exists_bind ?_
  refine (runs_orFail_iff.mpr ⟨mapError_eq_ok_iff.mpr hl, rfl⟩).exists_bind ?_
  exact (runs_orFail_iff.mpr ⟨mapError_eq_ok_iff.mpr hlog, rfl⟩).exists_bind ⟨_, _, rfl⟩

theorem of_runs_prepare {s : Scene} {q : Progress} (h : (prepare c w).Runs p s q) : s.call = c ∧ ¬ w.IsTorn := by
  unfold prepare at h
  obtain ⟨n, _, hn, h⟩ := runs_bind_iff.mp h
  obtain ⟨_, _, -, h⟩ := runs_bind_iff.mp h
  obtain ⟨_, _, -, h⟩ := runs_bind_iff.mp h
  obtain ⟨_, _, -, h⟩ := runs_bind_iff.mp h
  refine ⟨?_, exists_verbosity_eq_ok_iff.mp ⟨n, (runs_orFail_iff.mp hn).1⟩⟩
  rw [← (runs_pure_iff.mp h).1]

theorem stopsFor_prepare_iff : (prepare c w).StopsFor Stop.IsUnread p ↔
    ¬ w.IsTorn ∧ LogLevel.Misasked c.host.environment := by
  rw [← exists_verbosity_eq_ok_iff, ← LogLevel.exists_ofEnvironment_eq_error_iff]
  constructor
  · intro h
    unfold prepare at h
    rcases stopsFor_bind_iff.mp h with h | ⟨n, q, hn, h⟩
    · obtain ⟨f, hf, hread⟩ := stopsFor_orFail_iff.mp h
      rw [Values.verbosity] at hf
      split at hf <;> cases hf
      obtain ⟨_, -, hnumeral⟩ := hread
      cases hnumeral
    refine ⟨⟨n, (runs_orFail_iff.mp hn).1⟩, ?_⟩
    rcases stopsFor_bind_iff.mp h with h | ⟨l, q, hl, h⟩
    · obtain ⟨f, hf, -⟩ := stopsFor_orFail_iff.mp h
      obtain ⟨e, he, -⟩ := mapError_eq_error_iff.mp hf
      exact ⟨e, he⟩
    obtain ⟨log, hlog⟩ := exists_setUp_eq_ok (mapError_eq_ok_iff.mp (runs_orFail_iff.mp hl).1)
    rcases stopsFor_bind_iff.mp h with h | ⟨_, q, -, h⟩
    · obtain ⟨f, hf, -⟩ := stopsFor_orFail_iff.mp h
      rw [hlog] at hf
      cases hf
    · exact absurd h ((spares_modify _).bind (fun _ => spares_pure _) q)
  · rintro ⟨⟨n, hn⟩, e, he⟩
    unfold prepare
    refine stopsFor_bind_iff.mpr (.inr ⟨n, p, runs_orFail_iff.mpr ⟨hn, rfl⟩, stopsFor_bind_iff.mpr (.inl ?_)⟩)
    exact stopsFor_orFail_iff.mpr ⟨_, by rw [he]; rfl, e, ne_tooWide_of_ofEnvironment he, rfl⟩

end Prepare

/-! ## Calls -/

/-- A call ends unprepared, for a numeral that it cannot read. -/
def Result.IsUnread (r : Result) : Prop := r.status = 1 ∧ ∃ e, e ≠ .tooWide ∧ r.fault = some (.numeral e)

namespace Call

open Legible.Cli.Action

variable {c : Call}

/-- A call gets as far as to look at its surroundings: its first options are read and go together, and the word behind
them, if there is one, is for a task. -/
structure Starts (c : Call) (w : Values) (rest : List Text) : Prop where
  reads : Values.read c.host .program c.args = .ok (w, rest)
  known : ∀ word ∈ rest.head?, (Verb.program.part? word).isSome = true
  agrees : ¬ w.IsTorn

/-- A call meets a numeral that it cannot read: in the level that the environment asks for, or in its task. -/
inductive Meets (c : Call) : Prop
  | level {w : Values} {rest : List Text} : c.Starts w rest → LogLevel.Misasked c.host.environment → Meets c
  | task {w : Values} {word : Text} {args : List Text} {v : Verb} : c.Starts w (word :: args) →
      Verb.program.part? word = some v → Scene.TaskMisreads c v args → Meets c

/-- What a call does once its first options are read. -/
def goOn (c : Call) (w : Values) : List Text → Action Unit
  | [] => prepare c w >>= Scene.showHint
  | word :: args => namedPart c.host .program word args >>= fun v => prepare c w >>= fun s => s.enter v args

theorem action_eq (c : Call) :
    c.action = orStop (Values.read c.host .program c.args) >>= fun (w, rest) => c.goOn w rest := by
  unfold action
  refine congrArg _ (funext fun (w, rest) => ?_)
  cases rest <;> rfl

theorem exists_of_stopsFor_goOn {w : Values} {rest : List Text} {p : Progress}
    (hread : Values.read c.host .program c.args = .ok (w, rest)) (h : (c.goOn w rest).StopsFor Stop.IsUnread p) :
    c.Meets := by
  cases rest with
  | nil =>
    rcases stopsFor_bind_iff.mp h with h | ⟨s, q, -, h⟩
    · obtain ⟨hw, hl⟩ := stopsFor_prepare_iff.mp h
      exact .level ⟨hread, nofun, hw⟩ hl
    · exact absurd h (s.spares_showHint q)
  | cons word args =>
    rcases stopsFor_bind_iff.mp h with h | ⟨v, q, hruns, h⟩
    · exact absurd h (Scene.spares_namedPart _)
    obtain ⟨hv, rfl⟩ := Scene.runs_namedPart_iff.mp hruns
    have hknown : ∀ u ∈ (word :: args).head?, (Verb.program.part? u).isSome = true := by
      rintro u ⟨⟩
      exact Option.isSome_of_eq_some hv
    rcases stopsFor_bind_iff.mp h with h | ⟨s, q, hs, h⟩
    · obtain ⟨hw, hl⟩ := stopsFor_prepare_iff.mp h
      exact .level ⟨hread, hknown, hw⟩ hl
    · have htask := Scene.stopsFor_enter_iff.mp h
      obtain ⟨hcall, hw⟩ := of_runs_prepare hs
      exact .task ⟨hread, hknown, hw⟩ hv (hcall ▸ htask)

theorem stopsFor_goOn_of_misasked {w : Values} {rest : List Text} {p : Progress} (h : c.Starts w rest)
    (hl : LogLevel.Misasked c.host.environment) : (c.goOn w rest).StopsFor Stop.IsUnread p := by
  have hprepare {q : Progress} : (prepare c w).StopsFor Stop.IsUnread q := stopsFor_prepare_iff.mpr ⟨h.agrees, hl⟩
  cases rest with
  | nil => exact stopsFor_bind_iff.mpr (.inl hprepare)
  | cons word args =>
    obtain ⟨v, hv⟩ := Option.isSome_iff_exists.mp (h.known word rfl)
    exact stopsFor_bind_iff.mpr (.inr ⟨v, p, Scene.runs_namedPart_iff.mpr ⟨hv, rfl⟩,
      stopsFor_bind_iff.mpr (.inl hprepare)⟩)

theorem stopsFor_action_iff : c.action.StopsFor Stop.IsUnread {} ↔ c.Meets := by
  rw [action_eq, stopsFor_bind_iff, or_iff_right (Scene.spares_read _)]
  simp only [runs_orStop_iff]
  constructor
  · rintro ⟨⟨w, rest⟩, q, ⟨hread, rfl⟩, h⟩
    exact exists_of_stopsFor_goOn hread h
  · intro h
    obtain ⟨w, rest, hstart, hstop⟩ : ∃ w rest, c.Starts w rest ∧ (c.goOn w rest).StopsFor Stop.IsUnread {} := by
      by_cases hl : LogLevel.Misasked c.host.environment
      · cases h with
        | level hstart _ | task hstart _ _ => exact ⟨_, _, hstart, stopsFor_goOn_of_misasked hstart hl⟩
      · cases h with
        | level _ hl' => exact absurd hl' hl
        | @task w word args v hstart hv htask =>
          obtain ⟨s, q, hs⟩ := runs_prepare (p := {}) hstart.agrees hl
          obtain ⟨rfl, -⟩ := of_runs_prepare hs
          exact ⟨w, word :: args, hstart, stopsFor_bind_iff.mpr (.inr ⟨v, {}, Scene.runs_namedPart_iff.mpr ⟨hv, rfl⟩,
            stopsFor_bind_iff.mpr (.inr ⟨s, q, hs, Scene.stopsFor_enter_iff.mpr htask⟩)⟩)⟩
    exact ⟨(w, rest), {}, ⟨hstart.reads, rfl⟩, hstop⟩

theorem fault?_eq_numeral_iff {stop : Stop} {e : NumeralError} :
    stop.fault? = some (.numeral e) ↔ stop = .failure (.numeral e) := by
  cases stop with
  | failure f => cases f <;> simp [Stop.fault?]
  | _ => simp [Stop.fault?]

theorem isUnread_run_iff : c.run.IsUnread ↔ c.Meets := by
  rw [← stopsFor_action_iff, StopsFor, Result.IsUnread, run]
  obtain ⟨stop | u, q, hrun⟩ : ∃ r q, StateT.run (ExceptT.run c.action) {} = (r, q) := ⟨_, _, rfl⟩
  · rw [hrun]
    constructor
    · rintro ⟨-, e, hne, hfault⟩
      exact ⟨stop, q, rfl, e, hne, fault?_eq_numeral_iff.mp hfault⟩
    · rintro ⟨_, _, heq, e, hne, rfl⟩
      cases heq
      exact ⟨rfl, e, hne, rfl⟩
  · rw [hrun]
    refine iff_of_false (fun h => Nat.zero_ne_one h.1) ?_
    rintro ⟨_, _, heq, -⟩
    cases heq

end Call

/-! ## Levels all in all -/

/-- A text gives the severity or the level that it names, or none where it names none; refused are texts of digits that
are no numeral, and no others. A document is not refused for any other severity. A call ends unprepared for a numeral
just if it meets such a text in the variable for the level or in the option for the severity, or a document with a
number of too many digits. -/
theorem levels_are_read_or_unreadable (text : Text) (env : Environment) (document : Text) (call : Call) :
    (((∃ e, Severity.parse text = .error e) ↔ Numeral.Unreadable text.trim) ∧
      ∀ r, Severity.parse text = .ok r ↔ ¬ Numeral.Unreadable text.trim ∧ ∀ s, r = some s ↔ Severity.Names text s) ∧
    (((∃ e, LogLevel.ofEnvironment env = .error e) ↔ LogLevel.Misasked env) ∧
      ∀ r, LogLevel.ofEnvironment env = .ok r ↔ ¬ LogLevel.Misasked env ∧
        ∀ l, r = some l ↔ ∃ t, env.getNonempty? LogLevel.variableName = some t ∧ LogLevel.Names t l) ∧
    ((∃ ds, Input.ofJson document = .ok ds) ↔ ∃ j, Json.parse document = .ok j ∧ ∀ v ∈ Input.items j, ∃ members,
      v = .obj members ∧ (∃ m, Association.lookup members "message" = some (.str m)) ∧
        ∀ t, Association.lookup members "severity" = some (.str t) → ¬ Numeral.Unreadable t.trim) ∧
    (call.run.IsUnread ↔ call.Meets) :=
  ⟨⟨Severity.exists_parse_eq_error_iff, fun _ => Severity.parse_eq_ok_iff⟩,
    ⟨LogLevel.exists_ofEnvironment_eq_error_iff, fun _ => LogLevel.ofEnvironment_eq_ok_iff⟩,
    Input.exists_ofJson_eq_ok_iff, Call.isUnread_run_iff⟩

/-- The superscript two is a digit and no numeral: as a severity, as a level, in a document and as an option. -/
theorem superscript_is_unreadable :
    let env : Environment := { bindings := [(LogLevel.variableName, "²")] }
    let call : Call := {
      args := ["show", "--severity", "²", "m"], host := { environment := {}, files := { nodes := [] } }
      formatter := fun _ _ => {} }
    (∃ e, Severity.parse "²" = .error e) ∧ (∃ e, LogLevel.ofEnvironment env = .error e) ∧
      (¬ ∃ ds, Input.ofJson "[\x7b\"message\": \"m\", \"severity\": \"²\"\x7d]" = .ok ds) ∧ call.run.IsUnread := by
  intro env call
  obtain ⟨hseverity, henv, hdocument, hcall⟩ :=
    levels_are_read_or_unreadable "²" env "[\x7b\"message\": \"m\", \"severity\": \"²\"\x7d]" call
  have htwo : Numeral.Unreadable (Text.trim "²") :=
    { ne_nil := by decide, digits := by decide +kernel, fault := .inl (by decide +kernel) }
  refine ⟨hseverity.1.mpr htwo, henv.1.mpr ⟨"²", by decide +kernel, htwo⟩, ?_, hcall.mpr ?_⟩
  · have hparse : Json.parse "[\x7b\"message\": \"m\", \"severity\": \"²\"\x7d]" =
        .ok (.arr [.obj [("message", .str "m"), ("severity", .str "²")]]) := by cbv
    rw [hdocument]
    rintro ⟨j, hj, hall⟩
    cases hparse.symm.trans hj
    obtain ⟨members, hmembers, -, hread⟩ := hall _ List.mem_cons_self
    cases hmembers
    exact hread "²" rfl htwo
  · have hstarts : call.Starts {} ["show", "--severity", "²", "m"] :=
      ⟨toOption_eq_some_iff.mp (by decide +kernel), by decide, fun h => Nat.lt_irrefl 0 h.1⟩
    have hreads : Values.read call.host .showing ["--severity", "²", "m"] = .ok ({ severity := some "²" }, ["m"]) :=
      toOption_eq_some_iff.mp (by decide +kernel)
    refine .task hstarts (by decide) ⟨{ severity := some "²" }, ["m"], hreads, rfl, fun _ => ?_, ?_⟩
    · refine ⟨fun _ h => absurd h List.not_mem_nil, by decide +kernel, ?_⟩
      exact Draft.exists_freeze_eq_ok_iff.mp ⟨Config.default, toOption_eq_some_iff.mp (by decide +kernel)⟩
    · exact ⟨"m", rfl, "²", rfl, htwo⟩

end Legible.Cli
