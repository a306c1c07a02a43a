import Legible.Machine.Start
import Legible.Proofs.Format.Process
import Legible.Proofs.Text.Utf8
/-!
# The programs of a machine

Whether a program starts is a matter of its name and the machine, and not of what it is to read. A script adds to what
was written before it, and ends with a byte or a signal (`Shell.goesOn_commands`); what stands behind its end is not run.
`cat` repeats its input, so that a text that is handed to it comes back in UTF-8: as a formatter it gives back what the
wrapping leaves of a type.
-/

namespace Legible.Machine

/-! ## Scripts -/

/-- The mark around what a shell takes as it is. -/
def singleQuote : CodePoint := '\''

/-- In single quotes the reader adds every character to the word. -/
theorem foldl_read_quoted {t : Text} (ht : singleQuote ∉ t) (r : Script.Reader) (u : Text)
    (hquoting : r.quoting = .single) (hpending : r.pending = .nothing) (hword : r.word = some [.plain u]) :
    t.foldl Script.Reader.read r = { r with word := some [.plain (u ++ t)] } := by
  induction t generalizing r u with
  | nil => rw [List.foldl_nil, List.append_nil, ← hword]
  | cons c t ih =>
    rw [List.mem_cons, not_or] at ht
    have hread : r.read c = { r with word := some [.plain (u ++ [c])] } := by
      simp [Script.Reader.read, Script.Reader.readChar, Script.Reader.addChar, Script.Reader.add, hpending, hquoting, hword,
        show ¬ c = CodePoint.ofChar '\'' from fun h => ht.1 h.symm]
    rw [List.foldl_cons, hread,
      ih ht.2 { r with word := some [.plain (u ++ [c])] } (u ++ [c]) hquoting hpending rfl, List.append_assoc]
    rfl

/-- A text in single quotes is one word, and a shell takes it as it is. -/
theorem tokens_quoted {t : Text} (ht : singleQuote ∉ t) :
    ∃ w, Script.tokens (singleQuote :: (t ++ [singleQuote])) = [.word w] ∧ ∀ s : Shell, s.expand w = [t] := by
  have hopen : Script.Reader.read {} singleQuote = { quoting := .single, word := some [] } := by decide
  cases t with
  | nil => exact ⟨[], by decide, fun _ => rfl⟩
  | cons c t =>
    rw [List.mem_cons, not_or] at ht
    have hfirst : Script.Reader.read { quoting := .single, word := some [] } c
        = { quoting := .single, word := some [.plain [c]] } := by
      simp [Script.Reader.read, Script.Reader.readChar, Script.Reader.addChar, Script.Reader.add,
        show ¬ c = CodePoint.ofChar '\'' from fun h => ht.1 h.symm]
    refine ⟨[.plain (c :: t)], ?_, fun _ => rfl⟩
    rw [Script.tokens, List.foldl_cons, hopen, List.cons_append, List.foldl_cons, hfirst, List.foldl_append,
      foldl_read_quoted ht.2 { quoting := .single, word := some [.plain [c]] } [c] rfl rfl rfl]
    rfl

namespace Shell

variable {s t u : Shell}

/-- A status is a byte, or a signal below zero. -/
def InRange (s : Shell) : Prop := s.status < 256 ∧ ∀ n ∈ s.ended, n < 256

/-- What a command can do to a shell: it adds to the outputs and the time, and may use the input up. -/
structure GoesOn (s t : Shell) : Prop where
  parameters : t.parameters = s.parameters
  input : t.input <:+ s.input
  stdout : s.stdout <+: t.stdout
  stderr : s.stderr <+: t.stderr
  duration : s.duration ≤ t.duration
  inRange : s.InRange → t.InRange

theorem GoesOn.refl (s : Shell) : GoesOn s s :=
  ⟨rfl, List.suffix_rfl, List.prefix_rfl, List.prefix_rfl, Nat.le_refl _, id⟩

theorem GoesOn.trans (h : GoesOn s t) (h' : GoesOn t u) : GoesOn s u :=
  ⟨h'.parameters.trans h.parameters, h'.input.trans h.input, h.stdout.trans h'.stdout, h.stderr.trans h'.stderr,
    Nat.le_trans h.duration h'.duration, h'.inRange ∘ h.inRange⟩

theorem goesOn_write (s : Shell) (k : Sink) (bs : Bytes) : GoesOn s (s.write k bs) := by
  cases k with
  | stdout => exact ⟨rfl, List.suffix_rfl, List.prefix_append .., List.prefix_rfl, Nat.le_refl _, id⟩
  | stderr => exact ⟨rfl, List.suffix_rfl, List.prefix_rfl, List.prefix_append .., Nat.le_refl _, id⟩
  | nowhere => exact .refl s

theorem goesOn_leave (s : Shell) {status : Nat} (h : status < 256) : GoesOn s (s.leave status) :=
  ⟨rfl, List.suffix_rfl, List.prefix_rfl, List.prefix_rfl, Nat.le_refl _, fun hs => ⟨h, hs.2⟩⟩

theorem goesOn_end (s : Shell) {status : Int} (h : s.InRange → status < 256) :
    GoesOn s { s with ended := some status } := by
  refine ⟨rfl, List.suffix_rfl, List.prefix_rfl, List.prefix_rfl, Nat.le_refl _, fun hs => ⟨hs.1, ?_⟩⟩
  rintro n ⟨⟩
  exact h hs

theorem goesOn_copy (s : Shell) (k : Sinks) (args : List Text) : GoesOn s (s.copy k args) := by
  unfold copy
  split
  · have hused (t : Shell) : GoesOn t { t with input := [] } :=
      ⟨rfl, List.nil_suffix, List.prefix_rfl, List.prefix_rfl, Nat.le_refl _, id⟩
    exact ((goesOn_write s k.output s.input).trans (hused _)).trans (goesOn_leave _ (by decide))
  · exact goesOn_leave s (by decide)

theorem goesOn_kill (s : Shell) (args : List Text) : GoesOn s (s.kill args) := by
  unfold kill
  dsimp only
  split
  · refine goesOn_end s fun _ => ?_
    omega
  · exact goesOn_leave s (by decide)

theorem goesOn_exitWith (s : Shell) (args : List Text) : GoesOn s (s.exitWith args) := by
  refine goesOn_end s fun hs => ?_
  split
  · omega
  · exact Int.ofNat_lt.mpr hs.1

theorem goesOn_execute (s : Shell) (k : Sinks) (line : Nat) (name : Text) (args : List Text) :
    GoesOn s (s.execute k line name args) := by
  have hwrites (bs : Bytes) : GoesOn s ((s.write k.output bs).leave 0) :=
    (goesOn_write s k.output bs).trans (goesOn_leave _ (by decide))
  unfold execute
  split
  · exact hwrites _
  · exact hwrites _
  · exact goesOn_exitWith s args
  · exact goesOn_kill s args
  · exact goesOn_leave s (by decide)
  · exact goesOn_leave s (by decide)
  · exact goesOn_leave s (by decide)
  · exact goesOn_copy s k args
  · have hwaits (n : Nat) : GoesOn s { s with duration := s.duration + n } :=
      ⟨rfl, List.suffix_rfl, List.prefix_rfl, List.prefix_rfl, Nat.le_add_right .., id⟩
    exact (hwaits _).trans (goesOn_leave _ (by decide))
  · exact (goesOn_write s k.errors _).trans (goesOn_leave _ (by decide))

theorem goesOn_finish (s : Shell) : GoesOn s s.finish := by
  refine goesOn_end s fun hs => ?_
  cases h : s.ended with
  | none => exact Int.ofNat_lt.mpr hs.1
  | some n => exact hs.2 n h

/-- One command. -/
theorem goesOn_runCommand (s : Shell) (c : Script.Command) : GoesOn s (s.runCommand c) := by
  unfold runCommand
  split
  · exact .refl s
  · split
    · exact goesOn_leave s (by decide)
    · exact goesOn_execute ..
    · dsimp only
      split
      · exact (goesOn_execute ..).trans (goesOn_finish _)
      · exact goesOn_execute ..

/-- Commands one after the other. -/
theorem goesOn_commands (s : Shell) (cs : List Script.Command) : GoesOn s (cs.foldl runCommand s) := by
  induction cs generalizing s with
  | nil => exact .refl s
  | cons c cs ih => exact (goesOn_runCommand s c).trans (ih _)

theorem runCommand_of_ended (h : s.ended.isSome = true) (c : Script.Command) : s.runCommand c = s := by
  simp [runCommand, h]

/-- What stands behind the end of a script is not run. -/
theorem foldl_append_of_ended {cs : List Script.Command} (h : (cs.foldl runCommand s).ended.isSome = true)
    (rest : List Script.Command) : (cs ++ rest).foldl runCommand s = cs.foldl runCommand s := by
  rw [List.foldl_append]
  generalize cs.foldl runCommand s = t at h
  induction rest with
  | nil => rfl
  | cons c rest ih => rwa [List.foldl_cons, runCommand_of_ended h]

/-- A script ends with a byte or a signal. -/
theorem status_run_lt (h : s.InRange) (script : Text) : (s.run script).exit.status < 256 := by
  obtain ⟨hstatus, hended⟩ := (goesOn_commands s (Script.commands script)).inRange h
  unfold run
  generalize (Script.commands script).foldl runCommand s = t at hstatus hended
  dsimp only
  cases ht : t.ended with
  | none => exact Int.ofNat_lt.mpr hstatus
  | some n => exact hended n ht

end Shell

/-! ## Starting a program -/

variable {h : Host} {name : Text} {argv : List Text} {input : Bytes}

/-- What a program is to read has no part in whether it starts. -/
theorem start_eq_error_iff (h : Host) (argv : List Text) (input input' : Bytes) (f : StartFault) :
    start h argv input = .error f ↔ start h argv input' = .error f := by
  unfold start
  split
  · rfl
  · rfl
  · split
    · rfl
    · split
      · exact iff_of_false nofun nofun
      · split
        · exact iff_of_false nofun nofun
        · split
          · exact iff_of_false nofun nofun
          · rfl

/-- A file that `cat` can copy, or its input. -/
def CanCopy (h : Host) (file : Text) : Prop := file = "-" ∨ ∃ content x,
  ({ nodes := h.files.nodes ++ system } : FileTree).findText h.environment.directory file = .ok (.file content x)

/-- `cat` ends well if and only if it can copy every file. -/
theorem status_copyFiles (h : Host) (name : Text) (input : Bytes) (files : List Text) :
    (copyFiles h name input files).status = 0 ∧ (∀ file ∈ files, CanCopy h file) ∨
      (copyFiles h name input files).status = 1 ∧ ∃ file ∈ files, ¬ CanCopy h file := by
  induction files generalizing input with
  | nil => exact .inl ⟨rfl, fun _ hfile => absurd hfile List.not_mem_nil⟩
  | cons file rest ih =>
    have copied (input : Bytes) (hcopy : CanCopy h file) :
        (copyFiles h name input rest).status = 0 ∧ (∀ f ∈ file :: rest, CanCopy h f) ∨
          (copyFiles h name input rest).status = 1 ∧ ∃ f ∈ file :: rest, ¬ CanCopy h f := by
      refine (ih input).imp (And.imp_right fun hall => List.forall_mem_cons.mpr ⟨hcopy, hall⟩) (And.imp_right ?_)
      exact fun ⟨f, hf, hnot⟩ => ⟨f, List.mem_cons_of_mem _ hf, hnot⟩
    unfold copyFiles
    split
    · rename_i hdash
      exact copied [] (.inl hdash)
    · rename_i hdash
      have faulty (hnot : ∀ content x, ({ nodes := h.files.nodes ++ system } : FileTree).findText h.environment.directory
          file ≠ .ok (.file content x)) : ∃ f ∈ file :: rest, ¬ CanCopy h f :=
        ⟨file, List.mem_cons_self, fun hcopy => hcopy.elim hdash fun ⟨content, x, hfound⟩ => hnot content x hfound⟩
      dsimp only
      split
      · rename_i content x hfound
        exact copied input (.inr ⟨content, x, hfound⟩)
      · rename_i hfound
        exact .inr ⟨rfl, faulty fun _ _ h => nomatch hfound.symm.trans h⟩
      · rename_i f hfound
        exact .inr ⟨rfl, faulty fun _ _ h => nomatch hfound.symm.trans h⟩

theorem status_complain (name : Text) (status : Int) (what : Text) :
    (complain name status what).exit.status = status := rfl

theorem status_shell_lt (h : Host) (name : Text) (input : Bytes) (args : List Text) :
    (shell h name input args).exit.status < 256 := by
  have hrun (parameters : List Text) (input : Bytes) (script : Text) :
      (Shell.run { parameters, input } script).exit.status < 256 :=
    Shell.status_run_lt ⟨Nat.zero_lt_succ _, by simp⟩ script
  have hcomplain (what : Text) : (complain name 2 what).exit.status < 256 := by
    rw [status_complain]
    decide
  unfold shell
  split
  · exact hrun ..
  · split
    · split
      · exact hcomplain _
      · exact hrun ..
    · split
      · exact hrun ..
      · split
        · exact hcomplain _
        · split
          · exact hrun ..
          · exact hcomplain _

theorem status_sleep_lt (name : Text) (args : List Text) : (sleep name args).exit.status < 256 := by
  have hcomplain (what : Text) : (complain name 1 what).exit.status < 256 := by
    rw [status_complain]
    decide
  unfold sleep
  split
  · exact hcomplain _
  · split
    · exact hcomplain _
    · dsimp only
      decide

/-- Every program ends with a byte or a signal. -/
theorem status_start_lt {e : Ended} (hstart : start h argv input = .ok e) : e.exit.status < 256 := by
  unfold start at hstart
  split at hstart
  · cases hstart
  · cases hstart
  · split at hstart
    · cases hstart
    · split at hstart
      · cases hstart
        rcases status_copyFiles h _ input _ with ⟨hstatus, _⟩ | ⟨hstatus, _⟩ <;> rw [hstatus] <;> decide
      · split at hstart
        · cases hstart
          exact status_shell_lt ..
        · split at hstart
          · cases hstart
            exact status_sleep_lt ..
          · cases hstart

/-! ## A program that repeats its input -/

/-- The name leads to `cat`. -/
structure IsCat (h : Host) (name : Text) : Prop where
  named : PathFault.find? name = none
  found : firstProgram h none (.file .missing) (candidates h name) = .ok (Utf8.encode "cat")

example : IsCat { environment := {}, files := { nodes := [] } } "cat" := ⟨by decide +kernel, by rfl⟩

theorem IsCat.start (hcat : IsCat h name) (input : Bytes) :
    start h [name] input = .ok { exit := ⟨0, input, []⟩ } := by
  simp [Machine.start, hcat.named, hcat.found, copyFiles]

/-- The program is what the machine starts. -/
def Provides (h : Host) (program : Program) : Prop :=
  ∀ argv input e, start h argv input = .ok e → program argv input = e.exit

/-- A text comes back from `cat`, with question marks for its surrogates. If the caller waits for it, its line ends are
unified. -/
theorem IsCat.repeats (hcat : IsCat h name) {program : Program} (hprogram : Provides h program) (t : Text) :
    program.runOnClock [name] t = ⟨[name], 0, t.map Utf8.written, []⟩ ∧
      program.runBlocking [name] t = ⟨[name], 0, Text.unifyNewlines (t.map Utf8.written), []⟩ := by
  have hexit := hprogram _ _ _ (hcat.start (ProcessResult.inputBytes t))
  have hclock : program.runOnClock [name] t = ⟨[name], 0, t.map Utf8.written, []⟩ := by
    rw [Program.runOnClock, hexit, ← Utf8.decodeReplacing_encodeReplacing]
    rfl
  have hblocking : program.runBlocking [name] t = (program.runOnClock [name] t).unified := rfl
  rw [hblocking, hclock]
  exact ⟨rfl, rfl⟩

/-- The wrapping brings no surrogates in. -/
theorem not_isSurrogate_of_mem_wrap {content : Text} (hcontent : ∀ c ∈ content, c.isSurrogate = false) :
    ∀ c ∈ Wrapping.wrap content, c.isSurrogate = false := by
  intro c hc
  have hfixed : ∀ p ∈ [Wrapping.aliasHead, " ", Wrapping.ellipsis, Wrapping.placeholder, ";"], ∀ c ∈ p,
      c.isSurrogate = false := by decide
  by_contra hsurrogate
  have hnot (p : Text) (hp : p ∈ [Wrapping.aliasHead, " ", Wrapping.ellipsis, Wrapping.placeholder, ";"]) : c ∉ p :=
    fun h => hsurrogate (hfixed p hp c h)
  simp only [Wrapping.wrap, List.mem_append] at hc
  rcases hc with ((hc | hc) | hc) | hc
  · exact hnot _ (by simp) hc
  · exact hnot _ (by simp) hc
  · rw [Wrapping.sanitize, Text.mem_replace_iff Wrapping.ellipsis_ne_nil (hnot _ (by simp)) (hnot _ (by simp))] at hc
    exact hsurrogate (hcontent c hc)
  · exact hnot _ (by simp) hc

/-- As a formatter, `cat` gives back what the wrapping leaves of a type that has no surrogates. -/
theorem IsCat.formats (hcat : IsCat h name) {program : Program} (hprogram : Provides h program) {content : Text}
    (hcontent : ∀ c ∈ content, c.isSurrogate = false) :
    Outcome.ofResult content (program.runOnClock [name] (Wrapping.wrap content))
      = ⟨Wrapping.unwrap (Wrapping.wrap content), none⟩ := by
  have hwritten : (Wrapping.wrap content).map Utf8.written = Wrapping.wrap content :=
    (List.map_congr_left fun c hc =>
      Utf8.written_of_not_isSurrogate (not_isSurrogate_of_mem_wrap hcontent c hc)).trans (List.map_id' _)
  obtain ⟨hclock, _⟩ := hcat.repeats hprogram (Wrapping.wrap content)
  rw [hclock, hwritten]
  exact Outcome.ofResult_of_ok rfl content

end Legible.Machine
