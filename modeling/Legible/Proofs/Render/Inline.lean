import Legible.Render.Inline
import Legible.Proofs.Message.Rebuilding
import Legible.Proofs.Service.Provenance
import Mathlib.Logic.Function.Iterate
/-!
# A diagnostic on one line

The line has a part for every segment: prose without the white space around it, and a type between quotes, as the cache
has it or as it is. Where no run is needed, rendering the line changes nothing (`inlineParts_of_known`). That is so
without a formatter, and then the line shows what is visible of the message. It is so, too, once every type is in the
cache, and rendering the line with a formatter puts them there, each by a run of its own.
-/

namespace Legible

open Message (backtick quote)

/-! ## What is visible of a text -/

namespace Text

/-- The characters of a text without white space, where a backtick counts as a quote. -/
def visible (t : Text) : Text :=
  (t.filter fun c => !c.isBlank).map fun c => if c = backtick then quote else c

theorem visible_append (t u : Text) : visible (t ++ u) = visible t ++ visible u := by
  simp only [visible, List.filter_append, List.map_append]

theorem visible_of_isBlank {t : Text} (h : ∀ c ∈ t, c.isBlank = true) : visible t = [] := by
  have hnone : t.filter (fun c => !c.isBlank) = [] := List.filter_eq_nil_iff.mpr fun c hc => by simp [h c hc]
  rw [visible, hnone, List.map_nil]

theorem visible_trimStart (t : Text) : visible t.trimStart = visible t := by
  have hblank : visible (t.takeWhile CodePoint.isBlank) = [] := visible_of_isBlank fun _ => List.mem_takeWhile_imp
  have hsplit : t.takeWhile CodePoint.isBlank ++ t.trimStart = t := List.takeWhile_append_dropWhile
  conv_rhs => rw [← hsplit, visible_append, hblank, List.nil_append]

theorem visible_reverse (t : Text) : visible t.reverse = (visible t).reverse := by
  simp only [visible, List.filter_reverse, List.map_reverse]

theorem visible_trim (t : Text) : visible t.trim = visible t := by
  have hend : t.trimStart.trimEnd = (trimStart t.trimStart.reverse).reverse := rfl
  rw [trim, hend, visible_reverse, visible_trimStart, visible_reverse, List.reverse_reverse, visible_trimStart]

/-- What stands between the parts is not visible if it is white space. -/
theorem visible_join {sep : Text} (hsep : visible sep = []) (ts : List Text) :
    visible (join sep ts) = ts.flatMap visible := by
  induction ts using join.induct with
  | case1 => rfl
  | case2 t => rw [join, List.flatMap_singleton]
  | case3 t u r ih =>
    rw [join, visible_append, visible_append, hsep, List.append_nil, ih, List.flatMap_cons (x := t)]

end Text

namespace Service

variable {s t : Service} {c : Command} {content text : Text} {segs : List Segment}

/-! ## Lines without a run -/

/-- The part of a segment in the line, with a type as a cache has it, or as it is. -/
def linePart (cache : Cache) : Segment → Text
  | .text content _ => content.trim
  | .code content _ => "'" ++ (cache.get? content).getD content ++ "'"

/-- Where nothing is run for any of the types, the parts of the line are had as they are known. -/
theorem inlineParts_of_known (h : ∀ content lang, .code content lang ∈ segs →
      s.inlineCode content = (.ok ((s.cache.get? content).getD content), s)) :
    s.inlineParts segs = (.ok (segs.map (linePart s.cache)), s) := by
  induction segs with
  | nil => rfl
  | cons seg rest ih =>
    have hrest := ih fun content lang hmem => h content lang (List.mem_cons_of_mem _ hmem)
    cases seg with
    | text content lang =>
      rw [inlineParts, hrest]
      rfl
    | code content lang =>
      rw [inlineParts, h content lang List.mem_cons_self]
      simp only [hrest]
      rfl

theorem inline_of_known {d : Diagnostic}
    (h : ∀ content lang, .code content lang ∈ Message.segments d.message →
      s.inlineCode content = (.ok ((s.cache.get? content).getD content), s)) :
    s.inline d = (.ok (Text.join " " ((Message.segments d.message).map (linePart s.cache))), s) := by
  rw [inline, inlineParts_of_known h]
  rfl

/-- A segment shows what is visible of its part of the message, if its type is not in the cache. -/
theorem visible_linePart {cache : Cache} (hcache : ∀ content, cache.get? content = none) {seg : Segment} {part : Text}
    (h : Message.Shows seg part) : Text.visible (linePart cache seg) = Text.visible part := by
  have hquoted (q : Text) : ("'" ++ q ++ "'" : Text) = quote :: (q ++ [quote]) := rfl
  cases h with
  | prose => exact Text.visible_trim part
  | type q =>
    rw [linePart, hcache, Option.getD_none, hquoted]
  | span q =>
    -- the backticks of a span that is no type stand where its quotes stood
    have hticks : Text.visible "`" = Text.visible [quote] := by decide
    rw [linePart, Text.visible_trim, ← hquoted]
    simp only [Text.visible_append]
    rw [hticks]
    rfl

theorem visible_lineParts {cache : Cache} (hcache : ∀ content, cache.get? content = none) {parts : List Text}
    (h : List.Forall₂ Message.Shows segs parts) :
    (segs.map (linePart cache)).flatMap Text.visible = Text.visible parts.flatten := by
  induction h with
  | nil => rfl
  | cons hshow _ ih =>
    rw [List.map_cons, List.flatMap_cons, List.flatten_cons, Text.visible_append, visible_linePart hcache hshow, ih]

/-- With an empty cache, no blocking runs and no clock, a diagnostic is rendered on one line without a formatter, and
nothing visible of its message is dropped, doubled or moved: apart from white space the line is the message, where a
backtick counts as a quote. -/
theorem line_shows_all_that_is_visible (hcache : ∀ content, s.cache.get? content = none)
    (hsync : s.config.syncFormat = false) (hclock : s.onClock = false) (d : Diagnostic) :
    ∃ line, s.inline d = (.ok line, s) ∧ Text.visible line = Text.visible d.message := by
  have hplain (content : Text) : s.inlineCode content = (.ok ((s.cache.get? content).getD content), s) := by
    simp [inlineCode, hcache, hsync, hclock]
  obtain ⟨cut, hcut⟩ := Message.exists_cut d.message
  obtain ⟨parts, hshows, hparts⟩ := Message.Cut.shows hcut
  rw [← Message.segments_eq_of_cut hcut] at hshows
  refine ⟨_, inline_of_known fun content _ _ => hplain content, ?_⟩
  rw [Text.visible_join (by decide), visible_lineParts hcache hshows, hparts]

/-- A type, backticks in the prose, an empty span, and a quote without a partner behind a line end. -/
theorem mixed_message_stays_visible :
    let config : Config := { Config.default with syncFormat := false }
    let empty := create config { fixed := some "fmt" } (fun _ => none) fun _ _ => {}
    let s := { empty with onClock := false }
    let d : Diagnostic := { message := "Type '{ a: string; b: number; c: boolean }'  or `x` is ''\n not '(y' here" }
    (∀ content, s.cache.get? content = none) ∧ s.config.syncFormat = false ∧ s.onClock = false ∧
      ∃ line, s.inline d = (.ok line, s) ∧ Text.visible line = Text.visible d.message ∧
        line = "Type '{ a: string; b: number; c: boolean }' or `x` is `` not '(y' here" := by
  intro config empty s d
  have hcache (content : Text) : s.cache.get? content = none :=
    get?_create config { fixed := some "fmt" } (fun _ => none) (fun _ _ => {}) content
  obtain ⟨line, hline, hvisible⟩ := line_shows_all_that_is_visible hcache rfl rfl d
  have htext : (s.inline d).1.toOption =
      some "Type '{ a: string; b: number; c: boolean }' or `x` is `` not '(y' here" := by decide +kernel
  rw [hline] at htext
  exact ⟨hcache, rfl, rfl, line, hline, hvisible, Option.some.inj htext⟩

/-! ## Runs for the types of a line -/

/-- The types among segments, in order. -/
def types (segs : List Segment) : List Text := (segs.filter Segment.isCode).map Segment.content

@[simp] theorem types_text (content : Text) (lang : Option Text) (rest : List Segment) :
    types (.text content lang :: rest) = types rest := rfl

@[simp] theorem types_code (content lang : Text) (rest : List Segment) :
    types (.code content lang :: rest) = content :: types rest := rfl

theorem mem_types_of_mem {content lang : Text} (h : .code content lang ∈ segs) : content ∈ types segs :=
  List.mem_map.mpr ⟨_, List.mem_filter.mpr ⟨h, rfl⟩, rfl⟩

/-- The blocking run of a command for a type. -/
def typeRun (config : Config) (c : Command) (content : Text) : Run :=
  ⟨c.argv config.printWidth config.formatterArgs, Wrapping.wrap content, some config.timeoutMs⟩

/-- The formatter finishes the run in time and well. -/
def Serves (formatter : Formatter) (k : Nat) (run : Run) : Prop :=
  (formatter k run).hangs = false ∧ ∃ text, (formatter k run).Succeeds text

theorem argv_of_usable (hu : ¬ Unusable s.config c) :
    s.argv c = .ok (c.argv s.config.printWidth s.config.formatterArgs) := by
  cases ha : s.argv c with
  | error f => exact absurd ((argv_eq_error_iff c).mp ⟨f, ha⟩) hu
  | ok found =>
    rw [argv] at ha
    split at ha
    · cases ha
    · split at ha
      · cases ha
      · exact ha.symm

/-- A type that is not in the cache is formatted by the run for it, and its text enters the cache. -/
theorem formatBlocking_of_serves (hmiss : s.cache.get? content = none) (hlocated : s.locate.1 = some c)
    (hu : ¬ Unusable s.config c) (hserves : Serves s.formatter s.runs.length (typeRun s.config c content)) :
    ∃ text t, s.formatBlocking content = (.ok ⟨text, none⟩, t) ∧ t.config = s.config ∧ t.formatter = s.formatter ∧
      t.locate.1 = some c ∧ t.runs = s.runs ++ [typeRun s.config c content] ∧
      t.cache = s.cache.set content text := by
  obtain ⟨hhangs, text, hsucceeds⟩ := hserves
  have hagain : s.locate.2.locate.1 = some c := (Locator.locate_locate s.which s.locator).trans hlocated
  have hrun := runBlocking_of_succeeds (s := s.locate.2) hhangs hsucceeds
  rw [formatBlocking_of_miss hmiss hlocated, argv_of_usable hu]
  dsimp only
  rw [hrun]
  exact ⟨text, _, rfl, rfl, rfl, hagain, rfl, rfl⟩

/-- Blocking runs of the command can be started and serve all of these types, and the cache holds what is known of
them. -/
structure Warms (s : Service) (c : Command) (all known : List Text) : Prop where
  blocking : s.config.syncFormat = true
  located : s.locate.1 = some c
  usable : ¬ Unusable s.config c
  serves : ∀ k, ∀ content ∈ all, Serves s.formatter k (typeRun s.config c content)
  cache : s.cache.Holds all known

namespace Warms

variable {all known : List Text}

/-- One more type is had from the cache, or by the run for it. -/
theorem code (h : Warms s c all known) (hmem : content ∈ all) :
    ∃ text u, s.inlineCode content = (.ok text, u) ∧ u.config = s.config ∧
      u.runs = s.runs ++ ([content].removeAll known).map (typeRun s.config c) ∧ Warms u c all (known.insert content) ∧
      u.cache.get? content = some text ∧ ∀ other ∈ known, u.cache.get? other = s.cache.get? other := by
  by_cases hknown : content ∈ known
  · obtain ⟨text, hhit⟩ := (h.cache.answers content hmem).mpr hknown
    refine ⟨text, s, ?_, rfl, ?_, ?_, hhit, fun _ _ => rfl⟩
    · rw [inlineCode, hhit]
    · simp [List.cons_removeAll, hknown]
    · rw [List.insert_of_mem hknown]
      exact h
  · have hmiss : s.cache.get? content = none :=
      Option.eq_none_iff_forall_ne_some.mpr fun text htext => hknown ((h.cache.answers content hmem).mp ⟨text, htext⟩)
    obtain ⟨text, u, hformat, hconfig, hformatter, hlocated, hruns, hcache⟩ :=
      formatBlocking_of_serves hmiss h.located h.usable (h.serves s.runs.length content hmem)
    have hget {other formatted : Text} (hother : other ∈ all) : u.cache.get? other = some formatted ↔
        (content = other ∧ text = formatted) ∨ (content ≠ other ∧ s.cache.get? other = some formatted) := by
      rw [hcache]
      exact h.cache.get?_set_eq_some_iff hmem hknown hother
    refine ⟨text, u, ?_, hconfig, ?_, ?_, (hget hmem).mpr (.inl ⟨rfl, rfl⟩), fun other hother => ?_⟩
    · rw [inlineCode, hmiss]
      simp only [h.blocking, if_true, hformat]
      rfl
    · rw [hruns]
      simp [List.cons_removeAll, hknown]
    · rw [List.insert_of_not_mem hknown]
      exact ⟨hconfig ▸ h.blocking, hlocated, hconfig ▸ h.usable, hconfig ▸ hformatter ▸ h.serves,
        hcache ▸ h.cache.set hmem hknown text⟩
    · have hne : content ≠ other := fun heq => hknown (heq ▸ hother)
      refine Option.ext fun formatted => (hget (h.cache.subset hother)).trans ?_
      simp [hne]

/-- Types that occur again, or are known before, have no run of their own. -/
theorem eraseDups_removeAll_cons (content : Text) (rest known : List Text) :
    ((content :: rest).removeAll known).eraseDups =
      [content].removeAll known ++ (rest.removeAll (known.insert content)).eraseDups := by
  by_cases hknown : content ∈ known
  · rw [List.insert_of_mem hknown]
    simp [List.cons_removeAll, hknown]
  · rw [List.insert_of_not_mem hknown, List.removeAll_cons]
    simp [hknown, List.eraseDups_cons, List.removeAll, List.filter_filter, Bool.and_comm]

/-- The parts of a line are as the cache has them in the end, and every type that was not known has had one run. -/
theorem inlineParts (h : Warms s c all known) (hall : types segs ⊆ all) :
    ∃ t known', s.inlineParts segs = (.ok (segs.map (linePart t.cache)), t) ∧ t.config = s.config ∧
      t.runs = s.runs ++ ((types segs).removeAll known).eraseDups.map (typeRun s.config c) ∧
      Warms t c all known' ∧ known ++ types segs ⊆ known' ∧
      ∀ other ∈ known, t.cache.get? other = s.cache.get? other := by
  induction segs generalizing s known with
  | nil => exact ⟨s, known, rfl, rfl, by simp [types, List.removeAll], h, by simp [types], fun _ _ => rfl⟩
  | cons seg rest ih =>
    cases seg with
    | text content lang =>
      obtain ⟨t, known', hparts, hconfig, hruns, hwarms, hsub, hsame⟩ := ih h hall
      refine ⟨t, known', ?_, hconfig, hruns, hwarms, hsub, hsame⟩
      rw [Service.inlineParts, hparts]
      rfl
    | code content lang =>
      rw [types_code, List.cons_subset] at hall
      obtain ⟨text, u, hcode, hconfig, hruns, hwarms, hget, hsame⟩ := h.code hall.1
      obtain ⟨t, known', hparts, hconfig', hruns', hwarms', hsub, hsame'⟩ := ih hwarms hall.2
      have htext : t.cache.get? content = some text := (hsame' content List.mem_insert_self).trans hget
      refine ⟨t, known', ?_, hconfig'.trans hconfig, ?_, hwarms', ?_, fun other hother => ?_⟩
      · rw [Service.inlineParts, hcode]
        simp only [hparts, Except.map, List.map_cons, linePart, htext, Option.getD_some]
      · rw [hruns', hruns, hconfig, types_code, eraseDups_removeAll_cons, List.map_append, List.append_assoc]
      · intro other hother
        refine hsub ?_
        simp only [List.mem_append, types_code, List.mem_cons, List.mem_insert_iff] at hother ⊢
        tauto
      · exact (hsame' other (List.mem_insert_of_mem hother)).trans (hsame other hother)

end Warms

/-- Where no run can be started the first type is refused, and none has been run for. -/
theorem inlineParts_of_unusable (hsync : s.config.syncFormat = true) (hlocated : s.locate.1 = some c)
    (hu : Unusable s.config c) (hmiss : ∀ content ∈ types segs, s.cache.get? content = none)
    (htypes : types segs ≠ []) : ∃ f, (s.inlineParts segs).1 = .error f ∧ (s.inlineParts segs).2.runs = s.runs := by
  induction segs with
  | nil => exact absurd rfl htypes
  | cons seg rest ih =>
    cases seg with
    | text content lang =>
      obtain ⟨f, herror, hruns⟩ := ih hmiss htypes
      refine ⟨f, ?_, hruns⟩
      rw [inlineParts]
      dsimp only
      rw [herror]
      rfl
    | code content lang =>
      obtain ⟨f, hf⟩ := (argv_eq_error_iff c).mpr hu
      have hcontent := hmiss content List.mem_cons_self
      have hcode : s.inlineCode content = (.error f, s.locate.2) := by
        rw [inlineCode, hcontent]
        simp only [hsync, if_true, formatBlocking_of_miss hcontent hlocated, hf]
        rfl
      rw [inlineParts, hcode]
      exact ⟨f, rfl, rfl⟩

/-- With blocking runs, an empty cache that has room for them and a formatter that finishes its runs in time and well, the
line takes one run for each type of the message, in the order in which the types occur first. Rendered again, it is the
same and takes none. It is refused, without a run, exactly if it holds a type and the settings let no run be started. -/
theorem every_type_is_run_for_once (hsync : s.config.syncFormat = true) (hempty : s.cache.entries = [])
    (hlocated : s.locate.1 = some c) (d : Diagnostic) (hfits : s.cache.Fits (types (Message.segments d.message)))
    (hserves : ∀ k, ∀ content ∈ types (Message.segments d.message), Serves s.formatter k (typeRun s.config c content)) :
    let refused : Prop := types (Message.segments d.message) ≠ [] ∧ Unusable s.config c
    (refused → ∃ f, (s.inline d).1 = .error f ∧ (s.inline d).2.runs = s.runs) ∧
      (¬ refused → ∃ line t, s.inline d = (.ok line, t) ∧
        t.runs = s.runs ++ (types (Message.segments d.message)).eraseDups.map (typeRun s.config c) ∧
        ∀ n, ((fun u : Service => (u.inline d).2)^[n] t).inline d = (.ok line, t)) := by
  intro refused
  have hagain {line : Text} {t : Service} (h : t.inline d = (.ok line, t)) (n : Nat) :
      ((fun u : Service => (u.inline d).2)^[n] t).inline d = (.ok line, t) := by
    rw [Function.iterate_fixed (congrArg Prod.snd h), h]
  have hholds := Cache.Holds.of_empty hfits hempty
  constructor
  · rintro ⟨htypes, hu⟩
    have hmiss : ∀ content ∈ types (Message.segments d.message), s.cache.get? content = none := fun content hmem =>
      Option.eq_none_iff_forall_ne_some.mpr fun text htext =>
        List.not_mem_nil ((hholds.answers content hmem).mp ⟨text, htext⟩)
    obtain ⟨f, herror, hruns⟩ := inlineParts_of_unusable hsync hlocated hu hmiss htypes
    refine ⟨f, ?_, hruns⟩
    rw [inline]
    dsimp only
    rw [herror]
    rfl
  · intro hgranted
    by_cases htypes : types (Message.segments d.message) = []
    · have hline := inline_of_known (s := s) (d := d) fun content lang hmem =>
        absurd (mem_types_of_mem hmem) (htypes ▸ List.not_mem_nil)
      exact ⟨_, s, hline, by simp [htypes], hagain hline⟩
    · have hwarms : Warms s c (types (Message.segments d.message)) [] :=
        ⟨hsync, hlocated, fun hu => hgranted ⟨htypes, hu⟩, hserves, hholds⟩
      obtain ⟨t, known, hparts, -, hruns, hwarms, hsub, -⟩ := hwarms.inlineParts (List.Subset.refl _)
      have hline : s.inline d
          = (.ok (Text.join " " ((Message.segments d.message).map (linePart t.cache))), t) := by
        rw [inline, hparts]
        rfl
      refine ⟨_, t, hline, ?_, hagain (inline_of_known fun content lang hmem => ?_)⟩
      · rw [hruns, List.removeAll_nil]
      · have hknown : content ∈ known := hsub (mem_types_of_mem hmem)
        obtain ⟨text, hhit⟩ := (hwarms.cache.answers content (mem_types_of_mem hmem)).mpr hknown
        rw [inlineCode, hhit]
        rfl

/-- Of three types two are the same. The formatter is run twice, and under a deadline beyond all clocks not at all. -/
theorem repeated_type_is_run_for_once :
    let formatter : Formatter := fun _ r => { stdout := r.stdin ++ "\n" }
    let first : Text := "{ a: string; b: number; c: boolean }"
    let second : Text := "[id: number, name: string | null]"
    let d : Diagnostic := { message := "'" ++ first ++ "' is no '" ++ second ++ "' but '" ++ first ++ "'" }
    let c : Command := .ofExecutable "fmt"
    let beyond : Config := { Config.default with timeoutMs := 10 ^ 310 }
    let service (config : Config) := create config { fixed := some "fmt" } (fun _ => none) formatter
    let all : List Text := types (Message.segments d.message)
    (service .default).config.syncFormat = true ∧ (service .default).cache.Fits all ∧
      (∀ config, (service config).locate.1 = some c) ∧
      (∀ config k, ∀ content ∈ all, Serves (service config).formatter k (typeRun config c content)) ∧
      all.eraseDups = [first, second] ∧
      (∃ f, ((service beyond).inline d).1 = .error f ∧ ((service beyond).inline d).2.runs = []) ∧
      ∃ line t, (service .default).inline d = (.ok line, t) ∧ t.runs = all.eraseDups.map (typeRun .default c) ∧
        ∀ n, ((fun u : Service => (u.inline d).2)^[n] t).inline d = (.ok line, t) := by
  intro formatter first second d c beyond service all
  have hall : all.eraseDups = [first, second] := by
    decide +kernel
  have hfits : (service .default).cache.Fits all := by
    refine ⟨rfl, fun a ha b hb => ?_, by rw [hall]; decide⟩
    rw [← List.mem_eraseDups, hall] at ha hb
    revert a b
    decide +kernel
  have hserves (config : Config) (k : Nat) (content : Text) :
      Serves (service config).formatter k (typeRun config c content) :=
    ⟨rfl, _, rfl, rfl, by simp [service, create, formatter, Text.ofString], rfl⟩
  have hbeyond : Unusable beyond c := .inr (by decide +kernel)
  have husable : ¬ Unusable .default c := by
    rintro (⟨-, hwide⟩ | hnone)
    · revert hwide
      decide +kernel
    · revert hnone
      decide +kernel
  have htypes : all ≠ [] := by decide +kernel
  have hgranted := every_type_is_run_for_once (s := service .default) rfl rfl rfl d hfits fun k content _ =>
    hserves .default k content
  have hrefused := every_type_is_run_for_once (s := service beyond) rfl rfl rfl d hfits fun k content _ =>
    hserves beyond k content
  exact ⟨rfl, hfits, fun _ => rfl, fun config k content _ => hserves config k content, hall,
    hrefused.1 ⟨htypes, hbeyond⟩, hgranted.2 fun h => husable h.2⟩

end Service

end Legible
