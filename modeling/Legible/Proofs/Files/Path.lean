import Legible.Files.Environment
import Legible.Proofs.Config.Effective
/-!
# Paths that name files

A path can name a file if none of its characters stands in the way (`Text.IsNamable`). So whether a path that is written
in a file can be resolved is a matter of its characters, where the surroundings name files themselves
(`Environment.IsSound`). What comes of it is absolute, has no dots and can name a file (`Path.IsResolved`); such a path
reads back from its text, and is seen alike from everywhere.
-/

namespace Legible

/-! ## Texts cut at a character -/

namespace Text

variable {c : CodePoint}

theorem splitAtEach_ne_nil (c : CodePoint) (t : Text) : splitAtEach c t ≠ [] := by
  cases t with
  | nil => simp [splitAtEach]
  | cons x r =>
    rw [splitAtEach]
    split
    · simp
    · split <;> simp

theorem splitAtEach_cons {x : CodePoint} (hx : x ≠ c) (r : Text) :
    ∃ p ps, splitAtEach c r = p :: ps ∧ splitAtEach c (x :: r) = (x :: p) :: ps := by
  obtain ⟨p, ps, hs⟩ := List.exists_cons_of_ne_nil (splitAtEach_ne_nil c r)
  exact ⟨p, ps, hs, by rw [splitAtEach, if_neg hx, hs]⟩

theorem splitAtEach_of_not_mem {n : Text} (hn : c ∉ n) : splitAtEach c n = [n] := by
  induction n with
  | nil => rfl
  | cons x n ih =>
    obtain ⟨hx, hn⟩ := not_or.mp (List.mem_cons.not.mp hn)
    obtain ⟨p, ps, hs, hcons⟩ := splitAtEach_cons (Ne.symm hx) n
    rw [ih hn] at hs
    cases hs
    exact hcons

theorem splitAtEach_append {n : Text} (hn : c ∉ n) (t : Text) :
    splitAtEach c (n ++ c :: t) = n :: splitAtEach c t := by
  induction n with
  | nil => rw [List.nil_append, splitAtEach, if_pos rfl]
  | cons x n ih =>
    obtain ⟨hx, hn⟩ := not_or.mp (List.mem_cons.not.mp hn)
    obtain ⟨p, ps, hs, hcons⟩ := splitAtEach_cons (Ne.symm hx) (n ++ c :: t)
    rw [ih hn] at hs
    cases hs
    exact hcons

theorem splitAtEach_join {parts : List Text} (hne : parts ≠ []) (hparts : ∀ n ∈ parts, c ∉ n) :
    splitAtEach c (join [c] parts) = parts := by
  induction parts with
  | nil => exact absurd rfl hne
  | cons n rest ih =>
    obtain ⟨hn, hrest⟩ := List.forall_mem_cons.mp hparts
    cases rest with
    | nil => exact splitAtEach_of_not_mem hn
    | cons m rest =>
      rw [join, List.append_assoc, List.singleton_append, splitAtEach_append hn, ih (by simp) hrest]

theorem not_mem_of_mem_splitAtEach {t n : Text} (hn : n ∈ splitAtEach c t) : c ∉ n := by
  induction t generalizing n with
  | nil =>
    cases List.mem_singleton.mp hn
    exact List.not_mem_nil
  | cons x r ih =>
    by_cases hx : x = c
    · rw [splitAtEach, if_pos hx] at hn
      rcases List.mem_cons.mp hn with rfl | hn
      · exact List.not_mem_nil
      · exact ih hn
    · obtain ⟨p, ps, hs, hcons⟩ := splitAtEach_cons hx r
      rw [hcons] at hn
      rcases List.mem_cons.mp hn with rfl | hn
      · have hp : c ∉ p := ih (hs ▸ List.mem_cons_self)
        exact fun h => (List.mem_cons.mp h).elim (fun h => hx h.symm) hp
      · exact ih (hs ▸ List.mem_cons_of_mem p hn)

end Text

/-! ## Characters that stand in the way -/

/-- The character may stand in the name of a file. -/
def CodePoint.IsNamable (c : CodePoint) : Prop := PathFault.isUnencodable c = false ∧ c.val ≠ 0

instance (c : CodePoint) : Decidable c.IsNamable := inferInstanceAs (Decidable (_ ∧ _))

namespace Text

/-- The text may be the name of a file. -/
def IsNamable (t : Text) : Prop := ∀ c ∈ t, c.IsNamable

instance (t : Text) : Decidable t.IsNamable := inferInstanceAs (Decidable (∀ c ∈ t, c.IsNamable))

theorem isNamable_nil : IsNamable [] := fun _ hc => absurd hc List.not_mem_nil

theorem isNamable_cons {c : CodePoint} {t : Text} : IsNamable (c :: t) ↔ c.IsNamable ∧ IsNamable t :=
  List.forall_mem_cons

theorem isNamable_append {s t : Text} : IsNamable (s ++ t) ↔ IsNamable s ∧ IsNamable t := List.forall_mem_append

theorem isNamable_join {sep : Text} (hsep : sep.IsNamable) {parts : List Text} :
    IsNamable (join sep parts) ↔ ∀ n ∈ parts, IsNamable n := by
  induction parts with
  | nil => exact iff_of_true isNamable_nil (by simp)
  | cons n rest ih =>
    cases rest with
    | nil => simp [join]
    | cons m rest => simp only [join, isNamable_append, ih, hsep, and_true, List.forall_mem_cons]

theorem isNamable_splitAtEach {c : CodePoint} (hc : c.IsNamable) {t : Text} :
    (∀ n ∈ t.splitAtEach c, n.IsNamable) ↔ t.IsNamable := by
  induction t with
  | nil => simp [splitAtEach, isNamable_nil]
  | cons x r ih =>
    rw [isNamable_cons]
    by_cases hx : x = c
    · rw [splitAtEach, if_pos hx, List.forall_mem_cons, ih, hx]
      exact and_congr_left fun _ => iff_of_true isNamable_nil hc
    · obtain ⟨p, ps, hs, hcons⟩ := splitAtEach_cons hx r
      rw [hs, List.forall_mem_cons] at ih
      rw [hcons, List.forall_mem_cons, isNamable_cons, ← ih, and_assoc]

end Text

theorem PathFault.find?_eq_none_iff {t : Text} : find? t = none ↔ t.IsNamable := by
  have hencode : Utf8.EncodeError.find? isUnencodable t = none ↔ ∀ c ∈ t, isUnencodable c = false := by
    rw [Utf8.EncodeError.find?, Option.map_eq_none_iff, List.findIdx?_eq_none_iff]
  have hnul : t.any (·.val = 0) = false ↔ ∀ c ∈ t, c.val ≠ 0 := by simp
  have hsplit : t.IsNamable ↔ (∀ c ∈ t, isUnencodable c = false) ∧ ∀ c ∈ t, c.val ≠ 0 := forall₂_and
  rw [hsplit, ← hencode, ← hnul, find?]
  cases Utf8.EncodeError.find? isUnencodable t <;> cases t.any (·.val = 0) <;> simp

/-! ## Names on a way -/

namespace Path

theorem isNamable_slash : CodePoint.IsNamable '/' := ⟨by decide, by decide⟩

theorem isNamable_slashText : Text.IsNamable "/" := Text.isNamable_cons.mpr ⟨isNamable_slash, Text.isNamable_nil⟩

/-- All names of the path may be those of files. -/
def IsNamable (p : Path) : Prop := ∀ n ∈ p.parts, n.IsNamable

instance (p : Path) : Decidable p.IsNamable := inferInstanceAs (Decidable (∀ n ∈ p.parts, n.IsNamable))

theorem fault?_eq_none_iff {p : Path} : p.fault? = none ↔ p.root.IsNamable ∧ p.IsNamable := by
  rw [fault?, PathFault.find?_eq_none_iff, text]
  split
  · rename_i hempty
    simp only [Bool.and_eq_true, List.isEmpty_iff] at hempty
    have hdot : Text.IsNamable "." := by
      rintro c (_ | ⟨_, hc⟩)
      · exact ⟨by decide, by decide⟩
      · cases hc
    exact iff_of_true hdot ⟨hempty.1 ▸ Text.isNamable_nil, by simp [IsNamable, hempty.2]⟩
  · rw [Text.isNamable_append, Text.isNamable_join isNamable_slashText]
    rfl

theorem isNamable_parent {p : Path} (hp : p.IsNamable) : p.parent.IsNamable :=
  fun n hn => hp n (List.dropLast_subset _ hn)

theorem isNamable_join {p q : Path} (hp : p.IsNamable) : (p.join q).IsNamable ↔ q.IsNamable := by
  unfold join
  split
  · rfl
  · exact List.forall_mem_append.trans (and_iff_right hp)

theorem isNamable_ofText {t : Text} : (ofText t).IsNamable ↔ t.IsNamable := by
  rw [← Text.isNamable_splitAtEach isNamable_slash]
  refine ⟨fun h n hn => ?_, fun h n hn => h n (List.mem_of_mem_filter hn)⟩
  by_cases hdots : n = [] ∨ n = "."
  · rcases hdots with rfl | rfl
    · exact Text.isNamable_nil
    · exact Text.isNamable_cons.mpr ⟨⟨by decide, by decide⟩, Text.isNamable_nil⟩
  · obtain ⟨hempty, hdot⟩ := not_or.mp hdots
    exact h n (List.mem_filter.mpr ⟨hn, by simp [hempty, hdot]⟩)

theorem isNamable_up : up.IsNamable := by
  rintro c (_ | ⟨_, _ | ⟨_, hc⟩⟩)
  · exact ⟨by decide, by decide⟩
  · exact ⟨by decide, by decide⟩
  · cases hc

theorem isNamable_stepUp {root : Text} {behind : List Text} (h : ∀ n ∈ behind, n.IsNamable) :
    ∀ n ∈ stepUp root behind, n.IsNamable := by
  unfold stepUp
  split
  · exact List.forall_mem_append.mpr ⟨h, by simpa using isNamable_up⟩
  · exact fun n hn => h n (List.dropLast_subset _ hn)

/-- On a way each name is passed with those before it, which have been passed already. -/
theorem faultFrom?_eq_none_iff {root : Text} {behind : List Text} (hroot : root.IsNamable)
    (hbehind : ∀ n ∈ behind, n.IsNamable) (names : List Text) :
    faultFrom? root behind names = none ↔ ∀ n ∈ names, n.IsNamable := by
  induction names generalizing behind with
  | nil => simp [faultFrom?]
  | cons n r ih =>
    rw [faultFrom?, List.forall_mem_cons]
    by_cases hup : n = up
    · rw [if_pos hup, ih (isNamable_stepUp hbehind), hup, and_iff_right isNamable_up]
    · rw [if_neg hup]
      have hpassed : (Path.mk root (behind ++ [n])).fault? = none ↔ n.IsNamable := by
        rw [fault?_eq_none_iff, and_iff_right hroot]
        exact List.forall_mem_append.trans ((and_iff_right hbehind).trans List.forall_mem_singleton)
      cases hf : (Path.mk root (behind ++ [n])).fault? with
      | some f =>
        have hn : ¬ n.IsNamable := fun hn => by
          rw [hpassed.mpr hn] at hf
          cases hf
        simp [hn]
      | none =>
        have hn := hpassed.mp hf
        have hnext : ∀ m ∈ behind ++ [n], m.IsNamable :=
          List.forall_mem_append.mpr ⟨hbehind, List.forall_mem_singleton.mpr hn⟩
        exact (ih hnext).trans (and_iff_right hn).symm

theorem wayFault?_eq_none_iff {p : Path} : p.wayFault? = none ↔ p.IsNamable := by
  refine faultFrom?_eq_none_iff ?_ (by simp) p.parts
  split
  · exact isNamable_slashText
  · exact Text.isNamable_nil

/-! ## Resolved paths -/

/-- A name on a way: not empty, no dot, and without a slash. -/
structure IsPart (n : Text) : Prop where
  ne_nil : n ≠ []
  ne_dot : n ≠ "."
  slash : CodePoint.ofChar '/' ∉ n

instance (n : Text) : Decidable (IsPart n) :=
  decidable_of_iff (n ≠ [] ∧ n ≠ "." ∧ CodePoint.ofChar '/' ∉ n)
    ⟨fun ⟨hnil, hdot, hslash⟩ => ⟨hnil, hdot, hslash⟩, fun h => ⟨h.ne_nil, h.ne_dot, h.slash⟩⟩

/-- An absolute path without dots that can name a file. -/
structure IsResolved (p : Path) : Prop where
  root : p.root = "/"
  parts : ∀ n ∈ p.parts, IsPart n ∧ n ≠ up
  namable : p.IsNamable

instance (p : Path) : Decidable p.IsResolved :=
  decidable_of_iff (p.root = "/" ∧ (∀ n ∈ p.parts, IsPart n ∧ n ≠ up) ∧ p.IsNamable)
    ⟨fun ⟨hroot, hparts, hnamable⟩ => ⟨hroot, hparts, hnamable⟩, fun h => ⟨h.root, h.parts, h.namable⟩⟩

theorem isPart_of_mem_ofText {t n : Text} (hn : n ∈ (ofText t).parts) : IsPart n := by
  obtain ⟨hmem, hdots⟩ := List.mem_filter.mp hn
  have hslash := Text.not_mem_of_mem_splitAtEach hmem
  simp only [Bool.and_eq_true, Bool.not_eq_eq_eq_not, Bool.not_true, decide_eq_true_eq] at hdots
  refine ⟨fun h => ?_, hdots.2, hslash⟩
  simp [h] at hdots

theorem mem_foldUp {behind names : List Text} {n : Text} (hn : n ∈ foldUp behind names) :
    n ∈ behind ∨ n ∈ names ∧ n ≠ up := by
  induction names generalizing behind with
  | nil => exact .inl (List.mem_reverse.mp hn)
  | cons m r ih =>
    rw [foldUp] at hn
    split at hn
    · rcases ih hn with hn | ⟨hn, hup⟩
      · exact .inl (List.mem_of_mem_drop hn)
      · exact .inr ⟨List.mem_cons_of_mem m hn, hup⟩
    · rename_i hm
      rcases ih hn with hn | ⟨hn, hup⟩
      · rcases List.mem_cons.mp hn with rfl | hn
        · exact .inr ⟨List.mem_cons_self, hm⟩
        · exact .inl hn
      · exact .inr ⟨List.mem_cons_of_mem m hn, hup⟩

theorem foldUp_of_no_up {names : List Text} (h : ∀ n ∈ names, n ≠ up) (behind : List Text) :
    foldUp behind names = behind.reverse ++ names := by
  induction names generalizing behind with
  | nil => rw [foldUp, List.append_nil]
  | cons n r ih =>
    obtain ⟨hn, hr⟩ := List.forall_mem_cons.mp h
    have hne : ¬ n = ".." := hn
    rw [foldUp, if_neg hne, ih hr, List.reverse_cons, List.append_assoc, List.singleton_append]

theorem isResolved_resolve {d p : Path} (hd : d.IsResolved) (hp : ∀ n ∈ p.parts, IsPart n) (hn : p.IsNamable) :
    (d.resolve p).IsResolved := by
  have hjoin {n : Text} (hmem : n ∈ (d.join p).parts) : IsPart n ∧ n.IsNamable := by
    unfold join at hmem
    split at hmem
    · exact ⟨hp n hmem, hn n hmem⟩
    · rcases List.mem_append.mp hmem with hmem | hmem
      · exact ⟨(hd.parts n hmem).1, hd.namable n hmem⟩
      · exact ⟨hp n hmem, hn n hmem⟩
  have hmem {n : Text} (hn : n ∈ (d.resolve p).parts) : n ∈ (d.join p).parts ∧ n ≠ up :=
    (mem_foldUp hn).resolve_left List.not_mem_nil
  exact ⟨rfl, fun n hn => ⟨(hjoin (hmem hn).1).1, (hmem hn).2⟩, fun n hn => (hjoin (hmem hn).1).2⟩

theorem isNamable_resolve {d p : Path} (hd : d.IsNamable) (hp : p.IsNamable) : (d.resolve p).IsNamable :=
  fun n hn => (isNamable_join hd).mpr hp n ((mem_foldUp hn).resolve_left List.not_mem_nil).1

theorem IsResolved.isAbsolute {p : Path} (hp : p.IsResolved) : p.isAbsolute = true := by
  rw [Path.isAbsolute, hp.root]
  rfl

/-- A resolved path is seen alike from everywhere. -/
theorem IsResolved.resolve_eq {p : Path} (hp : p.IsResolved) (d e : Path) : d.resolve (e.join p) = p := by
  have hjoin (q : Path) : q.join p = p := if_pos hp.isAbsolute
  obtain ⟨root, parts⟩ := p
  have hroot : root = "/" := hp.root
  rw [hjoin, resolve, hjoin, foldUp_of_no_up (fun n hn => (hp.parts n hn).2), hroot]
  rfl

theorem IsResolved.text_eq {p : Path} (hp : p.IsResolved) : p.text = CodePoint.ofChar '/' :: Text.join "/" p.parts := by
  rw [text, hp.root]
  rfl

theorem ofText_slash_cons {t : Text} (ht : t.takeWhile isSlash = []) :
    ofText (CodePoint.ofChar '/' :: t) = ⟨"/", (t.splitAtEach '/').filter fun n => !n.isEmpty && n ≠ ("." : Text)⟩ := by
  have hslash : isSlash '/' = true := rfl
  rw [ofText, List.takeWhile_cons, hslash, if_pos rfl, ht, Text.splitAtEach, if_pos rfl]
  rfl

/-- A resolved path reads back from its text. -/
theorem IsResolved.ofText_text {p : Path} (hp : p.IsResolved) : ofText p.text = p := by
  obtain ⟨root, parts⟩ := p
  have hroot : root = "/" := hp.root
  have hfirst : (Text.join "/" parts).takeWhile isSlash = [] := by
    cases parts with
    | nil => rfl
    | cons n rest =>
      have hpart := (hp.parts n List.mem_cons_self).1
      obtain ⟨c, n', rfl⟩ := List.exists_cons_of_ne_nil hpart.ne_nil
      have hc : isSlash c = false := by
        simpa [isSlash] using fun h : c = CodePoint.ofChar '/' => hpart.slash (h ▸ List.mem_cons_self)
      cases rest <;> simp [Text.join, hc]
  have hparts : ((Text.join "/" parts).splitAtEach '/').filter (fun n => !n.isEmpty && n ≠ ("." : Text)) = parts := by
    by_cases hne : parts = []
    · subst hne
      rfl
    · have hsplit : (Text.join "/" parts).splitAtEach '/' = parts :=
        Text.splitAtEach_join hne fun n hn => (hp.parts n hn).1.slash
      rw [hsplit, List.filter_eq_self]
      intro n hn
      obtain ⟨hpart, _⟩ := hp.parts n hn
      simp [hpart.ne_nil, hpart.ne_dot]
  rw [hp.text_eq, ofText_slash_cons hfirst, hparts, hroot]

end Path

/-! ## Paths in files -/

theorem exists_mapM_eq_ok_iff {ε α β : Type} {f : α → Except ε β} {as : List α} :
    (∃ bs, as.mapM f = .ok bs) ↔ ∀ a ∈ as, ∃ b, f a = .ok b := by
  induction as with
  | nil => exact iff_of_true ⟨[], rfl⟩ (by simp)
  | cons a as ih =>
    simp only [List.mapM_cons, bind_eq_ok_iff, pure_eq_ok_iff, List.forall_mem_cons, ← ih]
    constructor
    · rintro ⟨_, b, hb, bs, hbs, -⟩
      exact ⟨⟨b, hb⟩, bs, hbs⟩
    · rintro ⟨⟨b, hb⟩, bs, hbs⟩
      exact ⟨b :: bs, b, hb, bs, hbs, rfl⟩

namespace Environment

variable {e : Environment}

/-- The surroundings name files: the working directory is resolved, and what is known of homes can name one. -/
structure IsSound (e : Environment) : Prop where
  directory : e.directory.IsResolved
  home : ∀ t ∈ e.get? "HOME", t.IsNamable
  accountHome : e.accountHome.IsNamable
  accounts : ∀ account ∈ e.accounts, account.2.IsNamable

theorem resolve_eq_ok_iff {p q : Path} : e.resolve p = .ok q ↔ p.IsNamable ∧ q = e.directory.resolve p := by
  rw [← Path.wayFault?_eq_none_iff, resolve]
  cases p.wayFault? with
  | none => simp [eq_comm]
  | some f => simp

theorem isNamable_dropEndWhile {t : Text} (ht : t.IsNamable) (f : CodePoint → Bool) :
    (Text.dropEndWhile f t).IsNamable := fun c hc =>
  ht c (List.mem_reverse.mp ((List.dropWhile_suffix f).subset (List.mem_reverse.mp hc)))

/-- The home directory adds nothing that stands in the way. What it replaces, a tilde and the name of an account, is
looked at by itself. -/
theorem isNamable_expandHome (he : e.IsSound) (raw : Text) :
    (accountOf raw).IsNamable ∧ (e.expandHome raw).IsNamable ↔ raw.IsNamable := by
  cases htilde : raw.startsWith "~" with
  | false => simp [accountOf, expandHome, htilde, Text.isNamable_nil]
  | true =>
    obtain ⟨r, rfl⟩ : ∃ r, raw = CodePoint.ofChar '~' :: r := by
      obtain ⟨r, hr⟩ := List.isPrefixOf_iff_prefix.mp htilde
      exact ⟨r, hr.symm⟩
    have haccount : accountOf (CodePoint.ofChar '~' :: r) = r.takeWhile fun c => !Path.isSlash c := by
      rw [accountOf, htilde]
      rfl
    have hrest : (CodePoint.ofChar '~' :: r).drop ((accountOf (CodePoint.ofChar '~' :: r)).length + 1) =
        r.dropWhile fun c => !Path.isSlash c := by
      rw [haccount, List.drop_succ_cons]
      calc r.drop (r.takeWhile fun c => !Path.isSlash c).length
          = ((r.takeWhile fun c => !Path.isSlash c) ++ r.dropWhile fun c => !Path.isSlash c).drop
              (r.takeWhile fun c => !Path.isSlash c).length := by rw [List.takeWhile_append_dropWhile]
        _ = r.dropWhile fun c => !Path.isSlash c := List.drop_left
    have hraw : Text.IsNamable (CodePoint.ofChar '~' :: r) ↔
        (accountOf (CodePoint.ofChar '~' :: r)).IsNamable ∧ Text.IsNamable (r.dropWhile fun c => !Path.isSlash c) := by
      rw [haccount, ← Text.isNamable_append, List.takeWhile_append_dropWhile]
      exact Text.isNamable_cons.trans (and_iff_right ⟨by decide, by decide⟩)
    unfold expandHome
    simp only [htilde, Bool.not_true, Bool.false_eq_true, if_false]
    split
    · exact and_iff_right_of_imp fun h => (hraw.mp h).1
    · rename_i home hhome
      have hhome : home.IsNamable := by
        split at hhome
        · cases hget : e.get? "HOME" with
          | none =>
            rw [hget] at hhome
            exact Option.some.inj hhome ▸ he.accountHome
          | some t =>
            rw [hget] at hhome
            exact Option.some.inj hhome ▸ he.home t hget
        · obtain ⟨account, haccount, rfl⟩ := Option.map_eq_some_iff.mp hhome
          exact he.accounts account (List.mem_of_find?_eq_some haccount)
      rw [hraw, hrest]
      refine and_congr_right fun _ => ?_
      have hfull := Text.isNamable_append (s := Text.dropEndWhile Path.isSlash home)
        (t := r.dropWhile fun c => !Path.isSlash c)
      rw [and_iff_right (isNamable_dropEndWhile hhome _)] at hfull
      rw [← hfull]
      split
      · rename_i hempty
        rw [List.isEmpty_iff.mp hempty]
        exact iff_of_true Path.isNamable_slashText Text.isNamable_nil
      · rfl

theorem resolveFrom_eq_ok_iff (he : e.IsSound) {base q : Path} (hbase : base.IsNamable) {raw : Text} :
    e.resolveFrom base raw = .ok q ↔
      raw.IsNamable ∧ q = e.directory.resolve (base.join (.ofText (e.expandHome raw))) := by
  have hjoined : (base.join (.ofText (e.expandHome raw))).IsNamable ↔ (e.expandHome raw).IsNamable :=
    (Path.isNamable_join hbase).trans Path.isNamable_ofText
  rw [← isNamable_expandHome he raw, ← PathFault.find?_eq_none_iff, ← hjoined, resolveFrom]
  cases PathFault.find? (accountOf raw) with
  | some f => simp
  | none => simp [resolve_eq_ok_iff]

/-- Texts are seen from a directory, which can name files if the working directory can. -/
theorem exists_directories_eq (e : Environment) {source : Option Path} (hsource : ∀ p ∈ source, p.IsNamable) :
    ∃ base : Path, (e.directory.IsNamable → base.IsNamable) ∧
      ∀ raw, e.directories source raw = raw.mapM (e.resolveFrom base) := by
  cases source with
  | none => exact ⟨e.directory, id, fun _ => rfl⟩
  | some p =>
    have hp := Path.isNamable_parent (hsource p rfl)
    have hbase : e.resolve p.parent = .ok (e.directory.resolve p.parent) := resolve_eq_ok_iff.mpr ⟨hp, rfl⟩
    refine ⟨_, fun hdirectory => Path.isNamable_resolve hdirectory hp, fun raw => ?_⟩
    exact congrArg (· >>= fun base => raw.mapM (e.resolveFrom base)) hbase

theorem directories_isOk_iff (he : e.IsSound) {source : Option Path} (hsource : ∀ p ∈ source, p.IsNamable)
    (raw : List Text) : (∃ ps, e.directories source raw = .ok ps) ↔ ∀ r ∈ raw, r.IsNamable := by
  obtain ⟨base, hbase, heq⟩ := exists_directories_eq e hsource
  have hbase := hbase he.directory.namable
  rw [heq, exists_mapM_eq_ok_iff]
  refine forall₂_congr fun r _ => ⟨fun ⟨q, hq⟩ => ((resolveFrom_eq_ok_iff he hbase).mp hq).1, fun hr => ?_⟩
  exact ⟨_, (resolveFrom_eq_ok_iff he hbase).mpr ⟨hr, rfl⟩⟩

end Environment

end Legible
