import Legible.Text.Blank
import Legible.Text.Lines
import Legible.Text.Utf8
/-!
# Carriage returns

Whether a text that is read from bytes has a carriage return can be seen from the bytes: an ASCII character comes of its
own byte and of nothing else, bytes that are no UTF-8 included. A text whose line ends are unified has none any more, and
one that has none is left as it is.
-/

namespace Legible

theorem CodePoint.val_ofNat {n : Nat} (h : n < 0x110000) : (ofNat n).val = n := by
  simp [ofNat, ofNat?, h]

theorem CodePoint.not_ascii_ofNat {n : Nat} (h : 0x80 ≤ n) : 0x80 ≤ (ofNat n).val := by
  unfold ofNat ofNat?
  split
  · exact h
  · decide

/-! ## Characters and their bytes -/

namespace Utf8

/-- What stands for the first bytes in a text. -/
def Step.character : Step → CodePoint
  | .char c _ => c
  | .fault .. => .ofNat 0xFFFD

/-- How many bytes it stands for. -/
def Step.length : Step → Nat
  | .char _ n => n
  | .fault n _ => n

theorem decodeReplacingFrom_cons (a : UInt8) (r : Bytes) : decodeReplacingFrom 0 (a :: r)
    = (step a r).character :: decodeReplacingFrom ((step a r).length - 1) r := by
  rw [decodeReplacingFrom]
  cases step a r <;> rfl

theorem step_of_ascii {a : UInt8} (ha : a < 0x80) (r : Bytes) : step a r = .char (.ofNat a.toNat) 1 := by
  simp [step, ha]

/-- What stands for the bytes is no ASCII, and neither is any of them but perhaps the first. -/
def Step.IsHigh (r : Bytes) (s : Step) : Prop := 0x80 ≤ s.character.val ∧ ∀ b ∈ r.take (s.length - 1), 0x80 ≤ b

theorem le_of_isContinuation {b : UInt8} (hb : isContinuation b = true) : 0x80 ≤ b := by
  simp only [isContinuation, Bool.and_eq_true, decide_eq_true_eq] at hb
  exact hb.1

theorem isContinuation_of_isSecond {a b : UInt8} (hb : isSecond a b = true) : isContinuation b = true := by
  rw [isSecond, Bool.and_eq_true] at hb
  exact hb.1

/-- A second byte never makes a short form. -/
theorem le_of_isSecond {a b : UInt8} (hb : isSecond a b = true) :
    (a.toNat = 0xE0 → 0xA0 ≤ b.toNat) ∧ (a.toNat = 0xF0 → 0x90 ≤ b.toNat) := by
  rw [isSecond, Bool.and_eq_true] at hb
  constructor
  · intro ha
    obtain rfl : a = 0xE0 := UInt8.toNat_inj.mp ha
    simpa [UInt8.le_iff_toNat_le] using hb.2
  · intro ha
    obtain rfl : a = 0xF0 := UInt8.toNat_inj.mp ha
    simpa [UInt8.le_iff_toNat_le] using hb.2

theorem isHigh_fault {r : Bytes} {n : Nat} {f : Fault} (hr : ∀ b ∈ r.take (n - 1), 0x80 ≤ b) :
    (Step.fault n f).IsHigh r :=
  ⟨CodePoint.not_ascii_ofNat (by decide), hr⟩

theorem isHigh_char {r : Bytes} {n : Nat} {groups : List Nat} (hg : 0x80 ≤ groups.foldl (fun n g => n * 64 + g) 0)
    (hr : ∀ b ∈ r.take (n - 1), 0x80 ≤ b) : (Step.char (assemble groups) n).IsHigh r :=
  ⟨CodePoint.not_ascii_ofNat hg, hr⟩

/-- The first byte of a character of several bytes and those that follow it are no ASCII, and neither is the character. -/
theorem isHigh_step {a : UInt8} (ha : 0x80 ≤ a) (r : Bytes) : (step a r).IsHigh r := by
  unfold step
  rw [if_neg (UInt8.not_lt.mpr ha)]
  dsimp only
  split
  · exact isHigh_fault (by simp)
  rename_i hlead
  have hlead : 0xC2 ≤ a.toNat := by
    simp only [Bool.or_eq_true, decide_eq_true_eq, not_or] at hlead
    exact UInt8.not_lt.mp hlead.1
  split
  · exact isHigh_fault (by simp)
  rename_i b r
  split
  · -- two bytes
    split
    · rename_i hb
      refine isHigh_char ?_ (by simpa using le_of_isContinuation hb)
      simp only [List.foldl_cons, List.foldl_nil]
      omega
    · exact isHigh_fault (by simp)
  -- three or four bytes; what is faulty ends before the byte that makes it so
  rename_i hthree
  have hthree : 0xE0 ≤ a.toNat := UInt8.not_lt.mp hthree
  split
  · exact isHigh_fault (by simp)
  rename_i hb
  have hb : isSecond a b = true := by simpa using hb
  obtain ⟨hE0, hF0⟩ := le_of_isSecond hb
  have hb := le_of_isContinuation (isContinuation_of_isSecond hb)
  split
  · exact isHigh_fault (by simpa using hb)
  rename_i c r
  split
  · exact isHigh_fault (by simpa using hb)
  rename_i hc
  have hc := le_of_isContinuation (b := c) (by simpa using hc)
  split
  · refine isHigh_char ?_ (by simpa using ⟨hb, hc⟩)
    simp only [List.foldl_cons, List.foldl_nil]
    omega
  rename_i hfour
  have hfour : 0xF0 ≤ a.toNat := UInt8.not_lt.mp hfour
  split
  · exact isHigh_fault (by simpa using ⟨hb, hc⟩)
  rename_i d _
  split
  · rename_i hd
    refine isHigh_char ?_ (by simpa using ⟨hb, hc, le_of_isContinuation hd⟩)
    simp only [List.foldl_cons, List.foldl_nil]
    omega
  · exact isHigh_fault (by simpa using ⟨hb, hc⟩)

theorem mem_decodeReplacingFrom_iff {x : UInt8} (hx : x < 0x80) {skip : Nat} {bs : Bytes}
    (hskip : ∀ b ∈ bs.take skip, 0x80 ≤ b) : CodePoint.ofNat x.toNat ∈ decodeReplacingFrom skip bs ↔ x ∈ bs := by
  have hval (a : UInt8) : (CodePoint.ofNat a.toNat).val = a.toNat :=
    CodePoint.val_ofNat (Nat.lt_trans a.toNat_lt (by decide))
  induction bs generalizing skip with
  | nil => simp [decodeReplacingFrom]
  | cons a r ih =>
    cases skip with
    | succ k =>
      rw [List.take_succ_cons, List.forall_mem_cons] at hskip
      have hne : x ≠ a := fun h => UInt8.not_lt.mpr hskip.1 (h ▸ hx)
      have hr := ih hskip.2
      rw [decodeReplacingFrom, List.mem_cons, or_iff_right hne]
      exact hr
    | zero =>
      rw [decodeReplacingFrom_cons, List.mem_cons, List.mem_cons]
      by_cases ha : a < 0x80
      · rw [step_of_ascii ha]
        refine or_congr ⟨fun h => ?_, fun h => h ▸ rfl⟩ (ih (by simp [Step.length]))
        have hsame := congrArg CodePoint.val h
        rw [Step.character, hval, hval] at hsame
        exact UInt8.toNat_inj.mp hsame
      · obtain ⟨hcharacter, hrest⟩ := isHigh_step (UInt8.not_lt.mp ha) r
        refine or_congr (iff_of_false ?_ ?_) (ih hrest)
        · intro h
          rw [← h, hval] at hcharacter
          exact absurd hx (by rw [UInt8.lt_iff_toNat_lt]; exact Nat.not_lt.mpr hcharacter)
        · exact fun h => ha (h ▸ hx)

/-- An ASCII character comes of its byte and of no other bytes. -/
theorem mem_decodeReplacing_iff {x : UInt8} (hx : x < 0x80) (bs : Bytes) :
    CodePoint.ofNat x.toNat ∈ decodeReplacing bs ↔ x ∈ bs :=
  mem_decodeReplacingFrom_iff hx nofun

end Utf8

/-! ## One line end for all -/

namespace Text

def carriageReturn : CodePoint := '\r'

def lineFeed : CodePoint := '\n'

variable {a b p t : Text} {c : CodePoint}

/-- A text is read from its start: past a carriage return, with the line feed behind it if there is one, or past one
other character. -/
theorem newline_induction {P : Text → Prop} (nil : P []) (both : ∀ t, P t → P (carriageReturn :: lineFeed :: t))
    (alone : ∀ t, t.head? ≠ some lineFeed → P t → P (carriageReturn :: t))
    (other : ∀ c t, c ≠ carriageReturn → P t → P (c :: t)) (t : Text) : P t := by
  induction t using unifyNewlines.induct with
  | case1 => exact nil
  | case2 r ih => exact both r ih
  | case3 d r hd ih => exact alone (d :: r) (fun h => hd (Option.some.inj h)) ih
  | case4 c d r hc ih => exact other c (d :: r) hc ih
  | case5 => exact alone [] nofun nil
  | case6 c hc => exact other c [] hc nil

@[simp] theorem unifyNewlines_nil : unifyNewlines [] = [] := rfl

theorem unifyNewlines_both (t : Text) : unifyNewlines (carriageReturn :: lineFeed :: t) = lineFeed :: unifyNewlines t :=
  rfl

theorem unifyNewlines_alone (ht : t.head? ≠ some lineFeed) :
    unifyNewlines (carriageReturn :: t) = lineFeed :: unifyNewlines t := by
  cases t with
  | nil => rfl
  | cons d r =>
    have hd : d ≠ CodePoint.ofChar '\n' := fun h => ht (congrArg some h)
    simp [unifyNewlines, carriageReturn, lineFeed, hd]

theorem unifyNewlines_cons (hc : c ≠ carriageReturn) (t : Text) : unifyNewlines (c :: t) = c :: unifyNewlines t := by
  have hc : ¬ c = CodePoint.ofChar '\r' := hc
  cases t <;> simp [unifyNewlines, hc]

/-- No carriage return is left. -/
theorem not_mem_unifyNewlines (t : Text) : carriageReturn ∉ unifyNewlines t := by
  have hfeed : carriageReturn ≠ lineFeed := by decide
  induction t using newline_induction with
  | nil => exact List.not_mem_nil
  | both t ih => rw [unifyNewlines_both]; exact List.not_mem_cons_of_ne_of_not_mem hfeed ih
  | alone t ht ih => rw [unifyNewlines_alone ht]; exact List.not_mem_cons_of_ne_of_not_mem hfeed ih
  | other c t hc ih => rw [unifyNewlines_cons hc]; exact List.not_mem_cons_of_ne_of_not_mem hc.symm ih

theorem unifyNewlines_eq_nil_iff : unifyNewlines t = [] ↔ t = [] := by
  induction t using newline_induction with
  | nil => rfl
  | both t _ => simp [unifyNewlines_both]
  | alone t ht _ => simp [unifyNewlines_alone ht]
  | other c t hc _ => simp [unifyNewlines_cons hc]

/-- A text without carriage returns is kept, whatever stands behind it. -/
theorem unifyNewlines_append_of_not_mem (ha : carriageReturn ∉ a) (t : Text) :
    unifyNewlines (a ++ t) = a ++ unifyNewlines t := by
  induction a with
  | nil => rfl
  | cons c a ih =>
    obtain ⟨hc, ha⟩ := not_or.mp (mt List.mem_cons.mpr ha)
    rw [List.cons_append, unifyNewlines_cons (Ne.symm hc), ih ha, List.cons_append]

theorem unifyNewlines_eq_self_iff : unifyNewlines t = t ↔ carriageReturn ∉ t := by
  constructor
  · intro h
    rw [← h]
    exact not_mem_unifyNewlines t
  · intro ht
    simpa using unifyNewlines_append_of_not_mem ht []

/-- Two texts are unified one by one, if no line end has its carriage return in the first and its line feed in the
second. -/
theorem unifyNewlines_append (h : a.getLast? = some carriageReturn → b.head? ≠ some lineFeed) :
    unifyNewlines (a ++ b) = unifyNewlines a ++ unifyNewlines b := by
  have later {c : CodePoint} {t : Text} (h : (c :: t).getLast? = some carriageReturn → b.head? ≠ some lineFeed) :
      t.getLast? = some carriageReturn → b.head? ≠ some lineFeed := by
    intro ht
    exact h (by rw [List.getLast?_cons, ht]; rfl)
  induction a using newline_induction with
  | nil => rfl
  | both t ih =>
    rw [List.cons_append, List.cons_append, unifyNewlines_both, unifyNewlines_both, ih (later (later h)),
      List.cons_append]
  | alone t ht ih =>
    have hhead : (t ++ b).head? ≠ some lineFeed := by
      cases t with
      | nil => exact h rfl
      | cons d r => exact ht
    rw [List.cons_append, unifyNewlines_alone hhead, unifyNewlines_alone ht, ih (later h), List.cons_append]
  | other c t hc ih => rw [List.cons_append, unifyNewlines_cons hc, unifyNewlines_cons hc, ih (later h), List.cons_append]

/-- The last character is kept, if it is no part of a line end. -/
theorem unifyNewlines_concat (hreturn : c ≠ carriageReturn) (hfeed : c ≠ lineFeed) (t : Text) :
    unifyNewlines (t ++ [c]) = unifyNewlines t ++ [c] := by
  have h := unifyNewlines_append (a := t) (b := [c]) fun _ h => hfeed (Option.some.inj h)
  rwa [unifyNewlines_cons hreturn] at h

/-- What has neither character of a line end is found at the start of a unified text where it was before. -/
theorem prefix_unifyNewlines_iff (hreturn : carriageReturn ∉ p) (hfeed : lineFeed ∉ p) :
    p <+: unifyNewlines t ↔ p <+: t := by
  induction p generalizing t with
  | nil => simp
  | cons d p ih =>
    obtain ⟨hdreturn, hreturn⟩ := not_or.mp (mt List.mem_cons.mpr hreturn)
    obtain ⟨hdfeed, hfeed⟩ := not_or.mp (mt List.mem_cons.mpr hfeed)
    induction t using newline_induction with
    | nil => rfl
    | both t _ =>
      rw [unifyNewlines_both, List.cons_prefix_cons, List.cons_prefix_cons]
      exact iff_of_false (fun h => hdfeed h.1.symm) fun h => hdreturn h.1.symm
    | alone t ht _ =>
      rw [unifyNewlines_alone ht, List.cons_prefix_cons, List.cons_prefix_cons]
      exact iff_of_false (fun h => hdfeed h.1.symm) fun h => hdreturn h.1.symm
    | other c t hc _ => rw [unifyNewlines_cons hc, List.cons_prefix_cons, List.cons_prefix_cons, ih hreturn hfeed]

theorem mem_of_mem_unifyNewlines (h : c ∈ unifyNewlines t) : c ∈ t ∨ c = lineFeed := by
  induction t using newline_induction with
  | nil => exact .inl h
  | both t ih =>
    rw [unifyNewlines_both, List.mem_cons] at h
    exact h.elim .inr fun h => (ih h).imp_left fun h => List.mem_cons_of_mem _ (List.mem_cons_of_mem _ h)
  | alone t ht ih =>
    rw [unifyNewlines_alone ht, List.mem_cons] at h
    exact h.elim .inr fun h => (ih h).imp_left (List.mem_cons_of_mem _)
  | other d t hd ih =>
    rw [unifyNewlines_cons hd, List.mem_cons] at h
    exact h.elim (fun h => .inl (h ▸ List.mem_cons_self)) fun h => (ih h).imp_left (List.mem_cons_of_mem _)

theorem isBlank_of_mem_unifyNewlines (ht : ∀ c ∈ t, c.isBlank = true) (hc : c ∈ unifyNewlines t) :
    c.isBlank = true := by
  rcases mem_of_mem_unifyNewlines hc with hc | rfl
  · exact ht c hc
  · rfl

/-- A line end is white space in each of its forms. -/
theorem trimStart_unifyNewlines (t : Text) : (unifyNewlines t).trimStart = unifyNewlines t.trimStart := by
  have hreturn : carriageReturn.isBlank = true := rfl
  have hfeed : lineFeed.isBlank = true := rfl
  induction t using newline_induction with
  | nil => rfl
  | both t ih => simpa [unifyNewlines_both, trimStart, hreturn, hfeed] using ih
  | alone t ht ih => simpa [unifyNewlines_alone ht, trimStart, hreturn, hfeed] using ih
  | other c t hc ih =>
    rw [unifyNewlines_cons hc]
    by_cases hblank : c.isBlank = true
    · simpa [trimStart, hblank] using ih
    · simp [trimStart, hblank, unifyNewlines_cons hc]

end Text

end Legible
