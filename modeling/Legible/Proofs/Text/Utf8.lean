import Legible.Proofs.Text.Newlines
/-!
# UTF-8 is read back

The bytes of a code point are read as that code point, whatever follows them, unless it is a surrogate
(`step_encodeOne`). So a text without surrogates is read back from its bytes, and of any other text the surrogates are
lost on the way and become question marks.
-/

namespace Legible.Utf8

variable {c : CodePoint} {n : Nat}

theorem toNat_toUInt8 (h : n < 256) : n.toUInt8.toNat = n := by
  simp [Nat.toUInt8, Nat.mod_eq_of_lt h]

theorem toUInt8_lt_iff (h : n < 256) (b : UInt8) : n.toUInt8 < b ↔ n < b.toNat := by
  rw [UInt8.lt_iff_toNat_lt, toNat_toUInt8 h]

theorem le_toUInt8_iff (h : n < 256) (b : UInt8) : b ≤ n.toUInt8 ↔ b.toNat ≤ n := by
  rw [UInt8.le_iff_toNat_le, toNat_toUInt8 h]

theorem toUInt8_eq_iff (h : n < 256) (b : UInt8) : n.toUInt8 = b ↔ n = b.toNat := by
  rw [← UInt8.toNat_inj, toNat_toUInt8 h]

/-- Six bits go on with a character. -/
theorem isContinuation_of_lt (h : n < 64) : isContinuation (0x80 + n).toUInt8 = true := by
  have hbyte : 0x80 + n < 256 := by omega
  simp only [isContinuation, Bool.and_eq_true, decide_eq_true_eq, le_toUInt8_iff hbyte, toUInt8_lt_iff hbyte,
    UInt8.reduceToNat]
  omega

theorem ofNat_val (c : CodePoint) : CodePoint.ofNat c.val = c := by
  cases c with
  | mk n h => simp [CodePoint.ofNat, CodePoint.ofNat?, h]

/-- The groups of six bits that a code point is written in. -/
theorem assemble_eq {groups : List Nat} (h : groups.foldl (fun n g => n * 64 + g) 0 = c.val) : assemble groups = c := by
  rw [assemble, h, ofNat_val]

/-- A second byte may not make a short form, a surrogate or a number beyond the last code point. -/
theorem isSecond_of_lt {a b : Nat} (ha : a < 256) (hb : b < 64) (hE0 : a = 0xE0 → 32 ≤ b) (hED : a = 0xED → b < 32)
    (hF0 : a = 0xF0 → 16 ≤ b) (hF4 : a = 0xF4 → b < 16) : isSecond a.toUInt8 (0x80 + b).toUInt8 = true := by
  have hbyte : 0x80 + b < 256 := by omega
  simp only [isSecond, isContinuation_of_lt hb, toUInt8_eq_iff ha, le_toUInt8_iff hbyte, toUInt8_lt_iff hbyte,
    UInt8.reduceToNat, Bool.true_and]
  split
  · exact decide_eq_true (by omega)
  split
  · exact decide_eq_true (by omega)
  split
  · exact decide_eq_true (by omega)
  split
  · exact decide_eq_true (by omega)
  · rfl

section Step

variable {a b d e : Nat} (hb : b < 64) (r : Bytes)

include hb

theorem step_two (ha : 2 ≤ a) (ha' : a < 32) (hc : a * 64 + b = c.val) :
    step (0xC0 + a).toUInt8 ((0x80 + b).toUInt8 :: r) = .char c 2 := by
  have hlead : 0xC0 + a < 256 := by omega
  have hgroups : assemble [a, b] = c := assemble_eq (by simpa using hc)
  simp only [step, toUInt8_lt_iff hlead, le_toUInt8_iff hlead, isContinuation_of_lt hb, toNat_toUInt8 hlead,
    toNat_toUInt8 (show 0x80 + b < 256 by omega), Nat.add_sub_cancel_left, hgroups, UInt8.reduceToNat, if_true,
    Bool.or_eq_true, decide_eq_true_eq]
  rw [if_neg (by omega), if_neg (by omega), if_pos (by omega)]

variable (hd : d < 64)

include hd

theorem step_three (ha : a < 16) (hshort : a = 0 → 32 ≤ b) (hsurrogate : a = 13 → b < 32)
    (hc : (a * 64 + b) * 64 + d = c.val) :
    step (0xE0 + a).toUInt8 ((0x80 + b).toUInt8 :: (0x80 + d).toUInt8 :: r) = .char c 3 := by
  have hlead : 0xE0 + a < 256 := by omega
  have hgroups : assemble [a, b, d] = c := assemble_eq (by simpa using hc)
  have hsecond : isSecond (0xE0 + a).toUInt8 (0x80 + b).toUInt8 = true :=
    isSecond_of_lt hlead hb (fun h => hshort (by omega)) (fun h => hsurrogate (by omega)) (by omega) (by omega)
  simp only [step, toUInt8_lt_iff hlead, le_toUInt8_iff hlead, isContinuation_of_lt hd, hsecond, toNat_toUInt8 hlead,
    toNat_toUInt8 (show 0x80 + b < 256 by omega), toNat_toUInt8 (show 0x80 + d < 256 by omega),
    Nat.add_sub_cancel_left, hgroups, UInt8.reduceToNat, Bool.or_eq_true, decide_eq_true_eq, Bool.not_true,
    Bool.false_eq_true, if_false]
  rw [if_neg (by omega), if_neg (by omega), if_neg (by omega), if_pos (by omega)]

theorem step_four (he : e < 64) (ha : a < 5) (hshort : a = 0 → 16 ≤ b) (hlast : a = 4 → b < 16)
    (hc : ((a * 64 + b) * 64 + d) * 64 + e = c.val) :
    step (0xF0 + a).toUInt8 ((0x80 + b).toUInt8 :: (0x80 + d).toUInt8 :: (0x80 + e).toUInt8 :: r) = .char c 4 := by
  have hlead : 0xF0 + a < 256 := by omega
  have hgroups : assemble [a, b, d, e] = c := assemble_eq (by simpa using hc)
  have hsecond : isSecond (0xF0 + a).toUInt8 (0x80 + b).toUInt8 = true :=
    isSecond_of_lt hlead hb (by omega) (by omega) (fun h => hshort (by omega)) fun h => hlast (by omega)
  simp only [step, toUInt8_lt_iff hlead, le_toUInt8_iff hlead, isContinuation_of_lt hd, isContinuation_of_lt he, hsecond,
    toNat_toUInt8 hlead, toNat_toUInt8 (show 0x80 + b < 256 by omega), toNat_toUInt8 (show 0x80 + d < 256 by omega),
    toNat_toUInt8 (show 0x80 + e < 256 by omega), Nat.add_sub_cancel_left, hgroups, UInt8.reduceToNat, if_true,
    Bool.or_eq_true, decide_eq_true_eq, Bool.not_true, Bool.false_eq_true, if_false]
  rw [if_neg (by omega), if_neg (by omega), if_neg (by omega), if_neg (by omega)]

end Step

/-- The bytes of a code point are read as it, whatever follows. -/
theorem step_encodeOne (hc : c.isSurrogate = false) (r : Bytes) :
    ∃ a rest, encodeOne c = a :: rest ∧ step a (rest ++ r) = .char c (rest.length + 1) := by
  have hlt := c.lt
  have hnot : 0xD800 ≤ c.val → ¬ c.val ≤ 0xDFFF := by simpa [CodePoint.isSurrogate] using hc
  unfold encodeOne
  dsimp only
  split
  · rename_i h
    have hbyte : c.val < 256 := by omega
    refine ⟨_, [], rfl, ?_⟩
    rw [step_of_ascii ((toUInt8_lt_iff hbyte _).mpr h), toNat_toUInt8 hbyte, ofNat_val]
    rfl
  split
  · exact ⟨_, _, rfl, step_two (by omega) r (by omega) (by omega) (by omega)⟩
  split
  · exact ⟨_, _, rfl, step_three (by omega) r (by omega) (by omega) (by omega) (by omega) (by omega)⟩
  · exact ⟨_, _, rfl, step_four (by omega) r (by omega) (by omega) (by omega) (by omega) (by omega) (by omega)⟩

theorem decodeReplacingFrom_append (bs r : Bytes) :
    decodeReplacingFrom bs.length (bs ++ r) = decodeReplacingFrom 0 r := by
  induction bs with
  | nil => rfl
  | cons b bs ih => simpa [decodeReplacingFrom] using ih

theorem decodeReplacing_encodeOne_append (hc : c.isSurrogate = false) (r : Bytes) :
    decodeReplacing (encodeOne c ++ r) = c :: decodeReplacing r := by
  obtain ⟨a, rest, hbytes, hstep⟩ := step_encodeOne hc r
  rw [hbytes, decodeReplacing, List.cons_append, decodeReplacingFrom_cons, hstep]
  exact congrArg (c :: ·) (decodeReplacingFrom_append rest r)

/-- What is read of a code point that was written: a question mark if it is a surrogate. -/
def written (c : CodePoint) : CodePoint := if c.isSurrogate then '?' else c

theorem written_of_not_isSurrogate (hc : c.isSurrogate = false) : written c = c := by
  simp [written, hc]

theorem not_isSurrogate_written (c : CodePoint) : (written c).isSurrogate = false := by
  unfold written
  split
  · rfl
  · rename_i hc
    simpa using hc

/-- A text is read back from its bytes, but for the surrogates, which have none. -/
theorem decodeReplacing_encodeReplacing (t : Text) : decodeReplacing (encodeReplacing t) = t.map written := by
  induction t with
  | nil => rfl
  | cons c t ih =>
    rw [List.map_cons, ← ih]
    exact decodeReplacing_encodeOne_append (not_isSurrogate_written c) _

end Legible.Utf8
