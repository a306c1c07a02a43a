import Legible.Format.Cache
import Mathlib.Data.List.Induction
import Mathlib.Data.List.Perm.Subperm
/-!
# What a cache remembers

Whatever was done to a cache, it holds what was stored and has not been pushed out since: by a text of the
same hash, by emptying, or because the cache was full when the next text came. So its answers do not depend
on the hash, except that types of one hash push each other out.
-/

namespace Legible

/-- One use of a cache. -/
inductive CacheUse where
  | get (content : Text)
  | set (content formatted : Text)
  | clear
deriving DecidableEq, Repr

namespace Cache

/-- The answer to one use, and the cache behind it. -/
def use (c : Cache) : CacheUse → Option Text × Cache
  | .get content => (c.get? content, c)
  | .set content formatted => (none, c.set content formatted)
  | .clear => (none, c.clear)

/-- The cache after some uses. -/
def after (c : Cache) (us : List CacheUse) : Cache := us.foldl (fun c u => (c.use u).2) c

/-- A text was stored for the type, and since then neither was the cache emptied nor a text stored that is of
the same hash or finds the cache full. -/
def Keeps (c : Cache) (us : List CacheUse) (content formatted : Text) : Prop :=
  ∃ before later, us = before ++ .set content formatted :: later ∧ .clear ∉ later ∧
    ∀ mid other text rest, later = mid ++ .set other text :: rest →
      cacheKey other ≠ cacheKey content ∧
        ((c.after (before ++ .set content formatted :: mid)).size : Int) ≠ c.maxEntries

/-- The text that was last stored for a type, if any. -/
def lastStored (content : Text) : List CacheUse → Option Text
  | [] => none
  | .set other formatted :: us => (lastStored content us).or (if other = content then some formatted else none)
  | _ :: us => lastStored content us

/-! ## One use -/

theorem after_append (c : Cache) (us vs : List CacheUse) : c.after (us ++ vs) = (c.after us).after vs :=
  List.foldl_append

@[simp] theorem after_snoc (c : Cache) (us : List CacheUse) (u : CacheUse) :
    c.after (us ++ [u]) = ((c.after us).use u).2 := after_append ..

/-- The cache stores nothing. -/
def IsOff (c : Cache) : Prop := c.enabled = false ∨ c.maxEntries ≤ 0

theorem set_of_isOff {c : Cache} (h : c.IsOff) (content formatted : Text) : c.set content formatted = c := by
  have h : (!c.enabled || decide (c.maxEntries ≤ 0)) = true := by simpa [IsOff] using h
  rw [set, if_pos h]

/-- What is kept of the entries when one more comes. -/
def kept (c : Cache) : List (Nat × CacheEntry) := if c.maxEntries ≤ c.size then [] else c.entries

theorem set_of_not_isOff {c : Cache} (h : ¬ c.IsOff) (content formatted : Text) :
    c.set content formatted
      = { c with entries := Association.assign c.kept (cacheKey content) ⟨content, formatted⟩ } := by
  have h : ¬ (!c.enabled || decide (c.maxEntries ≤ 0)) = true := by simpa [IsOff] using h
  rw [set, if_neg h]
  rfl

@[simp] theorem enabled_set (c : Cache) (content formatted : Text) :
    (c.set content formatted).enabled = c.enabled := by
  unfold set
  split <;> rfl

@[simp] theorem maxEntries_set (c : Cache) (content formatted : Text) :
    (c.set content formatted).maxEntries = c.maxEntries := by
  unfold set
  split <;> rfl

/-- A use changes the entries alone. -/
theorem use_frame (c : Cache) (u : CacheUse) :
    (c.use u).2.enabled = c.enabled ∧ (c.use u).2.maxEntries = c.maxEntries := by
  cases u with
  | set => exact ⟨enabled_set .., maxEntries_set ..⟩
  | get | clear => exact ⟨rfl, rfl⟩

theorem after_frame (c : Cache) (us : List CacheUse) :
    (c.after us).enabled = c.enabled ∧ (c.after us).maxEntries = c.maxEntries := by
  induction us using List.reverseRecOn with
  | nil => exact ⟨rfl, rfl⟩
  | append_singleton us u ih =>
    obtain ⟨he, hm⟩ := use_frame (c.after us) u
    rw [after_snoc]
    exact ⟨he.trans ih.1, hm.trans ih.2⟩

/-- A cache that is off answers nothing, having no entries. -/
theorem get?_eq_some_iff (c : Cache) (content formatted : Text) :
    c.get? content = some formatted ↔
      c.enabled = true ∧ Association.lookup c.entries (cacheKey content) = some ⟨content, formatted⟩ := by
  unfold get?
  cases c.enabled with
  | false => simp
  | true =>
    cases h : Association.lookup c.entries (cacheKey content) with
    | none => simp
    | some e =>
      obtain ⟨raw, text⟩ := e
      by_cases hraw : raw = content <;> simp [hraw]

/-- What a cache holds after one more text was stored: the text, and of what it held before all that is of
another hash, unless it was full. -/
theorem get?_set_eq_some_iff {c : Cache} (h : ¬ c.IsOff) (other text content formatted : Text) :
    (c.set other text).get? content = some formatted ↔
      (other = content ∧ text = formatted) ∨
        cacheKey other ≠ cacheKey content ∧ (c.size : Int) < c.maxEntries ∧ c.get? content = some formatted := by
  have hon : c.enabled = true := by
    cases he : c.enabled with
    | false => exact absurd (.inl he) h
    | true => rfl
  rw [set_of_not_isOff h, get?_eq_some_iff, get?_eq_some_iff]
  simp only [hon, true_and]
  by_cases hkey : cacheKey other = cacheKey content
  · rw [hkey, Association.lookup_assign_self]
    simp
  · have hne : other ≠ content := fun heq => hkey (congrArg cacheKey heq)
    rw [Association.lookup_assign_of_ne hkey, kept]
    by_cases hfull : c.maxEntries ≤ c.size
    · have hroom : ¬ (c.size : Int) < c.maxEntries := Int.not_lt.mpr hfull
      simp [hne, hfull, hroom, Association.lookup]
    · have hroom : (c.size : Int) < c.maxEntries := Int.not_le.mp hfull
      simp [hne, hkey, hfull, hroom]

/-! ## Any uses -/

/-- One more text makes a cache answer nothing else. -/
theorem get?_of_set {c : Cache} {other text content formatted : Text}
    (h : (c.set other text).get? content = some formatted) :
    (other = content ∧ text = formatted) ∨ c.get? content = some formatted := by
  by_cases hoff : c.IsOff
  · rw [set_of_isOff hoff] at h
    exact .inr h
  · exact ((get?_set_eq_some_iff hoff ..).mp h).imp_right fun hkept => hkept.2.2

/-- The size stays within its bound, and a full cache is the only one that is emptied for the next text. -/
theorem size_use_le {c : Cache} (h : (c.size : Int) ≤ if c.enabled then max c.maxEntries 0 else 0) (u : CacheUse) :
    ((c.use u).2.size : Int) ≤ if c.enabled then max c.maxEntries 0 else 0 := by
  cases u with
  | get => exact h
  | clear =>
    simp only [use, clear, size, List.length_nil]
    split <;> omega
  | set content formatted =>
    change ((c.set content formatted).size : Int) ≤ _
    by_cases hoff : c.IsOff
    · rw [set_of_isOff hoff]
      exact h
    · have hlen := Association.length_assign_le c.kept (cacheKey content) ⟨content, formatted⟩
      simp only [IsOff, not_or, Bool.not_eq_false, Int.not_le] at hoff
      have hkept : (c.kept.length : Int) < c.maxEntries := by
        unfold kept
        split
        · exact hoff.2
        · rename_i hroom
          exact Int.not_le.mp hroom
      rw [set_of_not_isOff (by simp [IsOff, hoff]), if_pos hoff.1]
      simp only [size]
      omega

theorem size_after_le (enabled : Bool) (maxEntries : Int) (us : List CacheUse) :
    ((after { enabled, maxEntries } us).size : Int) ≤ if enabled then max maxEntries 0 else 0 := by
  induction us using List.reverseRecOn with
  | nil =>
    simp only [after, List.foldl_nil, size, List.length_nil]
    split <;> omega
  | append_singleton us u ih =>
    obtain ⟨he, hm⟩ := after_frame { enabled, maxEntries } us
    have h := size_use_le (c := after { enabled, maxEntries } us) (by rw [he, hm]; exact ih) u
    rwa [he, hm, ← after_snoc] at h

/-- What a history comes to when it goes on. -/
theorem keeps_snoc_iff (c : Cache) (us : List CacheUse) (u : CacheUse) (content formatted : Text) :
    c.Keeps (us ++ [u]) content formatted ↔
      u = .set content formatted ∨ c.Keeps us content formatted ∧ u ≠ .clear ∧
        ∀ other text, u = .set other text →
          cacheKey other ≠ cacheKey content ∧ ((c.after us).size : Int) ≠ c.maxEntries := by
  constructor
  · rintro ⟨before, later, hus, hclear, hset⟩
    -- the last use is the one that stored the text, or comes after it
    rcases List.eq_nil_or_concat later with rfl | ⟨later, v, rfl⟩
    · obtain ⟨_, hu⟩ := List.append_inj' hus rfl
      exact .inl (List.singleton_inj.mp hu)
    · rw [List.concat_eq_append] at hus hclear hset
      rw [← List.cons_append, ← List.append_assoc] at hus
      obtain ⟨rfl, hu⟩ := List.append_inj' hus rfl
      cases List.singleton_inj.mp hu
      refine .inr ⟨⟨before, later, rfl, ?_, ?_⟩, ?_, ?_⟩
      · exact fun h => hclear (List.mem_append_left _ h)
      · rintro mid other text rest rfl
        exact hset mid other text (rest ++ [u]) (by simp)
      · rintro rfl
        exact hclear (List.mem_append_right _ (List.mem_singleton_self _))
      · rintro other text rfl
        exact hset later other text [] rfl
  · rintro (rfl | ⟨⟨before, later, rfl, hclear, hset⟩, hu, hlast⟩)
    · exact ⟨us, [], rfl, List.not_mem_nil, fun mid _ _ _ h => by simp at h⟩
    · refine ⟨before, later ++ [u], by simp, ?_, ?_⟩
      · intro h
        rcases List.mem_append.mp h with h | h
        · exact hclear h
        · exact hu (List.mem_singleton.mp h).symm
      · intro mid other text rest h
        rcases List.eq_nil_or_concat rest with rfl | ⟨rest, v, rfl⟩
        · obtain ⟨rfl, hv⟩ := List.append_inj' h rfl
          exact hlast other text (List.singleton_inj.mp hv)
        · rw [List.concat_eq_append, ← List.cons_append, ← List.append_assoc] at h
          obtain ⟨h, _⟩ := List.append_inj' h rfl
          exact hset mid other text rest h

/-- A cache holds what it was given and nothing has pushed out. -/
theorem get?_after_eq_some_iff (enabled : Bool) (maxEntries : Int) (us : List CacheUse) (content formatted : Text) :
    (after { enabled, maxEntries } us).get? content = some formatted ↔
      enabled = true ∧ 0 < maxEntries ∧ Keeps { enabled, maxEntries } us content formatted := by
  induction us using List.reverseRecOn with
  | nil =>
    have hnone : (after { enabled, maxEntries } []).get? content = none := by
      rw [Option.eq_none_iff_forall_ne_some]
      simp [after, get?_eq_some_iff, Association.lookup]
    rw [hnone]
    simp [Keeps]
  | append_singleton us u ih =>
    obtain ⟨he, hm⟩ := after_frame { enabled, maxEntries } us
    have hsize := size_after_le enabled maxEntries us
    rw [after_snoc, keeps_snoc_iff]
    generalize after { enabled, maxEntries } us = d at he hm hsize ih
    dsimp only at he hm
    cases u with
    | get other => simpa [use] using ih
    | clear => simp [use, clear, get?_eq_some_iff, Association.lookup]
    | set other text =>
      by_cases hoff : d.IsOff
      · have hoff' : ¬ (enabled = true ∧ 0 < maxEntries) := by
          rw [IsOff, he, hm] at hoff
          rintro ⟨hon, hpos⟩
          rcases hoff with hoff | hoff
          · rw [hon] at hoff
            cases hoff
          · omega
        change (d.set other text).get? content = some formatted ↔ _
        rw [set_of_isOff hoff, ih]
        exact ⟨fun h => absurd ⟨h.1, h.2.1⟩ hoff', fun h => absurd ⟨h.1, h.2.1⟩ hoff'⟩
      · have hon : enabled = true ∧ 0 < maxEntries := by
          rw [IsOff, he, hm] at hoff
          simpa using hoff
        -- the cache is never more than full
        have hroom : (d.size : Int) < maxEntries ↔ (d.size : Int) ≠ maxEntries := by
          rw [if_pos hon.1] at hsize
          omega
        have hlast : (∀ other' text', CacheUse.set other text = .set other' text' →
            cacheKey other' ≠ cacheKey content ∧ (d.size : Int) ≠ maxEntries) ↔
            cacheKey other ≠ cacheKey content ∧ (d.size : Int) ≠ maxEntries :=
          ⟨fun h => h other text rfl, by rintro h _ _ ⟨⟩; exact h⟩
        change (d.set other text).get? content = some formatted ↔ _
        rw [get?_set_eq_some_iff hoff, ih, hm, hroom, hlast]
        simp only [hon, true_and, CacheUse.set.injEq, ne_eq, reduceCtorEq, not_false_eq_true]
        rw [← and_assoc, and_comm (b := Keeps _ us content formatted)]

theorem lastStored_append (content : Text) (us vs : List CacheUse) :
    lastStored content (us ++ vs) = (lastStored content vs).or (lastStored content us) := by
  induction us with
  | nil => simp [lastStored]
  | cons u r ih => cases u <;> simp [lastStored, ih, Option.or_assoc]

/-- What is kept for a type is what was last stored for it. -/
theorem Keeps.lastStored {c : Cache} {us : List CacheUse} {content formatted : Text}
    (h : c.Keeps us content formatted) : lastStored content us = some formatted := by
  obtain ⟨before, later, rfl, _, hset⟩ := h
  have hnone : ∀ mid rest, later = mid ++ rest → Cache.lastStored content rest = none := by
    intro mid rest hl
    induction rest generalizing mid with
    | nil => rfl
    | cons u r ih =>
      have hr := ih (mid ++ [u]) (by simp [hl])
      cases u with
      | get | clear => exact hr
      | set other text =>
        obtain ⟨hkey, _⟩ := hset mid other text r hl
        have hne : other ≠ content := fun heq => hkey (congrArg cacheKey heq)
        simp [Cache.lastStored, hr, hne]
  rw [lastStored_append, Cache.lastStored, hnone [] later rfl]
  simp

/-- From an empty cache on, whatever is done: it answers with the text that was last stored for the very type, as long as
nothing has pushed that out, and else not at all. A text that has just been stored is there if the cache is on. It never
holds more than it may, and a look changes nothing. -/
theorem cache_answers_what_it_keeps (enabled : Bool) (maxEntries : Int) (us : List CacheUse) :
    let c : Cache := { enabled, maxEntries }
    let d := c.after us
    (d.size : Int) ≤ (if enabled then max maxEntries 0 else 0) ∧
    ∀ content,
      (∀ formatted, (d.use (.get content)).1 = some formatted ↔
        enabled = true ∧ 0 < maxEntries ∧ c.Keeps us content formatted) ∧
      ((d.use (.get content)).1 = none ∨ (d.use (.get content)).1 = lastStored content us) ∧
      c.after (us ++ [.get content]) = d ∧
      ∀ formatted, (c.after (us ++ [.set content formatted])).get? content
        = if enabled && 0 < maxEntries then some formatted else none := by
  intro c d
  have hget (content formatted : Text) := get?_after_eq_some_iff enabled maxEntries us content formatted
  refine ⟨size_after_le enabled maxEntries us, fun content => ⟨hget content, ?_, after_snoc .., ?_⟩⟩
  · change d.get? content = none ∨ d.get? content = _
    cases h : d.get? content with
    | none => exact .inl rfl
    | some formatted =>
      obtain ⟨_, _, hkeeps⟩ := (hget content formatted).mp h
      exact .inr hkeeps.lastStored.symm
  · intro formatted
    have hset := get?_after_eq_some_iff enabled maxEntries (us ++ [.set content formatted]) content
    split
    · rename_i hon
      simp only [Bool.and_eq_true, decide_eq_true_eq] at hon
      exact (hset formatted).mpr ⟨hon.1, hon.2, (keeps_snoc_iff ..).mpr (.inl rfl)⟩
    · rename_i hoff
      rw [Option.eq_none_iff_forall_ne_some]
      intro text htext
      obtain ⟨hon, hpos, _⟩ := (hset text).mp htext
      simp [hon, hpos] at hoff

/-- Two types of one hash: the second pushes the first one out, and is not taken for it. -/
example : cacheKey "Aa" = cacheKey "BB" ∧
    ((after {} [.set "Aa" "one", .set "BB" "two"]).use (.get "Aa")).1 = none ∧
    ((after {} [.set "Aa" "one", .set "BB" "two"]).use (.get "BB")).1 = some ("two" : Text) := by
  decide

/-! ## A cache with room -/

/-- The cache can keep these types beside each other: it is on and large enough, and no two of them have one hash. -/
structure Fits (c : Cache) (types : List Text) : Prop where
  enabled : c.enabled = true
  hashes : ∀ a ∈ types, ∀ b ∈ types, cacheKey a = cacheKey b → a = b
  room : (types.eraseDups.length : Int) ≤ c.maxEntries

/-- Of the types that fit the cache knows some, and it holds nothing else. -/
structure Holds (c : Cache) (types known : List Text) : Prop extends Fits c types where
  answers : ∀ content ∈ types, (∃ formatted, c.get? content = some formatted) ↔ content ∈ known
  nodup : known.Nodup
  subset : known ⊆ types
  size : c.size ≤ known.length

namespace Holds

variable {c : Cache} {types known : List Text} {content other formatted text : Text}

theorem of_empty (hfits : c.Fits types) (hempty : c.entries = []) : c.Holds types [] where
  toFits := hfits
  answers content _ := by simp [get?_eq_some_iff, hempty, Association.lookup]
  nodup := List.nodup_nil
  subset := List.nil_subset _
  size := by simp [Cache.size, hempty]

/-- There is room for every type that is not known yet. -/
theorem size_lt (h : c.Holds types known) (hmem : content ∈ types) (hnew : content ∉ known) :
    (c.size : Int) < c.maxEntries := by
  have hsub : content :: known ⊆ types.eraseDups := fun a ha => by
    rw [List.mem_eraseDups]
    exact List.cons_subset.mpr ⟨hmem, h.subset⟩ ha
  have hle := (List.subperm_of_subset (List.nodup_cons.mpr ⟨hnew, h.nodup⟩) hsub).length_le
  have hroom := h.room
  have hsize := h.size
  rw [List.length_cons] at hle
  omega

theorem not_isOff (h : c.Holds types known) (hmem : content ∈ types) (hnew : content ∉ known) : ¬ c.IsOff := by
  have hlt := h.size_lt hmem hnew
  rintro (hoff | hnone)
  · exact Bool.false_ne_true (hoff.symm.trans h.enabled)
  · omega

/-- A type that is not known yet pushes none out. -/
theorem get?_set_eq_some_iff (h : c.Holds types known) (hmem : content ∈ types) (hnew : content ∉ known)
    (hother : other ∈ types) : (c.set content text).get? other = some formatted ↔
      (content = other ∧ text = formatted) ∨ (content ≠ other ∧ c.get? other = some formatted) := by
  have hlt := h.size_lt hmem hnew
  have hhash : cacheKey content = cacheKey other ↔ content = other :=
    ⟨h.hashes content hmem other hother, congrArg cacheKey⟩
  rw [Cache.get?_set_eq_some_iff (h.not_isOff hmem hnew), ne_eq, hhash]
  simp only [hlt, true_and, ne_eq]

theorem set (h : c.Holds types known) (hmem : content ∈ types) (hnew : content ∉ known) (text : Text) :
    (c.set content text).Holds types (content :: known) where
  enabled := (enabled_set ..).trans h.enabled
  hashes := h.hashes
  room := by
    rw [maxEntries_set]
    exact h.room
  answers other hother := by
    have hanswers := h.answers other hother
    by_cases heq : content = other
    · subst heq
      simp [h.get?_set_eq_some_iff hmem hnew hother]
    · simp [h.get?_set_eq_some_iff hmem hnew hother, heq, hanswers, Ne.symm heq]
  nodup := List.nodup_cons.mpr ⟨hnew, h.nodup⟩
  subset := List.cons_subset.mpr ⟨hmem, h.subset⟩
  size := by
    have hlt := h.size_lt hmem hnew
    have hkept : c.kept = c.entries := if_neg (Int.not_le.mpr hlt)
    have hlength := Association.length_assign_le c.entries (cacheKey content) ⟨content, text⟩
    have hsize := h.size
    rw [set_of_not_isOff (h.not_isOff hmem hnew), hkept]
    simp only [Cache.size, List.length_cons] at hsize ⊢
    omega

end Holds

end Cache

end Legible
