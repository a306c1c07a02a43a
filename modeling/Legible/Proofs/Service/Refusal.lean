import Legible.Proofs.Service.Delivery
/-!
# What is refused

A request is refused if and only if it needs a run that cannot be started. Requests change nothing about what is refused
(`refuses_request`), and so a batch is refused if and only if one of its types is, whatever was asked for before.
-/

namespace Legible

/-- A search is made once. -/
theorem Locator.locate_locate (which : Which) (l : Locator) :
    ((l.locate which).2.1.locate which).1 = (l.locate which).1 := by
  obtain ⟨fixed, directories, memo⟩ := l
  cases memo <;> rfl

namespace Service

variable {s t : Service} {segments : List Segment} {content : Text} {f : Fault}

/-- The same is refused. -/
theorem refuses_congr (hcache : t.cache = s.cache) (hconfig : t.config = s.config) (hlocate : t.locate.1 = s.locate.1) :
    t.Refuses content f ↔ s.Refuses content f := by
  have hargv (c : Command) : t.argv c = s.argv c := by rw [argv, hconfig, argv]
  simp only [Refuses, hcache, hlocate, hargv]

/-- There is one reason to refuse anything. -/
theorem Refuses.unique {content' : Text} {f' : Fault} (h : s.Refuses content f) (h' : s.Refuses content' f') : f = f' := by
  obtain ⟨_, c, hc, hf⟩ := h
  obtain ⟨_, c', hc', hf'⟩ := h'
  cases hc.symm.trans hc'
  exact Except.error.inj (hf.symm.trans hf')

theorem request_eq_error_iff_refuses (s : Service) (content : Text) (l : Listener) (f : Fault) :
    (s.request content l).1 = .error f ↔ s.Refuses content f := by
  constructor
  · intro hf
    rcases request_cases s content l 0 with ⟨_, _, _, hok, _⟩ | ⟨f', herr, hrefuse, _⟩
    · cases hok.symm.trans hf
    · cases herr.symm.trans hf
      exact hrefuse
  · rintro ⟨hmiss, c, hc, hf⟩
    obtain ⟨f', hf'⟩ := (request_eq_error_iff s content l).mpr ⟨hmiss, c, hc, (argv_eq_error_iff c).mp ⟨f, hf⟩⟩
    rcases request_cases s content l 0 with ⟨_, _, _, hok, _⟩ | ⟨f'', herr, hrefuse, _⟩
    · cases hok.symm.trans hf'
    · rw [herr, hrefuse.unique ⟨hmiss, c, hc, hf⟩]

/-- A request leaves what is refused as it is. -/
theorem locate_request (s : Service) (content : Text) (l : Listener) :
    (s.request content l).2.locate.1 = s.locate.1 := by
  have hloc : s.locate.2.locate.1 = s.locate.1 := Locator.locate_locate s.which s.locator
  unfold request
  dsimp only
  split
  · rfl
  · split <;> rename_i t hl <;> rw [hl] at hloc
    · exact hloc.trans (congrArg Prod.fst hl).symm
    · split <;> exact hloc.trans (congrArg Prod.fst hl).symm

theorem refuses_request (s : Service) (content' : Text) (l : Listener) (content : Text) (f : Fault) :
    (s.request content' l).2.Refuses content f ↔ s.Refuses content f := by
  obtain ⟨_, _, _, haside⟩ := request_aside s content' l
  exact refuses_congr (by rw [haside]) (by rw [haside]) (locate_request s content' l)

/-! ## Batches -/

theorem mem_codePlaces {place : Nat} :
    place ∈ codePlaces segments ↔ ∃ seg, segments[place]? = some seg ∧ seg.isCode = true := by
  simp only [codePlaces, List.mem_map, List.mem_filter, Prod.exists, exists_eq_right, List.mem_zipIdx_iff_getElem?]

theorem requestSlots_eq_error_iff (s : Service) (batch : Nat) (segments : List Segment) (places : List Nat) (f : Fault) :
    (s.requestSlots batch segments places).1 = .error f ↔
      ∃ place ∈ places, ∃ seg, segments[place]? = some seg ∧ s.Refuses seg.content f := by
  induction places generalizing s with
  | nil =>
    simp only [requestSlots, List.not_mem_nil, false_and, exists_false, iff_false]
    rintro ⟨⟩
  | cons i r ih =>
    simp only [List.mem_cons, exists_eq_or_imp]
    rw [requestSlots]
    split
    · rename_i hnone
      rw [ih s, hnone]
      simp
    · -- a request changes nothing about what is refused, so the other places are judged as before it
      rename_i seg hseg
      have hrefuse := request_eq_error_iff_refuses s seg.content (.slot batch i)
      have hsame := s.refuses_request seg.content (.slot batch i)
      generalize s.request seg.content (.slot batch i) = p at hrefuse hsame
      obtain ⟨res, t⟩ := p
      simp only [hseg, Option.some.injEq, exists_eq_left']
      cases res with
      | error f' =>
        have hfirst : s.Refuses seg.content f' := (hrefuse f').mp rfl
        constructor
        · rintro ⟨⟩
          exact .inl hfirst
        · rintro (h | ⟨_, _, _, _, h⟩) <;> rw [hfirst.unique h]
      | ok i =>
        simp only [reduceCtorEq, false_iff] at hrefuse
        simp only [ih t, hsame, hrefuse f, false_or]

theorem startBatch_eq_error_iff (s : Service) (segments : List Segment) (shown : Shown) (f : Fault) :
    (s.startBatch segments shown).1 = .error f ↔ ∃ seg ∈ segments, seg.isCode = true ∧ s.Refuses seg.content f := by
  have hmap (e : Except Fault Unit) (n : Nat) : (e.map fun _ => n) = .error f ↔ e = .error f := by
    cases e <;> simp [Except.map]
  unfold startBatch
  dsimp only
  rw [hmap, requestSlots_eq_error_iff]
  constructor
  · rintro ⟨place, hplace, seg, hseg, hrefuse⟩
    obtain ⟨seg', hseg', hcode⟩ := mem_codePlaces.mp hplace
    cases hseg.symm.trans hseg'
    exact ⟨seg, List.mem_of_getElem? hseg, hcode, hrefuse⟩
  · rintro ⟨seg, hmem, hcode, hrefuse⟩
    obtain ⟨place, hseg⟩ := List.getElem?_of_mem hmem
    exact ⟨place, mem_codePlaces.mpr ⟨seg, hseg, hcode⟩, seg, hseg, hrefuse⟩

theorem exists_startBatch_error_iff (s : Service) (segments : List Segment) (shown : Shown) :
    (∃ f, (s.startBatch segments shown).1 = .error f) ↔ ∃ seg ∈ segments, seg.isCode = true ∧
      s.cache.get? seg.content = none ∧ ∃ c, s.locate.1 = some c ∧ Unusable s.config c := by
  simp only [startBatch_eq_error_iff, ← argv_eq_error_iff]
  constructor
  · rintro ⟨f, seg, hmem, hcode, hmiss, c, hc, hf⟩
    exact ⟨seg, hmem, hcode, hmiss, c, hc, f, hf⟩
  · rintro ⟨seg, hmem, hcode, hmiss, c, hc, f, hf⟩
    exact ⟨f, seg, hmem, hcode, hmiss, c, hc, hf⟩

end Service

end Legible
