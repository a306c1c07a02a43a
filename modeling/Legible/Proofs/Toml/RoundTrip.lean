import Legible.Proofs.Toml.Absent
import Legible.Proofs.Toml.Values
import Mathlib.Data.List.Nodup
/-!
# Documents read back

A document of sections that hold values on one line is read from what is written of it (`Toml.parse_render`), also
between remarks. Names of sections and keys need no quotes here, and none comes twice in one place.
-/

namespace Legible.Toml

/-- A name that needs no quotes. -/
structure IsBareName (k : Text) : Prop where
  ne_nil : k ≠ []
  bare : ∀ c ∈ k, isBare c = true

/-- A table of values on one line each. -/
structure IsSection (s : Table) : Prop where
  names : ∀ p ∈ s, IsBareName p.1
  values : ∀ p ∈ s, IsFlat p.2
  nodup : (s.map (·.1)).Nodup

/-- The table of sections. -/
def ofSections (ss : List (Text × Table)) : Table := ss.map fun p => (p.1, .table p.2)

/-- Sections with names of their own. -/
structure AreSections (ss : List (Text × Table)) : Prop where
  names : ∀ p ∈ ss, IsBareName p.1
  sections : ∀ p ∈ ss, IsSection p.2
  nodup : (ss.map (·.1)).Nodup

/-! ## What is written -/

/-- The line of a pair. -/
def pairLine (p : Text × Toml) : Text := p.1 ++ " = " ++ inlineText false p.2 ++ "\n"

/-- The lines of a section. -/
def sectionText (p : Text × Table) : Text := "[" ++ p.1 ++ "]\n" ++ p.2.flatMap pairLine

theorem keyText_of_isBareName {k : Text} (hk : IsBareName k) : keyText k = k := by
  have hne : k.isEmpty = false := List.isEmpty_eq_false_iff.mpr hk.ne_nil
  have hall : k.all isBareKeyChar = true := List.all_eq_true.mpr hk.bare
  rw [keyText, hne, hall]
  rfl

theorem isPlain_of_isFlat {v : Toml} (hv : IsFlat v) :
    isAbsent v = false ∧ isTable v = false ∧ isTableArray v = false := by
  cases hv with
  | scalar hv => cases hv <;> exact ⟨rfl, rfl, rfl⟩
  | @arr items hitems =>
    have hnone : items.any isTable = false := List.any_eq_false.mpr fun v hv => by
      cases hitems v hv <;> exact Bool.false_ne_true
    refine ⟨rfl, rfl, ?_⟩
    rw [isTableArray, hnone, Bool.and_false]

theorem plainText_of_isSection {s : Table} (hs : IsSection s) : plainText s = s.flatMap pairLine := by
  have hall : s.filter (fun p => !isAbsent p.2 && !isTable p.2 && !isTableArray p.2) = s :=
    List.filter_eq_self.mpr fun p hp => by
      obtain ⟨habsent, htable, harray⟩ := isPlain_of_isFlat (hs.values p hp)
      rw [habsent, htable, harray]
      rfl
  have hline (p : Text × Toml) (hp : p ∈ s) :
      keyText p.1 ++ " = " ++ inlineText false p.2 ++ "\n" = pairLine p := by
    rw [keyText_of_isBareName (hs.names p hp), pairLine]
  rw [plainText, hall, List.flatMap_def, List.flatMap_def, List.map_congr_left hline]

theorem arrayBlocks_of_none {pairs : Table} (hpairs : ∀ p ∈ pairs, isTableArray p.2 = false) (above : Text)
    (begun : Bool) : arrayBlocks above begun pairs = [] := by
  induction pairs generalizing begun with
  | nil => rfl
  | cons p pairs ih =>
    obtain ⟨hp, hpairs⟩ := List.forall_mem_cons.mp hpairs
    rw [arrayBlocks, hp, ih hpairs]
    rfl

theorem tableBlocks_of_none {pairs : Table} (hpairs : ∀ p ∈ pairs, isTable p.2 = false) (above : Text)
    (begun : Bool) : tableBlocks above begun pairs = [] := by
  induction pairs generalizing begun with
  | nil => rfl
  | cons p pairs ih =>
    obtain ⟨hp, hpairs⟩ := List.forall_mem_cons.mp hpairs
    rw [tableBlocks, hp, ih hpairs]
    rfl

theorem valueBlock_of_isSection {s : Table} (hs : IsSection s) (k : Text) (apart : Bool) :
    valueBlock k apart (.table s) = gap apart ++ sectionText (k, s) := by
  have hplain {p : Text × Toml} (hp : p ∈ s) := isPlain_of_isFlat (hs.values p hp)
  have hown : holdsTablesOnly s = false := by
    cases s with
    | nil => rfl
    | cons p s =>
      obtain ⟨habsent, htable, harray⟩ := hplain List.mem_cons_self
      simp [holdsTablesOnly, habsent, htable, harray]
  rw [valueBlock, hown, plainText_of_isSection hs, arrayBlocks_of_none fun p hp => (hplain hp).2.2,
    tableBlocks_of_none fun p hp => (hplain hp).2.1]
  simp [sectionText]

theorem tableBlocks_cons {p : Text × Table} (hp : IsBareName p.1) (hs : IsSection p.2) (begun : Bool)
    (ss : List (Text × Table)) : tableBlocks [] begun (ofSections (p :: ss)) =
      gap begun ++ sectionText p ++ tableBlocks [] true (ofSections ss) := by
  have hblock : tableBlocks [] begun (ofSections (p :: ss)) =
      valueBlock (keyText p.1) begun (.table p.2) ++ tableBlocks [] (begun || true) (ofSections ss) := rfl
  rw [hblock, keyText_of_isBareName hp, valueBlock_of_isSection hs, Bool.or_true]

theorem tableBlocks_behind {ss : List (Text × Table)} (hss : ∀ p ∈ ss, IsBareName p.1 ∧ IsSection p.2) :
    tableBlocks [] true (ofSections ss) = (ss.map sectionText).flatMap (Text.newline ++ ·) := by
  induction ss with
  | nil => rfl
  | cons p ss ih =>
    obtain ⟨⟨hp, hs⟩, hss⟩ := List.forall_mem_cons.mp hss
    rw [tableBlocks_cons hp hs, ih hss, List.map_cons, List.flatMap_cons]
    rfl

theorem join_cons (sep t : Text) (ts : List Text) : Text.join sep (t :: ts) = t ++ ts.flatMap (sep ++ ·) := by
  induction ts generalizing t with
  | nil => rw [Text.join, List.flatMap_nil, List.append_nil]
  | cons u ts ih => rw [Text.join, ih, List.flatMap_cons, List.append_assoc, List.append_assoc]

/-- An empty line stands between two sections. -/
theorem render_ofSections {ss : List (Text × Table)} (hss : AreSections ss) :
    render (ofSections ss) = Text.join Text.newline (ss.map sectionText) := by
  have htable {p : Text × Toml} (hp : p ∈ ofSections ss) : ∃ s, p.2 = .table s := by
    obtain ⟨q, -, rfl⟩ := List.mem_map.mp hp
    exact ⟨q.2, rfl⟩
  have hplain : plainText (ofSections ss) = [] := by
    have hnone : (ofSections ss).filter (fun p => !isAbsent p.2 && !isTable p.2 && !isTableArray p.2) = [] :=
      List.filter_eq_nil_iff.mpr fun p hp => by
        obtain ⟨s, hs⟩ := htable hp
        simp [hs, isTable]
    rw [plainText, hnone]
    rfl
  have hholds : holdsPlain (ofSections ss) = false := List.any_eq_false.mpr fun p hp => by
    obtain ⟨s, hs⟩ := htable hp
    simp [hs, isPlain, isTable]
  have harrays : arrayBlocks [] false (ofSections ss) = [] := arrayBlocks_of_none (fun p hp => by
    obtain ⟨s, hs⟩ := htable hp
    rw [hs]
    rfl) [] false
  rw [render, hplain, harrays, hholds]
  cases ss with
  | nil => rfl
  | cons p ss =>
    have hall : ∀ q ∈ p :: ss, IsBareName q.1 ∧ IsSection q.2 := fun q hq => ⟨hss.names q hq, hss.sections q hq⟩
    obtain ⟨⟨hp, hs⟩, hrest⟩ := List.forall_mem_cons.mp hall
    rw [tableBlocks_cons hp hs, tableBlocks_behind hrest, List.map_cons, join_cons]
    rfl

/-! ## Tables grow -/

namespace Body

variable {b : Body}

/-- No key stands in two places. -/
def IsSimple (b : Body) : Prop := (b.map (·.1.name)).Nodup

theorem last?_eq_none {name : Text} (h : ∀ p ∈ b, p.1.name ≠ name) : b.last? name = none :=
  List.find?_eq_none.mpr fun p hp => by simpa using h p (List.mem_reverse.mp hp)

theorem not_isScattered (hb : b.IsSimple) (name : Text) : b.isScattered name = false := by
  have hcount := List.nodup_iff_count_le_one.mp hb name
  rw [List.count, List.countP_map, List.countP_eq_length_filter] at hcount
  have hfilter : b.filter (fun p => p.1.name = name) = b.filter ((· == name) ∘ fun p => p.1.name) := by
    exact List.filter_congr fun p _ => Bool.eq_iff_iff.mpr (decide_eq_true_iff.trans beq_iff_eq.symm)
  rw [isScattered, hfilter]
  exact decide_eq_false (Nat.not_lt.mpr hcount)

theorem last?_of_mem (hb : b.IsSimple) {p : Key × Node} (hp : p ∈ b) : b.last? p.1.name = some p := by
  cases hlast : b.last? p.1.name with
  | none =>
    have hne := List.find?_eq_none.mp hlast p (List.mem_reverse.mpr hp)
    simp at hne
  | some q =>
    have hname : q.1.name = p.1.name := by simpa using List.find?_some hlast
    have hq : q ∈ b := List.mem_reverse.mp (List.mem_of_find?_eq_some hlast)
    rw [List.inj_on_of_nodup_map hb hq hp hname]

theorem names_of_isSimple (hb : b.IsSimple) : b.names = b.map (·.1.name) := by
  have hfold (ns : List Text) (hfresh : ∀ p ∈ b, p.1.name ∉ ns) :
      b.foldl (fun ns (p : Key × Node) => if ns.contains p.1.name then ns else p.1.name :: ns) ns =
        (b.map (·.1.name)).reverse ++ ns := by
    induction b generalizing ns with
    | nil => rfl
    | cons p b ih =>
      obtain ⟨hp, hb⟩ := List.nodup_cons.mp hb
      obtain ⟨hnew, hfresh⟩ := List.forall_mem_cons.mp hfresh
      have hnext : ∀ q ∈ b, q.1.name ∉ p.1.name :: ns := fun q hq hmem => by
        rcases List.mem_cons.mp hmem with hname | hmem
        · exact hp (List.mem_map.mpr ⟨q, hq, hname⟩)
        · exact hfresh q hq hmem
      rw [List.foldl_cons, if_neg (by simpa using hnew), ih hb _ hnext, List.map_cons, List.reverse_cons,
        List.append_assoc, List.singleton_append]
  rw [names, hfold [] fun _ _ => List.not_mem_nil, List.append_nil, List.reverse_reverse]

/-- A new key goes to the end. -/
theorem append_of_fresh {k : Key} (h : ∀ p ∈ b, p.1.name ≠ k.name) (check : Bool) (fuel : Nat) (n : Node) :
    append check (fuel + 1) b k n = .ok (b ++ [(k, n)]) := by
  simp only [append, add, last?_eq_none h]

theorem fresh_of_isSimple {k : Key} {n : Node} (hb : IsSimple (b ++ [(k, n)])) : ∀ p ∈ b, p.1.name ≠ k.name := by
  rw [IsSimple, List.map_append] at hb
  exact fun p hp hname => List.disjoint_of_nodup_append hb (List.mem_map.mpr ⟨p, hp, rfl⟩) (by simp [hname])

theorem gather_of_isSimple (hb : b.IsSimple) (fuel : Nat) (name : Text) : gather fuel b name = .ok [] := by
  cases fuel with
  | zero => rw [gather]
  | succ fuel => rw [gather, not_isScattered hb]; rfl

theorem checkAll_of_isSimple (hb : b.IsSimple) (fuel : Nat) (names : List Text) : checkAll fuel b names = .ok () := by
  have hpieces (fuel : Nat) (name : Text) : checkPieces fuel b name = .ok () := by
    cases fuel with
    | zero => rw [checkPieces]
    | succ fuel => rw [checkPieces, not_isScattered hb]; rfl
  induction names generalizing fuel with
  | nil => cases fuel <;> rw [checkAll]
  | cons name names ih =>
    cases fuel with
    | zero => rw [checkAll]
    | succ fuel => rw [checkAll, hpieces, ih]

/-- The body whose keys hold these nodes. -/
def ofPairs {α : Type} (node : α → Node) (pairs : List (Text × α)) : Body :=
  pairs.map fun p => ({ name := p.1 }, node p.2)

/-- The body of a document of sections. -/
def ofSections : List (Text × Table) → Body := ofPairs fun s => .table false (ofPairs .value s)

section

variable {α : Type} {node : α → Node} {pairs : List (Text × α)}

theorem isSimple_ofPairs : (ofPairs node pairs).IsSimple ↔ (pairs.map (·.1)).Nodup := by
  rw [IsSimple, ofPairs, List.map_map]
  rfl

/-- The table of a body has the values of its nodes. -/
theorem toTable_ofPairs (hpairs : (pairs.map (·.1)).Nodup) {val : α → Toml} {least : Nat}
    (hval : ∀ p ∈ pairs, ∀ fuel ≥ least, nodeValue fuel (node p.2) = .ok (val p.2)) {fuel : Nat}
    (hfuel : pairs.length + least < fuel) :
    toTable fuel (ofPairs node pairs) = .ok (pairs.map fun p => (p.1, val p.2)) := by
  have hsimple : (ofPairs node pairs).IsSimple := isSimple_ofPairs.mpr hpairs
  have hnames (ps : List (Text × α)) (hps : ∀ p ∈ ps, p ∈ pairs) (fuel : Nat) (hfuel : ps.length + least ≤ fuel) :
      namesToTable fuel (ofPairs node pairs) (ps.map (·.1)) = .ok (ps.map fun p => (p.1, val p.2)) := by
    induction ps generalizing fuel with
    | nil => cases fuel <;> simp [namesToTable]
    | cons p ps ih =>
      obtain ⟨hp, hps⟩ := List.forall_mem_cons.mp hps
      rw [List.length_cons] at hfuel
      obtain ⟨fuel, rfl⟩ : ∃ n, fuel = n + 1 := ⟨fuel - 1, by omega⟩
      have hlast : (ofPairs node pairs).last? p.1 = some ({ name := p.1 }, node p.2) :=
        last?_of_mem (p := ({ name := p.1 }, node p.2)) hsimple (List.mem_map.mpr ⟨p, hp, rfl⟩)
      rw [List.map_cons, namesToTable, not_isScattered hsimple, hlast]
      simp only [Bool.false_eq_true, if_false, hval p hp fuel (by omega), ih hps fuel (by omega)]
      rfl
  obtain ⟨fuel, rfl⟩ := Nat.exists_eq_add_one.mpr (Nat.zero_lt_of_lt hfuel)
  have hkeys : (ofPairs node pairs).map (·.1.name) = pairs.map (·.1) := by
    rw [ofPairs, List.map_map]
    rfl
  rw [toTable, names_of_isSimple hsimple, hkeys]
  exact hnames pairs (fun _ hp => hp) fuel (Nat.le_of_lt_succ hfuel)

end

theorem toTable_ofSections {ss : List (Text × Table)} (hss : AreSections ss) {most : Nat}
    (hmost : ∀ p ∈ ss, p.2.length ≤ most) {fuel : Nat} (hfuel : ss.length + most + 3 < fuel) :
    toTable fuel (ofSections ss) = .ok (Toml.ofSections ss) := by
  have hsection : ∀ p ∈ ss, ∀ fuel ≥ most + 3,
      nodeValue fuel (.table false (ofPairs .value p.2)) = .ok (Toml.table p.2) := by
    intro p hp fuel hle
    obtain ⟨fuel, rfl⟩ : ∃ n, fuel = n + 1 := ⟨fuel - 1, by omega⟩
    have hvalue : ∀ q ∈ p.2, ∀ fuel ≥ 1, nodeValue fuel (.value q.2) = .ok (id q.2) := fun q _ fuel hle => by
      obtain ⟨fuel, rfl⟩ := Nat.exists_eq_add_one.mpr hle
      rw [nodeValue]
      rfl
    have hlength := hmost p hp
    rw [nodeValue, toTable_ofPairs (hss.sections p hp).nodup hvalue (by omega)]
    exact congrArg (Except.ok <| Toml.table ·) (List.map_id p.2)
  exact toTable_ofPairs hss.nodup hsection hfuel

end Body

/-! ## Lines -/

theorem isGap_of_isBare {c : CodePoint} (hc : isBare c = true) : isGap c = false := by
  refine Bool.eq_false_iff.mpr fun hgap => ?_
  simp only [isGap, isSpace, CodePoint.isNewline, Bool.or_eq_true, decide_eq_true_eq] at hgap
  rcases hgap with (rfl | rfl) | rfl <;> exact absurd hc (by decide)

theorem ne_of_isBare {c d : CodePoint} (hc : isBare c = true) (hd : isBare d = false) : c ≠ d := by
  rintro rfl
  rw [hc] at hd
  cases hd

theorem skipSpaces_cons {c : CodePoint} (hc : isGap c = false) (r : Text) : skipSpaces (c :: r) = c :: r := by
  have hspace : isSpace c = false := (Bool.or_eq_false_iff.mp hc).1
  exact List.dropWhile_cons_of_neg (by rw [hspace]; exact Bool.false_ne_true)

theorem IsBareName.exists_cons {k : Text} (hk : IsBareName k) : ∃ c r, k = c :: r ∧ isBare c = true := by
  obtain ⟨c, r, rfl⟩ := List.exists_cons_of_ne_nil hk.ne_nil
  exact ⟨c, r, rfl, hk.bare c List.mem_cons_self⟩

/-- A name is read up to what cannot belong to it; no dot follows. -/
theorem key_of_isBareName {k : Text} (hk : IsBareName k) {rest : Text} (hrest : StartsOff isBare rest)
    (hdot : StartsOff (· = CodePoint.ofChar '.') (skipSpaces rest)) :
    key (k ++ rest) = .ok ([k], skipSpaces rest) := by
  obtain ⟨c, r, hcr, hc⟩ := hk.exists_cons
  have hne : (k.isEmpty) = false := List.isEmpty_eq_false_iff.mpr hk.ne_nil
  have hquote : (decide (c = CodePoint.ofChar '"') || decide (c = CodePoint.ofChar '\'')) = false := by
    rw [decide_eq_false (ne_of_isBare hc (by decide)), decide_eq_false (ne_of_isBare hc (by decide))]
    rfl
  have hname : keyName (skipSpaces (k ++ rest)) = .ok (k, rest) := by
    have hwhile := takeWhile_append hk.bare hrest
    have hdrop := dropWhile_append hk.bare hrest
    rw [hcr, List.cons_append] at hwhile hdrop ⊢
    rw [skipSpaces_cons (isGap_of_isBare hc)]
    simp only [keyName, hquote, Bool.false_eq_true, if_false, hwhile, hdrop, ← hcr, hne]
  have hkey : key (k ++ rest) = keyNames (99 + 1) (k ++ rest) := rfl
  rw [hkey, keyNames, hname]
  cases hskip : skipSpaces rest with
  | nil => simp [hskip]
  | cons d s =>
    have hd : d ≠ CodePoint.ofChar '.' := fun h => by
      have hd := hdot d (by rw [hskip]; rfl)
      simp [h] at hd
    simp [hskip, hd]

theorem skipSpaces_blank (t : Text) : skipSpaces (CodePoint.ofChar ' ' :: t) = skipSpaces t :=
  List.dropWhile_cons_of_pos (by decide)

theorem exists_inlineText_of_isFlat {v : Toml} (hv : IsFlat v) :
    ∃ c r, inlineText false v = c :: r ∧ isGap c = false := by
  cases hv with
  | scalar hv =>
    obtain ⟨c, r, hcr, hgap, -⟩ := hv.exists_inlineText false
    exact ⟨c, r, hcr, hgap⟩
  | arr _ => exact ⟨'[', _, rfl, by decide⟩

/-- A pair is read up to the end of its line. -/
theorem pair_pairLine {p : Text × Toml} (hp : IsBareName p.1) (hv : IsFlat p.2) {fuel : Nat}
    (hfuel : (inlineText false p.2).length < fuel) {depth : Nat} (hdepth : 0 < depth) (rest : Text) :
    pair fuel depth (pairLine p ++ rest) = .ok (([p.1], p.2), CodePoint.ofChar '\n' :: rest) := by
  obtain ⟨fuel, rfl⟩ := Nat.exists_eq_add_one.mpr (Nat.zero_lt_of_lt hfuel)
  obtain ⟨c, r, hcr, hgap⟩ := exists_inlineText_of_isFlat hv
  have hwritten : pairLine p ++ rest = p.1 ++ CodePoint.ofChar ' ' :: CodePoint.ofChar '=' :: CodePoint.ofChar ' ' ::
      (inlineText false p.2 ++ CodePoint.ofChar '\n' :: rest) := by
    simp [pairLine, Text.ofString]
  have hequals (t : Text) :
      skipSpaces (CodePoint.ofChar ' ' :: CodePoint.ofChar '=' :: t) = CodePoint.ofChar '=' :: t := by
    rw [skipSpaces_blank, skipSpaces_cons (by decide)]
  have hkey (t : Text) : key (p.1 ++ CodePoint.ofChar ' ' :: CodePoint.ofChar '=' :: t) =
      .ok ([p.1], CodePoint.ofChar '=' :: t) := by
    have hread := key_of_isBareName hp (startsOff_cons.mpr (by decide))
      (hequals t ▸ startsOff_cons.mpr (by decide))
    rwa [hequals] at hread
  have hnewline : StartsOff (!isTokenEnd ·) (CodePoint.ofChar '\n' :: rest) := startsOff_cons.mpr (by decide)
  have hvalue := value_of_isFlat hv (Nat.le_of_lt_succ hfuel) hdepth hnewline
  have hstart : skipSpaces (inlineText false p.2 ++ CodePoint.ofChar '\n' :: rest) =
      inlineText false p.2 ++ CodePoint.ofChar '\n' :: rest := by
    rw [hcr, List.cons_append, skipSpaces_cons hgap]
  rw [hwritten, pair, hkey]
  simp only [equals, skipSpaces_cons (show isGap '=' = false by decide), skipSpaces_blank, hstart, if_pos, hvalue]
  rfl

theorem lineEnd_newline (rest : Text) : lineEnd (CodePoint.ofChar '\n' :: rest) = .ok rest := by
  rw [lineEnd, skipSpaces, List.dropWhile_cons_of_neg (by decide)]
  rfl

/-! ## Sections -/

/-- What is left when the lines of a section have been read: nothing, or the next section. -/
def IsRest (t : Text) : Prop := t = [] ∨ ∃ p r, IsBareName p.1 ∧ t = sectionText p ++ r

theorem pairs_of_isRest {grow : Body → Key → Node → Except Stop Body} {b : Body} {t rest : Text} (fuel : Nat)
    (ht : skipGaps false t = .ok rest) (hrest : IsRest rest) : pairs grow (fuel + 1) b t = .ok (b, rest) := by
  rw [pairs, ht]
  rcases hrest with rfl | ⟨p, r, -, rfl⟩ <;> rfl

/-- The pairs of a section are read one by one. -/
theorem pairs_flatMap_pairLine {grow : Body → Key → Node → Except Stop Body}
    (hgrow : ∀ b k n, Body.IsSimple (b ++ [(k, n)]) → grow b k n = .ok (b ++ [(k, n)])) {s : Table}
    (hs : ∀ p ∈ s, IsBareName p.1 ∧ IsFlat p.2) {b : Body} (hb : Body.IsSimple (b ++ Body.ofPairs .value s))
    {fuel : Nat} (hfuel : (s.flatMap pairLine).length ≤ fuel) (rest : Text) :
    pairs grow (s.length + fuel) b (s.flatMap pairLine ++ rest) =
      pairs grow fuel (b ++ Body.ofPairs .value s) rest := by
  induction s generalizing b with
  | nil => rw [List.length_nil, Nat.zero_add, List.flatMap_nil, Body.ofPairs, List.map_nil, List.append_nil]; rfl
  | cons p s ih =>
    obtain ⟨⟨hp, hv⟩, hs⟩ := List.forall_mem_cons.mp hs
    rw [List.flatMap_cons, List.length_append] at hfuel
    have hbehind : b ++ Body.ofPairs .value (p :: s) = b ++ [({ name := p.1 }, .value p.2)] ++ Body.ofPairs .value s :=
      List.append_cons b ({ name := p.1 }, .value p.2) (Body.ofPairs .value s)
    rw [hbehind] at hb ⊢
    have hone : Body.IsSimple (b ++ [({ name := p.1 }, .value p.2)]) := by
      rw [Body.IsSimple, List.map_append] at hb
      exact hb.of_append_left
    have hshort : (inlineText false p.2).length < s.length + fuel := by
      simp only [pairLine, List.length_append, Text.ofString, List.length_map] at hfuel
      simp at hfuel
      omega
    obtain ⟨c, r, hcr, hc⟩ := hp.exists_cons
    obtain ⟨line, hline⟩ : ∃ line, pairLine p = c :: line := by
      rw [pairLine, hcr]
      exact ⟨_, rfl⟩
    have hpair := pair_pairLine hp hv hshort (show 0 < maxDepth by decide) (s.flatMap pairLine ++ rest)
    have hskip := skipGaps_cons (isGap_of_isBare hc) (ne_of_isBare hc (by decide))
      (line ++ (s.flatMap pairLine ++ rest))
    rw [hline, List.cons_append] at hpair
    rw [List.flatMap_cons, List.append_assoc, hline, List.length_cons, Nat.add_right_comm, List.cons_append, pairs,
      hskip]
    simp only [if_neg (ne_of_isBare hc (d := CodePoint.ofChar '[') (by decide)), hpair, lineEnd_newline]
    have hnested : nested [p.1] (.value p.2) = some ({ name := p.1 }, .value p.2) := rfl
    simp only [hnested, hgrow b _ _ hone]
    exact ih hs hb (by omega)

theorem grow_of_isSimple {b : Body} {k : Key} {n : Node} (hb : Body.IsSimple (b ++ [(k, n)])) (check : Bool)
    (fuel : Nat) : grow check (fuel + 1) b k n = .ok (b ++ [(k, n)]) := by
  rw [grow, Body.append_of_fresh (Body.fresh_of_isSimple hb)]
  simp only [orStop, Except.mapError, bind, Except.bind, Body.gather_of_isSimple hb]
  rfl

/-- The text of a section in its parts: the header, the end of its line, and the lines of the pairs. -/
theorem sectionText_append (p : Text × Table) (t : Text) : sectionText p ++ t = CodePoint.ofChar '[' ::
    (p.1 ++ CodePoint.ofChar ']' :: CodePoint.ofChar '\n' :: (p.2.flatMap pairLine ++ t)) := by
  simp [sectionText, Text.ofString]

theorem header_sectionText {k : Text} (hk : IsBareName k) (rest : Text) :
    header (CodePoint.ofChar '[' :: (k ++ CodePoint.ofChar ']' :: rest)) =
      .ok ({ names := [k], element := false }, CodePoint.ofChar ']' :: rest) := by
  obtain ⟨c, r, hcr, hc⟩ := hk.exists_cons
  have hskip : skipSpaces (CodePoint.ofChar ']' :: rest) = CodePoint.ofChar ']' :: rest :=
    skipSpaces_cons (by decide) rest
  have hkey := key_of_isBareName hk (startsOff_cons.mpr (by decide)) (hskip ▸ startsOff_cons.mpr (by decide))
  have hfirst : decide (c = CodePoint.ofChar '[') = false := decide_eq_false (ne_of_isBare hc (by decide))
  rw [hskip, hcr, List.cons_append] at hkey
  rw [header, hcr, List.cons_append, List.drop_succ_cons, List.drop_zero]
  simp only [hfirst, Bool.false_eq_true, if_false, hkey]
  rfl

theorem inner_of_isRest {k : Text} (arrays : List (List Text)) (fuel : Nat) (b : Body) {t : Text} (ht : IsRest t) :
    inner [k] arrays (fuel + 1) b t = .ok (b, t) := by
  rcases ht with rfl | ⟨p, r, hp, rfl⟩
  · rw [inner]
  · have hinside : isInside [k] [p.1] = false := by
      by_cases heq : k = p.1 <;> simp [isInside, heq, List.isPrefixOf]
    rw [sectionText_append, inner, header_sectionText hp]
    simp only [hinside, Bool.false_eq_true, if_false]

theorem length_le_flatMap_pairLine (s : Table) : s.length ≤ (s.flatMap pairLine).length := by
  induction s with
  | nil => rfl
  | cons p s ih =>
    have hone : 1 ≤ (pairLine p).length := by
      simp only [pairLine, Text.ofString, List.length_append, List.length_map]
      simp
    rw [List.flatMap_cons, List.length_append, List.length_cons]
    omega

theorem length_sectionText (p : Text × Table) :
    (sectionText p).length = p.1.length + (p.2.flatMap pairLine).length + 3 := by
  have h := congrArg List.length (sectionText_append p [])
  simp only [List.append_nil, List.length_cons, List.length_append] at h
  omega

/-- A section is read up to what is left behind it. -/
theorem readTable_sectionText {p : Text × Table} (hp : IsBareName p.1) (hs : IsSection p.2) {fuel : Nat}
    (hfuel : 2 * (sectionText p).length ≤ fuel) {t rest : Text} (ht : skipGaps false t = .ok rest)
    (hrest : IsRest rest) :
    readTable [] [] fuel (sectionText p ++ t) = .ok ((p.1, .table false (Body.ofPairs .value p.2)), rest) := by
  have hlines := length_le_flatMap_pairLine p.2
  have hlength := length_sectionText p
  obtain ⟨fuel, rfl⟩ : ∃ n, fuel = p.2.length + (n + 1) + 1 := ⟨fuel - p.2.length - 2, by omega⟩
  have hsimple : Body.IsSimple ([] ++ Body.ofPairs .value p.2) := Body.isSimple_ofPairs.mpr hs.nodup
  have hgrow (b : Body) (k : Key) (n : Node) (hb : Body.IsSimple (b ++ [(k, n)])) :=
    grow_of_isSimple hb true (p.2.length + (fuel + 1))
  have hpairs := pairs_flatMap_pairLine hgrow (fun q hq => ⟨hs.names q hq, hs.values q hq⟩) hsimple
    (show (p.2.flatMap pairLine).length ≤ fuel + 1 by omega) t
  rw [List.nil_append, pairs_of_isRest fuel ht hrest] at hpairs
  have hclose (t : Text) : Text.dropStart? "]" (CodePoint.ofChar ']' :: t) = some t := rfl
  have hinner : inner [p.1] [] (p.2.length + (fuel + 1)) (Body.ofPairs .value p.2) rest =
      .ok (Body.ofPairs .value p.2, rest) :=
    inner_of_isRest [] (p.2.length + fuel) _ hrest
  have hcheck := Body.checkAll_of_isSimple hsimple (p.2.length + (fuel + 1) + 1) (Body.ofPairs .value p.2).names
  rw [List.nil_append] at hcheck
  rw [sectionText_append, readTable, header_sectionText hp]
  simp only [Bool.false_eq_true, if_false, hclose, lineEnd_newline, hpairs, hinner, hcheck]
  rfl

/-! ## Documents -/

theorem growTop_of_isSimple {b : Body} {k : Key} {n : Node} (hb : Body.IsSimple (b ++ [(k, n)])) (fuel : Nat) :
    growTop (fuel + 1) b k n = .ok (b ++ [(k, n)]) := by
  rw [growTop, Body.append_of_fresh (Body.fresh_of_isSimple hb)]
  rfl

/-- The sections with what stands behind them, up to the first of which all else is skipped. -/
def sectionsFrom (behind : Text) : List (Text × Table) → Text
  | [] => []
  | p :: ss => sectionText p ++ ((ss.map sectionText).flatMap (Text.newline ++ ·) ++ behind)

section

variable {ss : List (Text × Table)} {behind : Text}

theorem isRest_sectionsFrom (hss : ∀ p ∈ ss, IsBareName p.1 ∧ IsSection p.2) : IsRest (sectionsFrom behind ss) := by
  cases ss with
  | nil => exact .inl rfl
  | cons p ss => exact .inr ⟨p, _, (hss p List.mem_cons_self).1, rfl⟩

theorem skipGaps_sectionText (p : Text × Table) (t : Text) :
    skipGaps false (sectionText p ++ t) = .ok (sectionText p ++ t) := by
  rw [sectionText_append]
  exact skipGaps_cons (by decide) (by decide) _

theorem skipGaps_behind (hbehind : skipGaps false behind = .ok []) :
    skipGaps false ((ss.map sectionText).flatMap (Text.newline ++ ·) ++ behind) = .ok (sectionsFrom behind ss) := by
  cases ss with
  | nil => exact hbehind
  | cons p ss =>
    rw [List.map_cons, List.flatMap_cons, List.append_assoc, List.append_assoc]
    exact (skipGaps_sectionText p _)

theorem topTables_ofSections (hbehind : skipGaps false behind = .ok [])
    (hss : ∀ p ∈ ss, IsBareName p.1 ∧ IsSection p.2) {b : Body} (hb : Body.IsSimple (b ++ Body.ofSections ss))
    {fuel : Nat} (hfuel : 2 * (ss.flatMap sectionText).length < fuel) :
    topTables fuel b (sectionsFrom behind ss) = .ok (b ++ Body.ofSections ss) := by
  induction ss generalizing b fuel with
  | nil =>
    obtain ⟨fuel, rfl⟩ := Nat.exists_eq_add_one.mpr (Nat.zero_lt_of_lt hfuel)
    rw [sectionsFrom, topTables, Body.ofSections, Body.ofPairs, List.map_nil, List.append_nil]
  | cons p ss ih =>
    obtain ⟨⟨hp, hs⟩, hss⟩ := List.forall_mem_cons.mp hss
    obtain ⟨fuel, rfl⟩ := Nat.exists_eq_add_one.mpr (Nat.zero_lt_of_lt hfuel)
    rw [List.flatMap_cons, List.length_append] at hfuel
    have hlength := length_sectionText p
    have hbehindOne : b ++ Body.ofSections (p :: ss) =
        b ++ [({ name := p.1 }, .table false (Body.ofPairs .value p.2))] ++ Body.ofSections ss :=
      List.append_cons b ({ name := p.1 }, .table false (Body.ofPairs .value p.2)) (Body.ofSections ss)
    rw [hbehindOne] at hb ⊢
    have hgrown : Body.IsSimple (b ++ [({ name := p.1 }, .table false (Body.ofPairs .value p.2))]) := by
      rw [Body.IsSimple, List.map_append] at hb
      exact hb.of_append_left
    have hread := readTable_sectionText hp hs (show 2 * (sectionText p).length ≤ fuel by omega)
      (skipGaps_behind hbehind) (isRest_sectionsFrom hss)
    rw [sectionsFrom]
    rw [sectionText_append] at hread ⊢
    rw [topTables, hread]
    simp only [growTop_of_isSimple hgrown]
    exact ih hss hb (by omega)

theorem length_flatten_le_join (sep : Text) (parts : List Text) :
    parts.flatten.length ≤ (Text.join sep parts).length := by
  induction parts with
  | nil => exact Nat.le_refl 0
  | cons t parts ih =>
    cases parts with
    | nil => rw [List.flatten_singleton, Text.join]
    | cons u parts =>
      rw [List.flatten_cons, Text.join, List.length_append, List.length_append, List.length_append]
      omega

/-- The text of sections is as long as each of them has pairs, and as there are sections. -/
theorem length_le_flatMap_sectionText (ss : List (Text × Table)) :
    ss.length ≤ (ss.flatMap sectionText).length ∧ ∀ p ∈ ss, p.2.length ≤ (ss.flatMap sectionText).length := by
  induction ss with
  | nil => exact ⟨Nat.le_refl 0, fun _ hp => absurd hp List.not_mem_nil⟩
  | cons p ss ih =>
    have hlength : (sectionText p).length = p.1.length + (p.2.flatMap pairLine).length + 3 := length_sectionText p
    have hpairs := length_le_flatMap_pairLine p.2
    rw [List.flatMap_cons, List.length_append, List.length_cons]
    refine ⟨by omega, fun q hq => ?_⟩
    rcases List.mem_cons.mp hq with rfl | hq
    · omega
    · have := ih.2 q hq
      omega

/-- A document of sections is read between remarks. -/
theorem parse_ofSections (hss : AreSections ss) {before : Text}
    (hbefore : ∀ t, skipGaps false (before ++ t) = skipGaps false t) (hbehind : skipGaps false behind = .ok []) :
    parse (before ++ (Text.join Text.newline (ss.map sectionText) ++ behind)) = .ok (ofSections ss) := by
  obtain ⟨document, hdocument⟩ : ∃ t, t = before ++ (Text.join Text.newline (ss.map sectionText) ++ behind) := ⟨_, rfl⟩
  have hall (p : Text × Table) (hp : p ∈ ss) : IsBareName p.1 ∧ IsSection p.2 := ⟨hss.names p hp, hss.sections p hp⟩
  have hlength : (ss.flatMap sectionText).length ≤ document.length := by
    have hjoin := length_flatten_le_join Text.newline (ss.map sectionText)
    rw [hdocument, List.length_append, List.length_append, List.flatMap_def]
    omega
  obtain ⟨hmany, hmost⟩ := length_le_flatMap_sectionText ss
  have hskip : skipGaps false document = .ok (sectionsFrom behind ss) := by
    rw [hdocument, hbefore]
    cases ss with
    | nil => exact hbehind
    | cons p ss =>
      rw [List.map_cons, join_cons, List.append_assoc]
      exact skipGaps_sectionText p _
  have hpairs : pairs (growTop (2 * document.length + 8)) (2 * document.length + 8) [] document =
      .ok ([], sectionsFrom behind ss) :=
    pairs_of_isRest (2 * document.length + 7) hskip (isRest_sectionsFrom hall)
  have hsimple : Body.IsSimple ([] ++ Body.ofSections ss) := by
    rw [List.nil_append, Body.ofSections, Body.isSimple_ofPairs]
    exact hss.nodup
  have htables : topTables (2 * document.length + 8) [] (sectionsFrom behind ss) = .ok ([] ++ Body.ofSections ss) :=
    topTables_ofSections hbehind hall hsimple (by omega)
  have htable : Body.toTable (2 * (2 * document.length + 8)) ([] ++ Body.ofSections ss) = .ok (ofSections ss) :=
    Body.toTable_ofSections hss hmost (by omega)
  rw [← hdocument, parse]
  simp only [hpairs, htables, htable, bind, Except.bind]
  rfl

end

/-- What is written of a table of sections is read as the table again, without the keys that have no value. -/
theorem parse_render {t : Table} {ss : List (Text × Table)} (ht : presentPairs t = ofSections ss) (hss : AreSections ss)
    {before behind : Text} (hbefore : ∀ t, skipGaps false (before ++ t) = skipGaps false t)
    (hbehind : skipGaps false behind = .ok []) : parse (before ++ (render t ++ behind)) = .ok (presentPairs t) := by
  rw [← render_presentPairs, ht, render_ofSections hss]
  exact parse_ofSections hss hbefore hbehind

end Legible.Toml
