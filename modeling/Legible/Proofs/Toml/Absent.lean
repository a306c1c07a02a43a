import Legible.Toml.Writer
/-!
# Keys without a value

A table that a program makes may have keys without a value. What is written of it is what is written of the table
without them (`Toml.render_presentPairs`).
-/

namespace Legible.Toml

mutual

/-- A value without what is absent in it. -/
def present : Toml → Toml
  | arr items => .arr (presentItems items)
  | table pairs => .table (presentPairs pairs)
  | v => v

/-- The items that are there. -/
def presentItems : List Toml → List Toml
  | [] => []
  | v :: r => if isAbsent v then presentItems r else present v :: presentItems r

/-- The pairs whose keys have a value. -/
def presentPairs : List (Text × Toml) → List (Text × Toml)
  | [] => []
  | (k, v) :: r => if isAbsent v then presentPairs r else (k, present v) :: presentPairs r

end

@[simp] theorem isAbsent_present (v : Toml) : isAbsent (present v) = isAbsent v := by
  cases v <;> simp [present, isAbsent]

@[simp] theorem isTable_present (v : Toml) : isTable (present v) = isTable v := by
  cases v <;> simp [present, isTable]

@[simp] theorem isPlain_present (v : Toml) : isPlain (present v) = isPlain v := by
  simp [isPlain]

theorem eq_absent_of_isAbsent {v : Toml} (hv : isAbsent v = true) : v = .absent := by
  cases v <;> first | rfl | cases hv

theorem any_isTable_presentItems (items : List Toml) : (presentItems items).any isTable = items.any isTable := by
  induction items with
  | nil => rfl
  | cons v r ih =>
    rw [presentItems, List.any_cons, ← ih]
    split
    · rename_i habsent
      rw [eq_absent_of_isAbsent habsent]
      rfl
    · rw [List.any_cons, isTable_present]

theorem filter_presentItems (items : List Toml) :
    (presentItems items).filter (fun v => !isAbsent v) = (items.filter fun v => !isAbsent v).map present := by
  induction items with
  | nil => rfl
  | cons v r ih =>
    rw [presentItems]
    split
    · rename_i habsent
      rw [ih, List.filter_cons_of_neg (by rw [habsent]; decide)]
    · rename_i hset
      have hv : (!isAbsent v) = true := by rw [Bool.eq_false_iff.mpr hset]; rfl
      rw [List.filter_cons_of_pos (by rwa [isAbsent_present]), List.filter_cons_of_pos (by exact hv), ih, List.map_cons]

@[simp] theorem isTableArray_present (v : Toml) : isTableArray (present v) = isTableArray v := by
  cases v with
  | arr items =>
    have hall : ((presentItems items).filter fun v => !isAbsent v).all isTable =
        (items.filter fun v => !isAbsent v).all isTable := by
      rw [filter_presentItems, List.all_map]
      exact congrArg (List.all _) (funext isTable_present)
    -- An array with a table in it is not empty.
    have hany (vs : List Toml) : (!vs.isEmpty && vs.any isTable) = vs.any isTable := by cases vs <;> rfl
    have hordered (vs : List Toml) : isTableArray (.arr vs) =
        ((!vs.isEmpty && vs.any isTable) && (vs.filter fun v => !isAbsent v).all isTable) := by
      rw [isTableArray, Bool.and_assoc, Bool.and_comm (List.all _ _), Bool.and_assoc]
    rw [present, hordered, hordered, hany, hany, hall, any_isTable_presentItems]
  | _ => rfl

/-! ## What is written -/

mutual

theorem inlineText_present (item : Bool) : (v : Toml) → inlineText item (present v) = inlineText item v
  | arr items => by rw [present, inlineText, inlineText, itemTexts_presentItems items]
  | table pairs => by
    rw [present, inlineText, inlineText, pairTexts_presentPairs false pairs, pairTexts_presentPairs true pairs]
  | absent | str _ | int _ | float _ | bool _ | date _ | time _ | moment .. => rfl

theorem itemTexts_presentItems : (items : List Toml) → itemTexts (presentItems items) = itemTexts items
  | [] => rfl
  | v :: r => by
    rw [presentItems, itemTexts]
    split
    · exact itemTexts_presentItems r
    · rw [itemTexts, isAbsent_present, inlineText_present true v, itemTexts_presentItems r]
      simp [*]

theorem pairTexts_presentPairs (tables : Bool) : (pairs : List (Text × Toml)) →
    pairTexts tables (presentPairs pairs) = pairTexts tables pairs
  | [] => rfl
  | (k, v) :: r => by
    rw [presentPairs, pairTexts]
    split
    · rename_i habsent
      rw [pairTexts_presentPairs tables r, habsent, Bool.true_or, if_pos rfl]
    · rw [pairTexts, isAbsent_present, isTable_present, inlineText_present false v, pairTexts_presentPairs tables r]

end

/-- The pairs that are there are seen alike by whatever looks at values only. -/
theorem filter_presentPairs {p : Toml → Bool} (hp : ∀ v, p (present v) = p v)
    (habsent : ∀ v, isAbsent v = true → p v = false) (pairs : Table) : (presentPairs pairs).filter (fun q => p q.2) =
      (pairs.filter fun q => p q.2).map fun q => (q.1, present q.2) := by
  induction pairs with
  | nil => rfl
  | cons q r ih =>
    obtain ⟨k, v⟩ := q
    rw [presentPairs]
    split
    · rename_i hv
      rw [ih, List.filter_cons_of_neg (by rw [habsent v hv]; decide)]
    · cases hv : p v with
      | true =>
        rw [List.filter_cons_of_pos (by rwa [hp]), List.filter_cons_of_pos (by exact hv), ih, List.map_cons]
      | false =>
        rw [List.filter_cons_of_neg (by rw [hp, hv]; decide), List.filter_cons_of_neg (by rw [hv]; decide), ih]

theorem plainText_presentPairs (pairs : Table) : plainText (presentPairs pairs) = plainText pairs := by
  have hfilter := filter_presentPairs (p := fun v => !isAbsent v && !isTable v && !isTableArray v) (by simp)
    (by simp +contextual) pairs
  rw [plainText, plainText, hfilter, List.flatMap_map]
  simp only [inlineText_present]

theorem holdsTablesOnly_presentPairs (pairs : Table) :
    holdsTablesOnly (presentPairs pairs) = holdsTablesOnly pairs := by
  have hfilter := filter_presentPairs (p := fun v => !isAbsent v) (by simp) (by simp +contextual) pairs
  rw [holdsTablesOnly, holdsTablesOnly, hfilter]
  simp [Function.comp_def]

/-- A look at the values that none of the absent ones passes is the same without these. -/
theorem any_presentPairs {p : Toml → Bool} (hp : ∀ v, p (present v) = p v) (habsent : p .absent = false)
    (pairs : Table) : (presentPairs pairs).any (fun q => p q.2) = pairs.any fun q => p q.2 := by
  induction pairs with
  | nil => rfl
  | cons q r ih =>
    obtain ⟨k, v⟩ := q
    rw [presentPairs, List.any_cons]
    split
    · rename_i hv
      rw [eq_absent_of_isAbsent hv, habsent, Bool.false_or, ih]
    · rw [List.any_cons, hp, ih]

theorem holdsPlain_presentPairs (pairs : Table) : holdsPlain (presentPairs pairs) = holdsPlain pairs :=
  any_presentPairs isPlain_present rfl pairs

mutual

theorem valueBlock_present (name : Text) (apart : Bool) :
    (v : Toml) → valueBlock name apart (present v) = valueBlock name apart v
  | table pairs => by
    rw [present, valueBlock, valueBlock, holdsTablesOnly_presentPairs, plainText_presentPairs,
      holdsPlain_presentPairs, arrayBlocks_presentPairs _ _ pairs, tableBlocks_presentPairs _ _ pairs]
  | arr items => by rw [present, valueBlock, valueBlock, elementBlocks_presentItems name apart items]
  | absent | str _ | int _ | float _ | bool _ | date _ | time _ | moment .. => rfl

theorem arrayBlocks_presentPairs (above : Text) (begun : Bool) : (pairs : List (Text × Toml)) →
    arrayBlocks above begun (presentPairs pairs) = arrayBlocks above begun pairs
  | [] => rfl
  | (k, v) :: r => by
    rw [presentPairs]
    split
    · rename_i hv
      rw [arrayBlocks_presentPairs above begun r, arrayBlocks, eq_absent_of_isAbsent hv]
      simp [isTableArray, isPlain, isAbsent]
    · rw [arrayBlocks, arrayBlocks, isTableArray_present, isPlain_present, valueBlock_present _ _ v,
        arrayBlocks_presentPairs _ _ r]

theorem tableBlocks_presentPairs (above : Text) (begun : Bool) : (pairs : List (Text × Toml)) →
    tableBlocks above begun (presentPairs pairs) = tableBlocks above begun pairs
  | [] => rfl
  | (k, v) :: r => by
    rw [presentPairs]
    split
    · rename_i hv
      rw [tableBlocks_presentPairs above begun r, tableBlocks, eq_absent_of_isAbsent hv]
      simp [isTable]
    · rw [tableBlocks, tableBlocks, isTable_present, valueBlock_present _ _ v, tableBlocks_presentPairs _ _ r]

theorem elementBlocks_presentItems (name : Text) (apart : Bool) : (items : List Toml) →
    elementBlocks name apart (presentItems items) = elementBlocks name apart items
  | [] => rfl
  | table pairs :: r => by
    have hany := any_presentPairs (p := fun v => !isAbsent v) (by simp) rfl pairs
    rw [presentItems, if_neg (by simp [isAbsent]), present, elementBlocks, elementBlocks, plainText_presentPairs,
      holdsPlain_presentPairs, arrayBlocks_presentPairs _ _ pairs, tableBlocks_presentPairs _ _ pairs,
      elementBlocks_presentItems name _ r, hany]
  | absent :: r => elementBlocks_presentItems name apart r
  | arr _ :: r | str _ :: r | int _ :: r | float _ :: r | bool _ :: r | date _ :: r | time _ :: r
  | moment .. :: r => elementBlocks_presentItems name apart r

end

/-- A document is written without the keys that have no value. -/
theorem render_presentPairs (pairs : Table) : render (presentPairs pairs) = render pairs := by
  rw [render, render, plainText_presentPairs, arrayBlocks_presentPairs, tableBlocks_presentPairs,
    holdsPlain_presentPairs]

end Legible.Toml
