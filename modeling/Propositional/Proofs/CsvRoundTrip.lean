import Propositional.Output.CsvReader

/-!
# What is written as records is read back

* `readFrom_field` — a written field is read as that field, whatever ends it;
* `decode_encode` — records that are not empty are read back from their text.
-/

namespace Propositional.Csv

/-- Can a comma or a line feed at this place end the field? -/
def Place.EndsField : Place → Prop
  | start | bare | closing => True
  | quoted | returned => False

/-- Characters that are not special are read into a bare field. -/
theorem readFrom_bare {field rest : List Char} {fields : List (List Char)} {place : Place}
    (hplace : place = .start ∨ place = .bare) (chars : List Char)
    (hchars : ∀ c ∈ chars, isSpecial c = false) (hne : chars ≠ []) :
    readFrom place field fields (chars ++ rest) =
      readFrom .bare (field ++ chars) fields rest := by
  induction chars generalizing place field with
  | nil => exact absurd rfl hne
  | cons c more ih =>
    have hc := hchars c (by simp)
    simp only [isSpecial, Bool.or_eq_false_iff, beq_eq_false_iff_ne, ne_eq] at hc
    have hstep : readFrom place field fields (c :: (more ++ rest)) =
        readFrom .bare (field ++ [c]) fields (more ++ rest) := by
      rcases hplace with rfl | rfl <;> simp [readFrom, hc]
    rw [List.cons_append, hstep]
    cases more with
    | nil => rfl
    | cons d more =>
      rw [ih (Or.inr rfl) (fun e he => hchars e (by simp [he])) (by simp)]
      simp

/-- The characters of a quoted field are read as they were before their quotes were doubled. -/
theorem readFrom_quoted {field rest : List Char} {fields : List (List Char)} (chars : List Char) :
    readFrom .quoted field fields (chars.flatMap quoteChar ++ rest) =
      readFrom .quoted (field ++ chars) fields rest := by
  induction chars generalizing field with
  | nil => simp
  | cons c more ih =>
    by_cases hc : c = '"'
    · subst hc
      have hstep : readFrom .quoted field fields ('"' :: '"' :: (more.flatMap quoteChar ++ rest)) =
          readFrom .quoted (field ++ ['"']) fields (more.flatMap quoteChar ++ rest) := by
        simp [readFrom]
      show readFrom .quoted field fields ('"' :: '"' :: (more.flatMap quoteChar ++ rest)) = _
      rw [hstep, ih]
      simp
    · have hquote : quoteChar c = [c] := if_neg hc
      rw [List.flatMap_cons, hquote]
      have hstep : readFrom .quoted field fields (c :: (more.flatMap quoteChar ++ rest)) =
          readFrom .quoted (field ++ [c]) fields (more.flatMap quoteChar ++ rest) := by
        simp [readFrom, hc]
      show readFrom .quoted field fields (c :: (more.flatMap quoteChar ++ rest)) = _
      rw [hstep, ih]
      simp

/-- A written field is read as that field, whatever stands behind it. -/
theorem readFrom_field (field rest : List Char) (fields : List (List Char)) :
    ∃ place, place.EndsField ∧
      readFrom .start [] fields (fieldChars field ++ rest) = readFrom place field fields rest := by
  by_cases hspecial : field.any isSpecial = true
  · refine ⟨.closing, trivial, ?_⟩
    rw [fieldChars, if_pos hspecial]
    have hopen : readFrom .start [] fields ('"' :: (field.flatMap quoteChar ++ '"' :: rest)) =
        readFrom .quoted [] fields (field.flatMap quoteChar ++ '"' :: rest) := by
      simp [readFrom]
    have hclose : readFrom .quoted field fields ('"' :: rest) =
        readFrom .closing field fields rest := by
      simp [readFrom]
    rw [show '"' :: field.flatMap quoteChar ++ ['"'] ++ rest =
      '"' :: (field.flatMap quoteChar ++ '"' :: rest) by simp, hopen, readFrom_quoted,
      List.nil_append, hclose]
  · rw [fieldChars, if_neg hspecial]
    cases field with
    | nil => exact ⟨.start, trivial, rfl⟩
    | cons c more =>
      refine ⟨.bare, trivial, ?_⟩
      have hplain : ∀ d ∈ c :: more, isSpecial d = false := by
        intro d hd
        cases h : isSpecial d with
        | false => rfl
        | true => exact absurd (List.any_eq_true.mpr ⟨d, hd, h⟩) hspecial
      rw [readFrom_bare (Or.inl rfl) _ hplain (by simp), List.nil_append]

theorem readFrom_comma {place : Place} (hplace : place.EndsField) (field rest : List Char)
    (fields : List (List Char)) :
    readFrom place field fields (',' :: rest) = readFrom .start [] (fields ++ [field]) rest := by
  cases place with
  | start => rfl
  | bare => rfl
  | quoted => exact absurd hplace not_false
  | closing => rfl
  | returned => exact absurd hplace not_false

theorem readFrom_lineEnd {place : Place} (hplace : place.EndsField) (field rest : List Char)
    (fields : List (List Char)) :
    readFrom place field fields ('\n' :: rest) =
      (read rest).map ((fields ++ [field]) :: ·) := by
  cases place with
  | start => rfl
  | bare => rfl
  | quoted => exact absurd hplace not_false
  | closing => rfl
  | returned => exact absurd hplace not_false

/-- A written record is read as its fields. -/
theorem readFrom_record (fields before : List (List Char)) (rest : List Char)
    (hne : fields ≠ []) :
    readFrom .start [] before (fieldsChars fields ++ '\n' :: rest) =
      (read rest).map ((before ++ fields) :: ·) := by
  induction fields generalizing before with
  | nil => exact absurd rfl hne
  | cons field more ih =>
    cases more with
    | nil =>
      obtain ⟨place, hplace, hread⟩ := readFrom_field field ('\n' :: rest) before
      rw [fieldsChars, hread, readFrom_lineEnd hplace]
    | cons next more =>
      obtain ⟨place, hplace, hread⟩ :=
        readFrom_field field (',' :: (fieldsChars (next :: more) ++ '\n' :: rest)) before
      rw [fieldsChars, List.append_assoc, List.cons_append, hread, readFrom_comma hplace,
        ih (before ++ [field]) (by simp)]
      simp

/-- Records that are not empty are read back from their text. -/
theorem read_records (records : List (List (List Char))) (h : ∀ fields ∈ records, fields ≠ []) :
    read (records.flatMap fun fields => fieldsChars fields ++ ['\n']) = some records := by
  induction records with
  | nil => rfl
  | cons fields more ih =>
    have hmore := ih fun other hother => h other (by simp [hother])
    have hfields := h fields (by simp)
    rw [List.flatMap_cons, List.append_assoc, List.singleton_append]
    show readFrom .start [] [] (fieldsChars fields ++ '\n' :: _) = _
    rw [readFrom_record fields [] _ hfields, hmore]
    rfl

theorem toList_encode (records : List (List String)) :
    (encode records).toList = (records.map fun fields => fields.map String.toList).flatMap
      fun fields => fieldsChars fields ++ ['\n'] := by
  induction records with
  | nil => rfl
  | cons fields more ih =>
    have hjoin : encode (fields :: more) = record fields ++ encode more := by
      simp [encode, String.join_cons]
    rw [hjoin, String.toList_append, ih, record, String.toList_ofList]
    rfl

/-- Records that are not empty are read back from their text. -/
theorem decode_encode (records : List (List String)) (h : ∀ fields ∈ records, fields ≠ []) :
    decode? (encode records) = some records := by
  have hne : ∀ fields ∈ records.map fun fields => fields.map String.toList, fields ≠ [] := by
    intro fields hfields
    obtain ⟨texts, htexts, rfl⟩ := List.mem_map.mp hfields
    exact fun hnil => h texts htexts (List.map_eq_nil_iff.mp hnil)
  rw [decode?, toList_encode, read_records _ hne]
  simp [Function.comp_def, List.map_map, String.ofList_toList]

end Propositional.Csv
