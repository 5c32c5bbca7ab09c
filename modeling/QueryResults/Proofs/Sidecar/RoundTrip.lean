import QueryResults.Proofs.Record.RoundTrip
import QueryResults.Proofs.Text.Utf8
import QueryResults.Service.Message
import QueryResults.Sidecar

/-!
# Sidecars of described columns

The query service describes the columns of a result in its answers; beside the result file they are
described by a sidecar. The sidecar leaves out what the description leaves open: the catalog, the
label, and whether the column may hold NULL. Read back, it gives the same columns as the description
does, the label that is missing replaced by the name in both.

## Main definitions

* `Sidecar.infoFields`, `Sidecar.encodeInfos`: the sidecar of described columns.

## Main results

* `Sidecar.parseColumn_infoFields`, `Sidecar.parse_encodeInfos`.
-/

namespace QueryResults.Sidecar

open Message (ColumnInfo)

/-! ### Writing -/

/-- The code of a word for nullability. -/
def wordCode (word : String) : Nat :=
  if word = "NOT_NULL" then Nullability.notNull.code
  else if word = "NULLABLE" then Nullability.nullable.code
  else Nullability.unknown.code

/-- The attributes of a described column, one field each; none for what is left open. -/
def infoFields (c : ColumnInfo) : List Record.Field :=
  (c.catalog.map (textField .catalog)).toList ++ [textField .name c.name] ++
    (c.label.map (textField .label)).toList ++
    [textField .type c.type, integerField .precision c.precision.toNat,
      integerField .scale c.scale.toNat] ++
    (c.nullable.map fun word => integerField .nullability (wordCode word)).toList ++
    [integerField .caseSensitive (if c.caseSensitive then 1 else 0)]

/-- The field that describes a column. -/
def infoField (c : ColumnInfo) : Record.Field :=
  { number := columnNumber, value := .bytes (Record.encode (infoFields c)) }

/-- The sidecar of described columns. -/
def encodeInfos (infos : List ColumnInfo) : List UInt8 := Record.encode (infos.map infoField)

/-- A described column whose precision and scale a sidecar can hold. -/
structure IsWritable (c : ColumnInfo) : Prop where
  precision : 0 ≤ c.precision ∧ c.precision < 2 ^ 63
  scale : 0 ≤ c.scale ∧ c.scale < 2 ^ 63

instance (c : ColumnInfo) : Decidable (IsWritable c) :=
  decidable_of_iff
    ((0 ≤ c.precision ∧ c.precision < 2 ^ 63) ∧ 0 ≤ c.scale ∧ c.scale < 2 ^ 63)
    ⟨fun h => ⟨h.1, h.2⟩, fun h => ⟨h.precision, h.scale⟩⟩

/-! ### Reading attributes back -/

theorem textOf_textField (which : Attribute) (text : String) :
    textOf (textField which text) = .ok text := by
  have htext : (textField which text).asText = .ok text := by
    simp [textField, Record.Field.asText, Record.Field.asBytes, bind, Except.bind,
      Utf8.decode_encode]
  rw [textOf, htext]
  rfl

theorem integerOf_integerField (which : Attribute) (n : Nat) :
    integerOf (integerField which n) = .ok (.ofNat n) := rfl

theorem signedOf_integerField (which : Attribute) {n : Int} (h : 0 ≤ n ∧ n < 2 ^ 63) :
    signedOf which (integerField which n.toNat) = .ok n := by
  have hlt : n.toNat < UInt64.size := by
    simp only [UInt64.size]
    omega
  have hsize : n.toNat < UInt64.size / 2 := by
    simp only [UInt64.size]
    omega
  have hn : (n.toNat : Int) = n := Int.toNat_of_nonneg h.1
  simp [signedOf, integerOf_integerField, bind, Except.bind, Nat.mod_eq_of_lt hlt, hsize, hn]

/-- A word for nullability and its code mean the same. -/
theorem ofCode_wordCode (word : String) :
    Nullability.ofCode (wordCode word) =
      if some word = some "NOT_NULL" then .notNull
      else if some word = some "NULLABLE" then .nullable
      else .unknown := by
  simp only [Option.some.injEq]
  unfold wordCode
  split
  · rfl
  · split <;> rfl

theorem wordCode_lt (word : String) : wordCode word < UInt64.size := by
  unfold wordCode
  split
  · decide
  · split <;> decide

/-! ### Setting attributes -/

theorem ofNumber?_textField (which : Attribute) (text : String) :
    Attribute.ofNumber? (textField which text).number = some which := by
  cases which <;> rfl

theorem ofNumber?_integerField (which : Attribute) (n : Nat) :
    Attribute.ofNumber? (integerField which n).number = some which := by
  cases which <;> rfl

variable (d : Draft)

theorem set_catalog (text : String) :
    d.set (textField .catalog text) =
      .ok { d with column := { d.column with catalog := some text } } := by
  simp only [Draft.set, ofNumber?_textField, textOf_textField]
  rfl

theorem set_name (text : String) :
    d.set (textField .name text) = .ok { d with column := { d.column with name := text } } := by
  simp only [Draft.set, ofNumber?_textField, textOf_textField]
  rfl

theorem set_label (text : String) :
    d.set (textField .label text) = .ok { d with label := some text } := by
  simp only [Draft.set, ofNumber?_textField, textOf_textField]
  rfl

theorem set_type (text : String) :
    d.set (textField .type text) = .ok { d with column := { d.column with type := text } } := by
  simp only [Draft.set, ofNumber?_textField, textOf_textField]
  rfl

theorem set_precision {n : Int} (h : 0 ≤ n ∧ n < 2 ^ 63) :
    d.set (integerField .precision n.toNat) =
      .ok { d with column := { d.column with precision := n } } := by
  simp only [Draft.set, ofNumber?_integerField, signedOf_integerField _ h]
  rfl

theorem set_scale {n : Int} (h : 0 ≤ n ∧ n < 2 ^ 63) :
    d.set (integerField .scale n.toNat) =
      .ok { d with column := { d.column with scale := n } } := by
  simp only [Draft.set, ofNumber?_integerField, signedOf_integerField _ h]
  rfl

theorem set_nullability (word : String) :
    d.set (integerField .nullability (wordCode word)) =
      .ok { d with column := { d.column with nullability := .ofCode (wordCode word) } } := by
  simp only [Draft.set, ofNumber?_integerField, integerOf_integerField, bind, Except.bind,
    UInt64.toNat_ofNat', Nat.mod_eq_of_lt (wordCode_lt word)]

theorem set_caseSensitive (b : Bool) :
    d.set (integerField .caseSensitive (if b then 1 else 0)) =
      .ok { d with column := { d.column with caseSensitive := b } } := by
  cases b <;> rfl

/-! ### Columns -/

/-- The attributes written for a described column are read back as that column. -/
theorem parseColumn_infoFields {c : ColumnInfo} (h : IsWritable c) :
    parseColumn (infoFields c) = .ok c.toColumn := by
  obtain ⟨catalog, name, label, type, precision, scale, nullable, caseSensitive⟩ := c
  have hp := h.precision
  have hs := h.scale
  simp only at hp hs
  have hset (catalog label nullable : Option String) :
      (infoFields ⟨catalog, name, label, type, precision, scale, nullable, caseSensitive⟩).foldlM
          Draft.set {} =
        .ok
          { column :=
              { catalog, name, type, precision, scale, caseSensitive
                nullability := nullable.elim .unknown fun word => .ofCode (wordCode word) }
            label } := by
    cases catalog <;> cases label <;> cases nullable <;>
      simp [infoFields, bind, Except.bind, set_catalog, set_name, set_label, set_type,
        set_precision _ hp, set_scale _ hs, set_nullability, set_caseSensitive, pure, Except.pure]
  have hnull : nullable.elim .unknown (fun word => .ofCode (wordCode word)) =
      if nullable = some "NOT_NULL" then .notNull
      else if nullable = some "NULLABLE" then .nullable
      else Nullability.unknown := by
    cases nullable with
    | none => rfl
    | some word => exact ofCode_wordCode word
  rw [parseColumn, hset catalog label nullable]
  simp only [bind, Except.bind, Draft.finish, ColumnInfo.toColumn, hnull]

/-- The sidecar written for described columns is read back as these columns. -/
theorem parse_encodeInfos {infos : List ColumnInfo} (h : ∀ c ∈ infos, IsWritable c)
    (hsize : (encodeInfos infos).length < UInt64.size) :
    parse (encodeInfos infos) = .ok (infos.map ColumnInfo.toColumn) := by
  have hfields : Record.decode (encodeInfos infos) = .ok (infos.map infoField) :=
    Record.decode_encode fun f hf => Record.isShort_of_length hsize hf
  have hfilter : (infos.map infoField).filter (·.number = columnNumber) = infos.map infoField := by
    rw [List.filter_eq_self]
    intro f hf
    obtain ⟨c, -, rfl⟩ := List.mem_map.1 hf
    rfl
  have hcolumn (c : ColumnInfo) (hc : c ∈ infos) :
      (infoField c).nested = .ok (infoFields c) := by
    have hle := Record.length_payload_le (List.mem_map_of_mem hc) (f := infoField c) rfl
    exact Record.decode_encode fun f hf =>
      Record.isShort_of_length (Nat.lt_of_le_of_lt hle hsize) hf
  have hmap (l : List ColumnInfo) (hl : ∀ c ∈ l, c ∈ infos) :
      ((l.map infoField).mapM fun f => do parseColumn (← f.nested.mapError Fault.record)) =
        .ok (l.map ColumnInfo.toColumn) := by
    induction l with
    | nil => rfl
    | cons c l ih =>
      have hc := hl c List.mem_cons_self
      rw [List.map_cons, List.mapM_cons, ih fun c' hc' => hl c' (List.mem_cons_of_mem _ hc'),
        hcolumn c hc]
      simp [bind, Except.bind, Except.mapError, parseColumn_infoFields (h c hc), pure, Except.pure]
  rw [parse, hfields]
  simp only [Except.mapError, bind, Except.bind, hfilter]
  exact hmap infos fun c hc => hc

end QueryResults.Sidecar
