import QueryResults.Proofs.Sidecar.Description

/-!
# What a sidecar describes

A sidecar describes columns if it is a record whose fields for columns hold the records of these
columns, in order; what stands between them does not matter. It is read as the columns that it
describes. The points in which a sidecar can be faulty are listed as well, for the sidecar, for a
field of it and for an attribute; a sidecar that is not faulty describes some columns, and a faulty
one is refused as a whole.

## Main definitions

* `Sidecar.HoldsColumn`, `Sidecar.Describes`: the columns that a sidecar describes.
* `Sidecar.IsFaultyColumn`, `Sidecar.IsFaulty`: what is wrong with a sidecar.

## Main results

* `Sidecar.parse_eq_ok_iff`, `Sidecar.parse_isOk_iff`: what a sidecar is read as, and when.
* `Sidecar.parse_exact`: both, with the failure of a sidecar that is not read.
-/

namespace QueryResults.Sidecar

/-! ### Descriptions -/

/-- A field of a sidecar that holds a column's record. -/
def HoldsColumn (f : Record.Field) (c : Column) : Prop :=
  ∃ payload fields, f.value = .bytes payload ∧ Record.IsWritten fields payload ∧
    DescribesColumn fields c

/-- A sidecar describes columns: its fields for columns hold their records, in order. -/
def Describes (blob : List UInt8) (columns : List Column) : Prop :=
  ∃ fields, Record.IsWritten fields blob ∧
    List.Forall₂ HoldsColumn (fields.filter (·.number = columnNumber)) columns

/-- What can be wrong with a field for a column. -/
inductive IsFaultyColumn (f : Record.Field) : Prop
  | notBytes {n : UInt64} (hv : f.value = .integer n)
  | notRecord {payload : List UInt8} (hv : f.value = .bytes payload)
      (h : ∀ fields, ¬Record.IsWritten fields payload)
  | malformed {payload : List UInt8} {fields : List Record.Field} {g : Record.Field}
      (hv : f.value = .bytes payload) (hw : Record.IsWritten fields payload) (hg : g ∈ fields)
      (h : IsMalformed g)

/-- What can be wrong with a sidecar. -/
inductive IsFaulty (blob : List UInt8) : Prop
  | notRecord (h : ∀ fields, ¬Record.IsWritten fields blob)
  | column {fields : List Record.Field} {f : Record.Field} (hw : Record.IsWritten fields blob)
      (hf : f ∈ fields) (hnumber : f.number = columnNumber) (h : IsFaultyColumn f)

/-! ### Fields for columns -/

/-- The column in a field for a column. -/
def columnOf (f : Record.Field) : Except Fault Column := do
  parseColumn (← f.nested.mapError .record)

theorem nested_eq_ok_iff {f : Record.Field} {fields : List Record.Field} :
    f.nested = .ok fields ↔
      ∃ payload, f.value = .bytes payload ∧ Record.IsWritten fields payload := by
  rw [Record.Field.nested, bind_eq_ok_iff]
  refine exists_congr fun payload => ?_
  rw [Record.decode_eq_ok_iff, Record.Field.asBytes]
  cases f.value <;> simp

theorem columnOf_eq_ok_iff {f : Record.Field} {c : Column} :
    columnOf f = .ok c ↔ HoldsColumn f c := by
  rw [columnOf, bind_eq_ok_iff]
  constructor
  · rintro ⟨fields, hfields, hc⟩
    obtain ⟨payload, hv, hw⟩ := nested_eq_ok_iff.1 (mapError_eq_ok_iff.1 hfields)
    exact ⟨payload, fields, hv, hw, parseColumn_eq_ok_iff.1 hc⟩
  · rintro ⟨payload, fields, hv, hw, hc⟩
    exact ⟨fields, mapError_eq_ok_iff.2 (nested_eq_ok_iff.2 ⟨payload, hv, hw⟩),
      parseColumn_eq_ok_iff.2 hc⟩

/-- A field for a column is read if and only if nothing is wrong with it. -/
theorem columnOf_isOk_iff (f : Record.Field) : (∃ c, columnOf f = .ok c) ↔ ¬IsFaultyColumn f := by
  constructor
  · rintro ⟨c, hc⟩
    obtain ⟨payload, fields, hv, hw, hc⟩ := columnOf_eq_ok_iff.1 hc
    rintro (⟨hv'⟩ | ⟨hv', hno⟩ | ⟨hv', hw', hg, hmal⟩) <;> cases hv.symm.trans hv'
    · exact hno _ hw
    · obtain rfl := hw.unique hw'
      exact hc.wellFormed _ hg hmal
  · intro h
    cases hv : f.value with
    | integer n => exact absurd (.notBytes hv) h
    | bytes payload =>
      obtain ⟨fields, hw⟩ : ∃ fields, Record.IsWritten fields payload := by
        by_contra hno
        exact h (.notRecord hv (not_exists.1 hno))
      obtain ⟨d, hd⟩ := (Draft.foldlM_isOk_iff fields {}).2 fun g hg hmal =>
        h (.malformed hv hw hg hmal)
      exact ⟨_, columnOf_eq_ok_iff.2 ⟨payload, fields, hv, hw, Draft.describesColumn_finish hd⟩⟩

/-! ### Sidecars -/

theorem mapM_eq_ok_iff {ε α β : Type} {g : α → Except ε β} {l : List α} {r : List β} :
    l.mapM g = .ok r ↔ List.Forall₂ (fun a b => g a = .ok b) l r := by
  induction l generalizing r with
  | nil =>
    rw [List.mapM_nil, List.forall₂_nil_left_iff]
    exact ⟨fun h => (Except.ok.inj h).symm, fun h => congrArg Except.ok h.symm⟩
  | cons a l ih =>
    rw [List.mapM_cons, bind_eq_ok_iff]
    constructor
    · rintro ⟨b, hb, hrest⟩
      obtain ⟨r', hr', hr⟩ := bind_eq_ok_iff.1 hrest
      cases hr
      exact .cons hb (ih.1 hr')
    · rintro (_ | ⟨hb, hrest⟩)
      exact ⟨_, hb, bind_eq_ok_iff.2 ⟨_, ih.2 hrest, rfl⟩⟩

theorem mapM_isOk_iff {ε α β : Type} {g : α → Except ε β} {l : List α} :
    (∃ r, l.mapM g = .ok r) ↔ ∀ a ∈ l, ∃ b, g a = .ok b := by
  induction l with
  | nil => exact ⟨fun _ => nofun, fun _ => ⟨[], rfl⟩⟩
  | cons a l ih =>
    rw [List.forall_mem_cons, ← ih]
    simp only [mapM_eq_ok_iff]
    constructor
    · rintro ⟨_, _ | ⟨hb, hrest⟩⟩
      exact ⟨⟨_, hb⟩, _, hrest⟩
    · rintro ⟨⟨b, hb⟩, r, hrest⟩
      exact ⟨b :: r, .cons hb hrest⟩

theorem parse_eq_ok_iff_mapM {blob : List UInt8} {columns : List Column} :
    parse blob = .ok columns ↔ ∃ fields, Record.IsWritten fields blob ∧
      (fields.filter (·.number = columnNumber)).mapM columnOf = .ok columns := by
  rw [parse, bind_eq_ok_iff]
  refine exists_congr fun fields => ?_
  rw [mapError_eq_ok_iff, Record.decode_eq_ok_iff]
  exact Iff.rfl

/-- A sidecar is read as columns if and only if it describes them. -/
theorem parse_eq_ok_iff {blob : List UInt8} {columns : List Column} :
    parse blob = .ok columns ↔ Describes blob columns := by
  have hcolumn : (fun f c => columnOf f = .ok c) = HoldsColumn := by
    funext f c
    exact propext columnOf_eq_ok_iff
  rw [parse_eq_ok_iff_mapM]
  refine exists_congr fun fields => and_congr_right fun _ => ?_
  rw [mapM_eq_ok_iff, hcolumn]

/-- A sidecar is read if and only if nothing is wrong with it. -/
theorem parse_isOk_iff (blob : List UInt8) :
    (∃ columns, parse blob = .ok columns) ↔ ¬IsFaulty blob := by
  simp only [parse_eq_ok_iff_mapM]
  constructor
  · rintro ⟨columns, fields, hw, h⟩
    have hcolumns := mapM_isOk_iff.1 ⟨columns, h⟩
    rintro (hno | ⟨hw', hf, hnumber, hfaulty⟩)
    · exact hno fields hw
    · obtain rfl := hw.unique hw'
      have hread := hcolumns _ (List.mem_filter.2 ⟨hf, decide_eq_true hnumber⟩)
      exact (columnOf_isOk_iff _).1 hread hfaulty
  · intro h
    obtain ⟨fields, hw⟩ : ∃ fields, Record.IsWritten fields blob := by
      by_contra hno
      exact h (.notRecord (not_exists.1 hno))
    obtain ⟨columns, hcolumns⟩ := mapM_isOk_iff (g := columnOf)
      (l := fields.filter (·.number = columnNumber)) |>.2 fun f hf => by
        obtain ⟨hmem, hnumber⟩ := List.mem_filter.1 hf
        exact (columnOf_isOk_iff f).2 fun hfaulty =>
          h (.column hw hmem (of_decide_eq_true hnumber) hfaulty)
    exact ⟨columns, fields, hw, hcolumns⟩

/-- A sidecar is read as columns if and only if it describes them, whatever the order of the
attributes, their repetitions and the fields beside them, and it is refused with a data failure if
and only if something is wrong with it. -/
theorem parse_exact (blob : List UInt8) :
    (∀ columns, parse blob = .ok columns ↔ Describes blob columns) ∧
      ((∃ e, parse blob = .error e ∧ e.toFailure.kind = .data) ↔ IsFaulty blob) := by
  refine ⟨fun columns => parse_eq_ok_iff, ?_⟩
  rw [← not_not (a := IsFaulty blob), ← parse_isOk_iff]
  cases parse blob with
  | error e => exact ⟨fun _ => nofun, fun _ => ⟨e, rfl, rfl⟩⟩
  | ok columns => exact ⟨nofun, fun h => absurd ⟨columns, rfl⟩ h⟩

/-- Out of order, repeated, unknown and left out fields; and a name that is no text. -/
theorem parse_exact_shuffled :
    Describes
        [0x10, 0x05, 0x0a, 0x0f, 0x22, 0x01, 0x61, 0x48, 0x02, 0xd0, 0x02, 0x07, 0x22, 0x01, 0x62,
          0x48, 0x01, 0x38, 0x0a, 0x3a, 0x00, 0x0a, 0x00]
        [{ name := "b", label := "b", precision := 10, nullability := .notNull }, {}] ∧
      IsFaulty [0x0a, 0x02, 0x48, 0x02, 0x0a, 0x03, 0x22, 0x01, 0xff] :=
  ⟨((parse_exact _).1 _).1 (by cbv),
    (parse_exact _).2.1 ⟨.record (.notUtf8 4 { index := 0, length := some 1 }), by cbv, rfl⟩⟩

end QueryResults.Sidecar
