import QueryResults.Proofs.Record.Written
import QueryResults.Proofs.Sidecar.RoundTrip

/-!
# Columns described by records

A column's record may hold its attributes in any order, repeat them, leave them out, and hold fields
of other numbers beside them. It describes a column if every attribute it holds is well formed, the
last field of an attribute says what the column has of it, and the column has the default of every
attribute that is left out. The default label is the name, wherever the name stands.

A record is read as the column that it describes, and only if it describes one. The argument follows
the fields: what a draft has of an attribute is what the last field of this attribute has said, and
a field changes nothing in the other attributes.

## Main definitions

* `Sidecar.Says`, `Sidecar.IsDefault`: what a field says of a column, and what no field need say.
* `Sidecar.IsMalformed`: the fields that cannot be read.
* `Sidecar.DescribesColumn`: the column that fields describe.

## Main results

* `Draft.has_of_set`, `Draft.has_of_foldlM`: what one field and all fields do to a draft.
* `Draft.set_isOk_iff`, `Draft.foldlM_isOk_iff`: when fields are read.
* `Sidecar.parseColumn_eq_ok_iff`: what a column's record is read as.
-/

namespace QueryResults.Sidecar

open Record (Value)

/-! ### Attributes -/

/-- Whether an attribute is a text. -/
def Attribute.isText : Attribute → Bool
  | catalog | name | label | type => true
  | precision | scale | nullability | caseSensitive => false

/-- The text that a column has of an attribute. -/
def textIn (c : Column) : Attribute → Option String
  | .catalog => c.catalog
  | .name => some c.name
  | .label => some c.label
  | .type => some c.type
  | .precision | .scale | .nullability | .caseSensitive => none

/-- Whether a number stands for what a column has of an attribute. -/
def NumberIn (c : Column) (n : UInt64) : Attribute → Prop
  | .precision => n.toNat < UInt64.size / 2 ∧ c.precision = n.toNat
  | .scale => n.toNat < UInt64.size / 2 ∧ c.scale = n.toNat
  | .nullability => c.nullability = .ofCode n.toNat
  | .caseSensitive => c.caseSensitive = (n != 0)
  | .catalog | .name | .label | .type => False

/-- What a field of an attribute holds says what a column has of it. -/
def Says (a : Attribute) (c : Column) : Value → Prop
  | .integer n => NumberIn c n a
  | .bytes payload => ∃ text, textIn c a = some text ∧ payload = Utf8.encode text.toList

/-- A column has the default of an attribute. -/
def IsDefault (c : Column) : Attribute → Prop
  | .catalog => c.catalog = none
  | .name => c.name = ""
  | .label => c.label = c.name
  | .type => c.type = ""
  | .precision => c.precision = 0
  | .scale => c.scale = 0
  | .nullability => c.nullability = .unknown
  | .caseSensitive => c.caseSensitive = false

/-- What can be wrong with a field of an attribute. -/
inductive IsMalformed (f : Record.Field) : Prop
  /-- A number stands where a text is expected. -/
  | notText {a : Attribute} {n : UInt64} (hf : f.number = a.number) (ha : a.isText = true)
      (hv : f.value = .integer n)
  /-- A payload stands where a number is expected. -/
  | notNumber {a : Attribute} {payload : List UInt8} (hf : f.number = a.number)
      (ha : a.isText = false) (hv : f.value = .bytes payload)
  /-- The payload of a text is the written form of none. -/
  | notUtf8 {a : Attribute} {payload : List UInt8} (hf : f.number = a.number)
      (ha : a.isText = true) (hv : f.value = .bytes payload)
      (h : ∀ text, payload ≠ Utf8.encode text)
  /-- A precision or a scale needs more than 63 bits. -/
  | outOfRange {a : Attribute} {n : UInt64} (hf : f.number = a.number)
      (ha : a = .precision ∨ a = .scale) (hv : f.value = .integer n)
      (h : UInt64.size / 2 ≤ n.toNat)

/-! ### Descriptions -/

/-- The fields of an attribute in a column's record. -/
def fieldsOf (a : Attribute) (fields : List Record.Field) : List Record.Field :=
  fields.filter (·.number = a.number)

/-- The fields of a column's record describe the column. -/
structure DescribesColumn (fields : List Record.Field) (c : Column) : Prop where
  wellFormed : ∀ f ∈ fields, ¬IsMalformed f
  last : ∀ a f, (fieldsOf a fields).getLast? = some f → Says a c f.value
  missing : ∀ a, fieldsOf a fields = [] → IsDefault c a

/-! ### Values -/

theorem number_inj {a b : Attribute} (h : a.number = b.number) : a = b := by
  cases a <;> cases b <;> simp [Attribute.number] at h ⊢

theorem ofNumber?_eq_some_iff {n : UInt32} {a : Attribute} :
    Attribute.ofNumber? n = some a ↔ n = a.number := by
  constructor
  · intro h
    unfold Attribute.ofNumber? at h
    exact (of_decide_eq_true (List.find?_eq_some_iff_append.1 h).1).symm
  · rintro rfl
    cases a <;> rfl

/-- A bind that comes to a value. -/
theorem bind_eq_ok_iff {ε α β : Type} {x : Except ε α} {g : α → Except ε β} {r : β} :
    x >>= g = .ok r ↔ ∃ v, x = .ok v ∧ g v = .ok r := by
  cases x with
  | error e => exact ⟨nofun, fun ⟨v, hv, _⟩ => nomatch hv⟩
  | ok v => exact ⟨fun h => ⟨v, rfl, h⟩, fun ⟨_, hv, h⟩ => by cases hv; exact h⟩

theorem mapError_eq_ok_iff {ε ε' α : Type} {x : Except ε α} {g : ε → ε'} {r : α} :
    x.mapError g = .ok r ↔ x = .ok r := by
  cases x <;> simp [Except.mapError]

theorem textOf_eq_ok_iff {f : Record.Field} {text : String} :
    textOf f = .ok text ↔ f.value = .bytes (Utf8.encode text.toList) := by
  rw [textOf, mapError_eq_ok_iff, Record.Field.asText, Record.Field.asBytes]
  cases f.value with
  | integer n => constructor <;> intro h <;> cases h
  | bytes payload =>
    simp only [bind, Except.bind]
    constructor
    · intro h
      split at h
      · rename_i text' hd
        cases h
        rw [String.toList_ofList, Utf8.decode_eq_ok_iff.1 hd]
      · cases h
    · intro h
      cases h
      rw [Utf8.decode_encode]
      exact congrArg Except.ok String.ofList_toList

theorem integerOf_eq_ok_iff {f : Record.Field} {n : UInt64} :
    integerOf f = .ok n ↔ f.value = .integer n := by
  rw [integerOf, mapError_eq_ok_iff, Record.Field.asInteger]
  cases f.value with
  | integer m => simp
  | bytes payload => exact ⟨nofun, nofun⟩

theorem signedOf_eq_ok_iff {which : Attribute} {f : Record.Field} {v : Int} :
    signedOf which f = .ok v ↔
      ∃ n, f.value = .integer n ∧ n.toNat < UInt64.size / 2 ∧ v = n.toNat := by
  rw [signedOf, bind_eq_ok_iff]
  refine exists_congr fun n => ?_
  rw [integerOf_eq_ok_iff]
  refine and_congr_right fun _ => ?_
  split
  · rename_i hn
    simp [hn, eq_comm]
  · rename_i hn
    simp [hn]

theorem isText_of_textIn {a : Attribute} {c : Column} {text : String}
    (h : textIn c a = some text) : a.isText = true := by
  cases a with
  | catalog | name | label | type => rfl
  | precision | scale | nullability | caseSensitive => cases h

theorem isText_of_numberIn {a : Attribute} {c : Column} {n : UInt64} (h : NumberIn c n a) :
    a.isText = false := by
  cases a with
  | catalog | name | label | type => cases h
  | precision | scale | nullability | caseSensitive => rfl

/-- What says something of a column is well formed. -/
theorem not_isMalformed_of_says {a : Attribute} {c : Column} {f : Record.Field}
    (ha : f.number = a.number) (h : Says a c f.value) : ¬IsMalformed f := by
  rintro (⟨hf, hb, hv⟩ | ⟨hf, hb, hv⟩ | ⟨hf, hb, hv, hno⟩ | ⟨hf, hb, hv, hle⟩) <;>
    obtain rfl := number_inj (ha.symm.trans hf) <;> rw [hv] at h
  · cases hb.symm.trans (isText_of_numberIn h)
  · obtain ⟨text, htext, -⟩ := h
    cases hb.symm.trans (isText_of_textIn htext)
  · obtain ⟨text, -, hp⟩ := h
    exact hno _ hp
  · rcases hb with rfl | rfl <;> exact Nat.not_lt.2 hle h.1

/-! ### Drafts -/

namespace Draft

/-- The column of a draft, labelled with `t` if the draft has no label. -/
def labelled (d : Draft) (t : String) : Column := { d.column with label := d.label.getD t }

/-- What a draft has of an attribute: what a field says, or still the default. -/
def Has (d : Draft) (a : Attribute) : Option Value → Prop
  | some v => ∀ t, Says a (d.labelled t) v
  | none => if a = .label then d.label = none else IsDefault d.column a

/-- The draft without an attribute. -/
def without (d : Draft) : Attribute → Draft
  | .catalog => { d with column := { d.column with catalog := none } }
  | .name => { d with column := { d.column with name := "" } }
  | .label => { d with label := none }
  | .type => { d with column := { d.column with type := "" } }
  | .precision => { d with column := { d.column with precision := 0 } }
  | .scale => { d with column := { d.column with scale := 0 } }
  | .nullability => { d with column := { d.column with nullability := .unknown } }
  | .caseSensitive => { d with column := { d.column with caseSensitive := false } }

variable {d d' : Draft} {f : Record.Field} {a b : Attribute}

/-- What a draft has of an attribute has nothing to do with another one. -/
theorem has_without (hne : b ≠ a) (v : Option Value) : (d.without a).Has b v ↔ d.Has b v := by
  cases v with
  | none => cases b <;> cases a <;> first | exact absurd rfl hne | exact Iff.rfl
  | some v => cases v <;> cases b <;> cases a <;> first | exact absurd rfl hne | exact Iff.rfl

theorem has_finish {v : Value} (h : d.Has a (some v)) : Says a d.finish v := h d.column.name

theorem isDefault_finish (h : d.Has a none) : IsDefault d.finish a := by
  cases a with
  | label =>
    have hnone : d.label = none := h
    simp only [IsDefault, finish, hnone, Option.getD_none]
  | _ => exact h

/-- A field of an attribute says what the draft then has of it, and changes nothing else. -/
theorem has_of_set (ha : f.number = a.number) (h : d.set f = .ok d') :
    d'.Has a (some f.value) ∧ d'.without a = d.without a := by
  unfold Draft.set at h
  rw [ofNumber?_eq_some_iff.2 ha] at h
  cases a with
  | catalog | name | label | type =>
    obtain ⟨text, htext, hd⟩ := bind_eq_ok_iff.1 h
    cases hd
    rw [textOf_eq_ok_iff.1 htext]
    exact ⟨fun _ => ⟨text, rfl, rfl⟩, rfl⟩
  | precision | scale =>
    obtain ⟨v, hsigned, hd⟩ := bind_eq_ok_iff.1 h
    cases hd
    obtain ⟨n, hn, hlt, rfl⟩ := signedOf_eq_ok_iff.1 hsigned
    rw [hn]
    exact ⟨fun _ => ⟨hlt, rfl⟩, rfl⟩
  | nullability | caseSensitive =>
    obtain ⟨n, hn, hd⟩ := bind_eq_ok_iff.1 h
    cases hd
    rw [integerOf_eq_ok_iff.1 hn]
    exact ⟨fun _ => rfl, rfl⟩

/-- A field of another number changes nothing. -/
theorem set_of_unknown (h : ∀ a : Attribute, f.number ≠ a.number) : d.set f = .ok d := by
  have hnone : Attribute.ofNumber? f.number = none :=
    Option.eq_none_iff_forall_ne_some.2 fun a ha => h a (ofNumber?_eq_some_iff.1 ha)
  unfold Draft.set
  rw [hnone]

/-- A field is taken into account if and only if it is not malformed. -/
theorem set_isOk_iff (d : Draft) (f : Record.Field) :
    (∃ d', d.set f = .ok d') ↔ ¬IsMalformed f := by
  by_cases hknown : ∃ a : Attribute, f.number = a.number
  · obtain ⟨a, ha⟩ := hknown
    refine ⟨fun ⟨d', h⟩ => not_isMalformed_of_says ha ((has_of_set ha h).1 ""), fun h => ?_⟩
    unfold Draft.set
    rw [ofNumber?_eq_some_iff.2 ha]
    cases hv : f.value with
    | integer n =>
      have hn : integerOf f = .ok n := integerOf_eq_ok_iff.2 hv
      cases a with
      | catalog | name | label | type => exact absurd (.notText ha rfl hv) h
      | precision | scale =>
        have hlt : n.toNat < UInt64.size / 2 :=
          Nat.lt_of_not_le fun hle => h (.outOfRange ha (by simp) hv hle)
        exact ⟨_, bind_eq_ok_iff.2 ⟨_, signedOf_eq_ok_iff.2 ⟨n, hv, hlt, rfl⟩, rfl⟩⟩
      | nullability | caseSensitive => exact ⟨_, bind_eq_ok_iff.2 ⟨n, hn, rfl⟩⟩
    | bytes payload =>
      cases a with
      | catalog | name | label | type =>
        obtain ⟨text, rfl⟩ : ∃ text, payload = Utf8.encode text := by
          by_contra hno
          exact h (.notUtf8 ha rfl hv (not_exists.1 hno))
        have htext : textOf f = .ok (.ofList text) :=
          textOf_eq_ok_iff.2 (hv.trans (by rw [String.toList_ofList]))
        exact ⟨_, bind_eq_ok_iff.2 ⟨_, htext, rfl⟩⟩
      | precision | scale | nullability | caseSensitive => exact absurd (.notNumber ha rfl hv) h
  · rw [not_exists] at hknown
    refine ⟨fun _ => ?_, fun _ => ⟨d, set_of_unknown hknown⟩⟩
    rintro (⟨hf, -⟩ | ⟨hf, -⟩ | ⟨hf, -⟩ | ⟨hf, -⟩) <;> exact hknown _ hf

/-! ### Columns -/

/-- All fields of a column's record are taken into account if and only if none is malformed. -/
theorem foldlM_isOk_iff (fields : List Record.Field) (d : Draft) :
    (∃ d', fields.foldlM set d = .ok d') ↔ ∀ f ∈ fields, ¬IsMalformed f := by
  induction fields generalizing d with
  | nil => exact ⟨fun _ => nofun, fun _ => ⟨d, rfl⟩⟩
  | cons f fields ih =>
    rw [List.forall_mem_cons, ← set_isOk_iff d f]
    constructor
    · rintro ⟨d', h⟩
      rw [List.foldlM_cons, bind_eq_ok_iff] at h
      obtain ⟨d₁, hset, hrest⟩ := h
      exact ⟨⟨d₁, hset⟩, (ih d₁).1 ⟨d', hrest⟩⟩
    · rintro ⟨⟨d₁, hset⟩, hfields⟩
      obtain ⟨d', hrest⟩ := (ih d₁).2 hfields
      exact ⟨d', by rw [List.foldlM_cons, bind_eq_ok_iff]; exact ⟨d₁, hset, hrest⟩⟩

/-- What a draft has of an attribute is what the last field of this attribute says. -/
theorem has_of_foldlM {fields : List Record.Field} (h : fields.foldlM set {} = .ok d)
    (a : Attribute) : d.Has a ((fieldsOf a fields).getLast?.map (·.value)) := by
  induction fields using List.reverseRecOn generalizing d with
  | nil =>
    cases h
    cases a <;> rfl
  | append_singleton fields f ih =>
    rw [List.foldlM_append, bind_eq_ok_iff] at h
    obtain ⟨d₁, hfields, hlast⟩ := h
    rw [List.foldlM_cons, bind_eq_ok_iff] at hlast
    obtain ⟨d₂, hset, hnil⟩ := hlast
    cases hnil
    rw [fieldsOf, List.filter_append]
    by_cases ha : f.number = a.number
    · rw [List.filter_cons_of_pos (by simpa using ha), List.filter_nil, List.getLast?_concat]
      exact (has_of_set ha hset).1
    · rw [List.filter_cons_of_neg (by simpa using ha), List.filter_nil, List.append_nil]
      have h₁ := ih hfields
      by_cases hknown : ∃ b : Attribute, f.number = b.number
      · obtain ⟨b, hb⟩ := hknown
        have hne : a ≠ b := fun hab => ha (hab ▸ hb)
        rw [← has_without hne, (has_of_set hb hset).2, has_without hne]
        exact h₁
      · rw [set_of_unknown (not_exists.1 hknown)] at hset
        cases hset
        exact h₁

/-- The column of a draft is the one that the fields describe. -/
theorem describesColumn_finish {fields : List Record.Field} (h : fields.foldlM set {} = .ok d) :
    DescribesColumn fields d.finish where
  wellFormed := (foldlM_isOk_iff fields {}).1 ⟨d, h⟩
  last a f hf := by
    have := has_of_foldlM h a
    rw [hf] at this
    exact has_finish this
  missing a ha := by
    have := has_of_foldlM h a
    rw [ha] at this
    exact isDefault_finish this

end Draft

/-- A text of which the same is said has it in both columns. -/
theorem Says.textIn_eq {a : Attribute} {c c' : Column} {v : Value} (h : Says a c v)
    (h' : Says a c' v) (ha : a.isText = true) : textIn c a = textIn c' a := by
  cases v with
  | integer n => cases ha.symm.trans (isText_of_numberIn h)
  | bytes payload =>
    obtain ⟨text, htext, rfl⟩ := h
    obtain ⟨text', htext', hp⟩ := h'
    have hread := Utf8.decode_encode text.toList
    rw [hp, Utf8.decode_encode] at hread
    rw [htext, htext', String.toList_injective (Except.ok.inj hread)]

/-- A number of which the same is said stands for what both columns have. -/
theorem Says.exists_number {a : Attribute} {c c' : Column} {v : Value} (h : Says a c v)
    (h' : Says a c' v) (ha : a.isText = false) : ∃ n, NumberIn c n a ∧ NumberIn c' n a := by
  cases v with
  | integer n => exact ⟨n, h, h'⟩
  | bytes payload =>
    obtain ⟨text, htext, -⟩ := h
    cases ha.symm.trans (isText_of_textIn htext)

/-- Fields describe one column at most. -/
theorem DescribesColumn.unique {fields : List Record.Field} {c c' : Column}
    (h : DescribesColumn fields c) (h' : DescribesColumn fields c') : c = c' := by
  have hboth (a : Attribute) :
      (∃ v, Says a c v ∧ Says a c' v) ∨ IsDefault c a ∧ IsDefault c' a := by
    cases hf : (fieldsOf a fields).getLast? with
    | none =>
      rw [List.getLast?_eq_none_iff] at hf
      exact .inr ⟨h.missing a hf, h'.missing a hf⟩
    | some f => exact .inl ⟨f.value, h.last a f hf, h'.last a f hf⟩
  have htext {a : Attribute} (ha : a.isText = true) :
      textIn c a = textIn c' a ∨ IsDefault c a ∧ IsDefault c' a :=
    (hboth a).imp_left fun ⟨_, hv, hv'⟩ => hv.textIn_eq hv' ha
  have hnumber {a : Attribute} (ha : a.isText = false) :
      (∃ n, NumberIn c n a ∧ NumberIn c' n a) ∨ IsDefault c a ∧ IsDefault c' a :=
    (hboth a).imp_left fun ⟨_, hv, hv'⟩ => hv.exists_number hv' ha
  have hcatalog : c.catalog = c'.catalog :=
    (htext (a := .catalog) rfl).elim id fun h => h.1.trans h.2.symm
  have hname : c.name = c'.name :=
    (htext (a := .name) rfl).elim Option.some.inj fun h => h.1.trans h.2.symm
  have hlabel : c.label = c'.label :=
    (htext (a := .label) rfl).elim Option.some.inj fun h => h.1.trans (hname.trans h.2.symm)
  have htype : c.type = c'.type :=
    (htext (a := .type) rfl).elim Option.some.inj fun h => h.1.trans h.2.symm
  have hprecision : c.precision = c'.precision :=
    (hnumber (a := .precision) rfl).elim (fun ⟨_, h, h'⟩ => h.2.trans h'.2.symm)
      fun h => h.1.trans h.2.symm
  have hscale : c.scale = c'.scale :=
    (hnumber (a := .scale) rfl).elim (fun ⟨_, h, h'⟩ => h.2.trans h'.2.symm)
      fun h => h.1.trans h.2.symm
  have hnullability : c.nullability = c'.nullability :=
    (hnumber (a := .nullability) rfl).elim (fun ⟨_, h, h'⟩ => h.trans h'.symm)
      fun h => h.1.trans h.2.symm
  have hcase : c.caseSensitive = c'.caseSensitive :=
    (hnumber (a := .caseSensitive) rfl).elim (fun ⟨_, h, h'⟩ => h.trans h'.symm)
      fun h => h.1.trans h.2.symm
  cases c
  cases c'
  congr

/-- A column's record is read as a column if and only if it describes the column. -/
theorem parseColumn_eq_ok_iff {fields : List Record.Field} {c : Column} :
    parseColumn fields = .ok c ↔ DescribesColumn fields c := by
  rw [parseColumn, bind_eq_ok_iff]
  constructor
  · rintro ⟨d, hd, hc⟩
    cases hc
    exact Draft.describesColumn_finish hd
  · intro h
    obtain ⟨d, hd⟩ := (Draft.foldlM_isOk_iff fields {}).2 h.wellFormed
    exact ⟨d, hd, congrArg Except.ok ((Draft.describesColumn_finish hd).unique h)⟩

end QueryResults.Sidecar
