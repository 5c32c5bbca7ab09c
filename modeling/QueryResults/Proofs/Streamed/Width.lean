import QueryResults.Proofs.Csv.Width
import QueryResults.Proofs.Streamed.File
import QueryResults.Proofs.Streamed.Opening

/-!
# Files that do not fit their sidecars

A sidecar may describe more or fewer columns than the rows of its file have fields. From a store in
good health such a file cannot be opened: its first row is malformed, and the call for the columns
or for the next row fails with the failure of that row. The cursor stays a fresh one, so this is
true of every call to come, and neither a row nor the end is ever reported.

A sidecar that describes no columns at all is not noticed. Rows without fields are never read, so
the file counts as one without rows, whatever it holds.

## Main definitions

* `Streamed.Disagree`: a file and a sidecar of another width.

## Main results

* `Disagree.opened`, `Disagree.happen`: a fresh cursor cannot be opened, and stays fresh.
* `Streamed.never_opened`: every run of a cursor over such a file.
* `Disagree.empty`: what comes of a sidecar without columns.
-/

namespace QueryResults.Cursor.Streamed

open Csv (encodeRows misfit)
open Store (Object)

variable {σ : Type} {store : Store (World σ)} {c : Streamed} {w : World σ}

/-- A store in good health that holds a file of rows with `fields` fields each, at least one row,
and a sidecar that describes another number of columns. It does not interrupt anybody. -/
structure Disagree (store : Store (World σ)) (location : Location) (schema : Schema)
    (fields : Nat) : Prop where
  file : ∃ o rows, store.Gives location o ∧ o.bytes = encodeRows rows ∧ rows ≠ [] ∧
    ∀ row ∈ rows, row.length = fields
  sidecar : ∃ o, store.Gives (location.withKeySuffix Sidecar.keySuffix) o ∧
    Sidecar.parse o.bytes = .ok schema
  quiet : ∀ t : Token, store.Keeps fun w => w.isCancelled t = false
  ne : fields ≠ schema.length

namespace Disagree

variable {location : Location} {settings : Settings.Download} {schema : Schema} {fields : Nat}

/-- The first row of the file does not fit. -/
theorem readRow (h : Disagree store location schema fields) (hcolumns : 0 < schema.length)
    (hfields : 0 < fields) (hl : c.location = location) (w : World σ) :
    ∃ rows w', Streamed.readRow store (c.unread schema) w =
      (.error (.data (misfit 1 schema.length fields).message), rows, w') := by
  subst hl
  obtain ⟨o, rows, hgives, hbytes, hne, hwidth⟩ := h.file
  obtain ⟨row, rows, rfl⟩ := List.exists_cons_of_ne_nil hne
  obtain rfl := hwidth row List.mem_cons_self
  have hpos : 0 < bufferSize := by decide
  have hcarries := Download.Reader.carries_feed_whole (P := fun _ : World σ => True) hgives
    ⟨fun _ _ _ => trivial, fun _ _ => trivial⟩ hpos
  have hstart : ((c.unread schema).mapRest fun reader => (reader, w)).input.Holds
      (fun bytes v => (∃ n, v.1.Sound o c.location n ∧ bytes = o.bytes.drop n) ∧
        v.1.Flowing o ∧ True) (Csv.encodeRow row ++ encodeRows rows) :=
    ⟨_, rfl, ⟨0, .ofLocation o c.location c.settings, hbytes.symm⟩,
      .ofLocation o c.location c.settings, trivial⟩
  have hfault := Csv.faults_nextRow hcarries hcolumns (List.ne_nil_of_length_pos hfields) h.ne
    hstart
  unfold Streamed.readRow
  generalize Csv.Reader.nextRow _ _ = x at hfault
  obtain ⟨x, rows'⟩ := x
  rcases hfault with ⟨f, -, hf⟩ | hx
  · exact hf.elim
  · cases hx
    exact ⟨_, _, rfl⟩

/-- A fresh cursor cannot be opened, unless its token is cancelled. -/
theorem opened (h : Disagree store location schema fields) (hcolumns : 0 < schema.length)
    (hfields : 0 < fields) (hl : c.location = location) (hs : c.schema = none)
    (hw : w.isCancelled c.interrupt = false) :
    ∃ w', c.opened store w = (.error (.data (misfit 1 schema.length fields).message), c, w') := by
  obtain ⟨o, hgives, hparse⟩ := h.sidecar
  rw [← hl] at hgives
  obtain ⟨bytes, w₁, hload⟩ := exists_loadSidecar hgives (h.quiet c.interrupt) hw
  obtain rfl := eq_of_loadSidecar hgives.serves hload
  obtain ⟨rows, w', hrow⟩ := h.readRow hcolumns hfields hl w₁
  exact ⟨w', opened_error_iff.2 ⟨rfl, hs, .labels hload hparse hrow⟩⟩

/-- A fresh cursor is refused by its token or cannot be opened. -/
theorem refused (h : Disagree store location schema fields) (hcolumns : 0 < schema.length)
    (hfields : 0 < fields) (settings : Settings.Download) (t : Token) (w : World σ) :
    let c := fresh location settings t
    ∃ e w', (c.checkInterrupt w = .error e ∧ w' = w ∨
        c.checkInterrupt w = .ok () ∧ c.opened store w = (.error e, c, w')) ∧
      (w.isCancelled t = false → e = .data (misfit 1 schema.length fields).message) := by
  intro c
  cases hcheck : c.checkInterrupt w with
  | error e =>
    obtain ⟨hcancelled, -⟩ := cancelled_of_checkInterrupt hcheck
    exact ⟨e, w, .inl ⟨rfl, rfl⟩, fun hw => nomatch hcancelled.symm.trans hw⟩
  | ok =>
    obtain ⟨w', ho⟩ := h.opened (c := c) hcolumns hfields rfl rfl
      (uncancelled_of_checkInterrupt hcheck)
    exact ⟨_, w', .inr ⟨rfl, ho⟩, fun _ => rfl⟩

/-- Asking a fresh cursor for the columns fails. -/
theorem metadata (h : Disagree store location schema fields) (hcolumns : 0 < schema.length)
    (hfields : 0 < fields) (settings : Settings.Download) (t : Token) (w : World σ) :
    ∃ e w', (fresh location settings t).metadata store w =
        (.error e, fresh location settings t, w') ∧
      (w.isCancelled t = false → e = .data (misfit 1 schema.length fields).message) := by
  obtain ⟨e, w', hrefused, he⟩ := h.refused hcolumns hfields settings t w
  refine ⟨e, w', ?_, he⟩
  unfold Streamed.metadata
  rcases hrefused with ⟨hcheck, rfl⟩ | ⟨hcheck, ho⟩
  · simp only [hcheck]
    rfl
  · simp only [hcheck, ho]
    rfl

/-- Asking a fresh cursor for the next row fails. -/
theorem next (h : Disagree store location schema fields) (hcolumns : 0 < schema.length)
    (hfields : 0 < fields) (settings : Settings.Download) (t : Token) (w : World σ) :
    ∃ e w', (fresh location settings t).next store w =
        (.error e, fresh location settings t, w') ∧
      (w.isCancelled t = false → e = .data (misfit 1 schema.length fields).message) := by
  obtain ⟨e, w', hrefused, he⟩ := h.refused hcolumns hfields settings t w
  refine ⟨e, w', ?_, he⟩
  unfold Streamed.next
  rcases hrefused with ⟨hcheck, rfl⟩ | ⟨hcheck, ho⟩
  · simp only [hcheck]
    rfl
  · simp only [hcheck, ho]
    rfl

/-- Whatever happens leaves a fresh cursor fresh, and no answer is one of an open cursor. -/
theorem happen {connections : Connections σ}
    (h : Disagree connections.objects location schema fields) (hcolumns : 0 < schema.length)
    (hfields : 0 < fields) (settings : Settings.Download) (t : Token) (x : Happening σ)
    (w : World σ) :
    ∃ answers t' w', (streamed (fresh location settings t)).happen connections w x =
        some (answers, streamed (fresh location settings t'), w') ∧
      ∀ a ∈ answers, a.opens = false := by
  cases x with
  | called x =>
    cases x with
    | metadata =>
      obtain ⟨e, w', hm, -⟩ := h.metadata hcolumns hfields settings t w
      refine ⟨[.columns (.error e)], t, w', ?_, by simp [Answer.opens]⟩
      simp only [Cursor.happen, Cursor.call, Cursor.metadata, hm, Option.map_some]
    | next pages =>
      obtain ⟨e, w', hn, -⟩ := h.next hcolumns hfields settings t w
      refine ⟨[.moved (.error e)], t, w', ?_, by simp [Answer.opens]⟩
      simp only [Cursor.happen, Cursor.call, Cursor.next, hn, Option.map_some]
    | setPageSize n =>
      cases hn : checkPageSize n with
      | error e =>
        refine ⟨[.resized (.error e)], t, w, ?_, by simp [Answer.opens]⟩
        simp only [Cursor.happen, Cursor.call, Cursor.setPageSize, Streamed.setPageSize, hn,
          Except.map, Option.map_some]
      | ok =>
        refine ⟨[.resized (.ok ())], t, w, ?_, by simp [Answer.opens]⟩
        simp only [Cursor.happen, Cursor.call, Cursor.setPageSize, Streamed.setPageSize, hn,
          Except.map, Option.map_some]
    | clearInterrupt => exact ⟨[.cleared], _, _, rfl, by simp [Answer.opens]⟩
  | given t' => exact ⟨[], t', w, rfl, by simp⟩
  | meanwhile f => exact ⟨[], t, f w, rfl, by simp⟩

/-- Every run of a fresh cursor comes back and leaves it fresh. -/
theorem exists_run {connections : Connections σ}
    (h : Disagree connections.objects location schema fields) (hcolumns : 0 < schema.length)
    (hfields : 0 < fields) (settings : Settings.Download) (t : Token)
    (happenings : List (Happening σ)) (w : World σ) :
    ∃ answers t' w', (streamed (fresh location settings t)).run connections happenings w =
        some (answers, streamed (fresh location settings t'), w') ∧
      ∀ a ∈ answers, a.opens = false := by
  induction happenings generalizing t w with
  | nil => exact ⟨[], t, w, rfl, nofun⟩
  | cons x happenings ih =>
    obtain ⟨answers, t₁, w₁, hx, hanswers⟩ := h.happen hcolumns hfields settings t x w
    obtain ⟨more, t₂, w₂, hrun, hmore⟩ := ih t₁ w₁
    refine ⟨answers ++ more, t₂, w₂, ?_, fun a ha => ?_⟩
    · simp only [Cursor.run, hx, Option.bind_some, hrun, Option.map_some]
    · rcases List.mem_append.1 ha with ha | ha
      · exact hanswers a ha
      · exact hmore a ha

/-- Under a sidecar without columns no row is looked for, and the file is taken for an empty one. -/
theorem empty (h : Disagree store location [] fields) {t : Token}
    (hw : w.isCancelled t = false) :
    ((fresh location settings t).metadata store w).1 = .ok [] ∧
      ((fresh location settings t).next store w).1 = .ok false := by
  obtain ⟨o, hgives, hparse⟩ := h.sidecar
  obtain ⟨bytes, w', hload⟩ :=
    exists_loadSidecar (c := fresh location settings t) hgives (h.quiet t) hw
  obtain rfl := eq_of_loadSidecar (c := fresh location settings t) hgives.serves hload
  have hopened : (fresh location settings t).opened store w =
      (.ok (), { fresh location settings t with
        schema := some []
        rows := some ((fresh location settings t).unread []) }, w') := by
    unfold Streamed.opened
    simp only [hload, hparse]
    rfl
  have hcheck : (fresh location settings t).checkInterrupt w = .ok () :=
    if_neg (by simp [fresh, hw])
  constructor
  · unfold Streamed.metadata
    simp only [hcheck, hopened]
    rfl
  · unfold Streamed.next
    simp only [hcheck, hopened]
    rfl

end Disagree

/-- A cursor over a file whose rows have more or fewer fields than the sidecar describes columns is
never opened: in every run no call succeeds in getting the columns, a row or the end, and the cursor
stays before the first row. Unless its token is cancelled, the next call for the columns or for a
row fails with a data failure, the first such call included. -/
theorem never_opened {connections : Connections σ} {location : Location} {schema : Schema}
    {fields : Nat} (h : Disagree connections.objects location schema fields)
    (hcolumns : 0 < schema.length) (hfields : 0 < fields) (settings : Settings.Download) (t : Token)
    (happenings : List (Happening σ)) (w : World σ) :
    ∃ answers c w', (streamed (fresh location settings t)).run connections happenings w =
        some (answers, streamed c, w') ∧
      (∀ a ∈ answers, a.opens = false) ∧
      (c.current = none ∧ c.rowNumber = 0 ∧ c.position = .beforeFirst) ∧
      (w'.isCancelled c.interrupt = false →
        (c.metadata connections.objects w').1 =
            .error (.data (misfit 1 schema.length fields).message) ∧
          (c.next connections.objects w').1 =
            .error (.data (misfit 1 schema.length fields).message)) := by
  obtain ⟨answers, t', w', hrun, hanswers⟩ :=
    h.exists_run hcolumns hfields settings t happenings w
  refine ⟨answers, _, w', hrun, hanswers, ⟨rfl, rfl, rfl⟩, fun hw => ?_⟩
  obtain ⟨e, _, hm, he⟩ := h.metadata hcolumns hfields settings t' w'
  obtain ⟨e', _, hn, he'⟩ := h.next hcolumns hfields settings t' w'
  rw [hm, hn, he hw, he' hw]
  exact ⟨rfl, rfl⟩

/-- Where a file with rows of two fields lies. -/
def looseLocation : Location := ⟨"bucket", "loose.csv"⟩

/-- A row whose text looks like the end of a row, and the NULL after it. -/
def looseFile : Object := ⟨encodeRows [[some "a,\n", none]], "v1", by decide +kernel⟩

/-- A store of the file and a sidecar. -/
def looseStore (sidecar : Object) : Store (World Unit) :=
  .faltering (fun l => if l = looseLocation then looseFile else sidecar) fun w => (none, w)

/-- The store next to a service that knows of no query. -/
def looseConnections (sidecar : Object) : Connections Unit where
  service :=
    { submit := fun _ w => (.error (.notFound ""), w)
      status := fun _ w => (.error (.notFound ""), w)
      stop := fun _ w => (.error (.notFound ""), w)
      request := fun _ w => (0, w)
      receive := fun _ w => (none, w)
      abandon := fun _ w => w }
  store := some (looseStore sidecar)

/-- A cursor over the file. -/
def looseCursor : Streamed := fresh looseLocation {} { number := 1 }

/-- A world in which nobody is interrupted. -/
def looseWorld : World Unit := { outside := () }

/-- The file fits no sidecar but one of two columns. -/
theorem disagree_loose {sidecar : Object} {schema : Schema}
    (hparse : Sidecar.parse sidecar.bytes = .ok schema) (hne : 2 ≠ schema.length) :
    Disagree (looseConnections sidecar).objects looseLocation schema 2 := by
  have hfile : (looseStore sidecar).Gives looseLocation looseFile :=
    Store.gives_faltering _ (fun _ => rfl) looseLocation
  have hsidecar :
      (looseStore sidecar).Gives (looseLocation.withKeySuffix Sidecar.keySuffix) sidecar :=
    Store.gives_faltering _ (fun _ => rfl) (looseLocation.withKeySuffix Sidecar.keySuffix)
  have hquiet (t : Token) : (looseStore sidecar).Keeps fun w => w.isCancelled t = false :=
    Store.keeps_faltering _ fun _ => id
  exact
    { file := ⟨looseFile, _, hfile, rfl, by decide, by decide⟩
      sidecar := ⟨sidecar, hsidecar, hparse⟩
      quiet := hquiet
      ne := hne }

/-- A sidecar of one column. -/
def narrowSidecar : Object := ⟨Sidecar.encode missingSchema, "v2", by cbv⟩

/-- The file is not opened under one column: a comma stands where the row should end. -/
theorem never_opened_narrow :
    (looseCursor.metadata (looseStore narrowSidecar) looseWorld).1 =
      .error (.data "Row 1: unexpected byte ',' after field 1 of 1") := by
  have hparse : Sidecar.parse narrowSidecar.bytes = .ok missingSchema := by cbv
  obtain ⟨answers, c, w', hrun, -, -, hfails⟩ := never_opened (disagree_loose hparse (by decide))
    (by decide) (by decide) {} { number := 1 } [] looseWorld
  cases hrun
  exact (hfails rfl).1

/-- A sidecar of no columns. -/
def emptySidecar : Object := ⟨[], "v2", by decide⟩

/-- Under no columns the same file shows no rows, and no failure. -/
theorem opened_without_columns :
    Disagree (looseConnections emptySidecar).objects looseLocation [] 2 ∧
      (looseCursor.metadata (looseStore emptySidecar) looseWorld).1 = .ok [] ∧
      (looseCursor.next (looseStore emptySidecar) looseWorld).1 = .ok false := by
  have hparse : Sidecar.parse emptySidecar.bytes = .ok [] := by cbv
  have h := disagree_loose hparse (by decide)
  exact ⟨h, h.empty rfl⟩

end QueryResults.Cursor.Streamed
