import QueryResults.Proofs.Streamed.Drain
import QueryResults.Proofs.Streamed.File

/-!
# Journals of cursors over result files

A cursor over a result file is called for its columns and for the next row, and its token is
renewed; between the calls, and whenever the store is asked, anything may happen to the interrupts
and to the store. The *journal* of a cursor keeps what was current after each call that went on to a
row.

As long as the store tells the truth about the file and its sidecar, the journal holds the first
rows of the file, in order and each once, and never the labels. Wherever a request or a body fails,
ends early or stalls, the worst that comes of it is a failure: the end is reported only when the
journal holds all rows.

## Main definitions

* `Streamed.Call`, `Streamed.Journal`, `Journal.call`, `Journal.run`.

## Main results

* `Streamed.exposes_file`: what is exposed by any run.
-/

namespace QueryResults.Cursor.Streamed

open Csv (encodeRows)
open Store (Object)

variable {σ : Type} {store : Store (World σ)}

/-! ### Journals -/

/-- What is done with a cursor, and what happens meanwhile. -/
inductive Call (σ : Type) where
  | metadata
  | next
  | clearInterrupt
  /-- The interrupts and the store change. -/
  | meanwhile (f : World σ → World σ)

/-- A cursor, the world around it, and what was current after each call that went on to a row. -/
structure Journal (σ : Type) where
  cursor : Streamed
  world : World σ
  exposed : List (Option Row) := []

namespace Journal

/-- What is exposed by an answer to the call for the next row. -/
def exposure (c : Streamed) : Except Failure Bool → List (Option Row)
  | .ok true => [c.current]
  | _ => []

/-- The journal after a call. -/
def call (store : Store (World σ)) (j : Journal σ) : Call σ → Journal σ
  | .metadata =>
    let (_, cursor, world) := j.cursor.metadata store j.world
    { j with cursor, world }
  | .next =>
    let (r, cursor, world) := j.cursor.next store j.world
    { cursor, world, exposed := j.exposed ++ exposure cursor r }
  | .clearInterrupt =>
    let (cursor, world) := j.cursor.clearInterrupt j.world
    { j with cursor, world }
  | .meanwhile f => { j with world := f j.world }

/-- The journal after calls in any order. -/
def run (store : Store (World σ)) (j : Journal σ) (calls : List (Call σ)) : Journal σ :=
  calls.foldl (call store) j

/-- The journal of a cursor that was not called yet. -/
def ofLocation (location : Location) (settings : Settings.Download) (interrupt : Token)
    (w : World σ) : Journal σ :=
  { cursor := { location, settings, interrupt }, world := w }

variable {src : Source σ} {j : Journal σ}

/-- A journal whose cursor goes along a file. -/
def Along (src : Source σ) (j : Journal σ) : Prop :=
  ∃ rows, j.exposed = rows.map some ∧ Streamed.Along src rows j.cursor

theorem Along.call (hsrc : src.Backs store) (hcalm : ∀ w, src.Calm w) (h : j.Along src)
    (a : Call σ) :
    (j.call store a).Along src := by
  obtain ⟨rows, he, h⟩ := h
  cases a with
  | metadata => exact ⟨rows, he, h.metadata hsrc (hcalm j.world)⟩
  | next =>
    have hmoved := h.next hsrc (hcalm j.world)
    unfold Journal.call
    generalize j.cursor.next store j.world = x at hmoved
    obtain ⟨r, c, w⟩ := x
    cases hmoved with
    | row row hc h' hw =>
      exact ⟨rows ++ [row], by simp [he, exposure, show c.current = _ from hc], h'⟩
    | past h' ha hf hw => exact ⟨rows, by simp [he, exposure], h'⟩
    | failed e hr h' => exact ⟨rows, by simp [he, exposure], h'⟩
  | clearInterrupt => exact ⟨rows, he, h.withInterrupt _⟩
  | meanwhile f => exact ⟨rows, he, h⟩

theorem Along.run (hsrc : src.Backs store) (hcalm : ∀ w, src.Calm w) (h : j.Along src)
    (calls : List (Call σ)) :
    (j.run store calls).Along src := by
  induction calls generalizing j with
  | nil => exact h
  | cons a calls ih => exact ih (h.call hsrc hcalm a)

end Journal

/-- As long as a store tells the truth about a file and its sidecar, the rows exposed by any run are
the first rows of the file, in order, and the end is reported only when they are all of them. -/
theorem exposes_file (store : Store (World σ)) {location : Location} {file sidecar : Object}
    {schema : Schema} {labels : Row} {rows : List Row} (hpos : 0 < schema.length)
    (hwidth : ∀ row ∈ labels :: rows, row.length = schema.length)
    (hfile : store.Serves location file) (hbytes : file.bytes = encodeRows (labels :: rows))
    (hsidecar : store.Serves (location.withKeySuffix Sidecar.keySuffix) sidecar)
    (hparse : Sidecar.parse sidecar.bytes = .ok schema) (settings : Settings.Download)
    (interrupt : Token) (w : World σ) (calls : List (Call σ)) :
    let j := (Journal.ofLocation location settings interrupt w).run store calls
    j.exposed <+: rows.map some ∧
      ((j.cursor.next store j.world).1 = .ok false → j.exposed = rows.map some) := by
  intro j
  have hsrc : (Source.ofObject file location settings schema labels rows : Source σ).Backs store :=
    Source.backs_ofObject hpos hwidth hfile hbytes hsidecar hparse
  have hstart : (Journal.ofLocation location settings interrupt w).Along
      (Source.ofObject file location settings schema labels rows) := ⟨[], rfl, .fresh interrupt⟩
  obtain ⟨exposed, he, h⟩ : j.Along _ := hstart.run hsrc (fun _ => trivial) calls
  refine ⟨?_, fun hend => ?_⟩
  · rw [he]
    exact h.exposed_prefix.map some
  · have hmoved := h.next hsrc (w := j.world) trivial
    rw [hend] at hmoved
    cases hmoved with
    | past h' ha hf hw =>
      rw [he, (h'.stage.of_afterLast ha hf).1]
      rfl

/-- The rows of a table with a quote in one field and NULL in another. -/
def quotedRows : List Row := [[some "a\"b,"], [none]]

/-- The table as a file. -/
def quotedFile : Object := ⟨encodeRows ([some "n"] :: quotedRows), "v1", by decide +kernel⟩

/-- The columns of the table. -/
def quotedSchema : Schema := [{ name := "n", label := "n" }]

/-- The sidecar of the file. -/
def quotedSidecar : Object := ⟨Sidecar.encode quotedSchema, "v2", by cbv⟩

/-- Where the file lies. -/
def quotedLocation : Location := ⟨"bucket", "quoted.csv"⟩

/-- A store of both, whose bodies are whole. -/
def quotedStore : Store (World Unit) :=
  .faltering (fun l => if l = quotedLocation then quotedFile else quotedSidecar) fun w => (none, w)

/-- The journal of a cursor that was asked for its columns and for two rows. -/
def quotedJournal : Journal Unit :=
  (Journal.ofLocation quotedLocation {} { number := 1 } { outside := () }).run quotedStore
    [.metadata, .next, .next]

/-- Both rows are exposed, with the quote and with NULL, and then the end is reported. -/
theorem exposes_file_quoted :
    (quotedJournal.cursor.next quotedStore quotedJournal.world).1 = .ok false ∧
      quotedJournal.exposed = [some [some "a\"b,"], some [none]] := by
  have hfile : quotedStore.Gives quotedLocation quotedFile :=
    Store.gives_faltering _ (fun _ => rfl) quotedLocation
  have hsidecar : quotedStore.Gives (quotedLocation.withKeySuffix Sidecar.keySuffix)
      quotedSidecar :=
    Store.gives_faltering _ (fun _ => rfl) (quotedLocation.withKeySuffix Sidecar.keySuffix)
  have hparse : Sidecar.parse quotedSidecar.bytes = .ok quotedSchema := by cbv
  have hwidth : ∀ row ∈ [some "n"] :: quotedRows, row.length = quotedSchema.length := by decide
  have hend : (quotedJournal.cursor.next quotedStore quotedJournal.world).1 = .ok false := by
    have hsure : (Source.ofHealthy quotedFile quotedLocation {} quotedSchema [some "n"] quotedRows
        { number := 1 }).Sure { number := 1 } quotedStore :=
      Source.sure_ofHealthy (by decide) hwidth hfile rfl hsidecar hparse
        (Store.keeps_faltering _ fun _ => id)
    have hfresh : Draining (Source.ofHealthy quotedFile quotedLocation {} quotedSchema [some "n"]
        quotedRows { number := 1 }) { number := 1 } 0 quotedRows
        { location := quotedLocation, settings := {}, interrupt := { number := 1 } }
        ({ outside := () } : World Unit) := .fresh (by rfl)
    obtain ⟨c₁, w₁, h₁, hc₁⟩ := hfresh.metadata hsure
    obtain ⟨c₂, w₂, h₂, -, -, -, hc₂⟩ := hc₁.row hsure
    obtain ⟨c₃, w₃, h₃, -, -, -, hc₃⟩ := hc₂.row hsure
    obtain ⟨c₄, w₄, h₄, -⟩ := hc₃.past hsure
    have hrun : quotedJournal.cursor = c₃ ∧ quotedJournal.world = w₃ := by
      simp [quotedJournal, Journal.run, Journal.call, Journal.ofLocation, h₁, h₂, h₃]
    rw [hrun.1, hrun.2, h₄]
  exact ⟨hend, (exposes_file quotedStore (by decide) hwidth hfile.serves rfl hsidecar.serves hparse
    {} { number := 1 } { outside := () } [.metadata, .next, .next]).2 hend⟩

end QueryResults.Cursor.Streamed
