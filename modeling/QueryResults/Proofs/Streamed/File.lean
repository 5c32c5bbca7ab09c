import QueryResults.Proofs.Fetcher.Load
import QueryResults.Proofs.Reader.Flow
import QueryResults.Proofs.Streamed.Drain

/-!
# Result files in a store

A result file is an object that holds written rows, the labels first, and beside it lies a sidecar
that describes the columns. A store that tells the truth about both lets the file be read, whatever
else goes wrong; one in good health that does not interrupt the reader lets it be read without
failing.

## Main definitions

* `Source.ofObject`, `Source.ofHealthy`: a file as it is read from a store of either kind.

## Main results

* `Source.backs_ofObject`, `Source.sure_ofHealthy`: what such stores are good for.
-/

namespace QueryResults.Cursor.Streamed

open Csv (encodeRows)
open Store (Object)

variable {σ : Type} {store : Store (World σ)} {c : Streamed} {w w' : World σ}
  {file sidecar : Object} {location : Location} {settings : Settings.Download} {schema : Schema}
  {labels : Row} {rows : List Row} {bytes : List UInt8}

/-! ### Loading the sidecar -/

/-- What is loaded of a sidecar that the store serves is the whole sidecar. -/
theorem eq_of_loadSidecar (hs : store.Serves c.sidecar sidecar)
    (hl : c.loadSidecar store w = (.ok bytes, w')) : bytes = sidecar.bytes := by
  unfold loadSidecar at hl
  simp only at hl
  split at hl
  · rename_i hloaded
    cases hl
    exact Download.Fetcher.fetchWithin_eq_ok hs (Nat.zero_le _) hloaded
  · cases hl
  · cases hl

/-- Loading the sidecar keeps what every request and every lapse of time keeps. -/
theorem keeps_loadSidecar {P : World σ → Prop} (hk : store.Keeps P) (c : Streamed) (hw : P w) :
    P (c.loadSidecar store w).2 := by
  unfold loadSidecar
  simp only
  split <;> exact Download.Fetcher.keeps_fetchWithin hk _ _ _ hw

/-- From a store in good health that does not interrupt the cursor the sidecar is loaded. -/
theorem exists_loadSidecar (hs : store.Gives c.sidecar sidecar)
    (hk : store.Keeps fun w => w.isCancelled c.interrupt = false)
    (hw : w.isCancelled c.interrupt = false) :
    ∃ bytes w', c.loadSidecar store w = (.ok bytes, w') := by
  have hwhole := Download.Fetcher.fetchWithin_whole
    (f := Download.Fetcher.ofSettings c.sidecar c.settings)
    (.ofMillis c.settings.readTimeout.ceilMillis) rfl hs (Nat.zero_le _) nofun
    (Download.Fetcher.capacity_pos _ _) (Download.Fetcher.capacity_lt _ _) hk hw
  unfold loadSidecar
  simp only [hwhole]
  exact ⟨_, _, rfl⟩

/-! ### Stores that tell the truth -/

/-- A file as it is read from a store that serves it and may fail in any way. -/
def Source.ofObject (file : Object) (location : Location) (settings : Settings.Download)
    (schema : Schema) (labels : Row) (rows : List Row) : Source σ where
  location
  settings
  schema
  labels
  rows
  Left bytes r := ∃ n, r.Sound file location n ∧ bytes = file.bytes.drop n
  Expected _ := True
  Calm _ := True

theorem Source.backs_ofObject (hpos : 0 < schema.length)
    (hwidth : ∀ row ∈ labels :: rows, row.length = schema.length)
    (hfile : store.Serves location file) (hbytes : file.bytes = encodeRows (labels :: rows))
    (hsidecar : store.Serves (location.withKeySuffix Sidecar.keySuffix) sidecar)
    (hparse : Sidecar.parse sidecar.bytes = .ok schema) :
    (Source.ofObject file location settings schema labels rows : Source σ).Backs store where
  columns_pos := hpos
  width := hwidth
  start := ⟨0, .ofLocation file location settings, hbytes.symm⟩
  carries := by simpa only [Source.ofObject, and_true] using
    Download.Reader.carries_feed hfile (by decide)
  sidecar {c w w' bytes} hl _ _ hload := by
    have hs : store.Serves c.sidecar sidecar := by
      unfold Streamed.sidecar
      rw [hl]
      exact hsidecar
    rw [eq_of_loadSidecar hs hload]
    exact ⟨hparse, trivial⟩

/-! ### Stores in good health -/

/-- A file as it is read from a store in good health, by a cursor with a token that is not cancelled
meanwhile. -/
def Source.ofHealthy (file : Object) (location : Location) (settings : Settings.Download)
    (schema : Schema) (labels : Row) (rows : List Row) (token : Token) : Source σ where
  location
  settings
  schema
  labels
  rows
  Left bytes r := (∃ n, r.Sound file location n ∧ bytes = file.bytes.drop n) ∧ r.Flowing file
  Expected _ := False
  Calm w := w.isCancelled token = false

theorem Source.sure_ofHealthy {token : Token} (hpos : 0 < schema.length)
    (hwidth : ∀ row ∈ labels :: rows, row.length = schema.length)
    (hfile : store.Gives location file) (hbytes : file.bytes = encodeRows (labels :: rows))
    (hsidecar : store.Gives (location.withKeySuffix Sidecar.keySuffix) sidecar)
    (hparse : Sidecar.parse sidecar.bytes = .ok schema)
    (hk : store.Keeps fun w => w.isCancelled token = false) :
    (Source.ofHealthy file location settings schema labels rows token).Sure token store := by
  have hgives {c : Streamed} (hl : c.location = location) : store.Gives c.sidecar sidecar := by
    unfold Streamed.sidecar
    rw [hl]
    exact hsidecar
  exact
    { backs :=
        { columns_pos := hpos
          width := hwidth
          start := ⟨⟨0, .ofLocation file location settings, hbytes.symm⟩,
            .ofLocation file location settings⟩
          carries := by simpa only [Source.ofHealthy, and_assoc] using
            Download.Reader.carries_feed_whole hfile hk (by decide)
          sidecar := fun {c w w' bytes} hl _ hw hload => by
            have hw' := keeps_loadSidecar hk c hw
            rw [hload] at hw'
            rw [eq_of_loadSidecar (hgives hl).serves hload]
            exact ⟨hparse, hw'⟩ }
      expected := fun _ => id
      calm := fun _ => id
      loads := fun {c w} hl _ htoken hw => by
        subst htoken
        exact exists_loadSidecar (hgives hl) hk hw }

end QueryResults.Cursor.Streamed
