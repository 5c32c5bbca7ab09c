import QueryResults.Proofs.Cursor.Drain
import QueryResults.Proofs.Paged.Drain
import QueryResults.Proofs.Sidecar.RoundTrip
import QueryResults.Proofs.Streamed.File
import QueryResults.Service.Desk

/-!
# Pages and files agree

The same table can be kept in the pages of a query service, cut wherever one likes as long as no
page is empty, and in a result file with its sidecar. A cursor over the pages and a cursor over the
file show the same: the columns, and at every step the answer, the values of the row, its number and
the position. Both are proved to show what is to be shown of the table, the one from the rows that
are left of the pages, the other from the bytes that are left of the file.

## Main definitions

* `Cursor.IsCut`: pages that hold a table.

## Main results

* `Paged.shows`, `Streamed.shows`: each kind of cursor shows its table.
* `Cursor.seen_paged_eq_seen_streamed`: what is seen of both is the same.
-/

namespace QueryResults.Cursor

open Csv (encodeRows)
open Message (ColumnInfo)
open Service (Page)
open Store (Object)

variable {σ : Type} {connections : Connections σ} {schema : Schema} {bound : Nat}

/-- A cursor over pages shows their rows. -/
theorem Paged.shows : Shows connections (bound + 2) schema fun n todo c w =>
    ∃ c', c = paged c' ∧ Paged.Draining connections.service schema n todo c' w where
  metadata := by
    rintro n todo _ w ⟨c, rfl, h⟩
    obtain ⟨c', w', hm, h'⟩ := h.metadata
    exact ⟨paged c', w', by rw [Cursor.metadata, hm], c', rfl, h'⟩
  row := by
    rintro n row todo _ w ⟨c, rfl, h⟩
    obtain ⟨c', w', hn, hcurrent, hnumber, hposition, h'⟩ := h.row bound
    exact ⟨paged c', w', by rw [Cursor.next, hn]; rfl, hcurrent, hnumber, hposition, c', rfl, h'⟩
  past := by
    rintro n _ w ⟨c, rfl, h⟩
    obtain ⟨c', w', hn, hcurrent, hnumber, hposition, h'⟩ := h.past bound
    exact ⟨paged c', w', by rw [Cursor.next, hn]; rfl, hcurrent, hnumber, hposition, c', rfl, h'⟩

/-- A cursor over a file that is read without failing shows its rows. -/
theorem Streamed.shows {src : Streamed.Source σ} {token : Token}
    (hsrc : src.Sure token connections.objects) :
    Shows connections bound src.schema fun n todo c w =>
      ∃ c', c = streamed c' ∧ Streamed.Draining src token n todo c' w where
  metadata := by
    rintro n todo _ w ⟨c, rfl, h⟩
    obtain ⟨c', w', hm, h'⟩ := h.metadata hsrc
    exact ⟨streamed c', w', by rw [Cursor.metadata, hm], c', rfl, h'⟩
  row := by
    rintro n row todo _ w ⟨c, rfl, h⟩
    obtain ⟨c', w', hn, hcurrent, hnumber, hposition, h'⟩ := h.row hsrc
    exact ⟨streamed c', w', by rw [Cursor.next, hn], hcurrent, hnumber, hposition, c', rfl, h'⟩
  past := by
    rintro n _ w ⟨c, rfl, h⟩
    obtain ⟨c', w', hn, hcurrent, hnumber, hposition, h'⟩ := h.past hsrc
    exact ⟨streamed c', w', by rw [Cursor.next, hn], hcurrent, hnumber, hposition, c', rfl, h'⟩

/-- Pages that hold a table, each of them a row at least; the first brings the columns. -/
structure IsCut (schema : Schema) (table : List Row) (pages : List Page) : Prop where
  columns : ∀ page ∈ pages.head?, page.columns = schema
  nonempty : ∀ page ∈ pages, page.rows ≠ []
  rows : pages.flatMap Page.rows = table

/-- A cursor over pages that was not used yet. -/
theorem Paged.Draining.ofHandle {service : Service (World σ)} {handle : Handle} {token : Token}
    {pageSize : Nat} {w : World σ} {labels : Row} {rows : List Row} {pages : List Page}
    (hcut : IsCut schema (labels :: rows) pages)
    (hreturns : service.Returns handle pageSize token none pages w) (timeout : Duration) :
    Paged.Draining service schema 0 rows
      { Paged.ofHandle handle .onDemand token with pageSize, timeout } w := by
  cases pages with
  | nil => cases hcut.rows
  | cons page pages =>
    refine .unopened rfl ?_
    exact
      { trigger := rfl
        pending := rfl
        started := rfl
        schema_eq := rfl
        rowNumber := rfl
        rows := rfl
        afterLast := rfl
        pages := ⟨labels, page, pages, hcut.rows, hcut.columns page rfl, hcut.nonempty, hreturns⟩ }

/-- What is seen of a cursor over pages and of a cursor over a file is the same if both hold the
same table and nothing goes wrong with either. -/
theorem seen_paged_eq_seen_streamed {infos : List ColumnInfo} {labels : Row} {rows : List Row}
    {handle : Handle} {pageSize : Nat} {pages : List Page} {location : Location}
    {file sidecar : Object} {token token' : Token} {w w' : World σ} (hpos : 0 < infos.length)
    (hwritable : ∀ c ∈ infos, Sidecar.IsWritable c)
    (hwidth : ∀ row ∈ labels :: rows, row.length = infos.length)
    (hcut : IsCut (infos.map ColumnInfo.toColumn) (labels :: rows) pages)
    (hreturns : connections.service.Returns handle pageSize token none pages w)
    (hfile : connections.objects.Gives location file)
    (hbytes : file.bytes = encodeRows (labels :: rows))
    (hsidecar : connections.objects.Gives (location.withKeySuffix Sidecar.keySuffix) sidecar)
    (hinfos : sidecar.bytes = Sidecar.encodeInfos infos)
    (hkeeps : connections.objects.Keeps fun v => v.isCancelled token' = false)
    (hw' : w'.isCancelled token' = false) (timeout : Duration) (settings : Settings.Download)
    (uses : List Use) :
    let c := paged { Paged.ofHandle handle .onDemand token with pageSize, timeout }
    let c' := streamed { location, settings, interrupt := token' }
    c.seen connections (bound + 2) uses w = c'.seen connections (bound + 2) uses w' ∧
      c.seen connections (bound + 2) uses w =
        some (shown (infos.map ColumnInfo.toColumn) 0 rows uses) := by
  intro c c'
  have hparse : Sidecar.parse sidecar.bytes = .ok (infos.map ColumnInfo.toColumn) := by
    rw [hinfos]
    exact Sidecar.parse_encodeInfos hwritable (hinfos ▸ sidecar.size_lt)
  have hsure : (Streamed.Source.ofHealthy file location settings
      (infos.map ColumnInfo.toColumn) labels rows token').Sure token' connections.objects :=
    Streamed.Source.sure_ofHealthy (by rwa [List.length_map])
      (fun row hr => (hwidth row hr).trans (List.length_map _).symm) hfile hbytes hsidecar hparse
      hkeeps
  have hpaged : c.seen connections (bound + 2) uses w = _ :=
    Paged.shows.seen_eq ⟨_, rfl, .ofHandle hcut hreturns timeout⟩ uses
  have hstreamed : c'.seen connections (bound + 2) uses w' = _ :=
    (Streamed.shows hsure).seen_eq ⟨_, rfl, .fresh hw'⟩ uses
  exact ⟨hpaged.trans hstreamed.symm, hpaged⟩

/-- Two described columns, the one by its name only. -/
def pairInfos : List ColumnInfo :=
  [{ name := "n", type := "varchar" },
    { name := "v", label := some "value", type := "decimal", precision := 10, scale := 2,
      nullable := some "NOT_NULL" }]

/-- The labels of the columns. -/
def pairLabels : Row := [some "n", some "value"]

/-- Rows with a quote, with NULL and with an empty text. -/
def pairRows : List Row := [[some "a\"b", none], [none, some ""]]

/-- The table in two pages, the first with the labels alone. -/
def pairPages : List Page :=
  [{ columns := pairInfos.map ColumnInfo.toColumn, rows := [pairLabels], next := some "page-2" },
    { columns := [], rows := pairRows, next := none }]

/-- The table as a file. -/
def pairFile : Object := ⟨encodeRows (pairLabels :: pairRows), "v1", by decide +kernel⟩

/-- The sidecar of the file. -/
def pairSidecar : Object := ⟨Sidecar.encodeInfos pairInfos, "v2", by cbv⟩

/-- Where the file lies. -/
def pairLocation : Location := ⟨"bucket", "pair.csv"⟩

/-- A store of file and sidecar, whose bodies are whole. -/
def pairStore : Store (World Desk) :=
  .faltering (fun l => if l = pairLocation then pairFile else pairSidecar) fun w => (none, w)

/-- A desk beside the store. -/
def pairConnections : Connections Desk where
  service := Desk.service id (fun d _ => d) id
  store := some pairStore

/-- The table is seen alike in pages and in the file. -/
theorem seen_paged_eq_seen_streamed_pair :
    (paged (.ofHandle "query-1" .onDemand { number := 1 })).seen pairConnections 2
        [.next, .metadata, .next, .next, .next] { outside := { content := .pages pairPages } } =
      (streamed { location := pairLocation, settings := {}, interrupt := { number := 1 } }).seen
        pairConnections 2 [.next, .metadata, .next, .next, .next]
        { outside := { content := .pages pairPages } } := by
  have hfile : pairStore.Gives pairLocation pairFile :=
    Store.gives_faltering _ (fun _ => rfl) pairLocation
  have hsidecar : pairStore.Gives (pairLocation.withKeySuffix Sidecar.keySuffix) pairSidecar :=
    Store.gives_faltering _ (fun _ => rfl) (pairLocation.withKeySuffix Sidecar.keySuffix)
  have hcut : IsCut (pairInfos.map ColumnInfo.toColumn) (pairLabels :: pairRows) pairPages :=
    { columns := by decide
      nonempty := by decide
      rows := rfl }
  have hreturns : pairConnections.service.Returns "query-1" maxPageSize { number := 1 } none
      pairPages { outside := { content := .pages pairPages } } :=
    ⟨rfl, rfl, by decide, rfl, rfl, by decide, trivial⟩
  have hkeeps : pairStore.Keeps fun w => w.isCancelled { number := 1 } = false :=
    Store.keeps_faltering _ fun _ => id
  exact (seen_paged_eq_seen_streamed (by decide) (by decide) (by decide) hcut hreturns hfile rfl
    hsidecar rfl hkeeps rfl _ {} _).1

end QueryResults.Cursor
