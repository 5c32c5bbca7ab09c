import Mathlib.Logic.Relation
import QueryResults.Proofs.Csv.Quoted

/-!
# Where faults come from

The reader of rows makes up no fault of its feed. If a row is not read because of one, this is what
the feed broke with when it was last asked for a piece, and it had not broken before. Every other
answer, a malformed row included, comes without the feed having broken.

## Main definitions

* `Feed.Goes`: asking for pieces, none of which breaks the feed.
* `Csv.Ends`: what an answer says about the pieces asked for.

## Main results

* `Csv.ends_quoted`, `Csv.ends_field`, `Csv.ends_after`, `Csv.ends_fields`, `Csv.ends_nextRow`.
-/

namespace QueryResults

variable {ρ : Type} (feed : Feed ρ)

/-- Asking for pieces leads from one state of a feed to another and does not break it. -/
def Feed.Goes : ρ → ρ → Prop :=
  Relation.ReflTransGen fun s s' => ∃ p, feed.pull s = (p, s') ∧ ∀ f, p ≠ .broken f

namespace Csv

variable {feed} {α β : Type}

/-- How reading has ended: with what the feed broke with in the end, or without its having
broken. -/
def Ends (feed : Feed ρ) (s : ρ) (r : Except ReadError α × Input ρ) : Prop :=
  match r.1 with
  | .error (.source f) => ∃ u, feed.Goes s u ∧ feed.pull u = (.broken f, r.2.rest)
  | _ => feed.Goes s r.2.rest

/-- What comes after pieces that did not break the feed. -/
theorem Ends.trans {s u : ρ} {r : Except ReadError α × Input ρ} (hs : feed.Goes s u)
    (h : Ends feed u r) : Ends feed s r := by
  obtain ⟨x, i⟩ := r
  cases x with
  | ok value => exact Relation.ReflTransGen.trans hs h
  | error e =>
    cases e with
    | malformed fault => exact Relation.ReflTransGen.trans hs h
    | source f =>
      obtain ⟨v, hv, hbroken⟩ := h
      exact ⟨v, Relation.ReflTransGen.trans hs hv, hbroken⟩

/-- An error says the same, whatever value was to be read. -/
theorem Ends.error {s : ρ} {e : ReadError} {i i' : Input ρ}
    (h : Ends feed s ((.error e, i) : Except ReadError α × Input ρ)) (hrest : i'.rest = i.rest) :
    Ends feed s ((.error e, i') : Except ReadError β × Input ρ) := by
  unfold Ends at *
  cases e with
  | malformed fault =>
    rw [show (Except.error (ReadError.malformed fault), i').2.rest = i.rest from hrest]
    exact h
  | source f =>
    rw [show (Except.error (ReadError.source f), i').2.rest = i.rest from hrest]
    exact h

/-- A byte that is shown, or the end, comes from a feed that has not broken. -/
theorem goes_of_peek {i i' : Input ρ} {b : Option UInt8} (h : i.peek feed = (.ok b, i')) :
    feed.Goes i.rest i'.rest := by
  unfold Input.peek at h
  split at h
  · cases h
    exact .refl
  · split at h
    · rename_i hp
      cases h
      exact .single ⟨_, hp, nofun⟩
    · rename_i hp
      cases h
      exact .single ⟨_, hp, nofun⟩
    · cases h

/-- A fault is what the feed has just broken with. -/
theorem pull_of_peek {i i' : Input ρ} {f : StreamFault} (h : i.peek feed = (.error f, i')) :
    feed.pull i.rest = (.broken f, i'.rest) := by
  unfold Input.peek at h
  split at h
  · cases h
  · split at h
    · cases h
    · cases h
    · rename_i hp
      cases h
      exact hp

theorem ends_of_peek {i i' : Input ρ} {f : StreamFault} (h : i.peek feed = (.error f, i')) :
    Ends feed i.rest ((.error (.source f), i') : Except ReadError α × Input ρ) :=
  ⟨i.rest, .refl, pull_of_peek h⟩

/-! ### Rows -/

variable (feed)

theorem ends_quoted (row : Nat) (read : List UInt8) (atQuote : Bool) (i : Input ρ) :
    Ends feed i.rest (scanQuoted feed row read atQuote i) := by
  fun_induction scanQuoted feed row read atQuote i with
  | case1 read atQuote i f i' hp => exact ends_of_peek hp
  | case2 read i i' hp => exact goes_of_peek hp
  | case3 read atQuote i i' hp hq => exact goes_of_peek hp
  | case4 read i b i' hp hb ih => exact .trans (goes_of_peek hp) ih
  | case5 read i b i' hp hb => exact goes_of_peek hp
  | case6 read i b i' hp hb ih => exact .trans (goes_of_peek hp) ih
  | case7 read i b i' hp hb ih => exact .trans (goes_of_peek hp) ih

theorem ends_field (row : Nat) (i : Input ρ) : Ends feed i.rest (readField feed row i) := by
  unfold readField
  split
  · rename_i hp
    exact ends_of_peek hp
  · rename_i hp
    exact goes_of_peek hp
  · rename_i b i' hp
    have hgoes := goes_of_peek hp
    split
    · have hquoted := ends_quoted feed row [] false i'.skip
      rw [← readQuoted_nil] at hquoted
      split
      · rename_i hr
        rw [hr] at hquoted
        exact .trans hgoes (hquoted.error rfl)
      · rename_i bytes i'' hr
        rw [hr] at hquoted
        split
        · exact Relation.ReflTransGen.trans hgoes hquoted
        · exact Relation.ReflTransGen.trans hgoes hquoted
    · exact hgoes

theorem ends_after (row field columns : Nat) (i : Input ρ) :
    Ends feed i.rest (expectAfter feed row field columns i) := by
  unfold expectAfter
  split
  · rename_i hp
    exact ends_of_peek hp
  · rename_i hp
    exact goes_of_peek hp
  · rename_i hp
    have hgoes := goes_of_peek hp
    generalize (if field = columns then newline else comma) = expected
    split
    · exact hgoes
    · exact hgoes

theorem ends_fields (row columns left : Nat) (i : Input ρ) :
    Ends feed i.rest (readFields feed row columns left i) := by
  induction left generalizing i with
  | zero => exact Relation.ReflTransGen.refl
  | succ left ih =>
    unfold readFields
    have hfield := ends_field feed row i
    split
    · rename_i hr
      rw [hr] at hfield
      exact hfield.error rfl
    · rename_i value i₁ hr
      rw [hr] at hfield
      have hafter := ends_after feed row (columns - left) columns i₁
      split
      · rename_i hr'
        rw [hr'] at hafter
        exact .trans hfield (hafter.error rfl)
      · rename_i i₂ hr'
        rw [hr'] at hafter
        have hrest := ih i₂
        split
        · rename_i hr''
          rw [hr''] at hrest
          exact .trans hfield (.trans hafter (hrest.error rfl))
        · rename_i hr''
          rw [hr''] at hrest
          exact .trans hfield (.trans hafter hrest)

theorem ends_nextRow (r : Reader ρ) :
    Ends feed r.input.rest ((r.nextRow feed).1, (r.nextRow feed).2.input) := by
  unfold Reader.nextRow
  split
  · exact Relation.ReflTransGen.refl
  · split
    · rename_i hp
      exact ends_of_peek hp
    · rename_i hp
      exact goes_of_peek hp
    · rename_i b i hp
      have hfields := ends_fields feed (r.rowsRead + 1) r.columns r.columns i
      have hgoes := goes_of_peek hp
      split
      · rename_i hr
        rw [hr] at hfields
        exact .trans hgoes (hfields.error rfl)
      · rename_i hr
        rw [hr] at hfields
        exact .trans hgoes hfields

end Csv

end QueryResults
