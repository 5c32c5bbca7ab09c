import Mathlib
import QueryResults.Proofs.Settings.Numbers
import QueryResults.Proofs.Settings.Order
import QueryResults.Settings.Assignment

/-!
# What a property leaves alone

A property that is set in place is read to its end before anything is written. So a property that is
refused leaves all settings as they were, and whether it is refused depends on nothing but the
property itself.

A property that is accepted touches the setting of its key and no other. The waits between checks
have four settings, each with a key: the first wait, whether the waits grow, and the cap and the
factor that growing waits have. Each is set without the others, except that the cap and the factor
come and go with growth. A property set again changes nothing more.

## Main definitions

* `Key.content`, `Settings.keyless`: what the settings hold, key by key, and what no key names.
* `Key.Touches`: settings before and after the setting of one key was set.

## Main results

* `Settings.eq_of_content_eq`: settings that hold the same are the same.
* `Key.run_assign`: a property is read before anything is written.
* `Key.touches_apply`: a change touches the setting of its key only.
* `Settings.assign_touches`: what setting a property in place does.
-/

namespace QueryResults

namespace Pacing

/-- A pacing is known from its four settings. -/
theorem eq_of_settings_eq {p q : Pacing} (hgrows : p.grows = q.grows)
    (hinterval : p.interval = q.interval) (hcap : p.cap? = q.cap?)
    (hfactor : p.factor? = q.factor?) : p = q := by
  cases p with
  | fixed span => cases q with
    | fixed span' => exact congrArg fixed hinterval
    | growing initial' factor' cap' => cases hgrows
  | growing initial factor cap => cases q with
    | fixed span' => cases hgrows
    | growing initial' factor' cap' =>
      cases hinterval
      cases hcap
      cases hfactor
      rfl

end Pacing

namespace Settings

/-! ### What settings hold -/

/-- What a setting holds. -/
inductive Content where
  | text (held : Option String)
  | backend (held : Backend)
  | growth (on : Bool)
  /-- Growing waits have numbers that other waits do not have. -/
  | number (held : Option Nat)
  deriving DecidableEq, Repr

/-- What the setting of a key holds. -/
def Key.content (s : Settings) : Key → Content
  | endpoint => .text s.endpoint
  | storeEndpoint => .text s.storeEndpoint
  | database => .text s.query.database
  | workgroup => .text s.query.workgroup
  | output => .text s.query.output
  | logLevel => .text s.log.level
  | logFile => .text s.log.file
  | backend => .backend s.reading.backend
  | pollGrowing => .growth s.polling.grows
  | key => .number (key.held? s)

/-- What no key names: the wait before a request is sent again, the number of connections, and the
names of the application. -/
def keyless (s : Settings) : Duration × Nat × Option String × Agent :=
  (s.transport.retryDelay, s.transport.maxConnections, s.transport.userAgent, s.agent)

/-- Settings that hold the same under every key and where there is none are the same. -/
theorem eq_of_content_eq {s s' : Settings} (hkeys : ∀ key : Key, key.content s = key.content s')
    (hkeyless : s.keyless = s'.keyless) : s = s' := by
  have hnanos : Function.Injective Duration.nanos := by
    rintro ⟨m⟩ ⟨n⟩ h
    exact congrArg Duration.mk h
  have hnarrow : Function.Injective UInt32.toNat := fun _ _ h => UInt32.toNat_inj.1 h
  have span {a b : Duration} (h : Content.number (some a.nanos) = .number (some b.nanos)) :
      a = b := hnanos (Option.some.inj (Content.number.inj h))
  have narrow {a b : UInt32} (h : Content.number (some a.toNat) = .number (some b.toNat)) :
      a = b := hnarrow (Option.some.inj (Content.number.inj h))
  have wide {a b : UInt64} (h : Content.number (some a.toNat) = .number (some b.toNat)) :
      a = b := UInt64.toNat_inj.1 (Option.some.inj (Content.number.inj h))
  have hpolling : s.polling = s'.polling :=
    Pacing.eq_of_settings_eq (Content.growth.inj (hkeys .pollGrowing))
      (span (hkeys .pollInterval))
      (Option.map_injective hnanos (Content.number.inj (hkeys .pollMaxInterval)))
      (Option.map_injective hnarrow (Content.number.inj (hkeys .pollFactor)))
  obtain ⟨_, _, ⟨_, _, _⟩, ⟨_, _, _, _, _, _⟩, _, ⟨_, _, _⟩, ⟨_, _, _, _, _⟩, ⟨_, _⟩, _⟩ := s
  obtain ⟨_, _, ⟨_, _, _⟩, ⟨_, _, _, _, _, _⟩, _, ⟨_, _, _⟩, ⟨_, _, _, _, _⟩, ⟨_, _⟩, _⟩ := s'
  cases hkeyless
  cases hpolling
  cases hkeys .endpoint
  cases hkeys .storeEndpoint
  cases hkeys .database
  cases hkeys .workgroup
  cases hkeys .output
  cases hkeys .backend
  cases hkeys .pageSize
  cases hkeys .logLevel
  cases hkeys .logFile
  cases span (hkeys .pageTimeout)
  cases span (hkeys .downloadRetryDelay)
  cases span (hkeys .readTimeout)
  cases span (hkeys .connectTimeout)
  cases span (hkeys .transportReadTimeout)
  cases narrow (hkeys .downloadRetries)
  cases narrow (hkeys .transportRetries)
  cases wide (hkeys .chunkBuffer)
  cases wide (hkeys .lowWatermark)
  rfl

/-! ### What a change touches -/

/-- Settings before and after the setting of a key was set. The cap and the factor of waits come and
go with growth, which has a key of its own; all other settings stay as they are. -/
structure Key.Touches (key : Key) (s s' : Settings) : Prop where
  others : ∀ other, other ≠ key → other.content s' = other.content s ∨
    key = .pollGrowing ∧ key.content s' ≠ key.content s ∧
      (other = .pollMaxInterval ∨ other = .pollFactor)
  keyless : s'.keyless = s.keyless

/-- Where the setting of the key holds what it held before, nothing has changed at all. -/
theorem Key.Touches.eq {key : Key} {s s' : Settings} (h : key.Touches s s')
    (hkey : key.content s' = key.content s) : s' = s := by
  refine eq_of_content_eq (fun other => ?_) h.keyless
  by_cases hother : other = key
  · rw [hother, hkey]
  · exact (h.others other hother).resolve_right fun hgrowth => hgrowth.2.1 hkey

namespace Change

variable {a : Change}

theorem interval_pace (ha : a.key ≠ .pollInterval) (p : Pacing) :
    (a.pace p).interval = p.interval := by
  cases a with
  | pollInterval span => exact absurd rfl ha
  | pollGrowing on => cases on <;> cases p <;> rfl
  | _ => cases p <;> rfl

theorem cap?_pace (ha : a.key ≠ .pollMaxInterval) {p : Pacing}
    (hgrows : (a.pace p).grows = p.grows) : (a.pace p).cap? = p.cap? := by
  cases a with
  | pollMaxInterval span => exact absurd rfl ha
  | pollGrowing on => cases on <;> cases p <;> first | rfl | cases hgrows
  | _ => cases p <;> rfl

theorem factor?_pace (ha : a.key ≠ .pollFactor) {p : Pacing}
    (hgrows : (a.pace p).grows = p.grows) : (a.pace p).factor? = p.factor? := by
  cases a with
  | pollFactor factor => exact absurd rfl ha
  | pollGrowing on => cases on <;> cases p <;> first | rfl | cases hgrows
  | _ => cases p <;> rfl

theorem content_apply {s : Settings} {other : Key} (hne : other ≠ a.key)
    (hgrows : other = .pollMaxInterval ∨ other = .pollFactor →
      (a.apply s).polling.grows = s.polling.grows) :
    other.content (a.apply s) = other.content s := by
  cases other with
  | pollGrowing => exact congrArg Content.growth (a.grows_apply hne.symm s)
  | pollInterval =>
    simp only [Key.content, Key.held?, polling_apply, interval_pace hne.symm]
  | pollMaxInterval =>
    have hgrows := hgrows (.inl rfl)
    rw [polling_apply] at hgrows
    simp only [Key.content, Key.held?, polling_apply, cap?_pace hne.symm hgrows]
  | pollFactor =>
    have hgrows := hgrows (.inr rfl)
    rw [polling_apply] at hgrows
    simp only [Key.content, Key.held?, polling_apply, factor?_pace hne.symm hgrows]
  | _ =>
    cases a <;> first
      | rfl
      | exact absurd rfl hne

/-- A change touches the setting of its key only. -/
theorem touches_apply (a : Change) (s : Settings) : a.key.Touches s (a.apply s) where
  keyless := by cases a <;> rfl
  others := by
    intro other hne
    by_cases hgrows : (a.apply s).polling.grows = s.polling.grows
    · exact .inl (content_apply hne fun _ => hgrows)
    by_cases hother : other = .pollMaxInterval ∨ other = .pollFactor
    · have hkey : a.key = .pollGrowing := by
        by_contra hkey
        exact hgrows (a.grows_apply hkey s)
      refine .inr ⟨hkey, ?_, hother⟩
      rw [hkey]
      exact fun hcontent => hgrows (Content.growth.inj hcontent)
    · exact .inl (content_apply hne fun h => absurd h hother)

/-- A change made again leaves the setting of its key as it is. -/
theorem content_apply_apply (a : Change) (s : Settings) :
    a.key.content (a.apply (a.apply s)) = a.key.content (a.apply s) := by
  obtain ⟨_, _, _, _, polling, _, _, _, _⟩ := s
  cases a with
  | pollInterval span | pollMaxInterval span | pollFactor factor => cases polling <;> rfl
  | pollGrowing on => cases on <;> cases polling <;> rfl
  | _ => rfl

/-- A change made again changes nothing. -/
theorem apply_apply (a : Change) (s : Settings) : a.apply (a.apply s) = a.apply s :=
  (a.touches_apply (a.apply s)).eq (a.content_apply_apply s)

/-- What a change puts in place does not depend on what was there before. -/
theorem content_apply_key (a : Change) {s t : Settings} (hs : a.key.content s ≠ .number none)
    (ht : a.key.content t ≠ .number none) :
    a.key.content (a.apply s) = a.key.content (a.apply t) := by
  obtain ⟨_, _, _, _, p, _, _, _, _⟩ := s
  obtain ⟨_, _, _, _, q, _, _, _, _⟩ := t
  cases a with
  | pollInterval span => cases p <;> cases q <;> rfl
  | pollMaxInterval span | pollFactor factor =>
    cases p with
    | fixed span => exact absurd rfl hs
    | growing _ _ _ => cases q with
      | fixed span => exact absurd rfl ht
      | growing _ _ _ => rfl
  | pollGrowing on => cases on <;> cases p <;> cases q <;> rfl
  | _ => rfl

end Change

/-! ### Setting properties in place -/

/-- What is read is handed on as it is. -/
theorem liftM_ok_bind {α β : Type} (a : α) (f : α → Editing β) :
    (liftM (.ok a : Except PropertyError α) : Editing α) >>= f = f a := rfl

/-- A property is read to its end before anything is written: what cannot be read leaves the
settings as they were, and what can be read is written as the change it stands for. -/
theorem Key.run_assign (key : Key) (value : String) (s : Settings) :
    (key.assign value).run.run s =
      match key.read value with
      | .ok change => (.ok (), change.apply s)
      | .error e => (.error e, s) := by
  cases key with
  | endpoint | storeEndpoint | database | workgroup | output | logLevel | logFile => rfl
  | backend =>
    simp only [assign, read]
    cases readBackend value <;> rfl
  | pageTimeout | downloadRetryDelay | readTimeout | connectTimeout | transportReadTimeout =>
    simp only [assign, read]
    cases readMillis value <;> rfl
  | downloadRetries | chunkBuffer | lowWatermark | transportRetries =>
    simp only [assign, read]
    cases readNumber value <;> rfl
  | pageSize =>
    simp only [assign, read, readPageSize]
    cases readNumber value with
    | error e => rfl
    | ok n =>
      have hread : ∀ f : UInt64 → Except PropertyError Nat, (Except.ok n >>= f) = f n :=
        fun _ => rfl
      rw [liftM_ok_bind, hread]
      by_cases hn : n.toNat = 0 ∨ maxPageSize < n.toNat
      · simp only [if_pos hn]
        rfl
      · simp only [if_neg hn]
        rfl
  | pollInterval | pollMaxInterval =>
    simp only [assign, read]
    cases readMillis value with
    | error e => rfl
    | ok span =>
      obtain ⟨_, _, _, _, polling, _, _, _, _⟩ := s
      cases polling <;> rfl
  | pollFactor =>
    simp only [assign, read]
    cases readNumber value with
    | error e => rfl
    | ok n =>
      obtain ⟨_, _, _, _, polling, _, _, _, _⟩ := s
      cases polling <;> rfl
  | pollGrowing =>
    simp only [assign, read]
    cases readFlag value with
    | error e => rfl
    | ok on =>
      obtain ⟨_, _, _, _, polling, _, _, _, _⟩ := s
      cases on <;> cases polling <;> rfl

/-- Setting a property in place comes to the same as reading it and making the change. -/
theorem assign_eq (s : Settings) (name value : String) :
    s.assign name value =
      match s.setProperty name value with
      | .ok s' => (.ok (), s')
      | .error e => (.error e, s) := by
  unfold assign setProperty readProperty
  cases Key.ofName? name with
  | none => rfl
  | some key =>
    simp only [Key.run_assign]
    cases key.read value <;> rfl

/-- A property is refused as invalid, whatever the settings, which then stay as they are; or it is
accepted, whatever the settings, and touches the setting of its key only. This then holds the same
whatever it held before, if there is such a setting, and setting the property again changes
nothing. -/
theorem assign_touches (name value : String) :
    (∃ e : Failure, e.kind = .invalidArgument ∧
      ∀ s : Settings, s.assign name value = (.error e, s)) ∨
    ∃ key : Key, key.name = name ∧ ∃ after : Settings → Settings,
      (∀ s, s.assign name value = (.ok (), after s) ∧ key.Touches s (after s) ∧
        (after s).assign name value = (.ok (), after s)) ∧
      ∀ s t, key.content s ≠ .number none → key.content t ≠ .number none →
        key.content (after s) = key.content (after t) := by
  rcases setProperty_cases name value with ⟨change, hname, hset⟩ | ⟨e, he, hset⟩
  · refine .inr ⟨change.key, hname, change.apply, fun s => ⟨?_, change.touches_apply s, ?_⟩,
      fun s t hs ht => change.content_apply_key hs ht⟩
    · rw [assign_eq, hset]
    · rw [assign_eq, hset, change.apply_apply]
  · refine .inl ⟨e, he, fun s => ?_⟩
    rw [assign_eq, hset]

end Settings

end QueryResults
