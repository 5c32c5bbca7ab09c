import Mathlib
import QueryResults.Settings.Property

/-!
# The order of properties

Properties are set one after the other, and two of them need not commute: turning growth on gives
waits that did not grow a cap and a factor, which is lost on caps and factors set before. This
happens only to settings whose waits do not grow. The defaults have waits that grow, and as long as
no property is given twice, growth that has been turned off is not turned on again. So from the
defaults the order of properties does not matter, as long as none is given twice.

## Main definitions

* `Change.key`, `Change.pace`: the key that a change belongs to, and what it makes of the pacing.
* `Settings.Agree`: the same settings, or failures of invalid properties.
* `Settings.Unbroken`: growth is not turned on or off after it has been turned off.

## Main results

* `Change.apply_comm`: changes that belong to different keys commute where waits grow.
* `Settings.setProperty_cases`: what setting a property does.
* `Settings.agree_setProperties_of_perm`, `Settings.ofProperties_perm`: the order does not matter.
-/

namespace QueryResults

namespace Pacing

/-- Whether the waits grow. -/
def grows : Pacing → Bool
  | fixed _ => false
  | growing _ _ _ => true

end Pacing

namespace Settings

/-! ### Changes that commute -/

namespace Change

/-- The key that a change belongs to. -/
def key : Change → Key
  | endpoint _ => .endpoint
  | storeEndpoint _ => .storeEndpoint
  | database _ => .database
  | workgroup _ => .workgroup
  | output _ => .output
  | backend _ => .backend
  | pageSize _ => .pageSize
  | pageTimeout _ => .pageTimeout
  | pollInterval _ => .pollInterval
  | pollMaxInterval _ => .pollMaxInterval
  | pollGrowing _ => .pollGrowing
  | pollFactor _ => .pollFactor
  | downloadRetries _ => .downloadRetries
  | downloadRetryDelay _ => .downloadRetryDelay
  | chunkBuffer _ => .chunkBuffer
  | lowWatermark _ => .lowWatermark
  | readTimeout _ => .readTimeout
  | connectTimeout _ => .connectTimeout
  | transportReadTimeout _ => .transportReadTimeout
  | transportRetries _ => .transportRetries
  | logLevel _ => .logLevel
  | logFile _ => .logFile

/-- What a change makes of the pacing. -/
def pace : Change → Pacing → Pacing
  | pollInterval span => Pacing.withInterval span
  | pollMaxInterval span => Pacing.withCap span
  | pollGrowing on => Pacing.withGrowth on
  | pollFactor factor => Pacing.withFactor factor
  | _ => id

variable {a b : Change}

theorem polling_apply (a : Change) (s : Settings) : (a.apply s).polling = a.pace s.polling := by
  cases a <;> rfl

/-- Changes of waits that do not grow commute as long as they leave them so. -/
theorem pace_comm_fixed (hkey : a.key ≠ b.key) (ha : a.key ≠ .pollGrowing)
    (hb : b.key ≠ .pollGrowing) (span : Duration) :
    b.pace (a.pace (.fixed span)) = a.pace (b.pace (.fixed span)) := by
  cases a <;> cases b <;> first
    | rfl
    | exact absurd rfl hkey
    | exact absurd rfl ha
    | exact absurd rfl hb

/-- Turning growth on or off commutes with every other change of growing waits. -/
theorem pace_comm_pollGrowing (on : Bool) (hb : b.key ≠ .pollGrowing) (initial cap : Duration)
    (factor : UInt32) :
    b.pace ((pollGrowing on).pace (.growing initial factor cap)) =
      (pollGrowing on).pace (b.pace (.growing initial factor cap)) := by
  cases on <;> cases b <;> first
    | rfl
    | exact absurd rfl hb

/-- All changes of growing waits commute. -/
theorem pace_comm_growing (hkey : a.key ≠ b.key) (initial cap : Duration) (factor : UInt32) :
    b.pace (a.pace (.growing initial factor cap)) =
      a.pace (b.pace (.growing initial factor cap)) := by
  cases a <;> cases b <;> first
    | rfl
    | exact absurd rfl hkey
    | exact pace_comm_pollGrowing _ hkey.symm initial cap factor
    | exact (pace_comm_pollGrowing _ hkey initial cap factor).symm

/-- Where waits grow, or neither change decides whether they do, changes of the pacing commute. -/
theorem pace_comm (hkey : a.key ≠ b.key) {p : Pacing}
    (hp : p.grows = true ∨ a.key ≠ .pollGrowing ∧ b.key ≠ .pollGrowing) :
    b.pace (a.pace p) = a.pace (b.pace p) := by
  cases p with
  | fixed span =>
    obtain ⟨ha, hb⟩ := hp.resolve_left Bool.false_ne_true
    exact pace_comm_fixed hkey ha hb span
  | growing initial factor cap => exact pace_comm_growing hkey initial cap factor

/-- But for the pacing, changes that belong to different keys concern different settings. -/
theorem apply_comm_but_polling (hkey : a.key ≠ b.key) (s : Settings) (p : Pacing) :
    { b.apply (a.apply s) with polling := p } = { a.apply (b.apply s) with polling := p } := by
  cases a <;> cases b <;> first
    | rfl
    | exact absurd rfl hkey

/-- Changes that belong to different keys commute where waits grow, or where neither decides whether
they do. -/
theorem apply_comm (hkey : a.key ≠ b.key) {s : Settings}
    (hs : s.polling.grows = true ∨ a.key ≠ .pollGrowing ∧ b.key ≠ .pollGrowing) :
    b.apply (a.apply s) = a.apply (b.apply s) := by
  have hpace : (b.apply (a.apply s)).polling = (a.apply (b.apply s)).polling := by
    simp only [polling_apply]
    exact pace_comm hkey hs
  calc b.apply (a.apply s)
      = { b.apply (a.apply s) with polling := (a.apply (b.apply s)).polling } := by rw [← hpace]
    _ = a.apply (b.apply s) := apply_comm_but_polling hkey s _

/-- Whether waits grow is decided by the properties of one key. -/
theorem grows_apply (ha : a.key ≠ .pollGrowing) (s : Settings) :
    (a.apply s).polling.grows = s.polling.grows := by
  rw [polling_apply]
  generalize s.polling = p
  cases a <;> cases p <;> first
    | rfl
    | exact absurd rfl ha

end Change

/-! ### Setting a property -/

/-- A property of a key stands for a change that belongs to it. -/
theorem Key.key_of_read {k : Key} {value : String} {change : Change}
    (h : k.read value = .ok change) : change.key = k := by
  cases k with
  | endpoint | storeEndpoint | database | workgroup | output | logLevel | logFile =>
    cases h
    rfl
  | backend | pageSize | pageTimeout | pollInterval | pollMaxInterval | pollGrowing | pollFactor
  | downloadRetries | downloadRetryDelay | chunkBuffer | lowWatermark | readTimeout
  | connectTimeout | transportReadTimeout | transportRetries =>
    obtain ⟨y, -, rfl⟩ := exists_of_map_eq_ok h
    rfl

/-- A property is refused as invalid whatever the settings, or it makes one change to any settings,
and the change belongs to its key. -/
theorem setProperty_cases (name value : String) :
    (∃ change : Change, change.key.name = name ∧
      ∀ s : Settings, s.setProperty name value = .ok (change.apply s)) ∨
    ∃ e : Failure, e.kind = .invalidArgument ∧
      ∀ s : Settings, s.setProperty name value = .error e := by
  cases hread : readProperty name value with
  | error e =>
    refine .inr ⟨.invalidArgument (e.message name value), rfl, fun s => ?_⟩
    simp only [setProperty, hread]
  | ok change =>
    refine .inl ⟨change, ?_, fun s => by simp only [setProperty, hread]⟩
    unfold readProperty at hread
    cases hk : Key.ofName? name with
    | none => simp only [hk, reduceCtorEq] at hread
    | some k =>
      rw [hk] at hread
      rw [Key.key_of_read hread, Key.name_of_ofName? hk]

/-! ### Setting properties in any order -/

/-- Two outcomes of setting properties that agree: the same settings, or failures of invalid
properties. -/
inductive Agree : Except Failure Settings → Except Failure Settings → Prop
  | given (s : Settings) : Agree (.ok s) (.ok s)
  | refused {e e' : Failure} (he : e.kind = .invalidArgument) (he' : e'.kind = .invalidArgument) :
      Agree (.error e) (.error e')

theorem Agree.symm {x y : Except Failure Settings} (h : Agree x y) : Agree y x := by
  cases h with
  | given s => exact .given s
  | refused he he' => exact .refused he' he

theorem Agree.trans {x y z : Except Failure Settings} (hxy : Agree x y) (hyz : Agree y z) :
    Agree x z := by
  cases hxy with
  | given s => exact hyz
  | refused he _ => cases hyz with | refused _ he'' => exact .refused he he''

/-- Sets properties one after the other. -/
def setProperties (s : Settings) (properties : List (String × String)) : Except Failure Settings :=
  properties.foldlM (fun s p => s.setProperty p.1 p.2) s

/-- Growth is not turned on or off after it has been turned off: waits grow, or no property to come
decides whether they do. -/
def Unbroken (s : Settings) (properties : List (String × String)) : Prop :=
  s.polling.grows = true ∨ ∀ p ∈ properties, p.1 ≠ Key.pollGrowing.name

theorem Unbroken.perm {s : Settings} {properties properties' : List (String × String)}
    (h : s.Unbroken properties) (hperm : properties.Perm properties') : s.Unbroken properties' :=
  h.imp_right fun hnone p hp => hnone p (hperm.mem_iff.2 hp)

theorem Unbroken.apply {s : Settings} {p : String × String} {properties : List (String × String)}
    (h : s.Unbroken (p :: properties)) (honce : ((p :: properties).map Prod.fst).Nodup)
    {change : Change} (hchange : change.key.name = p.1) :
    (change.apply s).Unbroken properties := by
  obtain ⟨hfresh, -⟩ := List.nodup_cons.1 honce
  by_cases hkey : change.key = .pollGrowing
  · refine .inr fun q hq hname => hfresh (List.mem_map.2 ⟨q, hq, ?_⟩)
    rw [hname, ← hkey, hchange]
  · rw [Unbroken, change.grows_apply hkey]
    exact h.imp_right fun hnone q hq => hnone q (List.mem_cons_of_mem _ hq)

section SetProperties

variable {s s' : Settings} {p q : String × String} {properties : List (String × String)}

theorem setProperties_cons_of_ok (h : s.setProperty p.1 p.2 = .ok s') :
    s.setProperties (p :: properties) = s'.setProperties properties := by
  rw [setProperties, List.foldlM_cons, h]
  rfl

theorem setProperties_cons_of_error {e : Failure} (h : s.setProperty p.1 p.2 = .error e) :
    s.setProperties (p :: properties) = .error e := by
  rw [setProperties, List.foldlM_cons, h]
  rfl

/-- Whatever comes of setting properties agrees with itself, as there is only one kind of
failure. -/
theorem agree_self_setProperties (s : Settings) (properties : List (String × String)) :
    Agree (s.setProperties properties) (s.setProperties properties) := by
  induction properties generalizing s with
  | nil => exact .given s
  | cons p properties ih =>
    rcases setProperty_cases p.1 p.2 with ⟨change, -, hset⟩ | ⟨e, he, hset⟩
    · rw [setProperties_cons_of_ok (hset s)]
      exact ih (change.apply s)
    · rw [setProperties_cons_of_error (hset s)]
      exact .refused he he

/-- A property that is refused is refused in the first place and in the second. -/
theorem agree_setProperties_of_error {e : Failure} (he : e.kind = .invalidArgument)
    (h : ∀ s : Settings, s.setProperty p.1 p.2 = .error e) :
    Agree (s.setProperties (p :: q :: properties)) (s.setProperties (q :: p :: properties)) := by
  rw [setProperties_cons_of_error (h s)]
  rcases setProperty_cases q.1 q.2 with ⟨b, -, hq⟩ | ⟨f, hf, hq⟩
  · rw [setProperties_cons_of_ok (hq s), setProperties_cons_of_error (h _)]
    exact .refused he he
  · rw [setProperties_cons_of_error (hq s)]
    exact .refused he hf

/-- Two properties of different keys can be set in either order, if neither turns growth on or off
after it has been turned off. -/
theorem agree_setProperties_swap (hne : p.1 ≠ q.1) (h : s.Unbroken (p :: q :: properties)) :
    Agree (s.setProperties (p :: q :: properties)) (s.setProperties (q :: p :: properties)) := by
  rcases setProperty_cases p.1 p.2 with ⟨a, ha, hp⟩ | ⟨e, he, hp⟩
  · rcases setProperty_cases q.1 q.2 with ⟨b, hb, hq⟩ | ⟨f, hf, hq⟩
    · have hkey : a.key ≠ b.key := fun heq => hne (by rw [← ha, ← hb, heq])
      have hcomm : b.apply (a.apply s) = a.apply (b.apply s) := by
        refine a.apply_comm hkey (h.imp_right fun hnone => ⟨fun heq => ?_, fun heq => ?_⟩)
        · exact hnone p (by simp) (by rw [← ha, heq])
        · exact hnone q (by simp) (by rw [← hb, heq])
      rw [setProperties_cons_of_ok (hp s), setProperties_cons_of_ok (hq _),
        setProperties_cons_of_ok (hq s), setProperties_cons_of_ok (hp _), hcomm]
      exact agree_self_setProperties _ properties
    · exact (agree_setProperties_of_error hf hq).symm
  · exact agree_setProperties_of_error he hp

end SetProperties

/-- Where growth is not turned on or off after it has been turned off, and no property is given
twice, properties can be set in any order. -/
theorem agree_setProperties_of_perm {properties properties' : List (String × String)}
    (hperm : properties.Perm properties') (s : Settings)
    (honce : (properties.map Prod.fst).Nodup) (h : s.Unbroken properties) :
    Agree (s.setProperties properties) (s.setProperties properties') := by
  induction hperm generalizing s with
  | nil => exact .given s
  | cons p _ ih =>
    rcases setProperty_cases p.1 p.2 with ⟨change, hchange, hset⟩ | ⟨e, he, hset⟩
    · rw [setProperties_cons_of_ok (hset s), setProperties_cons_of_ok (hset s)]
      exact ih _ (List.nodup_cons.1 honce).2 (h.apply honce hchange)
    · rw [setProperties_cons_of_error (hset s), setProperties_cons_of_error (hset s)]
      exact .refused he he
  | swap q p properties =>
    have hne : p.1 ≠ q.1 := by
      have := (List.nodup_cons.1 honce).1
      simp only [List.map_cons, List.mem_cons, not_or] at this
      exact this.1
    exact agree_setProperties_swap hne h
  | trans hperm _ ih₁ ih₂ =>
    exact (ih₁ s honce h).trans
      (ih₂ s ((hperm.map Prod.fst).nodup_iff.1 honce) (h.perm hperm))

/-- If no property of this library is given twice, the settings that properties give do not depend
on their order: they are the same in every order, or the properties are refused as invalid in every
order. -/
theorem ofProperties_perm {properties properties' : List (String × String)}
    (hperm : properties.Perm properties')
    (honce : ((properties.filter fun p => isOurs p.1).map Prod.fst).Nodup) :
    Agree (ofProperties properties) (ofProperties properties') :=
  agree_setProperties_of_perm (hperm.filter _) {} honce (.inl rfl)

/-- Properties of which one makes waits equal, among others that concern waits and two of somebody
else. -/
def mixedProperties : List (String × String) :=
  [("athena.poll.max_interval_ms", "800"), ("user", "a"), ("athena.poll.backoff", "no"),
    ("user", "b"), ("athena.poll.interval_ms", "200"), ("athena.poll.backoff_factor", "3")]

/-- The waits all equal the first, wherever it is set. -/
theorem ofProperties_perm_mixed :
    mixedProperties.Perm mixedProperties.reverse ∧
      ((mixedProperties.filter fun p => isOurs p.1).map Prod.fst).Nodup ∧
      ofProperties mixedProperties = .ok { polling := .fixed (.ofMillis 200) } ∧
      ofProperties mixedProperties.reverse = .ok { polling := .fixed (.ofMillis 200) } := by
  have hperm : mixedProperties.Perm mixedProperties.reverse :=
    (List.reverse_perm mixedProperties).symm
  have honce : ((mixedProperties.filter fun p => isOurs p.1).map Prod.fst).Nodup := by decide
  have hset : ofProperties mixedProperties = .ok { polling := .fixed (.ofMillis 200) } := by cbv
  have hagree := ofProperties_perm hperm honce
  rw [hset] at hagree
  cases hreverse : ofProperties mixedProperties.reverse with
  | error e => rw [hreverse] at hagree; cases hagree
  | ok s => rw [hreverse] at hagree; cases hagree; exact ⟨hperm, honce, hset, rfl⟩

end Settings

end QueryResults
