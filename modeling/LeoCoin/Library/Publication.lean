import Mathlib.Logic.Function.Iterate
import LeoCoin.Library.Transition

/-! # A published pointer with a version counter

Writers replace a shared pointer under a lock and then bump a version counter,
still under the lock; `announcing` says that a pointer has been stored whose bump
is still to come.  One follower keeps its own copy of the pointer together with a
recorded version.  It polls: when the recorded version differs from the counter it
takes the pointer under the lock, retires its old copy, loads the counter and
records it.

The follower reads the pointer and the counter at two different moments, so what
it believes depends on where the writers' bumps land:

* `live_of_run` — retiring is safe: what is published is never retired, and
  nothing is retired twice, provided no bump lands while a fresh follower has
  recorded a version and not yet read the pointer;
* `agreed_of_run` — believing is right: a follower whose recorded version equals
  the counter holds the published pointer, provided no bump lands between its
  reading the pointer and its loading the counter, and the counter does not come
  round.
-/

namespace Library.Publication

open Library.Transition

variable {α V : Type}

/-- Where the follower stands in its protocol. -/
inductive Phase (α V : Type) where
  /-- has neither a pointer nor a version -/
  | unborn : Phase α V
  /-- has recorded a version and is about to read its first pointer -/
  | primed : Phase α V
  /-- works on its copy -/
  | settled : Phase α V
  /-- has seen a version other than the recorded one -/
  | stale : Phase α V
  /-- has taken the pointer; `old` is still to be retired -/
  | taken (old : α) : Phase α V
  /-- has retired its old copy; the counter is still to be loaded -/
  | spent : Phase α V
  /-- has loaded the counter; it is still to be recorded -/
  | loaded (version : V) : Phase α V

structure Cell (α V : Type) where
  published : α
  version : V
  announcing : Bool
  followed : Option α
  recorded : V
  phase : Phase α V
  retired : List α

inductive Event (α : Type) where
  | publish (pointer : α) : Event α
  | announce : Event α
  | discard (pointer : α) : Event α
  | prime : Event α
  | adopt : Event α
  | notice : Event α
  | take : Event α
  | retire : Event α
  | load : Event α
  | record : Event α

/-- A pointer nobody uses: not shared, not followed, not about to be retired and
not retired. -/
structure Unused (cell : Cell α V) (pointer : α) : Prop where
  notPublished : pointer ≠ cell.published
  notFollowed : cell.followed ≠ some pointer
  notTaken : cell.phase ≠ .taken pointer
  notRetired : pointer ∉ cell.retired

inductive Step (bump : V → V) : Cell α V → Event α → Cell α V → Prop where
  | publish {cell : Cell α V} {pointer : α} :
      cell.announcing = false → Unused cell pointer →
      Step bump cell (.publish pointer) { cell with published := pointer, announcing := true }
  | announce {cell : Cell α V} :
      cell.announcing = true →
      Step bump cell .announce { cell with version := bump cell.version, announcing := false }
  | discard {cell : Cell α V} {pointer : α} :
      Unused cell pointer →
      Step bump cell (.discard pointer) { cell with retired := pointer :: cell.retired }
  | prime {cell : Cell α V} :
      cell.phase = .unborn →
      Step bump cell .prime { cell with recorded := cell.version, phase := .primed }
  | adopt {cell : Cell α V} :
      cell.phase = .primed → cell.announcing = false →
      Step bump cell .adopt { cell with followed := some cell.published, phase := .settled }
  | notice {cell : Cell α V} :
      cell.phase = .settled → cell.recorded ≠ cell.version →
      Step bump cell .notice { cell with phase := .stale }
  | take {cell : Cell α V} {old : α} :
      cell.phase = .stale → cell.announcing = false → cell.followed = some old →
      Step bump cell .take { cell with followed := some cell.published, phase := .taken old }
  | retire {cell : Cell α V} {old : α} :
      cell.phase = .taken old →
      Step bump cell .retire { cell with retired := old :: cell.retired, phase := .spent }
  | load {cell : Cell α V} :
      cell.phase = .spent →
      Step bump cell .load { cell with phase := .loaded cell.version }
  | record {cell : Cell α V} {version : V} :
      cell.phase = .loaded version →
      Step bump cell .record { cell with recorded := version, phase := .settled }

theorem Unused.step {bump : V → V} {before after : Cell α V} {event : Event α} {pointer : α}
    (unused : Unused before pointer) (notPublished : event ≠ .publish pointer)
    (notDiscarded : event ≠ .discard pointer) (step : Step bump before event after) :
    Unused after pointer := by
  obtain ⟨notShared, notFollowed, notTaken, notRetired⟩ := unused
  cases step with
  | @publish other _ _ =>
    have different : pointer ≠ other := fun same => notPublished (by rw [same])
    exact ⟨different, notFollowed, notTaken, notRetired⟩
  | announce _ => exact ⟨notShared, notFollowed, notTaken, notRetired⟩
  | @discard other _ =>
    have different : pointer ≠ other := fun same => notDiscarded (by rw [same])
    exact ⟨notShared, notFollowed, notTaken, List.not_mem_cons_of_ne_of_not_mem different notRetired⟩
  | prime _ => exact ⟨notShared, notFollowed, by simp, notRetired⟩
  | adopt _ _ =>
    exact ⟨notShared, fun same => notShared (Option.some.inj same).symm, by simp, notRetired⟩
  | notice _ _ => exact ⟨notShared, notFollowed, by simp, notRetired⟩
  | @take old _ _ followed =>
    -- what is taken up is the published pointer, what is put down the followed one
    refine ⟨notShared, fun same => notShared (Option.some.inj same).symm, ?_, notRetired⟩
    intro same
    cases same
    exact notFollowed followed
  | @retire old phase =>
    have different : pointer ≠ old := fun same => notTaken (by rw [phase, same])
    exact ⟨notShared, notFollowed, by simp, List.not_mem_cons_of_ne_of_not_mem different notRetired⟩
  | load _ => exact ⟨notShared, notFollowed, by simp, notRetired⟩
  | record _ => exact ⟨notShared, notFollowed, by simp, notRetired⟩

/-! ## Retiring is safe -/

/-- What the follower's phase says about a copy that is still the published one. -/
def Coherent (cell : Cell α V) : Prop :=
  match cell.phase with
  | .unborn => cell.followed = none
  | .primed => cell.followed = none ∧ cell.recorded = cell.version
  | .settled => cell.followed = some cell.published →
      cell.recorded = cell.version ∧ cell.announcing = false
  | .stale => cell.followed ≠ some cell.published
  | .taken old => (cell.followed = some cell.published → cell.announcing = false) ∧
      old ≠ cell.published ∧ cell.followed ≠ some old
  | .spent => cell.followed = some cell.published → cell.announcing = false
  | .loaded version => cell.followed = some cell.published →
      version = cell.version ∧ cell.announcing = false

/-- No bump while a fresh follower has recorded a version and holds no pointer. -/
def AdoptsUndisturbed (cell : Cell α V) (event : Event α) : Prop :=
  event = .announce → cell.phase ≠ .primed

theorem Coherent.publish {cell : Cell α V} {pointer : α} (coherent : Coherent cell)
    (unused : Unused cell pointer) : Coherent { cell with published := pointer, announcing := true } := by
  have notFollowed := unused.notFollowed
  have notTaken := unused.notTaken
  cases phase : cell.phase with
  | unborn | primed => simpa [Coherent, phase] using coherent
  | settled | stale | spent | loaded version => simp [Coherent, notFollowed]
  | taken old =>
    simp only [Coherent, phase] at coherent ⊢
    have different : old ≠ pointer := fun same => notTaken (by rw [phase, same])
    exact ⟨fun same => absurd same notFollowed, different, coherent.2.2⟩

theorem Coherent.announce {bump : V → V} {cell : Cell α V} (coherent : Coherent cell)
    (announcing : cell.announcing = true) (notPrimed : cell.phase ≠ .primed) :
    Coherent { cell with version := bump cell.version, announcing := false } := by
  cases phase : cell.phase with
  | unborn | stale => simpa [Coherent, phase] using coherent
  | primed => exact absurd phase notPrimed
  | settled | loaded version =>
    -- the copy is not the published pointer: its bump was still to come
    simp only [Coherent, phase] at coherent ⊢
    intro same
    exact absurd (coherent same).2 (by simp [announcing])
  | spent => simp [Coherent]
  | taken old =>
    simp only [Coherent, phase] at coherent ⊢
    exact ⟨fun _ => trivial, coherent.2⟩

theorem coherent_step {bump : V → V} {before after : Cell α V} {event : Event α} (coherent : Coherent before)
    (undisturbed : AdoptsUndisturbed before event) (step : Step bump before event after) : Coherent after := by
  cases step with
  | publish _ unused => exact coherent.publish unused
  | announce announcing => exact coherent.announce announcing (undisturbed rfl)
  | discard unused => exact coherent
  | prime phase =>
    simp only [Coherent, phase] at coherent
    exact ⟨coherent, rfl⟩
  | adopt phase still =>
    simp only [Coherent, phase] at coherent
    exact fun _ => ⟨coherent.2, still⟩
  | notice phase different =>
    simp only [Coherent, phase] at coherent
    exact fun same => different (coherent same).1
  | @take old phase still followed =>
    simp only [Coherent, phase] at coherent
    have notPublished : old ≠ before.published := fun same => coherent (by rw [followed, same])
    exact ⟨fun _ => still, notPublished, fun same => notPublished (Option.some.inj same).symm⟩
  | @retire old phase =>
    simp only [Coherent, phase] at coherent
    exact coherent.1
  | load phase =>
    -- loaded now, the version is that of the pointer taken before, if that is still published
    simp only [Coherent, phase] at coherent
    exact fun same => ⟨rfl, coherent same⟩
  | record phase =>
    simp only [Coherent, phase] at coherent
    exact coherent

/-- What is about to be retired has already been replaced. -/
theorem Coherent.retires_replaced {cell : Cell α V} {old : α} (coherent : Coherent cell)
    (phase : cell.phase = .taken old) : old ≠ cell.published ∧ cell.followed ≠ some old := by
  simp only [Coherent, phase] at coherent
  exact coherent.2

structure Live (cell : Cell α V) : Prop where
  publishedKept : cell.published ∉ cell.retired
  followedKept : ∀ pointer, cell.followed = some pointer → pointer ∉ cell.retired
  takenKept : ∀ old, cell.phase = .taken old → old ∉ cell.retired
  retiredOnce : cell.retired.Nodup
  coherent : Coherent cell

/-- One step lemma: every event the guard lets through keeps the cell live. -/
theorem live_step {bump : V → V} {before after : Cell α V} {event : Event α} (live : Live before)
    (undisturbed : AdoptsUndisturbed before event) (step : Step bump before event after) : Live after := by
  have coherent := coherent_step live.coherent undisturbed step
  have published := live.publishedKept
  cases step with
  | publish _ unused => exact ⟨unused.notRetired, live.followedKept, live.takenKept, live.retiredOnce, coherent⟩
  | announce announcing => exact ⟨published, live.followedKept, live.takenKept, live.retiredOnce, coherent⟩
  | @discard pointer unused =>
    refine ⟨?_, ?_, ?_, List.nodup_cons.mpr ⟨unused.notRetired, live.retiredOnce⟩, coherent⟩
    · exact List.not_mem_cons_of_ne_of_not_mem unused.notPublished.symm published
    · intro followed same
      have different : followed ≠ pointer := fun equal => unused.notFollowed (by rw [← equal, same])
      exact List.not_mem_cons_of_ne_of_not_mem different (live.followedKept followed same)
    · intro old taken
      have different : old ≠ pointer := fun equal => unused.notTaken (by rw [← equal, taken])
      exact List.not_mem_cons_of_ne_of_not_mem different (live.takenKept old taken)
  | prime phase | notice phase different | load phase | record phase =>
    exact ⟨published, live.followedKept, by simp, live.retiredOnce, coherent⟩
  | adopt phase still =>
    refine ⟨published, ?_, by simp, live.retiredOnce, coherent⟩
    intro pointer adopted
    cases adopted
    exact published
  | @take old phase still followed =>
    refine ⟨published, ?_, ?_, live.retiredOnce, coherent⟩
    · intro pointer taken
      cases taken
      exact published
    · intro taken same
      cases same
      exact live.followedKept _ followed
  | @retire old phase =>
    obtain ⟨notPublished, notFollowed⟩ := live.coherent.retires_replaced phase
    refine ⟨?_, ?_, by simp, List.nodup_cons.mpr ⟨live.takenKept old phase, live.retiredOnce⟩, coherent⟩
    · exact List.not_mem_cons_of_ne_of_not_mem notPublished.symm published
    · intro pointer same
      have different : pointer ≠ old := fun equal => notFollowed (by rw [← equal, same])
      exact List.not_mem_cons_of_ne_of_not_mem different (live.followedKept pointer same)

theorem live_of_run {bump : V → V} {first last : Cell α V} {events : List (Event α)}
    (initially : Live first) (run : Run (Guarded (Step bump) AdoptsUndisturbed) first events last) :
    Live last :=
  run.invariant Live initially fun _ _ _ live taken => live_step live taken.1 taken.2

/-! ## Believing is right -/

/-- The follower believes it is current. -/
def Agreed (cell : Cell α V) : Prop :=
  cell.announcing = false → cell.recorded = cell.version → cell.followed = some cell.published

/-- No bump between the follower's reading the pointer and its loading the counter. -/
def TakesUndisturbed (cell : Cell α V) (event : Event α) : Prop :=
  event = .announce → (∀ old, cell.phase ≠ .taken old) ∧ cell.phase ≠ .spent

/-- The counter does not come back to a value within `period` bumps. -/
def Period (bump : V → V) (period : Nat) : Prop :=
  ∀ version distance, 0 < distance → distance < period → bump^[distance] version ≠ version

def announcements (events : List (Event α)) : Nat :=
  events.countP fun event => match event with | .announce => true | _ => false

/-- The counter is at most `limit` bumps ahead of `reference`, and a follower that
is not behind holds the published pointer. -/
def Behind (bump : V → V) (limit : Nat) (cell : Cell α V) (reference : V) : Prop :=
  ∃ distance, distance ≤ limit ∧ cell.version = bump^[distance] reference ∧
    (distance = 0 → cell.announcing = false → cell.followed = some cell.published)

def Tracks (bump : V → V) (limit : Nat) (cell : Cell α V) : Prop :=
  match cell.phase with
  | .unborn | .primed => False
  | .settled => Behind bump limit cell cell.recorded
  | .stale => True
  | .taken _ | .spent => cell.announcing = false → cell.followed = some cell.published
  | .loaded version => Behind bump limit cell version

theorem Behind.publish {bump : V → V} {limit : Nat} {cell : Cell α V} {reference : V} {pointer : α}
    (behind : Behind bump limit cell reference) :
    Behind bump limit { cell with published := pointer, announcing := true } reference := by
  obtain ⟨distance, bound, ahead, _⟩ := behind
  exact ⟨distance, bound, ahead, fun _ => by simp⟩

theorem Behind.announce {bump : V → V} {limit : Nat} {cell : Cell α V} {reference : V}
    (behind : Behind bump limit cell reference) :
    Behind bump (limit + 1) { cell with version := bump cell.version, announcing := false } reference := by
  obtain ⟨distance, bound, ahead, _⟩ := behind
  have further : bump cell.version = bump^[distance + 1] reference := by
    rw [Function.iterate_succ_apply', ahead]
  exact ⟨distance + 1, by omega, further, by omega⟩

theorem tracks_step {bump : V → V} {limit : Nat} {before after : Cell α V} {event : Event α}
    (tracks : Tracks bump limit before) (undisturbed : TakesUndisturbed before event)
    (step : Step bump before event after) :
    Tracks bump (limit + announcements [event]) after := by
  cases step with
  | publish _ unused =>
    cases phase : before.phase with
    | unborn | primed => simp [Tracks, phase] at tracks
    | settled | loaded version =>
      simp only [Tracks, phase] at tracks ⊢
      exact tracks.publish
    | stale | taken old | spent => simp [Tracks]
  | announce announcing =>
    obtain ⟨notTaken, notSpent⟩ := undisturbed rfl
    cases phase : before.phase with
    | unborn | primed => simp [Tracks, phase] at tracks
    | settled | loaded version =>
      simp only [Tracks, phase] at tracks ⊢
      exact tracks.announce
    | stale => simp [Tracks]
    | taken old => exact absurd phase (notTaken old)
    | spent => exact absurd phase notSpent
  | discard unused => exact tracks
  | prime phase => simp [Tracks, phase] at tracks
  | adopt phase still => simp [Tracks, phase] at tracks
  | notice phase different => simp [Tracks]
  | take phase still followed => simp [Tracks]
  | retire phase =>
    simp only [Tracks, phase] at tracks
    exact tracks
  | load phase =>
    simp only [Tracks, phase] at tracks
    exact ⟨0, by omega, rfl, fun _ => tracks⟩
  | record phase =>
    simp only [Tracks, phase] at tracks
    exact tracks

theorem announcements_append (left right : List (Event α)) :
    announcements (left ++ right) = announcements left + announcements right :=
  List.countP_append

theorem tracks_of_run {bump : V → V} {first last : Cell α V} {events : List (Event α)}
    (initially : Tracks bump 0 first)
    (run : Run (Guarded (Step bump) TakesUndisturbed) first events last) :
    Tracks bump (announcements events) last := by
  apply run.invariantAlong (fun sofar cell => Tracks bump (announcements sofar) cell) initially
  intro sofar before event after tracks taken
  rw [announcements_append]
  exact tracks_step tracks taken.1 taken.2

theorem agreed_of_run {bump : V → V} {period : Nat} (periodic : Period bump period)
    {first last : Cell α V} {events : List (Event α)} (initially : Tracks bump 0 first)
    (run : Run (Guarded (Step bump) TakesUndisturbed) first events last)
    (few : announcements events < period) (settled : last.phase = .settled) : Agreed last := by
  intro still same
  have tracks := tracks_of_run initially run
  simp only [Tracks, settled] at tracks
  obtain ⟨distance, bound, ahead, current⟩ := tracks
  cases distance with
  | zero => exact current rfl still
  | succ distance =>
    -- some bumps ahead and yet equal: the counter would have come round
    rw [← same] at ahead
    exact absurd ahead.symm (periodic _ _ (by omega) (by omega))

end Library.Publication
