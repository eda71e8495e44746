import LiveQuery.Proofs.Engine.Reads
import LiveQuery.Proofs.Session.Parts
import Mathlib.Logic.Relation

/-!
# Runs of sessions

The caller calls a session while it has control: at the outermost level, and inside its
listeners. A call that waits takes control away until a listener of the caller is told
something, or a call has returned; a listener gives it back when it is through. So calls
nest to any depth, and a run is any sequence of such moments. It is told by the events
that matter for live queries.

**Results.** `Moment.Reached.induction`: what holds at the opening of a session and goes over
from each moment to the next one holds in every run.
-/

namespace LiveQuery

/-! ## Calls and events -/

/-- A call of the caller. -/
inductive Call where
  | write (id : CollectionId) (writes : List Write)
  | insertRow (id : CollectionId) (row : Row)
  | listen (id : CollectionId) (tag : Tag)
  | unsubscribe (subscription : Subscription)
  | materialize (query : BodyId) (options : LiveOptions)
  | preload (id : LiveId)
  | subscribe (id : LiveId) (tag : Tag)
  | onError (id : LiveId) (tag : Tag)
  | dispose (id : LiveId)
  | retain (id : LiveId)
  | release (id : LiveId)

/-- Whether a call returns only when all is told that it gives rise to. -/
def Call.waits : Call → Bool
  | write .. => true
  | insertRow .. => true
  | preload .. => true
  | subscribe .. => true
  | _ => false

/-- What happens to a live query in a run. -/
inductive Event where
  /-- A listener was to join the subscribers. -/
  | asked (live : LiveId) (tag : Tag)
  /-- A batch was handed to the query while it was ready. -/
  | received (live : LiveId) (collection : CollectionId) (batch : List Change)
  /-- A batch was handed on to the engine. -/
  | applied (live : LiveId) (collection : CollectionId) (batch : List Change)
  /-- The engine failed at the batch it was handed. -/
  | failed (live : LiveId)
  /-- A subscriber was told changes. -/
  | told (live : LiveId) (tag : Tag) (changes : List Change)
deriving DecidableEq

namespace Event

/-- The live query of an event. -/
def live : Event → LiveId
  | asked live _ => live
  | received live _ _ => live
  | applied live _ _ => live
  | failed live => live
  | told live _ _ => live

end Event

/-- The event of a call. -/
def Call.events : Call → List Event
  | subscribe id tag => [.asked id tag]
  | _ => []

namespace Session

/-- The session after a call, before what it waits for is done. -/
def call (s : Session) : Call → Session
  | .write id writes => (s.write id writes).1
  | .insertRow id row => (s.insertRow id row).1
  | .listen id tag => (s.listen id tag).1
  | .unsubscribe subscription => s.unsubscribe subscription
  | .materialize query options => (s.materialize query options).1
  | .preload id => (s.preload id).1
  | .subscribe id tag => (s.subscribe id tag).1
  | .onError id tag => s.onError id tag
  | .dispose id => s.dispose id
  | .retain id => s.retain id
  | .release id => s.release id

/-- Whether a batch that is told to a live query is taken in. -/
def accepts (s : Session) (id : LiveId) : Prop :=
  s.keeps id = true ∧ ∃ live, s.live? id = some live ∧ live.status = .ready

instance (s : Session) (id : LiveId) : Decidable (s.accepts id) :=
  decidable_of_iff (s.keeps id = true ∧ (s.live? id).any (·.status = .ready) = true)
    (by simp [accepts, Option.any_eq_true])

/-- The events of working off the next batch of a live query. -/
def workedOff (s : Session) (id : LiveId) : List Event :=
  match s.live? id with
  | none => []
  | some live =>
      match live.status, live.queue with
      | .ready, (collection, batch) :: _ =>
          match Engine.apply collection batch live.engine with
          | .ok _ _ => [.applied id collection batch]
          | .error _ _ => [.applied id collection batch, .failed id]
      | _, _ => []

/-- The events of the next step. -/
def events (s : Session) : List Event :=
  match s.tasks with
  | .notify collection batch (.live id :: _) :: _ =>
      if s.accepts id then [.received id collection batch] else []
  | .workOff id :: _ => s.workedOff id
  | .deliver id changes (tag :: _) :: _ =>
      if (s.live? id).map Live.status = some .disposed then [] else [.told id tag changes]
  | _ => []

/-- Whether the caller owns a live query. -/
def owns (s : Session) (id : LiveId) : Prop :=
  ∃ live, s.live? id = some live ∧ live.handles ≠ 0

end Session

/-! ## Moments -/

/-- A session with what has happened in it. -/
structure History where
  session : Session
  trace : List Event

/-- A point of a run, with whether the caller has control. -/
structure Moment extends History where
  control : Bool

namespace Moment

/-- The calls that are open to the caller: those on live queries it owns. A subscriber goes
by a name of its own, and only the caller's subscriptions are taken back. -/
def Permits (m : Moment) : Call → Prop
  | .preload id => m.session.owns id
  | .subscribe id tag => m.session.owns id ∧ .asked id tag ∉ m.trace
  | .onError id _ => m.session.owns id
  | .dispose id => m.session.owns id
  | .retain id => m.session.owns id
  | .release id => m.session.owns id
  | .unsubscribe (.collection id key) =>
      ∀ live, (m.session.store id).listeners.get? key ≠ some (.live live)
  | _ => True

/-- How a run goes on: with a call, with a listener that is through, or with a step. -/
inductive Next : Moment → Moment → Prop
  | call {m : Moment} (c : Call) (control : m.control = true) (permits : m.Permits c) :
      Next m ⟨⟨m.session.call c, m.trace ++ c.events⟩, !c.waits⟩
  | back {m : Moment} (control : m.control = true) : Next m { m with control := false }
  | step {m : Moment} (control : m.control = false) :
      Next m ⟨⟨m.session.step.1, m.trace ++ m.session.events⟩, m.session.step.2.isSome⟩

/-- A moment of the same run, now or later. -/
def Later : Moment → Moment → Prop :=
  Relation.ReflTransGen Next

end Moment

namespace Session

/-- A session with no live queries and nobody listening. The sources of its plan are told
apart by their numbers and read collections that there are. -/
structure Opened (s : Session) : Prop where
  lives : s.lives = []
  tasks : s.tasks = []
  listeners : ∀ store ∈ s.stores, store.listeners = OrdMap.empty
  sources : s.plan.SourcesApart
  reads : ∀ body ∈ s.plan.bodies, ∀ source ∈ body.sources, ∀ ref,
    source.origin = .collection ref → ref.id < s.stores.length

/-- A session is opened with a collection, and with a plan of one body that reads it. -/
theorem Opened.of_body {plan : Plan} {collection : Collection} {body : Body} {source : Source}
    (bodies : plan.bodies = [body]) (sources : body.sources = [source])
    (first : ∀ ref, source.origin = .collection ref → ref.id = 0) :
    Opened { plan, stores := [{ collection }] } where
  lives := rfl
  tasks := rfl
  listeners store hstore := by
    cases List.mem_singleton.1 hstore
    rfl
  sources body hbody body' hbody' source hsource source' hsource' _ := by
    rw [bodies] at hbody hbody'
    cases List.mem_singleton.1 hbody
    cases List.mem_singleton.1 hbody'
    rw [sources] at hsource hsource'
    cases List.mem_singleton.1 hsource
    cases List.mem_singleton.1 hsource'
    rfl
  reads body hbody source hsource ref horigin := by
    rw [bodies] at hbody
    cases List.mem_singleton.1 hbody
    rw [sources] at hsource
    cases List.mem_singleton.1 hsource
    rw [first ref horigin]
    exact Nat.one_pos

/-- A session with one collection, and a query that puts its rows out. -/
def ofRows : Session where
  plan := (Engine.queryOver ⟨0, "rows"⟩ fun rows => Builder.selectValue (.ref rows)).plan
  stores := [{ collection := .new "rows" none }]

theorem opened_ofRows : ofRows.Opened :=
  .of_body rfl rfl fun _ horigin => by cases horigin; rfl

end Session

/-- A moment of a run from the opening of a session. -/
def Moment.Reached (m : Moment) : Prop :=
  ∃ s : Session, s.Opened ∧ Moment.Later ⟨⟨s, []⟩, true⟩ m

/-- What holds at the beginning and goes over from each moment to the next holds always. -/
theorem Moment.Reached.induction {P : Moment → Prop}
    (start : ∀ s : Session, s.Opened → P ⟨⟨s, []⟩, true⟩)
    (next : ∀ m m', m.Reached → P m → m.Next m' → P m') {m : Moment} (h : m.Reached) : P m := by
  obtain ⟨s, hopened, hlater⟩ := h
  induction hlater with
  | refl => exact start s hopened
  | tail before hnext ih => exact next _ _ ⟨s, hopened, before⟩ ih hnext

theorem Session.Opened.reached {s : Session} (h : s.Opened) : Moment.Reached ⟨⟨s, []⟩, true⟩ :=
  ⟨s, h, .refl⟩

theorem Moment.Reached.next {m m' : Moment} (h : m.Reached) (hnext : m.Next m') : m'.Reached := by
  obtain ⟨s, hopened, hbefore⟩ := h
  exact ⟨s, hopened, hbefore.tail hnext⟩

theorem Moment.Reached.later {m m' : Moment} (h : m.Reached) (hlater : m.Later m') :
    m'.Reached := by
  obtain ⟨s, hopened, hbefore⟩ := h
  exact ⟨s, hopened, hbefore.trans hlater⟩

/-! ## Runs that are given -/

instance (s : Session) (id : LiveId) : Decidable (s.owns id) :=
  decidable_of_iff ((s.live? id).any (·.handles ≠ 0) = true)
    (by simp [Session.owns, Option.any_eq_true])

namespace Moment

instance (m : Moment) : DecidablePred m.Permits
  | .preload id => inferInstanceAs (Decidable (m.session.owns id))
  | .subscribe id tag => inferInstanceAs (Decidable (m.session.owns id ∧ .asked id tag ∉ m.trace))
  | .onError id _ => inferInstanceAs (Decidable (m.session.owns id))
  | .dispose id => inferInstanceAs (Decidable (m.session.owns id))
  | .retain id => inferInstanceAs (Decidable (m.session.owns id))
  | .release id => inferInstanceAs (Decidable (m.session.owns id))
  | .unsubscribe (.collection id key) =>
      match hget : (m.session.store id).listeners.get? key with
      | some (.live live) => .isFalse fun h => h live hget
      | some (.caller tag) => .isTrue fun live h => by simp [hget] at h
      | none => .isTrue fun live h => by simp [hget] at h
  | .unsubscribe (.live _ _) => .isTrue trivial
  | .write _ _ => .isTrue trivial
  | .insertRow _ _ => .isTrue trivial
  | .listen _ _ => .isTrue trivial
  | .materialize _ _ => .isTrue trivial

/-- The run in which the caller makes given calls. Where there is none it gives back control,
or there is a step. -/
def follow : List (Option Call) → Moment → Option Moment
  | [], m => some m
  | some c :: rest, m =>
      if m.control = true ∧ m.Permits c then
        follow rest ⟨⟨m.session.call c, m.trace ++ c.events⟩, !c.waits⟩
      else none
  | none :: rest, m =>
      if m.control = true then follow rest { m with control := false }
      else follow rest ⟨⟨m.session.step.1, m.trace ++ m.session.events⟩, m.session.step.2.isSome⟩

theorem Reached.follow {m m' : Moment} (h : m.Reached) {calls : List (Option Call)}
    (hrun : m.follow calls = some m') : m'.Reached := by
  induction calls generalizing m with
  | nil =>
      cases hrun
      exact h
  | cons call rest ih =>
      cases call with
      | some c =>
          unfold Moment.follow at hrun
          split at hrun
          next hcall => exact ih (h.next (.call c hcall.1 hcall.2)) hrun
          · cases hrun
      | none =>
          unfold Moment.follow at hrun
          split at hrun
          next hcontrol => exact ih (h.next (.back hcontrol)) hrun
          next hcontrol => exact ih (h.next (.step (Bool.eq_false_iff.2 hcontrol))) hrun

end Moment

end LiveQuery
