import LiveQuery.Proofs.Session.Ageing
import LiveQuery.Proofs.Session.Named
import LiveQuery.Proofs.Session.Stack

/-!
# Batches of live queries

A live query that is busy has one task that works off its queue, and what is told of a
batch stands above that task until it is done. So the next batch is not handed to the
engine before, and a batch that comes in meanwhile waits at the end of the queue.

**Results.** `Queued` holds in every run (`Moment.Reached.queued`). `batches_in_order`:
batches reach the engine one at a time and in the order in which they were received, until
the live query stops.
-/

namespace LiveQuery

/-! ## What is counted -/

/-- The live query whose queue a task works off. -/
def Task.worksOff? : Task → Option LiveId
  | workOff id => some id
  | _ => none

/-- The live queries whose queues are worked off, the innermost first. -/
def Session.working (s : Session) : List LiveId :=
  s.tasks.filterMap Task.worksOff?

/-- A live query that has not stopped. -/
def Live.Running (live : Live) : Prop :=
  live.status = .idle ∨ live.status = .ready

/-- The batches that a live query received. -/
def received (id : LiveId) (trace : List Event) : List (CollectionId × List Change) :=
  trace.filterMap fun
    | .received live collection batch => if live = id then some (collection, batch) else none
    | _ => none

/-- The batches of a live query that were handed to its engine. -/
def applied (id : LiveId) (trace : List Event) : List (CollectionId × List Change) :=
  trace.filterMap fun
    | .applied live collection batch => if live = id then some (collection, batch) else none
    | _ => none

theorem received_append (id : LiveId) (es es' : List Event) :
    received id (es ++ es') = received id es ++ received id es' :=
  List.filterMap_append

theorem applied_append (id : LiveId) (es es' : List Event) :
    applied id (es ++ es') = applied id es ++ applied id es' :=
  List.filterMap_append

theorem received_eq_nil {id : LiveId} {es : List Event} (h : ∀ e ∈ es, e.live ≠ id) :
    received id es = [] := by
  refine List.filterMap_eq_nil_iff.2 fun e he => ?_
  cases e with
  | received live collection batch => exact if_neg (h _ he)
  | _ => rfl

theorem applied_eq_nil {id : LiveId} {es : List Event} (h : ∀ e ∈ es, e.live ≠ id) :
    applied id es = [] := by
  refine List.filterMap_eq_nil_iff.2 fun e he => ?_
  cases e with
  | applied live collection batch => exact if_neg (h _ he)
  | _ => rfl

/-- An engine that was loaded and then had batches applied to it, one after another. -/
inductive Engine.Ran : Engine → List (CollectionId × List Change) → Prop
  | loaded {contents engine loaded} (h : Engine.load contents engine = .ok () loaded) :
      Ran loaded []
  | applied {engine batches collection batch changes after} (before : Ran engine batches)
      (h : Engine.apply collection batch engine = .ok changes after) :
      Ran after (batches ++ [(collection, batch)])

/-- The queues of a session, and what was received and applied: each batch that was
received by a live query that still runs has been applied or waits, in this order. -/
structure Queued (h : History) : Prop where
  once : h.session.working.Nodup
  busy : ∀ id live, h.session.live? id = some live →
    (live.busy = true ↔ id ∈ h.session.working)
  resting : ∀ id live, h.session.live? id = some live → live.busy = false → live.queue = []
  waiting : ∀ id live, h.session.live? id = some live → live.Running →
    received id h.trace = applied id h.trace ++ live.queue
  unheard : ∀ id live, h.session.live? id = some live → live.status = .idle →
    received id h.trace = []
  ran : ∀ id live, h.session.live? id = some live → live.status = .ready →
    live.engine.Ran (applied id h.trace)
  sooner : ∀ id, applied id h.trace <+: received id h.trace
  stopped : ∀ id live, h.session.live? id = some live → .failed id ∈ h.trace → ¬live.Running

namespace Queued

variable {s : Session} {es : List Event} {id : LiveId} {live : Live}

theorem opened (h : s.Opened) : Queued ⟨s, []⟩ where
  once := by simp [Session.working, h.tasks]
  busy id live hlive := by simp [Session.live?, h.lives] at hlive
  resting id live hlive := by simp [Session.live?, h.lives] at hlive
  waiting id live hlive := by simp [Session.live?, h.lives] at hlive
  unheard id live hlive := by simp [Session.live?, h.lives] at hlive
  ran id live hlive := by simp [Session.live?, h.lives] at hlive
  sooner id := List.prefix_rfl
  stopped id live hlive := by simp [Session.live?, h.lives] at hlive

/-- Nothing else of a session has a part in the queues. -/
theorem of_same (h : Queued ⟨s, es⟩) {s' : Session} (hworking : s'.working = s.working)
    (hlives : ∀ id live', s'.live? id = some live' → ∃ live, s.live? id = some live ∧
      live'.busy = live.busy ∧ live'.queue = live.queue ∧ live'.status = live.status ∧
        live'.engine = live.engine) :
    Queued ⟨s', es⟩ where
  once := by
    change s'.working.Nodup
    rw [hworking]
    exact h.once
  busy id live' hid := by
    obtain ⟨live, hlive, hbusy, _, _⟩ := hlives id live' hid
    change live'.busy = true ↔ id ∈ s'.working
    rw [hworking, hbusy]
    exact h.busy id live hlive
  resting id live' hid hrest := by
    obtain ⟨live, hlive, hbusy, hqueue, _⟩ := hlives id live' hid
    rw [hqueue]
    exact h.resting id live hlive (hbusy ▸ hrest)
  waiting id live' hid hrunning := by
    obtain ⟨live, hlive, _, hqueue, hstatus, _⟩ := hlives id live' hid
    rw [hqueue]
    exact h.waiting id live hlive (by rwa [Live.Running, ← hstatus])
  unheard id live' hid hidle := by
    obtain ⟨live, hlive, _, _, hstatus, _⟩ := hlives id live' hid
    exact h.unheard id live hlive (hstatus ▸ hidle)
  ran id live' hid hready := by
    obtain ⟨live, hlive, _, _, hstatus, hengine⟩ := hlives id live' hid
    rw [hengine]
    exact h.ran id live hlive (hstatus ▸ hready)
  sooner := h.sooner
  stopped id live' hid hfailed hrunning := by
    obtain ⟨live, hlive, _, _, hstatus, _⟩ := hlives id live' hid
    exact h.stopped id live hlive hfailed (by rwa [Live.Running, ← hstatus])

theorem setTasks (h : Queued ⟨s, es⟩) {tasks : List Task}
    (hworking : tasks.filterMap Task.worksOff? = s.working) : Queued ⟨s.setTasks tasks, es⟩ :=
  h.of_same hworking fun _ live hlive => ⟨live, hlive, rfl, rfl, rfl, rfl⟩

theorem lt_of_mem_working (hnamed : Named ⟨s, es⟩) (hid : id ∈ s.working) :
    id < s.lives.length := by
  obtain ⟨task, htask, hworks⟩ := List.mem_filterMap.1 hid
  refine hnamed.tasks task htask id ?_
  cases task with
  | workOff => exact hworks
  | _ => cases hworks

theorem push (h : Queued ⟨s, es⟩) {task : Task} (htask : task.worksOff? = none) :
    Queued ⟨s.push task, es⟩ :=
  h.setTasks (List.filterMap_cons_none htask)

theorem modifyStore (h : Queued ⟨s, es⟩) (c : CollectionId) (f : Store → Store) :
    Queued ⟨s.modifyStore c f, es⟩ :=
  h.of_same rfl fun _ live hlive => ⟨live, hlive, rfl, rfl, rfl, rfl⟩

theorem giveUp (h : Queued ⟨s, es⟩) (id : LiveId) : Queued ⟨s.giveUp id, es⟩ := by
  refine h.of_same (by simp [Session.working]) fun k live' hk => ?_
  rw [Session.live?_giveUp, Option.map_eq_some_iff] at hk
  obtain ⟨live, hlive, rfl⟩ := hk
  refine ⟨live, hlive, ?_⟩
  split <;> exact ⟨rfl, rfl, rfl, rfl⟩

/-- When something happens to one live query, its own queue is all there is to look at. -/
theorem of_one (h : Queued ⟨s, es⟩) (s' : Session) (after : Live) (new : List Event)
    (hlives : ∀ k, s'.live? k = if k = id then some after else s.live? k)
    (hown : ∀ e ∈ new, e.live = id)
    (hworking : ∀ k, k ≠ id → (k ∈ s'.working ↔ k ∈ s.working)) (honce : s'.working.Nodup)
    (hbusy : after.busy = true ↔ id ∈ s'.working) (hrest : after.busy = false → after.queue = [])
    (hwaiting : after.Running → received id (es ++ new) = applied id (es ++ new) ++ after.queue)
    (hunheard : after.status = .idle → received id (es ++ new) = [])
    (hran : after.status = .ready → after.engine.Ran (applied id (es ++ new)))
    (hsooner : applied id (es ++ new) <+: received id (es ++ new))
    (hstopped : .failed id ∈ es ++ new → ¬after.Running) : Queued ⟨s', es ++ new⟩ := by
  have hothers : ∀ k, k ≠ id → ∀ e ∈ new, e.live ≠ k := fun k hk e he heq =>
    hk (heq.symm.trans (hown e he))
  have hreceived : ∀ k, k ≠ id → received k (es ++ new) = received k es := fun k hk => by
    rw [received_append, received_eq_nil (hothers k hk), List.append_nil]
  have happlied : ∀ k, k ≠ id → applied k (es ++ new) = applied k es := fun k hk => by
    rw [applied_append, applied_eq_nil (hothers k hk), List.append_nil]
  refine ⟨honce, fun k live' hk => ?_, fun k live' hk hbusy' => ?_,
    fun k live' hk hrunning => ?_, fun k live' hk hidle => ?_, fun k live' hk hready => ?_,
    fun k => ?_, fun k live' hk hfailed => ?_⟩
  · change s'.live? k = some live' at hk
    rw [hlives] at hk
    split at hk
    next heq =>
      cases hk
      exact heq ▸ hbusy
    next hne => exact (h.busy k live' hk).trans (hworking k hne).symm
  · change s'.live? k = some live' at hk
    rw [hlives] at hk
    split at hk
    · cases hk
      exact hrest hbusy'
    · exact h.resting k live' hk hbusy'
  · change s'.live? k = some live' at hk
    rw [hlives] at hk
    split at hk
    next heq =>
      cases hk
      exact heq ▸ hwaiting hrunning
    next hne =>
      change received k (es ++ new) = applied k (es ++ new) ++ live'.queue
      rw [hreceived k hne, happlied k hne]
      exact h.waiting k live' hk hrunning
  · change s'.live? k = some live' at hk
    rw [hlives] at hk
    split at hk
    next heq =>
      cases hk
      exact heq ▸ hunheard hidle
    next hne => exact (hreceived k hne).trans (h.unheard k live' hk hidle)
  · change s'.live? k = some live' at hk
    rw [hlives] at hk
    split at hk
    next heq =>
      cases hk
      exact heq ▸ hran hready
    next hne =>
      change live'.engine.Ran (applied k (es ++ new))
      rw [happlied k hne]
      exact h.ran k live' hk hready
  · change applied k (es ++ new) <+: received k (es ++ new)
    by_cases heq : k = id
    · exact heq ▸ hsooner
    · rw [hreceived k heq, happlied k heq]
      exact h.sooner k
  · change s'.live? k = some live' at hk
    rw [hlives] at hk
    split at hk
    next heq =>
      cases hk
      exact hstopped (heq ▸ hfailed)
    next hne =>
      refine h.stopped k live' hk ((List.mem_append.1 hfailed).resolve_right fun hnew => ?_)
      exact hothers k hne _ hnew rfl

/-- A live query may stop and lose its queue, but nothing else may happen to the queue. -/
theorem setLive (h : Queued ⟨s, es⟩) (found : s.live? id = some live) (after : Live)
    (busy : after.busy = live.busy) (queue : after.queue = live.queue ∨ after.queue = [])
    (running : after.Running → live.Running ∧ after.queue = live.queue)
    (idle : after.status = .idle → live.status = .idle)
    (ran : after.status = .ready → after.engine.Ran (applied id es)) :
    Queued ⟨s.setLive id after, es⟩ := by
  have hone := h.of_one (s.setLive id after) after []
    (Session.live?_setLive found after) (fun e he => absurd he List.not_mem_nil)
    (fun _ _ => Iff.rfl) h.once (busy ▸ h.busy id live found) ?_ ?_ ?_ ?_ ?_ ?_
  · simpa using hone
  · intro hbusy
    rcases queue with hsame | hnone
    · rw [hsame]
      exact h.resting id live found (busy ▸ hbusy)
    · exact hnone
  · intro hrunning
    rw [List.append_nil, (running hrunning).2]
    exact h.waiting id live found (running hrunning).1
  · intro hidle
    rw [List.append_nil]
    exact h.unheard id live found (idle hidle)
  · rw [List.append_nil]
    exact ran
  · rw [List.append_nil]
    exact h.sooner id
  · rw [List.append_nil]
    exact fun hfailed hrunning => h.stopped id live found hfailed (running hrunning).1

/-- What subscribers ask for and are told has no part in the queues. -/
theorem addEvents (h : Queued ⟨s, es⟩) {new : List Event}
    (hreceived : ∀ id, received id new = []) (happlied : ∀ id, applied id new = [])
    (hfailed : ∀ id, .failed id ∉ new) : Queued ⟨s, es ++ new⟩ where
  once := h.once
  busy := h.busy
  resting := h.resting
  waiting id live hid hrunning := by
    rw [received_append, applied_append, hreceived, happlied, List.append_nil, List.append_nil]
    exact h.waiting id live hid hrunning
  unheard id live hid hidle := by
    rw [received_append, hreceived, List.append_nil]
    exact h.unheard id live hid hidle
  ran id live hid hready := by
    rw [applied_append, happlied, List.append_nil]
    exact h.ran id live hid hready
  sooner id := by
    rw [received_append, applied_append, hreceived, happlied, List.append_nil, List.append_nil]
    exact h.sooner id
  stopped id live hid hmem := by
    rcases List.mem_append.1 hmem with hmem | hmem
    · exact h.stopped id live hid hmem
    · exact absurd hmem (hfailed id)

/-- Asking is all that is new. -/
def Asks (new : List Event) : Prop :=
  ∀ e ∈ new, ∃ id tag, e = .asked id tag

theorem addAsked (h : Queued ⟨s, es⟩) {new : List Event} (asks : Asks new) :
    Queued ⟨s, es ++ new⟩ := by
  refine h.addEvents (fun id => ?_) (fun id => ?_) fun id hmem => ?_
  · refine List.filterMap_eq_nil_iff.2 fun e he => ?_
    obtain ⟨_, _, rfl⟩ := asks e he
    rfl
  · refine List.filterMap_eq_nil_iff.2 fun e he => ?_
    obtain ⟨_, _, rfl⟩ := asks e he
    rfl
  · obtain ⟨_, _, heq⟩ := asks _ hmem
    cases heq

theorem asks_one (id : LiveId) (tag : Tag) : Asks [.asked id tag] :=
  fun _ he => ⟨id, tag, List.mem_singleton.1 he⟩

theorem asks_of_coming {before : Live} {new : List Event} (coming : Coming id es live before new) :
    Asks new := fun _ he => by
  obtain ⟨tag, heq⟩ := coming.eq_asked he
  exact ⟨id, tag, heq⟩

/-- A new live query has an empty queue, and nothing has happened to it. -/
theorem create (h : Queued ⟨s, es⟩) (hnamed : Named ⟨s, es⟩) (options : LiveOptions) (engine : Engine) :
    Queued ⟨s.create options engine, es⟩ := by
  have hworking : (s.create options engine).working = s.working := by
    simp [Session.working]
  have hunnamed : s.lives.length ∉ s.working := fun hid =>
    Nat.lt_irrefl _ (lt_of_mem_working hnamed hid)
  have hunknown : ∀ e ∈ es, e.live ≠ s.lives.length := fun e he heq =>
    Nat.lt_irrefl _ (heq ▸ hnamed.events e he)
  refine ⟨?_, fun id live hid => ?_, fun id live hid hrest => ?_,
    fun id live hid hrunning => ?_, fun id live hid hidle => ?_, fun id live hid hready => ?_,
    h.sooner, fun id live hid hfailed => ?_⟩
  · change (s.create options engine).working.Nodup
    rw [hworking]
    exact h.once
  · change live.busy = true ↔ id ∈ (s.create options engine).working
    rw [hworking]
    rw [Session.live?_create] at hid
    split at hid
    next heq =>
      cases hid
      rw [heq]
      exact ⟨fun hbusy => (nomatch hbusy), fun hmem => absurd hmem hunnamed⟩
    · exact h.busy id live hid
  · rw [Session.live?_create] at hid
    split at hid
    · cases hid
      rfl
    · exact h.resting id live hid hrest
  · rw [Session.live?_create] at hid
    split at hid
    next heq =>
      cases hid
      rw [heq, received_eq_nil hunknown, applied_eq_nil hunknown]
      rfl
    · exact h.waiting id live hid hrunning
  · rw [Session.live?_create] at hid
    split at hid
    next heq => exact heq ▸ received_eq_nil hunknown
    · exact h.unheard id live hid hidle
  · rw [Session.live?_create] at hid
    split at hid
    · cases hid
      cases hready
    · exact h.ran id live hid hready
  · rw [Session.live?_create] at hid
    split at hid
    next heq => exact absurd heq (hunknown _ hfailed)
    · exact h.stopped id live hid hfailed

theorem received_one (id : LiveId) (collection : CollectionId) (batch : List Change) :
    received id [.received id collection batch] = [(collection, batch)] ∧
      applied id [.received id collection batch] = [] := by
  simp [received, applied]

theorem applied_one (id : LiveId) (collection : CollectionId) (batch : List Change)
    {new : List Event} (hnew : new = [] ∨ new = [.failed id]) :
    received id (.applied id collection batch :: new) = [] ∧
      applied id (.applied id collection batch :: new) = [(collection, batch)] := by
  rcases hnew with rfl | rfl <;> simp [received, applied]

/-- A batch that is received waits at the end of the queue. -/
theorem receive (h : Queued ⟨s, es⟩) (found : s.live? id = some live)
    (status : live.status = .ready) {s' : Session} {collection : CollectionId}
    {batch : List Change}
    (hlives : ∀ k, s'.live? k
      = if k = id then some (live.enqueue collection batch) else s.live? k)
    (hworking : ∀ k, k ≠ id → (k ∈ s'.working ↔ k ∈ s.working)) (honce : s'.working.Nodup)
    (hbusy : id ∈ s'.working) : Queued ⟨s', es ++ [.received id collection batch]⟩ := by
  obtain ⟨hreceived, happlied⟩ := received_one id collection batch
  have hwaiting := h.waiting id live found (.inr status)
  refine h.of_one _ _ _ hlives (by simp [Event.live]) hworking honce
    ⟨fun _ => hbusy, fun _ => rfl⟩ (fun hrest => (nomatch hrest)) ?_
    (fun hidle => (nomatch status.symm.trans hidle)) ?_ ?_ ?_
  · intro _
    rw [received_append, applied_append, hreceived, happlied, List.append_nil, hwaiting,
      List.append_assoc]
    rfl
  · intro hready
    rw [applied_append, happlied, List.append_nil]
    exact h.ran id live found hready
  · rw [received_append, applied_append, happlied, List.append_nil]
    exact (h.sooner id).trans (List.prefix_append _ _)
  · intro hfailed
    refine absurd (.inr status) (h.stopped id live found ?_)
    simpa using hfailed

/-- The batch that has waited longest is handed to the engine. -/
theorem apply (h : Queued ⟨s, es⟩) (found : s.live? id = some live)
    (status : live.status = .ready) {collection : CollectionId} {batch : List Change}
    {queue : List (CollectionId × List Change)} (next : live.queue = (collection, batch) :: queue)
    (s' : Session) (after : Live)
    (hlives : ∀ k, s'.live? k = if k = id then some after else s.live? k)
    (hworking : s'.working = s.working) (hbusy : after.busy = live.busy)
    (hqueue : after.queue = queue) (hidle : after.status ≠ .idle) {new : List Event}
    (hnew : (new = [] ∧ ∃ changes, Engine.apply collection batch live.engine
      = .ok changes after.engine) ∨ new = [.failed id] ∧ ¬after.Running) :
    Queued ⟨s', es ++ .applied id collection batch :: new⟩ := by
  obtain ⟨hreceived, happlied⟩ := applied_one id collection batch (hnew.imp And.left And.left)
  have hwaiting := h.waiting id live found (.inr status)
  have hsame : received id (es ++ .applied id collection batch :: new)
      = applied id (es ++ .applied id collection batch :: new) ++ after.queue := by
    rw [received_append, applied_append, hreceived, happlied, List.append_nil, hwaiting, next,
      hqueue, List.append_assoc]
    rfl
  refine h.of_one _ _ _ hlives ?_ (fun k _ => by rw [hworking]) (hworking ▸ h.once)
    (by rw [hbusy, hworking]; exact h.busy id live found) ?_ (fun _ => hsame)
    (fun hstatus => absurd hstatus hidle) ?_ ?_ ?_
  · rcases hnew with ⟨rfl, _⟩ | ⟨rfl, _⟩ <;> simp [Event.live]
  · intro hrest
    have := h.resting id live found (hbusy ▸ hrest)
    rw [next] at this
    cases this
  · intro hready
    rcases hnew with ⟨_, changes, hengine⟩ | ⟨_, hstopped⟩
    · rw [applied_append, happlied]
      exact (h.ran id live found status).applied hengine
    · exact absurd (.inr hready) hstopped
  · rw [hsame]
    exact List.prefix_append _ _
  · intro hfailed
    rcases hnew with ⟨rfl, _⟩ | ⟨_, hstopped⟩
    · exact absurd (.inr status) (h.stopped id live found (by simpa using hfailed))
    · exact hstopped

/-- A live query whose queue is worked off, or that has stopped, is not busy any more. -/
theorem rest (h : Queued ⟨s, es⟩) {others : List Task} (tasks : s.tasks = .workOff id :: others)
    (found : s.live? id = some live) (through : live.status ≠ .ready ∨ live.queue = []) :
    Queued ⟨(s.setTasks others).setLive id live.rest, es⟩ := by
  have hworking : s.working = id :: others.filterMap Task.worksOff? := by
    simp [Session.working, tasks, Task.worksOff?]
  have honce := h.once
  change s.working.Nodup at honce
  rw [hworking] at honce
  obtain ⟨hid, honce⟩ := List.nodup_cons.1 honce
  have hempty : live.Running → live.queue = [] := by
    rintro (hidle | hready)
    · have hnone := h.waiting id live found (.inl hidle)
      rw [h.unheard id live found hidle] at hnone
      exact (List.append_eq_nil_iff.1 hnone.symm).2
    · exact through.resolve_left (not_not.2 hready)
  have hone := h.of_one ((s.setTasks others).setLive id live.rest) live.rest []
    (Session.live?_setLive (s := s.setTasks others) found live.rest)
    (fun e he => absurd he List.not_mem_nil) ?_ honce
    ⟨fun hbusy => (nomatch hbusy), fun hmem => absurd hmem hid⟩ (fun _ => rfl) ?_ ?_ ?_ ?_ ?_
  · simpa using hone
  · intro k hk
    rw [hworking]
    exact ⟨List.mem_cons_of_mem _, fun hmem => (List.mem_cons.1 hmem).resolve_left hk⟩
  · intro hrunning
    have hwaiting := h.waiting id live found hrunning
    rw [hempty hrunning] at hwaiting
    rw [List.append_nil]
    exact hwaiting
  · intro hidle
    rw [List.append_nil]
    exact h.unheard id live found hidle
  · rw [List.append_nil]
    exact h.ran id live found
  · rw [List.append_nil]
    exact h.sooner id
  · rw [List.append_nil]
    exact h.stopped id live found

theorem stopped_halt (live : Live) (error : EvalError) : ¬(live.halt error).Running := by
  rintro (h | h) <;> cases h

/-- The queue of a live query that is evaluated for the first time. -/
theorem setReady (h : Queued ⟨s, es⟩) (found : s.live? id = some live)
    (status : live.status = .idle) (after : Live) (busy : after.busy = live.busy)
    (queue : after.queue = live.queue) (ready : after.status = .ready) {contents : CollectionId → Rows}
    (loaded : Engine.load contents live.engine = .ok () after.engine) :
    Queued ⟨s.setLive id after, es⟩ := by
  refine h.setLive found after busy (.inl queue) (fun _ => ⟨.inl status, queue⟩)
    (fun hidle => (nomatch ready.symm.trans hidle)) fun _ => ?_
  have hnone := h.sooner id
  change applied id es <+: received id es at hnone
  rw [h.unheard id live found status, List.prefix_nil] at hnone
  rw [hnone]
  exact .loaded loaded

theorem setSame (h : Queued ⟨s, es⟩) (found : s.live? id = some live) (after : Live)
    (busy : after.busy = live.busy) (queue : after.queue = live.queue)
    (status : after.status = live.status) (engine : after.engine = live.engine) :
    Queued ⟨s.setLive id after, es⟩ :=
  h.setLive found after busy (.inl queue)
    (fun hrunning => ⟨by rwa [Live.Running, ← status], queue⟩) (fun hidle => status ▸ hidle)
    fun hready => engine ▸ h.ran id live found (status ▸ hready)

/-- Each turn keeps the queues. -/
theorem turn {h h' : History} (hnamed : Named h) (hqueued : Queued h) (hturn : Turn h h') :
    Queued h' := by
  cases hturn with
  | push task callable =>
      refine hqueued.push ?_
      cases task with
      | workOff => exact callable.elim
      | _ => rfl
  | @pop s es task others tasks done =>
      refine hqueued.setTasks ?_
      cases task with
      | workOff id =>
          have hid : id ∈ s.working := by simp [Session.working, tasks, Task.worksOff?]
          have hlt := lt_of_mem_working hnamed hid
          exact absurd (List.getElem?_eq_none_iff.1 done) (Nat.not_le_of_lt hlt)
      | _ =>
          rw [Session.working, tasks]
          exact (List.filterMap_cons_none rfl).symm
  | @pass s _ _ _ _ _ _ tasks =>
      refine hqueued.setTasks ?_
      rw [Session.working, tasks, List.filterMap_cons_none rfl, List.filterMap_cons_none rfl]
  | @passAlarm s _ _ _ _ _ tasks =>
      refine hqueued.setTasks ?_
      rw [Session.working, tasks, List.filterMap_cons_none rfl, List.filterMap_cons_none rfl]
  | @tell s es id changes tag rest others tasks status =>
      have htold : Queued ⟨s.setTasks (.deliver id changes rest :: others), es⟩ := by
        refine hqueued.setTasks ?_
        rw [Session.working, tasks, List.filterMap_cons_none rfl, List.filterMap_cons_none rfl]
      exact htold.addEvents (fun _ => rfl) (fun _ => rfl) fun _ h => by simp at h
  | commit id collection => exact hqueued.modifyStore id _
  | listen id tag => exact hqueued.modifyStore id _
  | unlisten => exact hqueued.modifyStore _ _
  | create => exact hqueued.create hnamed _ _
  | aside found => exact hqueued.setSame found _ rfl rfl rfl rfl
  | giveUp id => exact hqueued.giveUp id
  | @dispose s es id live found status =>
      have hunlistened : Queued ⟨s.unlistenAll live.listening, es⟩ :=
        hqueued.of_same (by simp [Session.working]) fun k live' hk =>
          ⟨live', by simpa using hk, rfl, rfl, rfl, rfl⟩
      have hfound : (s.unlistenAll live.listening).live? id = some live := by simpa using found
      refine hunlistened.setLive hfound live.dispose rfl (.inr rfl) ?_ (fun h => by cases h)
        (fun h => by cases h)
      rintro (h | h) <;> cases h
  | receive found status busy =>
      refine hqueued.receive found status (Session.live?_setLive found _) (fun _ _ => Iff.rfl)
        hqueued.once ((hqueued.busy _ _ found).1 busy)
  | @receiveFirst s es id live collection batch found status busy =>
      have hworking : ((s.setLive id (live.enqueue collection batch)).push (.workOff id)).working
          = id :: s.working := rfl
      have hid : id ∉ s.working := fun hmem => by
        rw [(hqueued.busy id live found).2 hmem] at busy
        cases busy
      refine hqueued.receive found status (Session.live?_setLive found _) (fun k hk => ?_) ?_ ?_
      · rw [hworking]
        exact ⟨fun hmem => (List.mem_cons.1 hmem).resolve_left hk, List.mem_cons_of_mem _⟩
      · rw [hworking]
        exact List.nodup_cons.2 ⟨hid, hqueued.once⟩
      · rw [hworking]
        exact List.mem_cons_self
  | @start s es id live before new engine found status coming loaded =>
      obtain ⟨_, hbefore, _, _, _, hqueue, hbusy, _⟩ := coming.same
      have hengine : Engine.load s.contents live.engine = .ok ()
          ((before.evaluated engine).keeping (before.evaluated engine).insertions).engine := by
        rw [Live.engine_keeping]
        exact loaded
      have hready := hqueued.setReady found status
        ((before.evaluated engine).keeping (before.evaluated engine).insertions)
        ((Live.busy_keeping _ _).trans hbusy) ((Live.queue_keeping _ _).trans hqueue)
        (Live.status_keeping _ _) hengine
      exact hready.addAsked (asks_of_coming coming)
  | @failStart s es id live before new error engine found status coming =>
      obtain ⟨_, _, _, _, _, hqueue, hbusy, _⟩ := coming.same
      exact (hqueued.setLive found ({ before with engine }.halt error) hbusy (.inl hqueue)
        (fun h => absurd h (stopped_halt _ _)) (fun h => by cases h) (fun h => by cases h)).addAsked
          (asks_of_coming coming)
  | join found status fresh quiet =>
      exact (hqueued.setSame found _ (Live.busy_joinedBy _ _) (Live.queue_joinedBy _ _)
        (Live.status_joinedBy _ _) (Live.engine_joinedBy _ _)).addAsked (asks_one _ _)
  | refuse id tag named => exact hqueued.addAsked (asks_one id tag)
  | @apply s es id live collection batch queue changes engine _ tasks found status next applied quiet =>
      have hkept := Live.status_keeping { live with queue, engine } changes
      refine hqueued.apply found status next _ _ (Session.live?_setLive found _) rfl
        (Live.busy_keeping { live with queue, engine } changes)
        (Live.queue_keeping { live with queue, engine } changes)
        (fun h => (nomatch status.symm.trans (hkept.symm.trans h))) (.inl ⟨rfl, changes, ?_⟩)
      rw [Live.engine_keeping]
      exact applied
  | @applyTelling s es id live collection batch queue changes engine _ tasks found status next
      applied =>
      exact (hqueued.apply found status next _ { live with queue, engine }
        (Session.live?_setLive found _) rfl rfl rfl (fun h => (nomatch status.symm.trans h))
        (.inl ⟨rfl, changes, applied⟩)).push rfl
  | @failApply s es id live collection batch queue error engine _ tasks found status next =>
      exact hqueued.apply found status next _ ({ live with queue, engine }.halt error)
        (Session.live?_setLive found _) rfl rfl rfl (fun h => by cases h)
        (.inr ⟨rfl, stopped_halt _ _⟩)
  | rest tasks found through => exact hqueued.rest tasks found through

/-- So does an opening. -/
theorem opening {h h' : History} (hqueued : Queued h) (hopening : Opening h h') : Queued h' := by
  cases hopening with
  | @start s es id live before new engine found status coming loaded =>
      obtain ⟨_, _, _, _, _, hqueue, hbusy, _⟩ := coming.same
      exact ((hqueued.setReady found status (before.evaluated engine) hbusy hqueue rfl loaded).addAsked
        (asks_of_coming coming)).push rfl
  | join found =>
      exact ((hqueued.setSame found _ (Live.busy_joinedBy _ _) (Live.queue_joinedBy _ _)
        (Live.status_joinedBy _ _) (Live.engine_joinedBy _ _)).addAsked (asks_one _ _)).push rfl

end Queued

theorem Moment.Reached.queued {m : Moment} (h : m.Reached) : Queued m.toHistory :=
  (h.keeps (P := fun h => Named h ∧ Queued h) (fun _ hs => ⟨Named.opened hs, Queued.opened hs⟩)
    (fun h hturn => ⟨h.1.turn hturn, h.2.turn h.1 hturn⟩)
    (fun h hopening => ⟨h.1.opening hopening, h.2.opening hopening⟩)).2

/-! ## One batch at a time -/

/-- A batch is handed to the engine by the task that works off the queue, which is then the
innermost one. -/
theorem Session.of_applied_mem_events {s : Session} {id : LiveId} {collection : CollectionId}
    {batch : List Change} (h : .applied id collection batch ∈ s.events) :
    ∃ others live queue, s.tasks = .workOff id :: others ∧ s.live? id = some live ∧
      live.status = .ready ∧ live.queue = (collection, batch) :: queue := by
  unfold Session.events at h
  split at h
  · split at h <;> simp at h
  next id' others tasks =>
    unfold Session.workedOff at h
    split at h
    · cases h
    next live found =>
      split at h
      next collection' batch' queue hready hqueue =>
        split at h
        · simp only [List.mem_singleton, Event.applied.injEq] at h
          obtain ⟨rfl, rfl, rfl⟩ := h
          exact ⟨others, live, queue, tasks, found, hready, hqueue⟩
        · simp only [List.mem_cons, Event.applied.injEq, List.not_mem_nil, or_false,
            reduceCtorEq] at h
          obtain ⟨rfl, rfl, rfl⟩ := h
          exact ⟨others, live, queue, tasks, found, hready, hqueue⟩
      · cases h
  · split at h <;> simp at h
  · cases h

/-- What a batch sets off stands above the task that works off the queue. -/
theorem Session.suffix_step_of_queue {s : Session} {id : LiveId} {others : List Task} {live : Live}
    {entry : CollectionId × List Change} {queue : List (CollectionId × List Change)}
    (tasks : s.tasks = .workOff id :: others) (found : s.live? id = some live)
    (status : live.status = .ready) (next : live.queue = entry :: queue) :
    s.tasks <:+ s.step.1.tasks := by
  simp only [Session.step, tasks, Session.workOffNext, found, status, next]
  rw [← tasks]
  exact (((Session.Quiet.refl s).modifyLive id _).process id live _ _).suffix

/-- When a batch has been handed to the engine, all that it sets off is done before another
one is. -/
theorem Moment.Next.through {m m₁ m' : Moment} (h : m.Reached) (hnext : m.Next m₁) {id : LiveId}
    {collection : CollectionId} {batch : List Change}
    (hevent : .applied id collection batch ∈ m.session.events) (hlater : m₁.Later m')
    {collection' : CollectionId} {batch' : List Change}
    (hevent' : .applied id collection' batch' ∈ m'.session.events) :
    ∃ between, m₁.Later between ∧ between.Later m' ∧
      between.session.tasks = m.session.tasks := by
  obtain ⟨others, live, queue, tasks, found, status, next⟩ := Session.of_applied_mem_events hevent
  have hsuffix : m.session.tasks <:+ m₁.session.tasks := by
    cases hnext with
    | call c => exact m.session.suffix_call c
    | back => exact List.suffix_refl _
    | step => exact Session.suffix_step_of_queue tasks found status next
  obtain ⟨above, habove⟩ := hsuffix
  refine (hlater.above habove.symm).resolve_left ?_
  rintro ⟨above', htasks, hsome⟩
  -- otherwise two tasks would work off the queue
  obtain ⟨others', _, _, htop, _⟩ := Session.of_applied_mem_events hevent'
  have honce := ((h.next hnext).later hlater).queued.once
  obtain ⟨first, above', rfl⟩ := List.exists_cons_of_ne_nil hsome
  rw [htasks, List.cons_append] at htop
  obtain ⟨rfl, _⟩ := List.cons.inj htop
  rw [Session.working, htasks, tasks] at honce
  simp [Task.worksOff?] at honce

theorem Live.running_iff (live : Live) :
    live.Running ↔ live.status.stage ≤ Status.ready.stage := by
  unfold Live.Running
  cases live.status <;> decide

/-- A live query that has stopped stays so, and no batch is applied to it any more. -/
theorem Moment.Later.stopped {m m' : Moment} (h : m.Later m') {id : LiveId} {live : Live}
    (found : m.session.live? id = some live) (stopped : ¬live.Running) :
    applied id m'.trace = applied id m.trace ∧
      ∃ live', m'.session.live? id = some live' ∧ ¬live'.Running := by
  obtain ⟨live', found', hstage⟩ := h.aged.lives id live found
  obtain ⟨new, htrace, hnew⟩ := h.aged.events
  rw [Live.running_iff] at stopped
  refine ⟨?_, live', found', fun hrunning => ?_⟩
  · rw [htrace, applied_append, List.append_right_eq_self]
    refine List.filterMap_eq_nil_iff.2 fun e he => ?_
    cases e with
    | applied k collection batch =>
        refine if_neg fun heq => stopped (hnew _ he live ?_)
        rw [← found, ← heq]
        rfl
    | _ => rfl
  · rw [Live.running_iff] at hrunning
    exact stopped (Nat.le_trans hstage hrunning)

/-- The batches of a live query are worked off one at a time, in the order in which they
came in. -/
structure Moment.InOrder (m : Moment) (id : LiveId) (live : Live) : Prop where
  /-- While the query runs, each batch it received has been applied once, or waits. -/
  waiting : live.Running → received id m.trace = applied id m.trace ++ live.queue
  /-- When it has stopped, those that were applied are the ones that came in first. -/
  sooner : applied id m.trace <+: received id m.trace
  /-- The engine has been loaded, and the batches were applied to it in this order. -/
  ran : live.status = .ready → live.engine.Ran (applied id m.trace)
  /-- Nothing waits when no task works off the queue any more. -/
  returned : .workOff id ∉ m.session.tasks → live.queue = []
  /-- Between two applied batches there is a moment when all is done that the first one has
  set off. -/
  alone : ∀ collection batch, .applied id collection batch ∈ m.session.events →
    ∀ m₁ m', m.Next m₁ → m₁.Later m' →
      (∃ collection' batch', .applied id collection' batch' ∈ m'.session.events) →
        ∃ between, m₁.Later between ∧ between.Later m' ∧ between.session.tasks = m.session.tasks
  /-- The query stops for good. -/
  stopped : .failed id ∈ m.trace ∨ live.status = .errored ∨ live.status = .disposed →
    ∀ m', m.Later m' → applied id m'.trace = applied id m.trace ∧
      ∃ live', m'.session.live? id = some live' ∧ live'.status ≠ .idle ∧ live'.status ≠ .ready

theorem batches_in_order {m : Moment} (h : m.Reached) {id : LiveId} {live : Live}
    (found : m.session.live? id = some live) : m.InOrder id live where
  waiting := h.queued.waiting id live found
  sooner := h.queued.sooner id
  ran := h.queued.ran id live found
  returned hidle := by
    refine h.queued.resting id live found ?_
    cases hbusy : live.busy with
    | false => rfl
    | true =>
        obtain ⟨task, htask, hworks⟩ :=
          List.mem_filterMap.1 ((h.queued.busy id live found).1 hbusy)
        cases task with
        | workOff id' =>
            cases hworks
            exact absurd htask hidle
        | _ => cases hworks
  alone collection batch hevent m₁ m' hnext hlater := by
    rintro ⟨collection', batch', hevent'⟩
    exact hnext.through h hevent hlater hevent'
  stopped hstopped m' hlater := by
    have hrunning : ¬live.Running := by
      rcases hstopped with hfailed | hstatus
      · exact h.queued.stopped id live found hfailed
      · rintro (hidle | hready) <;> simp_all
    obtain ⟨happlied, live', found', hrunning'⟩ := hlater.stopped found hrunning
    exact ⟨happlied, live', found', fun h => hrunning' (.inl h), fun h => hrunning' (.inr h)⟩

/-- A row is written, and the live query is about to hand the batch to its engine. -/
theorem batches_in_order_write :
    ∃ (m : Moment) (live : Live), m.Reached ∧ m.session.live? 0 = some live ∧
      .applied 0 0 [⟨.insert, ⟨[.int 1]⟩, .nil⟩] ∈ m.session.events ∧ m.InOrder 0 live := by
  have hmade := Session.opened_ofRows.reached.next
    (.call (.materialize 0 { id := "rows", startPreloaded := true }) rfl trivial)
  have hwritten := hmade.next (.call (.write 0 [.insert ⟨[.int 1]⟩ .nil]) rfl trivial)
  have htold := hwritten.next (.step rfl)
  generalize hm : Moment.mk _ _ = m at htold
  obtain ⟨live, found⟩ : ∃ live, m.session.live? 0 = some live := by
    rw [← hm]
    exact ⟨_, rfl⟩
  refine ⟨m, live, htold, found, ?_, batches_in_order htold found⟩
  rw [← hm]
  decide +kernel

end LiveQuery
