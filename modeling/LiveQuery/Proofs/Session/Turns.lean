import LiveQuery.Proofs.Session.Run

/-!
# The turns that a run takes

Each call and each step is made of a few turns, most of which touch one task, one live
query or one collection. What holds of all runs is shown for each turn.

A live query that starts, or is joined, tells its new subscriber at once: such an opening
is the last turn of its call, and nothing comes between it and the telling.

**Results.** `Moment.Next.turns`: how a run goes on consists of turns, and an opening at most.
-/

namespace LiveQuery

namespace Task

/-- The tasks that a call sets off by itself. -/
def Callable (s : Session) : Task → Prop
  | notify collection _ listeners => listeners = (s.store collection).listeners.values
  | alarm _ _ => True
  | retire id _ => id < s.lives.length
  | finish none => True
  | finish (some id) => id < s.lives.length
  | workOff _ => False
  | deliver .. => False

/-- The tasks that there is nothing to do for any more. -/
def Done (s : Session) : Task → Prop
  | notify _ _ listeners => listeners = []
  | workOff id => s.live? id = none
  | deliver id _ subscribers =>
      subscribers = [] ∨ (s.live? id).map Live.status = some .disposed
  | alarm _ listeners => listeners = []
  | retire .. => True
  | finish _ => True

end Task

namespace Live

/-- The live query when it has been evaluated. -/
def evaluated (live : Live) (engine : Engine) : Live :=
  { live with engine, status := .ready }

/-- The live query with a subscriber that is told what was kept for the first one. -/
def joinedBy (live : Live) (tag : Tag) : Live :=
  if live.subscribed = true then live.addListener tag
  else { live.addListener tag with buffer := [] }

section JoinedBy

variable (live : Live) (tag : Tag)

@[simp] theorem options_joinedBy : (live.joinedBy tag).options = live.options := by
  unfold joinedBy
  split <;> rfl

@[simp] theorem engine_joinedBy : (live.joinedBy tag).engine = live.engine := by
  unfold joinedBy
  split <;> rfl

@[simp] theorem status_joinedBy : (live.joinedBy tag).status = live.status := by
  unfold joinedBy
  split <;> rfl

@[simp] theorem handles_joinedBy : (live.joinedBy tag).handles = live.handles := by
  unfold joinedBy
  split <;> rfl

@[simp] theorem listening_joinedBy : (live.joinedBy tag).listening = live.listening := by
  unfold joinedBy
  split <;> rfl

@[simp] theorem queue_joinedBy : (live.joinedBy tag).queue = live.queue := by
  unfold joinedBy
  split <;> rfl

@[simp] theorem busy_joinedBy : (live.joinedBy tag).busy = live.busy := by
  unfold joinedBy
  split <;> rfl

@[simp] theorem listeners_joinedBy :
    (live.joinedBy tag).listeners = live.listeners.insert live.nextListener tag := by
  unfold joinedBy
  split <;> rfl

@[simp] theorem nextListener_joinedBy :
    (live.joinedBy tag).nextListener = live.nextListener + 1 := by
  unfold joinedBy
  split <;> rfl

@[simp] theorem subscribed_joinedBy : (live.joinedBy tag).subscribed = true := by
  unfold joinedBy
  split <;> rfl

end JoinedBy

end Live

/-- A live query when it starts: as it is, or with the subscriber that it starts for. -/
inductive Coming (id : LiveId) (es : List Event) (live : Live) : Live → List Event → Prop
  | alone : Coming id es live live []
  | joined (tag : Tag) (fresh : .asked id tag ∉ es) :
      Coming id es live (live.addListener tag) [.asked id tag]

/-- What happens to a session at one go. -/
inductive Turn : History → History → Prop
  | push {s es} (task : Task) (callable : task.Callable s) : Turn ⟨s, es⟩ ⟨s.push task, es⟩
  | pop {s es task others} (tasks : s.tasks = task :: others) (done : task.Done s) :
      Turn ⟨s, es⟩ ⟨s.setTasks others, es⟩
  | pass {s es collection batch listener rest others}
      (tasks : s.tasks = .notify collection batch (listener :: rest) :: others) :
      Turn ⟨s, es⟩ ⟨s.setTasks (.notify collection batch rest :: others), es⟩
  | passAlarm {s es error tag rest others} (tasks : s.tasks = .alarm error (tag :: rest) :: others) :
      Turn ⟨s, es⟩ ⟨s.setTasks (.alarm error rest :: others), es⟩
  | tell {s es id changes tag rest others}
      (tasks : s.tasks = .deliver id changes (tag :: rest) :: others)
      (status : (s.live? id).map Live.status ≠ some .disposed) :
      Turn ⟨s, es⟩ ⟨s.setTasks (.deliver id changes rest :: others), es ++ [.told id tag changes]⟩
  | commit {s es} (id : CollectionId) (collection : Collection) :
      Turn ⟨s, es⟩ ⟨s.modifyStore id fun store => { store with collection }, es⟩
  | listen {s es} (id : CollectionId) (tag : Tag) :
      Turn ⟨s, es⟩ ⟨(s.listenAs id (.caller tag)).1, es⟩
  | unlisten {s es id key} (others : ∀ live, (s.store id).listeners.get? key ≠ some (.live live)) :
      Turn ⟨s, es⟩ ⟨s.unlisten id key, es⟩
  | create {s es query options engine}
      (made : Engine.ofQuery s.plan query options.policy = .ok engine) :
      Turn ⟨s, es⟩ ⟨s.create options engine, es⟩
  | aside {s es id live handles listeners errorListeners} (found : s.live? id = some live)
      (fewer : listeners.entries.Sublist live.listeners.entries)
      (owned : live.handles = 0 → handles = 0) :
      Turn ⟨s, es⟩ ⟨s.setLive id { live with handles, listeners, errorListeners }, es⟩
  | giveUp {s es} (id : LiveId) : Turn ⟨s, es⟩ ⟨s.giveUp id, es⟩
  | dispose {s es id live} (found : s.live? id = some live) (status : live.status ≠ .disposed) :
      Turn ⟨s, es⟩ ⟨(s.unlistenAll live.listening).setLive id live.dispose, es⟩
  | receive {s es id live collection batch} (found : s.live? id = some live)
      (status : live.status = .ready) (busy : live.busy = true) :
      Turn ⟨s, es⟩
        ⟨s.setLive id (live.enqueue collection batch), es ++ [.received id collection batch]⟩
  | receiveFirst {s es id live collection batch} (found : s.live? id = some live)
      (status : live.status = .ready) (busy : live.busy = false) :
      Turn ⟨s, es⟩
        ⟨(s.setLive id (live.enqueue collection batch)).push (.workOff id),
          es ++ [.received id collection batch]⟩
  | start {s es id live before new engine} (found : s.live? id = some live)
      (status : live.status = .idle) (coming : Coming id es live before new)
      (loaded : Engine.load s.contents live.engine = .ok () engine)
      (quiet : before.subscribed = true → (before.evaluated engine).insertions = []) :
      Turn ⟨s, es⟩
        ⟨s.setLive id ((before.evaluated engine).keeping (before.evaluated engine).insertions),
          es ++ new⟩
  | failStart {s es id live before new error engine} (found : s.live? id = some live)
      (status : live.status = .idle) (coming : Coming id es live before new)
      (failed : Engine.load s.contents live.engine = .error error engine) :
      Turn ⟨s, es⟩ ⟨s.setLive id ({ before with engine }.halt error), es ++ new⟩
  | join {s es id live tag} (found : s.live? id = some live) (status : live.status = .ready)
      (fresh : .asked id tag ∉ es) (quiet : live.welcome = []) :
      Turn ⟨s, es⟩ ⟨s.setLive id (live.joinedBy tag), es ++ [.asked id tag]⟩
  | refuse {s es} (id : LiveId) (tag : Tag) (named : id < s.lives.length) :
      Turn ⟨s, es⟩ ⟨s, es ++ [.asked id tag]⟩
  | apply {s es id live collection batch queue changes engine others}
      (tasks : s.tasks = .workOff id :: others) (found : s.live? id = some live)
      (status : live.status = .ready) (next : live.queue = (collection, batch) :: queue)
      (applied : Engine.apply collection batch live.engine = .ok changes engine)
      (quiet : live.subscribed = true → changes = []) :
      Turn ⟨s, es⟩
        ⟨s.setLive id ({ live with queue, engine }.keeping changes),
          es ++ [.applied id collection batch]⟩
  | applyTelling {s es id live collection batch queue changes engine others}
      (tasks : s.tasks = .workOff id :: others) (found : s.live? id = some live)
      (status : live.status = .ready) (next : live.queue = (collection, batch) :: queue)
      (applied : Engine.apply collection batch live.engine = .ok changes engine)
      (subscribed : live.subscribed = true) :
      Turn ⟨s, es⟩
        ⟨(s.setLive id { live with queue, engine }).push (.deliver id changes live.listeners.values),
          es ++ [.applied id collection batch]⟩
  | failApply {s es id live collection batch queue error engine others}
      (tasks : s.tasks = .workOff id :: others) (found : s.live? id = some live)
      (status : live.status = .ready) (next : live.queue = (collection, batch) :: queue)
      (failed : Engine.apply collection batch live.engine = .error error engine) :
      Turn ⟨s, es⟩
        ⟨s.setLive id ({ live with queue, engine }.halt error),
          es ++ [.applied id collection batch, .failed id]⟩
  | rest {s es id live others} (tasks : s.tasks = .workOff id :: others)
      (found : s.live? id = some live) (through : live.status ≠ .ready ∨ live.queue = []) :
      Turn ⟨s, es⟩ ⟨(s.setTasks others).setLive id live.rest, es⟩

/-- A live query begins to tell a subscriber. -/
inductive Opening : History → History → Prop
  | start {s es id live before new engine} (found : s.live? id = some live)
      (status : live.status = .idle) (coming : Coming id es live before new)
      (loaded : Engine.load s.contents live.engine = .ok () engine)
      (subscribed : before.subscribed = true) (some : (before.evaluated engine).insertions ≠ []) :
      Opening ⟨s, es⟩
        ⟨(s.setLive id (before.evaluated engine)).push
          (.deliver id (before.evaluated engine).insertions before.listeners.values), es ++ new⟩
  | join {s es id live tag} (found : s.live? id = some live) (status : live.status = .ready)
      (fresh : .asked id tag ∉ es) (some : live.welcome ≠ []) :
      Opening ⟨s, es⟩
        ⟨(s.setLive id (live.joinedBy tag)).push (.deliver id live.welcome [tag]),
          es ++ [.asked id tag]⟩

/-- Any number of turns. -/
abbrev Turns : History → History → Prop :=
  Relation.ReflTransGen Turn

/-! ## Steps -/

section

variable {s : Session} {es : List Event}

theorem Turns.one {h h' : History} (turn : Turn h h') : Turns h h' :=
  .single turn

/-- A live query that halts, and its error listeners. -/
theorem turns_halt (es : List Event) {id : LiveId} {live : Live} (found : s.live? id = some live)
    (error : EvalError) :
    Turns ⟨s.setLive id (live.halt error), es⟩ ⟨s.halt id error, es⟩ := by
  rcases Session.halt_cases found error with hhalt | hhalt
  · rw [hhalt]
  · rw [hhalt]
    exact Turns.one (.push _ trivial)

theorem turns_accept (es : List Event) (id : LiveId) (collection : CollectionId) (batch : List Change) :
    Turns ⟨s, es⟩
      ⟨s.accept id collection batch,
        es ++ if s.accepts id then [.received id collection batch] else []⟩ := by
  by_cases haccepts : s.accepts id
  · rw [if_pos haccepts]
    obtain ⟨hkeeps, live, found, hready⟩ := haccepts
    unfold Session.accept
    simp only [found, hkeeps, hready]
    cases hbusy : live.busy with
    | true =>
        rw [Session.modifyLive_eq_setLive found]
        exact Turns.one (.receive found hready hbusy)
    | false =>
        rw [Session.modifyLive_eq_setLive found]
        exact Turns.one (.receiveFirst found hready hbusy)
  · rw [if_neg haccepts, List.append_nil]
    have hrefused : s.accept id collection batch = s := by
      unfold Session.accept
      cases found : s.live? id with
      | none => rfl
      | some live =>
          refine if_pos ?_
          by_contra hopen
          simp only [Bool.or_eq_true, Bool.not_eq_true', decide_eq_true_eq, not_or,
            Bool.not_eq_false, not_not] at hopen
          exact haccepts ⟨hopen.1, live, found, hopen.2⟩
    rw [hrefused]

theorem turns_workOffNext {id : LiveId} {others : List Task}
    (tasks : s.tasks = .workOff id :: others) :
    Turns ⟨s, es⟩ ⟨s.workOffNext id others, es ++ s.workedOff id⟩ := by
  unfold Session.workOffNext Session.workedOff
  cases found : s.live? id with
  | none =>
      simp only [List.append_nil]
      exact Turns.one (.pop tasks found)
  | some live =>
      by_cases hnext : live.status = .ready ∧ live.queue ≠ []
      · obtain ⟨hready, hqueue⟩ := hnext
        obtain ⟨⟨collection, batch⟩, queue, hqueue⟩ := List.exists_cons_of_ne_nil hqueue
        simp only [hready, hqueue]
        unfold Session.process
        rw [Session.modifyLive_eq_setLive found]
        have hfound : (s.setLive id { live with queue }).live? id = some { live with queue } := by
          rw [Session.live?_setLive found, if_pos rfl]
        cases happly : Engine.apply collection batch live.engine with
        | ok changes engine =>
            simp only
            rw [Session.modifyLive_eq_setLive hfound, Session.setLive_setLive]
            have happlied : (s.setLive id { live with queue, engine }).live? id
                = some { live with queue, engine } := by
              rw [Session.live?_setLive found, if_pos rfl]
            rw [Session.putOut_eq happlied (by simp [hready])]
            split
            next htold => exact Turns.one (.applyTelling tasks found hready hqueue happly htold.1)
            next hquiet =>
              rw [Session.setLive_setLive]
              refine Turns.one (.apply tasks found hready hqueue happly fun hsubscribed => ?_)
              exact not_not.1 fun hchanges => hquiet ⟨hsubscribed, hchanges⟩
        | error error engine =>
            simp only
            rw [Session.modifyLive_eq_setLive hfound, Session.setLive_setLive]
            have hfailed : (s.setLive id { live with queue, engine }).live? id
                = some { live with queue, engine } := by
              rw [Session.live?_setLive found, if_pos rfl]
            have hhalted := turns_halt (es ++ [.applied id collection batch, .failed id]) hfailed
              error
            rw [Session.setLive_setLive] at hhalted
            exact .trans (Turns.one (.failApply tasks found hready hqueue happly)) hhalted
      · have hthrough : live.status ≠ .ready ∨ live.queue = [] := by
          by_contra hopen
          exact hnext (by simpa [not_or] using hopen)
        have hrest : Turns ⟨s, es⟩
            ⟨((s.setTasks others).modifyLive id Live.rest).giveUp id, es ++ []⟩ := by
          rw [List.append_nil,
            Session.modifyLive_eq_setLive (show (s.setTasks others).live? id = some live from found)]
          exact .trans (Turns.one (.rest tasks found hthrough)) (Turns.one (.giveUp id))
        cases hqueue : live.queue with
        | nil => cases hstatus : live.status <;> (simp only [hqueue, hstatus]; exact hrest)
        | cons entry queue =>
            cases hstatus : live.status with
            | ready => exact absurd ⟨hstatus, by simp [hqueue]⟩ hnext
            | _ =>
                simp only [hqueue, hstatus]
                exact hrest

theorem turns_notify_live {collection : CollectionId} {batch : List Change} {id : LiveId}
    {rest : List Listener} {others : List Task}
    (tasks : s.tasks = .notify collection batch (.live id :: rest) :: others) :
    Turns ⟨s, es⟩
      ⟨(s.setTasks (.notify collection batch rest :: others)).accept id collection batch,
        es ++ if s.accepts id then [.received id collection batch] else []⟩ := by
  have hkeeps : (s.setTasks (.notify collection batch rest :: others)).accepts id
      ↔ s.accepts id := by
    simp [Session.accepts, Session.keeps, tasks, Task.holds]
  have haccept := turns_accept (s := s.setTasks (.notify collection batch rest :: others)) es id
    collection batch
  simp only [hkeeps] at haccept
  exact .trans (Turns.one (.pass tasks)) haccept

/-- What the caller does to a live query besides. -/
theorem turns_aside {id : LiveId} {f : Live → Live}
    (haside : ∀ live, s.live? id = some live → ∃ handles listeners errorListeners,
      f live = { live with handles, listeners, errorListeners } ∧
        listeners.entries.Sublist live.listeners.entries ∧ (live.handles = 0 → handles = 0)) :
    Turns ⟨s, es⟩ ⟨s.modifyLive id f, es⟩ := by
  cases found : s.live? id with
  | none =>
      rw [Session.modifyLive_of_none found]
  | some live =>
      obtain ⟨handles, listeners, errorListeners, heq, hfewer, howned⟩ := haside live found
      rw [Session.modifyLive_eq_setLive found, heq]
      exact Turns.one (.aside found hfewer howned)

theorem turns_removeListener (id : LiveId) (key : Nat) :
    Turns ⟨s, es⟩ ⟨s.modifyLive id fun live => live.removeListener key, es⟩ :=
  turns_aside fun live _ =>
    ⟨live.handles, live.listeners.erase key, live.errorListeners, rfl,
      OrdMap.remove_sublist key _, fun h => h⟩

/-- Each step is made of turns. -/
theorem turns_step (s : Session) (es : List Event) :
    Turns ⟨s, es⟩ ⟨s.step.1, es ++ s.events⟩ := by
  cases tasks : s.tasks with
  | nil =>
      simp only [Session.step, Session.events, tasks, List.append_nil]
      rfl
  | cons task others =>
      match task with
      | .notify collection batch [] =>
          simp only [Session.step, Session.events, tasks, List.append_nil]
          exact Turns.one (.pop tasks rfl)
      | .notify collection batch (.caller tag :: rest) =>
          simp only [Session.step, Session.events, tasks, List.append_nil]
          exact Turns.one (.pass tasks)
      | .notify collection batch (.live id :: rest) =>
          simp only [Session.step, Session.events, tasks]
          exact turns_notify_live tasks
      | .workOff id =>
          simp only [Session.step, Session.events, tasks]
          exact turns_workOffNext tasks
      | .deliver id changes [] =>
          simp only [Session.step, Session.events, tasks, List.append_nil]
          exact Turns.one (.pop tasks (.inl rfl))
      | .deliver id changes (tag :: rest) =>
          by_cases hstatus : (s.live? id).map Live.status = some .disposed
          · simp only [Session.step, Session.events, tasks, hstatus, if_true, List.append_nil]
            exact Turns.one (.pop tasks (.inr hstatus))
          · have hstep : s.step.1 = s.setTasks (.deliver id changes rest :: others) := by
              simp only [Session.step, tasks]
              rfl
            rw [hstep]
            simp only [Session.events, tasks, if_neg hstatus]
            exact Turns.one (.tell tasks hstatus)
      | .alarm error [] =>
          simp only [Session.step, Session.events, tasks, List.append_nil]
          exact Turns.one (.pop tasks rfl)
      | .alarm error (tag :: rest) =>
          simp only [Session.step, Session.events, tasks, List.append_nil]
          exact Turns.one (.passAlarm tasks)
      | .retire id key =>
          simp only [Session.step, Session.events, tasks, List.append_nil]
          exact .trans (Turns.one (.pop tasks trivial)) (turns_removeListener id key)
      | .finish none =>
          simp only [Session.step, Session.events, tasks, List.append_nil]
          exact Turns.one (.pop tasks trivial)
      | .finish (some id) =>
          simp only [Session.step, Session.events, tasks, List.append_nil]
          exact .trans (Turns.one (.pop tasks trivial)) (Turns.one (.giveUp id))

/-! ## Calls -/

namespace Coming

variable {id : LiveId} {live before : Live} {new : List Event}

/-- The first subscriber is all that is new. -/
theorem same (h : Coming id es live before new) :
    before.options = live.options ∧ before.engine = live.engine ∧ before.status = live.status ∧
      before.handles = live.handles ∧ before.listening = live.listening ∧
      before.queue = live.queue ∧ before.busy = live.busy ∧ before.buffer = live.buffer := by
  cases h with
  | alone => exact ⟨rfl, rfl, rfl, rfl, rfl, rfl, rfl, rfl⟩
  | joined => exact ⟨rfl, rfl, rfl, rfl, rfl, rfl, rfl, rfl⟩

theorem eq_asked (h : Coming id es live before new) {e : Event} (he : e ∈ new) :
    ∃ tag, e = .asked id tag := by
  cases h with
  | alone => cases he
  | joined tag => exact ⟨tag, List.mem_singleton.1 he⟩

theorem live_eq (h : Coming id es live before new) : ∀ e ∈ new, e.live = id := by
  intro e he
  obtain ⟨tag, rfl⟩ := h.eq_asked he
  rfl

end Coming

/-- How a live query that is idle starts: it is evaluated and puts its output out, or it
fails and other tasks follow. -/
theorem turns_start (es : List Event) {id : LiveId} {live before : Live} {new : List Event}
    (found : s.live? id = some live) (status : live.status = .idle)
    (coming : Coming id es live before new) (whenFailed : List Task)
    (following : Turns ⟨s, es⟩ ⟨s.setTasks (whenFailed ++ s.tasks), es⟩) :
    Turns ⟨s, es⟩ ⟨((s.setLive id before).start id before whenFailed).1, es ++ new⟩ ∨
      before.subscribed = true ∧
        Opening ⟨s, es⟩ ⟨((s.setLive id before).start id before whenFailed).1, es ++ new⟩ := by
  have hengine : before.engine = live.engine := coming.same.2.1
  unfold Session.start
  cases hload : Engine.load (s.setLive id before).contents before.engine with
  | ok done engine =>
      have hloaded : Engine.load s.contents live.engine = .ok () engine := hengine ▸ hload
      have hready : (s.setLive id (before.evaluated engine)).live? id
          = some (before.evaluated engine) := by
        rw [Session.live?_setLive found, if_pos rfl]
      have hput := Session.putOut_eq hready (by simp [Live.evaluated])
        (before.evaluated engine).insertions
      have hset : (s.setLive id before).setLive id (before.evaluated engine)
          = s.setLive id (before.evaluated engine) := Session.setLive_setLive _ _ _ _
      change Turns _ ⟨((s.setLive id before).setLive id (before.evaluated engine)).putOut id
        (before.evaluated engine).insertions, es ++ new⟩ ∨ _ ∧ Opening _
        ⟨((s.setLive id before).setLive id (before.evaluated engine)).putOut id
          (before.evaluated engine).insertions, es ++ new⟩
      rw [hset, hput]
      split
      next htold => exact .inr ⟨htold.1, .start found status coming hloaded htold.1 htold.2⟩
      next hquiet =>
        rw [Session.setLive_setLive]
        refine .inl (Turns.one (.start found status coming hloaded fun hsubscribed => ?_))
        exact not_not.1 fun hchanges => hquiet ⟨hsubscribed, hchanges⟩
  | error error engine =>
      have hfailed : Engine.load s.contents live.engine = .error error engine := hengine ▸ hload
      refine .inl (following.trans ?_)
      change Turns _ ⟨(((s.setTasks (whenFailed ++ s.tasks)).setLive id before).modifyLive id _).halt
        id error, _⟩
      generalize whenFailed ++ s.tasks = tasks
      have hfound : (s.setTasks tasks).live? id = some live := found
      have hset : ((s.setTasks tasks).setLive id before).live? id = some before := by
        rw [Session.live?_setLive hfound, if_pos rfl]
      rw [Session.modifyLive_eq_setLive hset, Session.setLive_setLive]
      have hnew : ((s.setTasks tasks).setLive id { before with engine }).live? id
          = some { before with engine } := by
        rw [Session.live?_setLive hfound, if_pos rfl]
      have hhalted := turns_halt (es ++ new) hnew error
      rw [Session.setLive_setLive] at hhalted
      exact .trans (Turns.one (.failStart hfound status coming hfailed)) hhalted

/-- A live query that is idle starts for nobody. -/
theorem turns_start_alone (es : List Event) {id : LiveId} {live : Live}
    (found : s.live? id = some live) (status : live.status = .idle) :
    Turns ⟨s, es⟩ ⟨(s.start id live []).1, es⟩ ∨
      live.subscribed = true ∧ Opening ⟨s, es⟩ ⟨(s.start id live []).1, es⟩ := by
  have hstart := turns_start es found status .alone [] .refl
  rwa [Session.setLive_self found, List.append_nil] at hstart

theorem turns_write (id : CollectionId) (writes : List Write) :
    Turns ⟨s, es⟩ ⟨(s.write id writes).1, es⟩ := by
  have hcalled : Turns ⟨s, es⟩ ⟨s.push (.finish none), es⟩ := Turns.one (.push _ trivial)
  unfold Session.write
  cases happly : (s.store id).collection.apply writes with
  | error error => exact hcalled
  | ok result =>
      obtain ⟨collection, changes⟩ := result
      have hcommitted := hcalled.trans (Turns.one (.commit id collection))
      simp only
      split
      · exact hcommitted
      · refine hcommitted.trans (Turns.one (.push _ ?_))
        change (s.store id).listeners.values
          = (((s.push (.finish none)).modifyStore id fun store =>
              { store with collection }).store id).listeners.values
        rw [Session.store_modifyStore]
        split <;> rfl

theorem turns_insertRow (id : CollectionId) (row : Row) :
    Turns ⟨s, es⟩ ⟨(s.insertRow id row).1, es⟩ := by
  unfold Session.insertRow
  cases (s.store id).collection.keyOf row with
  | error error => exact Turns.one (.push _ trivial)
  | ok key => exact turns_write id _

theorem turns_materialize (query : BodyId) (options : LiveOptions) :
    Turns ⟨s, es⟩ ⟨(s.materialize query options).1, es⟩ := by
  obtain ⟨error, hmade, hresult⟩ | ⟨engine, hmade, hresult⟩ :=
    s.materialize_cases query options
  · rw [hresult]
  have hcreated : Turns ⟨s, es⟩ ⟨s.create options engine, es⟩ := Turns.one (.create hmade)
  have hstarted : Turns ⟨s, es⟩
      ⟨((s.create options engine).start s.lives.length (s.newLive options engine) []).1, es⟩ := by
    rcases turns_start_alone es (s.live?_create_self options engine) rfl with hstart | ⟨hnone, _⟩
    · exact hcreated.trans hstart
    · cases hnone
  obtain ⟨_, hresult⟩ | ⟨done, hdone, hresult⟩ | ⟨done, error, hdone, hresult⟩ := hresult
  · rw [hresult]
    exact hcreated
  · rw [hresult]
    rwa [hdone] at hstarted
  · rw [hresult]
    rw [hdone] at hstarted
    refine (hstarted.trans ?_).trans (Turns.one (.giveUp _))
    exact turns_aside fun live _ => ⟨0, live.listeners, live.errorListeners, rfl,
      List.Sublist.refl _, fun _ => rfl⟩

theorem turns_preload {id : LiveId} {live : Live} (found : s.live? id = some live) :
    Turns ⟨s, es⟩ ⟨(s.preload id).1, es⟩ ∨
      ∃ h, Turns ⟨s, es⟩ h ∧ Opening h ⟨(s.preload id).1, es⟩ := by
  have hcalled : Turns ⟨s, es⟩ ⟨s.push (.finish (some id)), es⟩ :=
    Turns.one (.push _ (Session.live?_eq_some_lt found))
  unfold Session.preload Session.ensureReady
  simp only [found]
  cases hcheck : live.check with
  | error error => exact .inl hcalled
  | ok u =>
      rcases Live.status_of_check hcheck with hidle | hready
      · simp only [hidle]
        have hfound : (s.push (.finish (some id))).live? id = some live := found
        rcases turns_start_alone es hfound hidle with hstart | ⟨_, hopening⟩
        · exact .inl (hcalled.trans hstart)
        · exact .inr ⟨_, hcalled, hopening⟩
      · simp only [hready, if_true]
        exact .inl hcalled

theorem turns_subscribe {id : LiveId} {live : Live} {tag : Tag} (found : s.live? id = some live)
    (fresh : .asked id tag ∉ es) :
    Turns ⟨s, es⟩ ⟨(s.subscribe id tag).1, es ++ [.asked id tag]⟩ ∨
      ∃ h, Turns ⟨s, es⟩ h ∧ Opening h ⟨(s.subscribe id tag).1, es ++ [.asked id tag]⟩ := by
  have hlt := Session.live?_eq_some_lt found
  have hcalled : Turns ⟨s, es⟩ ⟨s.push (.finish (some id)), es⟩ := Turns.one (.push _ hlt)
  have hfound : (s.push (.finish (some id))).live? id = some live := found
  unfold Session.subscribe
  simp only [found]
  cases hcheck : live.check with
  | error error => exact .inl (hcalled.trans (Turns.one (.refuse id tag hlt)))
  | ok u =>
      rcases Live.status_of_check hcheck with hidle | hready
      · simp only [hidle, if_true, Session.modifyLive_eq_setLive hfound]
        have hfollowing : Turns ⟨s.push (.finish (some id)), es⟩
            ⟨(s.push (.finish (some id))).setTasks
              ([.retire id live.nextListener] ++ (s.push (.finish (some id))).tasks), es⟩ :=
          Turns.one (.push (.retire id live.nextListener) hlt)
        have hstart := turns_start es hfound hidle (.joined tag fresh) _ hfollowing
        generalize ((s.push (.finish (some id))).setLive id (live.addListener tag)).start id
          (live.addListener tag) [.retire id live.nextListener] = started at hstart
        obtain ⟨done, error | u⟩ := started
        · exact hstart.imp hcalled.trans fun hopening => ⟨_, hcalled, hopening.2⟩
        · exact hstart.imp hcalled.trans fun hopening => ⟨_, hcalled, hopening.2⟩
      · have hnotidle : live.status ≠ .idle := by simp [hready]
        have hnew : ((s.push (.finish (some id))).setLive id (live.addListener tag)).live? id
            = some (live.addListener tag) := by
          rw [Session.live?_setLive hfound, if_pos rfl]
        have hjoined : ((s.push (.finish (some id))).setLive id (live.addListener tag)).modifyLive id
            (fun after => if live.subscribed = true then after else { after with buffer := [] })
              = (s.push (.finish (some id))).setLive id (live.joinedBy tag) := by
          rw [Session.modifyLive_eq_setLive hnew, Session.setLive_setLive]
          rfl
        simp only [hnotidle, if_false, Session.modifyLive_eq_setLive hfound]
        by_cases hquiet : live.welcome = []
        · simp only [hquiet, List.isEmpty_nil, if_true, hjoined]
          exact .inl (hcalled.trans (Turns.one (.join hfound hready fresh hquiet)))
        · simp only [List.isEmpty_eq_false_iff.2 hquiet]
          refine .inr ⟨_, hcalled, ?_⟩
          have hopening := Opening.join hfound hready fresh hquiet
          rwa [← hjoined] at hopening

/-- Each call is made of turns, and of an opening if it waits for one. -/
theorem turns_call {m : Moment} {c : Call} (permits : m.Permits c) :
    Turns m.toHistory ⟨m.session.call c, m.trace ++ c.events⟩ ∨
      c.waits = true ∧
        ∃ h, Turns m.toHistory h ∧ Opening h ⟨m.session.call c, m.trace ++ c.events⟩ := by
  cases c with
  | write id writes =>
      simp only [Call.events, List.append_nil]
      exact .inl (turns_write id writes)
  | insertRow id row =>
      simp only [Call.events, List.append_nil]
      exact .inl (turns_insertRow id row)
  | listen id tag =>
      simp only [Call.events, List.append_nil]
      exact .inl (Turns.one (.listen id tag))
  | unsubscribe subscription =>
      simp only [Call.events, List.append_nil]
      cases subscription with
      | collection id key => exact .inl (Turns.one (.unlisten permits))
      | live id key => exact .inl (turns_removeListener id key)
  | materialize query options =>
      simp only [Call.events, List.append_nil]
      exact .inl (turns_materialize query options)
  | preload id =>
      obtain ⟨live, found, _⟩ := permits
      simp only [Call.events, List.append_nil]
      exact (turns_preload found).imp_right fun hopening => ⟨rfl, hopening⟩
  | subscribe id tag =>
      obtain ⟨⟨live, found, _⟩, fresh⟩ := permits
      exact (turns_subscribe found fresh).imp_right fun hopening => ⟨rfl, hopening⟩
  | onError id tag =>
      simp only [Call.events, List.append_nil]
      exact .inl (turns_aside fun live _ => ⟨live.handles, live.listeners,
        live.errorListeners ++ [tag], rfl, List.Sublist.refl _, fun h => h⟩)
  | dispose id =>
      obtain ⟨live, found, _⟩ := permits
      simp only [Call.events, List.append_nil]
      left
      change Turns _ ⟨m.session.dispose id, m.trace⟩
      unfold Session.dispose
      simp only [found]
      split
      · rfl
      next hstatus =>
        have hfound : (m.session.unlistenAll live.listening).live? id = some live := by
          simpa using found
        rw [Session.modifyLive_eq_setLive hfound]
        exact Turns.one (.dispose found hstatus)
  | retain id =>
      obtain ⟨live, found, howned⟩ := permits
      simp only [Call.events, List.append_nil]
      refine .inl (turns_aside fun live' found' => ⟨live'.handles + 1, live'.listeners,
        live'.errorListeners, rfl, List.Sublist.refl _, fun hnone => ?_⟩)
      rw [found] at found'
      cases found'
      exact absurd hnone howned
  | release id =>
      simp only [Call.events, List.append_nil]
      left
      refine Relation.ReflTransGen.trans (turns_aside fun live _ => ⟨live.handles - 1, live.listeners,
        live.errorListeners, rfl, List.Sublist.refl _, fun hnone => ?_⟩) (Turns.one (.giveUp id))
      rw [hnone]

end

/-- How a run goes on consists of turns. An opening comes last, and the caller waits then. -/
theorem Moment.Next.turns {m m' : Moment} (h : m.Next m') :
    Turns m.toHistory m'.toHistory ∨
      m.control = true ∧ m'.control = false ∧
        ∃ between, Turns m.toHistory between ∧ Opening between m'.toHistory := by
  cases h with
  | call c control permits =>
      refine (turns_call permits).imp_right fun ⟨hwaits, hopening⟩ => ⟨control, ?_, hopening⟩
      simp [hwaits]
  | back control => exact .inl .refl
  | step control => exact .inl (turns_step m.session m.trace)

/-- What each turn and each opening keeps goes over from a moment to the next one. -/
theorem Moment.Next.keeps {P : History → Prop} (turn : ∀ {h h'}, P h → Turn h h' → P h')
    (opening : ∀ {h h'}, P h → Opening h h' → P h') {m m' : Moment} (h : m.Next m')
    (hm : P m.toHistory) : P m'.toHistory := by
  have hturns : ∀ {h'}, Turns m.toHistory h' → P h' := fun hturns => by
    induction hturns with
    | refl => exact hm
    | tail _ hturn ih => exact turn ih hturn
  rcases h.turns with h | ⟨_, _, between, h, hopening⟩
  · exact hturns h
  · exact opening (hturns h) hopening

/-- What holds of a session that is opened and is kept by turns and openings holds always. -/
theorem Moment.Reached.keeps {P : History → Prop} (start : ∀ s : Session, s.Opened → P ⟨s, []⟩)
    (turn : ∀ {h h'}, P h → Turn h h' → P h') (opening : ∀ {h h'}, P h → Opening h h' → P h')
    {m : Moment} (h : m.Reached) : P m.toHistory :=
  h.induction start fun _ _ _ hm hnext => hnext.keeps turn opening hm

end LiveQuery
