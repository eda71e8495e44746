import LiveQuery.Proofs.Session.Ageing

/-!
# What is told after a cancellation

Who is to be told is settled when a delivery begins. A listener that is taken out later, from
inside a listener that is told before it, is told all the same, once for each delivery that had
begun. Deliveries that begin afterwards are not for it. Only the subscribers of a live query that
is disposed of are left alone at once; its error listeners are told to the end.

**Invariant.** `Session.Absent`: the hearer is on no list. Calls and steps then put only tasks on
the stack that have nothing to tell it (`Session.Spares`), and so all that it is still told was
due to it when it cancelled.

**Results.** `told_after_cancelling`: after a cancellation the hearer is told what the deliveries
that had begun have left for it, in their order, and nothing else. `Moment.Hearing.nothing`: if
none had begun, it is told nothing. `silence_after_cancelling_fails`: runs in which a listener of
a collection, a subscriber and an error listener are told something after a cancellation.
-/

namespace LiveQuery

/-- Whoever is told something: a listener of a collection, a subscriber of a live query, or one
of its error listeners. -/
inductive Hearer where
  | listener (collection : CollectionId) (tag : Tag)
  | subscriber (live : LiveId) (tag : Tag)
  | errorListener (live : LiveId) (tag : Tag)

namespace Hearer

/-- Whether a call lets someone of the same name hear again. What a disposed live query fails
with is told to nobody, so an error listener may come back to it. -/
def joinedBy : Hearer → Call → Bool
  | listener collection tag, .listen id t => id = collection && t = tag
  | subscriber live tag, .subscribe id t => id = live && t = tag
  | errorListener live tag, .onError id t => id ≠ live && t = tag
  | _, _ => false

/-- Whether a hearer is on the list of a collection. -/
def ListensAt (hearer : Hearer) (id : CollectionId) (store : Store) : Prop :=
  match hearer with
  | listener collection tag =>
      id = collection ∧ ∃ key, store.listeners.get? key = some (.caller tag)
  | _ => False

/-- Whether a hearer is on one of the lists of a live query. -/
def Follows (hearer : Hearer) (id : LiveId) (live : Live) : Prop :=
  match hearer with
  | listener .. => False
  | subscriber k tag => id = k ∧ ∃ key, live.listeners.get? key = some tag
  | errorListener _ tag => live.status ≠ .disposed ∧ tag ∈ live.errorListeners

end Hearer

namespace Task

/-- Whether the next one that a task tells something is a given hearer. -/
def isFor (hearer : Hearer) : Task → Bool
  | notify id _ (.caller t :: _) => match hearer with
    | .listener collection tag => id = collection && t = tag
    | _ => false
  | deliver id _ (t :: _) => match hearer with
    | .subscriber live tag => id = live && t = tag
    | _ => false
  | alarm _ (t :: _) => match hearer with
    | .errorListener _ tag => t = tag
    | _ => false
  | _ => false

/-- What a task has left to tell a hearer. -/
def due (hearer : Hearer) : Task → List Signal
  | notify id batch rest => match hearer with
    | .listener collection tag =>
        List.replicate (if id = collection then rest.count (.caller tag) else 0) (.batch tag batch)
    | _ => []
  | deliver id changes rest => match hearer with
    | .subscriber live tag =>
        List.replicate (if id = live then rest.count tag else 0) (.batch tag changes)
    | _ => []
  | alarm error rest => match hearer with
    | .errorListener _ tag => List.replicate (rest.count tag) (.alarm tag error)
    | _ => []
  | _ => []

end Task

namespace Session

/-- What there is left to tell a hearer, in the order in which it will be told. -/
def due (s : Session) (hearer : Hearer) : List Signal :=
  s.tasks.flatMap (Task.due hearer)

/-- What the next step tells a hearer. -/
def tells (s : Session) (hearer : Hearer) : List Signal :=
  match s.tasks with
  | task :: _ => if task.isFor hearer then s.step.2.toList else []
  | [] => []

/-- Whether a hearer is a subscriber of a live query that tells nobody any more. -/
def Silences (s : Session) : Hearer → Prop
  | .subscriber id _ => (s.live? id).map Live.status = some .disposed
  | _ => False

/-- The hearer is on no list. -/
structure Absent (hearer : Hearer) (s : Session) : Prop where
  stores : ∀ id, ¬ hearer.ListensAt id (s.store id)
  lives : ∀ id live, s.live? id = some live → ¬ hearer.Follows id live

/-- The hearer is on no list, and on top of given tasks are only ones that have nothing to tell
it. -/
structure Spares (hearer : Hearer) (base : List Task) (s : Session) : Prop where
  tasks : ∃ above, s.tasks = above ++ base ∧ ∀ task ∈ above, task.due hearer = []
  absent : s.Absent hearer

end Session

/-! ## What tasks tell -/

namespace Task

variable {hearer : Hearer}

/-- The next listener that a task tells its batch was due first. -/
theorem due_notify_caller (id : CollectionId) (batch : List Change) (t : Tag)
    (rest : List Listener) :
    (notify id batch (.caller t :: rest)).due hearer
      = (if (notify id batch (.caller t :: rest)).isFor hearer then [.batch t batch] else [])
        ++ (notify id batch rest).due hearer := by
  cases hearer with
  | listener collection tag =>
      by_cases hid : id = collection <;> by_cases ht : t = tag <;>
        simp [due, isFor, hid, ht, List.replicate_succ]
  | _ => rfl

theorem due_notify_live (id : CollectionId) (batch : List Change) (live : LiveId)
    (rest : List Listener) :
    (notify id batch (.live live :: rest)).due hearer = (notify id batch rest).due hearer := by
  cases hearer with
  | listener collection tag => simp [due]
  | _ => rfl

theorem due_deliver_cons (id : LiveId) (changes : List Change) (t : Tag) (rest : List Tag) :
    (deliver id changes (t :: rest)).due hearer
      = (if (deliver id changes (t :: rest)).isFor hearer then [.batch t changes] else [])
        ++ (deliver id changes rest).due hearer := by
  cases hearer with
  | subscriber live tag =>
      by_cases hid : id = live <;> by_cases ht : t = tag <;>
        simp [due, isFor, hid, ht, List.replicate_succ]
  | _ => rfl

theorem due_alarm_cons (error : LiveError) (t : Tag) (rest : List Tag) :
    (alarm error (t :: rest)).due hearer
      = (if (alarm error (t :: rest)).isFor hearer then [.alarm t error] else [])
        ++ (alarm error rest).due hearer := by
  cases hearer with
  | errorListener live tag => by_cases ht : t = tag <;> simp [due, isFor, ht, List.replicate_succ]
  | _ => rfl

end Task

namespace Hearer

variable {hearer : Hearer}

theorem due_notify {id : CollectionId} {store : Store} (h : ¬ hearer.ListensAt id store)
    (batch : List Change) : (Task.notify id batch store.listeners.values).due hearer = [] := by
  cases hearer with
  | listener collection tag =>
      simp only [Task.due, List.replicate_eq_nil_iff]
      split
      next hid =>
        refine List.count_eq_zero.2 fun hmem => h ⟨hid, OrdMap.mem_values.1 hmem⟩
      · rfl
  | _ => rfl

theorem due_deliver {id : LiveId} {live : Live} (h : ¬ hearer.Follows id live)
    (changes : List Change) : (Task.deliver id changes live.listeners.values).due hearer = [] := by
  cases hearer with
  | subscriber k tag =>
      simp only [Task.due, List.replicate_eq_nil_iff]
      split
      next hid => exact List.count_eq_zero.2 fun hmem => h ⟨hid, OrdMap.mem_values.1 hmem⟩
      · rfl
  | _ => rfl

theorem due_alarm {id : LiveId} {live : Live} (h : ¬ hearer.Follows id live)
    (status : live.status ≠ .disposed) (error : LiveError) :
    (Task.alarm error live.errorListeners).due hearer = [] := by
  cases hearer with
  | errorListener k tag =>
      simp only [Task.due, List.replicate_eq_nil_iff]
      exact List.count_eq_zero.2 fun hmem => h ⟨status, hmem⟩
  | _ => rfl

end Hearer

namespace Session

variable {hearer : Hearer} {s s' : Session} {base : List Task}

/-! ## Lists that a hearer is not on -/

namespace Absent

theorem of_same (h : s.Absent hearer) (stores : ∀ c, s'.store c = s.store c)
    (lives : ∀ id, s'.live? id = s.live? id) : s'.Absent hearer where
  stores c := by
    rw [stores]
    exact h.stores c
  lives id live found := h.lives id live (lives id ▸ found)

theorem modifyLive (h : s.Absent hearer) {id : LiveId} {f : Live → Live}
    (fewer : ∀ live, s.live? id = some live → hearer.Follows id (f live) → hearer.Follows id live) :
    (s.modifyLive id f).Absent hearer where
  stores := h.stores
  lives k live found := by
    rw [live?_modifyLive] at found
    split at found
    next hk =>
      subst hk
      obtain ⟨before, hbefore, rfl⟩ := Option.map_eq_some_iff.1 found
      exact fun hafter => h.lives k before hbefore (fewer before hbefore hafter)
    next => exact h.lives k live found

/-- The lists of a live query stay as they are. -/
theorem aside (h : s.Absent hearer) (id : LiveId) {f : Live → Live}
    (same : ∀ live, (f live).status = live.status ∧ (f live).listeners = live.listeners ∧
      (f live).errorListeners = live.errorListeners) : (s.modifyLive id f).Absent hearer := by
  refine h.modifyLive fun live _ hafter => ?_
  obtain ⟨hstatus, hlisteners, herrorListeners⟩ := same live
  unfold Hearer.Follows at hafter ⊢
  rwa [hstatus, hlisteners, herrorListeners] at hafter

/-- The listeners of a collection, fewer than before. -/
theorem of_listeners (h : s.Absent hearer) (lives : ∀ id, s'.live? id = s.live? id)
    (fewer : ∀ c key tag, (s'.store c).listeners.get? key = some (.caller tag) →
      (s.store c).listeners.get? key = some (.caller tag)) : s'.Absent hearer where
  stores c := by
    cases hearer with
    | listener collection tag =>
        rintro ⟨hc, key, hkey⟩
        exact h.stores c ⟨hc, key, fewer c key tag hkey⟩
    | _ => exact id
  lives id live found := h.lives id live (lives id ▸ found)

theorem unlisten (h : s.Absent hearer) (c : CollectionId) (key : Nat) :
    (s.unlisten c key).Absent hearer := by
  refine h.of_listeners (fun _ => rfl) fun k key' tag hkey => ?_
  rw [get?_unlisten] at hkey
  split at hkey
  · cases hkey
  · exact hkey

theorem unlistenAll (h : s.Absent hearer) (listening : List (CollectionId × Nat)) :
    (s.unlistenAll listening).Absent hearer := by
  refine h.of_listeners (s.live?_unlistenAll listening) fun k key tag hkey => ?_
  rw [get?_unlistenAll] at hkey
  split at hkey
  · cases hkey
  · exact hkey

theorem giveUp (h : s.Absent hearer) (id : LiveId) : (s.giveUp id).Absent hearer := by
  unfold Session.giveUp
  split
  · exact h
  · split
    · exact h
    · exact (h.unlistenAll _).aside id fun _ => ⟨rfl, rfl, rfl⟩

theorem create (h : s.Absent hearer) (options : LiveOptions) (engine : Engine) :
    (s.create options engine).Absent hearer where
  stores := by
    have hlistened : (s.listenAll s.lives.length engine.collections).1.Absent hearer := by
      refine h.of_listeners (fun k => by simp [live?]) fun k key tag hkey => ?_
      rw [get?_listenAll] at hkey
      split at hkey
      · cases hkey
      · exact hkey
    exact hlistened.stores
  lives k live found := by
    rw [live?_create] at found
    split at found
    · cases found
      cases hearer with
      | listener => exact id
      | subscriber k tag =>
          rintro ⟨-, key, hkey⟩
          cases hkey
      | errorListener k tag =>
          rintro ⟨-, hmem⟩
          cases hmem
    · exact h.lives k live found

theorem write (h : s.Absent hearer) (c : CollectionId) (collection : Collection) :
    (s.modifyStore c fun store => { store with collection }).Absent hearer := by
  refine h.of_listeners (fun _ => rfl) fun k key tag hkey => ?_
  rw [store_modifyStore] at hkey
  split at hkey <;> exact hkey

end Absent

/-! ## Operations that spare a hearer -/

namespace Spares

theorem refl (absent : s.Absent hearer) : s.Spares hearer s.tasks :=
  ⟨⟨[], rfl, fun _ h => absurd h List.not_mem_nil⟩, absent⟩

theorem of_tasks (h : s.Spares hearer base) (absent : s'.Absent hearer)
    (tasks : s'.tasks = s.tasks) : s'.Spares hearer base :=
  ⟨tasks ▸ h.tasks, absent⟩

theorem due_eq (h : s.Spares hearer base) : s.due hearer = base.flatMap (Task.due hearer) := by
  obtain ⟨above, htasks, habove⟩ := h.tasks
  rw [due, htasks, List.flatMap_append, List.flatMap_eq_nil_iff.2 habove, List.nil_append]

theorem modifyLive (h : s.Spares hearer base) {id : LiveId} {f : Live → Live}
    (fewer : ∀ live, s.live? id = some live → hearer.Follows id (f live) → hearer.Follows id live) :
    (s.modifyLive id f).Spares hearer base :=
  h.of_tasks (h.absent.modifyLive fewer) rfl

theorem aside (h : s.Spares hearer base) (id : LiveId) {f : Live → Live}
    (same : ∀ live, (f live).status = live.status ∧ (f live).listeners = live.listeners ∧
      (f live).errorListeners = live.errorListeners) : (s.modifyLive id f).Spares hearer base :=
  h.of_tasks (h.absent.aside id same) rfl

theorem removeListener (h : s.Spares hearer base) (id : LiveId) (key : Nat) :
    (s.modifyLive id fun live => live.removeListener key).Spares hearer base := by
  refine h.modifyLive fun live _ hafter => ?_
  cases hearer with
  | subscriber k tag =>
      obtain ⟨hid, key', hkey⟩ := hafter
      refine ⟨hid, key', ?_⟩
      change (live.listeners.erase key).get? key' = some tag at hkey
      rw [OrdMap.get?_erase_eq] at hkey
      split at hkey
      · cases hkey
      · exact hkey
  | _ => exact hafter

theorem prepend (h : s.Spares hearer base) (new : List Task)
    (hnew : ∀ task ∈ new, task.due hearer = []) :
    (s.setTasks (new ++ s.tasks)).Spares hearer base := by
  obtain ⟨above, htasks, habove⟩ := h.tasks
  refine ⟨⟨new ++ above, ?_, fun task htask => ?_⟩, h.absent.of_same (fun _ => rfl) fun _ => rfl⟩
  · rw [tasks_setTasks, htasks, List.append_assoc]
  · exact (List.mem_append.1 htask).elim (hnew task) (habove task)

theorem push (h : s.Spares hearer base) {task : Task} (htask : task.due hearer = []) :
    (s.push task).Spares hearer base :=
  h.prepend [task] (by simpa using htask)

theorem giveUp (h : s.Spares hearer base) (id : LiveId) : (s.giveUp id).Spares hearer base :=
  h.of_tasks (h.absent.giveUp id) (s.tasks_giveUp id)

theorem putOut (h : s.Spares hearer base) (id : LiveId) (changes : List Change) :
    (s.putOut id changes).Spares hearer base := by
  unfold Session.putOut
  split
  · exact h
  next live found =>
    split
    · exact h
    · split
      · exact h.push (Hearer.due_deliver (h.absent.lives id live found) changes)
      · split
        · exact h.aside id fun _ => ⟨rfl, rfl, rfl⟩
        · exact h

theorem halt (h : s.Spares hearer base) {id : LiveId} {live : Live} (found : s.live? id = some live)
    (status : live.status ≠ .disposed) (error : EvalError) :
    (s.halt id error).Spares hearer base := by
  have hfollows := h.absent.lives id live found
  have hhalted : (s.setLive id (live.halt error)).Spares hearer base := by
    refine h.modifyLive fun before hbefore hafter => ?_
    cases found.symm.trans hbefore
    cases hearer with
    | errorListener => exact ⟨status, hafter.2⟩
    | _ => exact hafter
  rcases halt_cases found error with heq | heq
  · rwa [heq]
  · rw [heq]
    exact hhalted.push (Hearer.due_alarm hfollows status _)

theorem start (h : s.Spares hearer base) {id : LiveId} {live : Live}
    (found : s.live? id = some live) (status : live.status ≠ .disposed) (whenFailed : List Task)
    (hfailed : ∀ task ∈ whenFailed, task.due hearer = []) :
    (s.start id live whenFailed).1.Spares hearer base := by
  unfold Session.start
  cases Engine.load s.contents live.engine with
  | ok done engine =>
      refine Spares.putOut (h.modifyLive fun before hbefore hafter => ?_) id _
      cases found.symm.trans hbefore
      cases hearer with
      | errorListener => exact ⟨status, hafter.2⟩
      | _ => exact hafter
  | error error engine =>
      have hfollowing := h.prepend whenFailed hfailed
      have hengine : ((s.setTasks (whenFailed ++ s.tasks)).modifyLive id fun live =>
          { live with engine }).Spares hearer base :=
        hfollowing.aside id fun _ => ⟨rfl, rfl, rfl⟩
      have hfound : ((s.setTasks (whenFailed ++ s.tasks)).modifyLive id fun live =>
          { live with engine }).live? id = some { live with engine } := by
        rw [live?_modifyLive, if_pos rfl, live?_setTasks, found]
        rfl
      exact hengine.halt hfound status error

theorem accept (h : s.Spares hearer base) (id : LiveId) (collection : CollectionId)
    (batch : List Change) : (s.accept id collection batch).Spares hearer base := by
  unfold Session.accept
  split
  · exact h
  next live found =>
    split
    · exact h
    · have hqueued : (s.modifyLive id fun live => live.enqueue collection batch).Spares hearer
          base :=
        h.aside id fun _ => ⟨rfl, rfl, rfl⟩
      simp only
      split
      · exact hqueued
      · exact hqueued.push rfl

theorem process (h : s.Spares hearer base) {id : LiveId} {before : Live}
    (found : s.live? id = some before) (status : before.status ≠ .disposed) (live : Live)
    (collection : CollectionId) (batch : List Change) :
    (s.process id live collection batch).Spares hearer base := by
  have hengine : ∀ engine, (s.modifyLive id fun live => { live with engine }).Spares hearer base :=
    fun engine => h.aside id fun _ => ⟨rfl, rfl, rfl⟩
  unfold Session.process
  split
  next changes engine _ => exact (hengine engine).putOut id changes
  next error engine _ =>
    have hfound : (s.modifyLive id fun live => { live with engine }).live? id
        = some { before with engine } := by
      rw [live?_modifyLive, if_pos rfl, found]
      rfl
    exact (hengine engine).halt hfound status error

/-- A queue is worked off above the other tasks. -/
theorem workOffNext {id : LiveId} {others : List Task} (absent : s.Absent hearer)
    (tasks : s.tasks = .workOff id :: others) : (s.workOffNext id others).Spares hearer others := by
  have hall : s.Spares hearer others := by
    refine ⟨⟨[.workOff id], tasks, fun task htask => ?_⟩, absent⟩
    rw [List.mem_singleton.1 htask]
    rfl
  have hothers : (s.setTasks others).Spares hearer others :=
    .refl (s := s.setTasks others) (absent.of_same (fun _ => rfl) fun _ => rfl)
  unfold Session.workOffNext
  split
  · exact hothers
  next live found =>
    split
    next collection batch queue hready _ =>
      have htaken : (s.modifyLive id fun live => { live with queue }).Spares hearer others :=
        hall.aside id fun _ => ⟨rfl, rfl, rfl⟩
      have hfound : (s.modifyLive id fun live => { live with queue }).live? id
          = some { live with queue } := by
        rw [live?_modifyLive, if_pos rfl, found]
        rfl
      exact htaken.process hfound (by simp [hready]) live collection batch
    · refine Spares.giveUp (hothers.aside id fun _ => ?_) id
      exact ⟨rfl, rfl, rfl⟩

end Spares

/-! ## Steps -/

theorem due_of_tasks {task : Task} {others : List Task} (tasks : s.tasks = task :: others) :
    s.due hearer = task.due hearer ++ others.flatMap (Task.due hearer) := by
  rw [due, tasks, List.flatMap_cons]

theorem tells_of_tasks {task : Task} {others : List Task} (tasks : s.tasks = task :: others) :
    s.tells hearer = if task.isFor hearer then s.step.2.toList else [] := by
  simp only [tells, tasks]

/-- A step that leaves given tasks below: a hearer is told what was due first, unless it is
silenced. -/
structure Advances (hearer : Hearer) (s : Session) (base : List Task) : Prop where
  spares : s.step.1.Spares hearer base
  due : ¬ s.Silences hearer → s.due hearer = s.tells hearer ++ base.flatMap (Task.due hearer)
  silent : s.Silences hearer → s.tells hearer = []

/-- The innermost task tells the hearer nothing. -/
theorem Advances.of_quiet {task : Task} {others : List Task} (tasks : s.tasks = task :: others)
    (spares : s.step.1.Spares hearer others) (due : task.due hearer = [])
    (notFor : task.isFor hearer = false) : s.Advances hearer others := by
  have htells : s.tells hearer = [] := by simp [tells_of_tasks tasks, notFor]
  refine ⟨spares, fun _ => ?_, fun _ => htells⟩
  rw [due_of_tasks tasks, due, htells]

/-- The innermost task tells its next one, and has others left. -/
theorem Advances.of_told {task left : Task} {others : List Task} {signal : Signal}
    (absent : s.Absent hearer) (tasks : s.tasks = task :: others)
    (step : s.step = (s.setTasks (left :: others), some signal))
    (due : task.due hearer = (if task.isFor hearer then [signal] else []) ++ left.due hearer)
    (silent : s.Silences hearer → task.isFor hearer = false) :
    s.Advances hearer (left :: others) := by
  have htells : s.tells hearer = if task.isFor hearer then [signal] else [] := by
    rw [tells_of_tasks tasks, step]
    rfl
  refine ⟨?_, fun _ => ?_, fun h => ?_⟩
  · rw [step]
    exact .refl (s := s.setTasks (left :: others)) (absent.of_same (fun _ => rfl) fun _ => rfl)
  · rw [due_of_tasks tasks, due, htells, List.flatMap_cons, List.append_assoc]
  · simp [htells, silent h]

/-- A live query tells the next subscriber, unless it is disposed of: then it tells nobody that
is left. -/
theorem exists_advances_deliver {id : LiveId} {changes : List Change} {tag : Tag} {rest : List Tag}
    {others : List Task} (absent : s.Absent hearer)
    (tasks : s.tasks = .deliver id changes (tag :: rest) :: others) :
    ∃ base, s.Advances hearer base := by
  by_cases hdisposed : (s.live? id).map Live.status = some .disposed
  · have hstep : s.step = (s.setTasks others, none) := by
      simp only [step, tasks, hdisposed]
      rfl
    have htells : s.tells hearer = [] := by simp [tells_of_tasks tasks, hstep]
    refine ⟨others, ?_, fun hloud => ?_, fun _ => htells⟩
    · rw [hstep]
      exact .refl (s := s.setTasks others) (absent.of_same (fun _ => rfl) fun _ => rfl)
    · have hdue : (Task.deliver id changes (tag :: rest)).due hearer = [] := by
        cases hearer with
        | subscriber live t =>
            have hne : id ≠ live := by
              rintro rfl
              exact hloud hdisposed
            simp [Task.due, hne]
        | _ => rfl
      rw [due_of_tasks tasks, htells, hdue]
  · refine ⟨_, .of_told absent tasks ?_ (Task.due_deliver_cons id changes tag rest) fun h => ?_⟩
    · simp only [step, tasks]
      rfl
    · cases hearer with
      | subscriber live t =>
          have hne : id ≠ live := by
            rintro rfl
            exact hdisposed h
          simp [Task.isFor, hne]
      | _ => exact False.elim h

/-- Each step tells a hearer what was due first, unless it is silenced. -/
theorem exists_advances (absent : s.Absent hearer) : ∃ base, s.Advances hearer base := by
  cases tasks : s.tasks with
  | nil =>
      refine ⟨[], ?_, fun _ => by simp [due, tells, tasks], fun _ => by simp [tells, tasks]⟩
      simp only [step, tasks]
      exact ⟨⟨[], tasks, fun _ h => absurd h List.not_mem_nil⟩, absent⟩
  | cons task others =>
      have hset : ∀ tasks, (s.setTasks tasks).Spares hearer tasks := fun tasks =>
        .refl (s := s.setTasks tasks) (absent.of_same (fun _ => rfl) fun _ => rfl)
      have hothers := hset others
      cases task with
      | notify collection batch listeners =>
          cases listeners with
          | nil =>
              refine ⟨_, .of_quiet tasks ?_ (by cases hearer <;> simp [Task.due]) rfl⟩
              simp only [step, tasks]
              exact hothers
          | cons listener rest =>
              cases listener with
              | caller tag =>
                  refine ⟨_, .of_told absent tasks ?_
                    (Task.due_notify_caller collection batch tag rest) fun h => ?_⟩
                  · simp only [step, tasks]
                    rfl
                  · cases hearer with
                    | subscriber => rfl
                    | _ => exact False.elim h
              | live id =>
                  have htells : s.tells hearer = [] := by simp [tells_of_tasks tasks, Task.isFor]
                  refine ⟨.notify collection batch rest :: others, ?_, fun _ => ?_, fun _ => htells⟩
                  · simp only [step, tasks]
                    exact (hset _).accept id collection batch
                  · rw [due_of_tasks tasks, htells, Task.due_notify_live]
                    rfl
      | workOff id =>
          refine ⟨_, .of_quiet tasks ?_ rfl rfl⟩
          simp only [step, tasks]
          exact .workOffNext absent tasks
      | deliver id changes subscribers =>
          cases subscribers with
          | nil =>
              refine ⟨_, .of_quiet tasks ?_ (by cases hearer <;> simp [Task.due]) rfl⟩
              simp only [step, tasks]
              exact hothers
          | cons tag rest => exact exists_advances_deliver absent tasks
      | alarm error listeners =>
          cases listeners with
          | nil =>
              refine ⟨_, .of_quiet tasks ?_ (by cases hearer <;> simp [Task.due]) rfl⟩
              simp only [step, tasks]
              exact hothers
          | cons tag rest =>
              refine ⟨_, .of_told absent tasks ?_ (Task.due_alarm_cons error tag rest) fun h => ?_⟩
              · simp only [step, tasks]
                rfl
              · cases hearer with
                | subscriber => rfl
                | _ => exact False.elim h
      | retire id key =>
          refine ⟨_, .of_quiet tasks ?_ rfl rfl⟩
          simp only [step, tasks]
          exact hothers.removeListener id key
      | finish live =>
          refine ⟨_, .of_quiet tasks ?_ rfl rfl⟩
          cases live with
          | none =>
              simp only [step, tasks]
              exact hothers
          | some id =>
              simp only [step, tasks]
              exact hothers.giveUp id

/-! ## Calls -/

/-- Whether the live query that an error listener listens to is disposed of. -/
def Ended (s : Session) : Hearer → Prop
  | .errorListener id _ => (s.live? id).map Live.status = some .disposed
  | _ => True

theorem spares_write (absent : s.Absent hearer) (id : CollectionId) (writes : List Write) :
    (s.write id writes).1.Spares hearer s.tasks := by
  have hcalled : (s.push (.finish none)).Spares hearer s.tasks :=
    (Spares.refl absent).push rfl
  unfold Session.write
  simp only
  split
  · exact hcalled
  next collection changes _ =>
    have hwritten := hcalled.of_tasks (hcalled.absent.write id collection) rfl
    split
    · exact hwritten
    · exact hwritten.push (Hearer.due_notify (absent.stores id) changes)

theorem spares_listen (absent : s.Absent hearer) (id : CollectionId) (t : Tag)
    (aside : hearer.joinedBy (.listen id t) = false) :
    (s.listen id t).1.Spares hearer s.tasks := by
  refine ⟨(Spares.refl absent).tasks, ⟨fun c => ?_, absent.lives⟩⟩
  cases hearer with
  | listener collection tag =>
      rintro ⟨hc, key, hkey⟩
      change ((s.listenAs id (.caller t)).1.store c).listeners.get? key = _ at hkey
      rw [get?_listenAs] at hkey
      split at hkey
      next hnew =>
        cases hkey
        simp [Hearer.joinedBy, ← hnew.1, hc] at aside
      next => exact absent.stores c ⟨hc, key, hkey⟩
  | _ => exact fun h => h

theorem spares_materialize (absent : s.Absent hearer) (query : BodyId) (options : LiveOptions) :
    (s.materialize query options).1.Spares hearer s.tasks := by
  obtain ⟨error, _, hresult⟩ | ⟨engine, _, hresult⟩ := s.materialize_cases query options
  · rw [hresult]
    exact .refl absent
  have hcreated : (s.create options engine).Spares hearer s.tasks :=
    (Spares.refl absent).of_tasks (absent.create options engine) (s.tasks_create options engine)
  have hstart := hcreated.start (s.live?_create_self options engine) (by simp [newLive]) []
    fun _ h => absurd h List.not_mem_nil
  obtain ⟨_, hresult⟩ | ⟨done, hdone, hresult⟩ | ⟨done, error, hdone, hresult⟩ := hresult
  · rwa [hresult]
  · rw [hresult]
    rwa [hdone] at hstart
  · rw [hresult]
    rw [hdone] at hstart
    refine Spares.giveUp (hstart.aside _ fun _ => ?_) _
    exact ⟨rfl, rfl, rfl⟩

theorem spares_preload (absent : s.Absent hearer) (id : LiveId) :
    (s.preload id).1.Spares hearer s.tasks := by
  have hcalled : (s.push (.finish (some id))).Spares hearer s.tasks :=
    (Spares.refl absent).push rfl
  unfold Session.preload Session.ensureReady
  simp only
  split
  · exact hcalled
  next live found =>
    split
    · exact hcalled
    next hcheck =>
      split
      · exact hcalled
      · exact hcalled.start found (Live.not_disposed_of_check hcheck) _
          fun _ h => absurd h List.not_mem_nil

theorem spares_subscribe (absent : s.Absent hearer) (id : LiveId) (t : Tag)
    (aside : hearer.joinedBy (.subscribe id t) = false) :
    (s.subscribe id t).1.Spares hearer s.tasks := by
  have hcalled : (s.push (.finish (some id))).Spares hearer s.tasks :=
    (Spares.refl absent).push rfl
  unfold Session.subscribe
  simp only
  split
  · exact hcalled
  next live found =>
    split
    · exact hcalled
    next hcheck =>
      have hjoined : ((s.push (.finish (some id))).modifyLive id fun live =>
          live.addListener t).Spares hearer s.tasks := by
        refine hcalled.modifyLive fun before _ hafter => ?_
        cases hearer with
        | subscriber k tag =>
            obtain ⟨hid, key, hkey⟩ := hafter
            refine ⟨hid, key, ?_⟩
            change (before.listeners.insert before.nextListener t).get? key = some tag at hkey
            rw [OrdMap.get?_insert_eq] at hkey
            split at hkey
            · cases hkey
              simp [Hearer.joinedBy, hid] at aside
            · exact hkey
        | _ => exact hafter
      split
      · have hfound : ((s.push (.finish (some id))).modifyLive id fun live =>
            live.addListener t).live? id = some (live.addListener t) := by
          rw [live?_modifyLive, if_pos rfl, live?_push, found]
          rfl
        have hstart := hjoined.start hfound (Live.not_disposed_of_check hcheck)
          [.retire id live.nextListener] fun task htask => by
            rw [List.mem_singleton.1 htask]
            rfl
        split
        next done _ heq => rwa [heq] at hstart
        next done _ heq => rwa [heq] at hstart
      · refine Spares.aside ?_ id fun before => by split <;> exact ⟨rfl, rfl, rfl⟩
        · split
          · exact hjoined
          · refine hjoined.push ?_
            cases hearer with
            | subscriber k tag =>
                by_cases hid : id = k
                · have hne : t ≠ tag := by
                    rintro rfl
                    simp [Hearer.joinedBy, hid] at aside
                  simp [Task.due, hne]
                · simp [Task.due, hid]
            | _ => rfl

theorem spares_dispose (absent : s.Absent hearer) (id : LiveId) :
    (s.dispose id).Spares hearer s.tasks := by
  unfold Session.dispose
  split
  · exact .refl absent
  · split
    · exact .refl absent
    · refine Spares.modifyLive ((Spares.refl absent).of_tasks (absent.unlistenAll _)
        (s.tasks_unlistenAll _)) fun live _ hafter => ?_
      cases hearer with
      | listener => exact hafter
      | subscriber => exact nomatch hafter.2
      | errorListener => exact absurd rfl hafter.1

/-- Unless it joins again, no call gives a hearer anything to be told. -/
theorem spares_call (absent : s.Absent hearer) (ended : s.Ended hearer) {c : Call}
    (aside : hearer.joinedBy c = false) : (s.call c).Spares hearer s.tasks := by
  have hrefl := Spares.refl absent
  cases c with
  | write id writes => exact spares_write absent id writes
  | insertRow id row =>
      change (s.insertRow id row).1.Spares hearer s.tasks
      unfold insertRow
      split
      · exact hrefl.push rfl
      · exact spares_write absent id _
  | listen id tag => exact spares_listen absent id tag aside
  | unsubscribe subscription =>
      cases subscription with
      | collection id key => exact hrefl.of_tasks (absent.unlisten id key) rfl
      | live id key => exact hrefl.removeListener id key
  | materialize query options => exact spares_materialize absent query options
  | preload id => exact spares_preload absent id
  | subscribe id tag => exact spares_subscribe absent id tag aside
  | onError id t =>
      refine hrefl.modifyLive fun live found hafter => ?_
      cases hearer with
      | errorListener k tag =>
          refine ⟨hafter.1, ?_⟩
          rcases List.mem_append.1 hafter.2 with hmem | hmem
          · exact hmem
          · -- only at the live query that has ended, or under another name
            cases List.mem_singleton.1 hmem
            have hid : id = k := by simpa [Hearer.joinedBy] using aside
            rw [Ended, ← hid, found] at ended
            exact absurd (Option.some.inj ended) hafter.1
      | _ => exact hafter
  | dispose id => exact spares_dispose absent id
  | retain id => exact hrefl.aside id fun _ => ⟨rfl, rfl, rfl⟩
  | release id =>
      refine Spares.giveUp (hrefl.aside id fun _ => ?_) id
      exact ⟨rfl, rfl, rfl⟩

end Session

/-! ## Runs -/

/-- A part of a run in which a hearer does not join again, with what it is told. -/
inductive Moment.Hearing (hearer : Hearer) : Moment → List Signal → Moment → Prop
  | start (m : Moment) : Hearing hearer m [] m
  | call {m m₁ : Moment} {signals : List Signal} (before : Hearing hearer m signals m₁) (c : Call)
      (control : m₁.control = true) (permits : m₁.Permits c) (aside : hearer.joinedBy c = false) :
      Hearing hearer m signals ⟨⟨m₁.session.call c, m₁.trace ++ c.events⟩, !c.waits⟩
  | back {m m₁ : Moment} {signals : List Signal} (before : Hearing hearer m signals m₁)
      (control : m₁.control = true) : Hearing hearer m signals { m₁ with control := false }
  | step {m m₁ : Moment} {signals : List Signal} (before : Hearing hearer m signals m₁)
      (control : m₁.control = false) :
      Hearing hearer m (signals ++ m₁.session.tells hearer)
        ⟨⟨m₁.session.step.1, m₁.trace ++ m₁.session.events⟩, m₁.session.step.2.isSome⟩

/-- Whether a call cancels a hearer: it takes back the only subscription that there is of the
name, or disposes of the only live query that has an error listener of the name. -/
def Moment.cancels (m : Moment) : Call → Hearer → Bool
  | .unsubscribe (.collection id key), .listener c tag =>
      id = c ∧ (m.session.store c).listeners.get? key = some (.caller tag) ∧
        ∀ entry ∈ (m.session.store c).listeners.entries, entry.2 = .caller tag → entry.1 = key
  | .unsubscribe (.live id key), .subscriber k tag =>
      id = k ∧ (m.session.live? k).any fun live =>
        live.listeners.get? key = some tag ∧
          ∀ entry ∈ live.listeners.entries, entry.2 = tag → entry.1 = key
  | .dispose id, .errorListener k tag =>
      id = k ∧ ((m.session.live? k).any fun live => tag ∈ live.errorListeners) ∧
        ∀ other ∈ m.session.lives.eraseIdx k, tag ∉ other.errorListeners
  | _, _ => false

namespace Moment

variable {hearer : Hearer} {m m' : Moment} {signals : List Signal}

theorem Hearing.later (h : m.Hearing hearer signals m') : m.Later m' := by
  induction h with
  | start => exact .refl
  | call before c control permits aside ih => exact ih.tail (.call c control permits)
  | back before control ih => exact ih.tail (.back control)
  | step before control ih => exact ih.tail (.step control)

/-- What is disposed of stays so. -/
theorem Later.disposed (h : m.Later m') {id : LiveId}
    (status : (m.session.live? id).map Live.status = some .disposed) :
    (m'.session.live? id).map Live.status = some .disposed := by
  obtain ⟨live, found, hdisposed⟩ := Option.map_eq_some_iff.1 status
  obtain ⟨after, found', hle⟩ := h.aged.lives id live found
  rw [hdisposed] at hle
  exact Option.map_eq_some_iff.2 ⟨after, found', Status.eq_disposed hle⟩

theorem Later.ended (h : m.Later m') (ended : m.session.Ended hearer) :
    m'.session.Ended hearer := by
  cases hearer with
  | errorListener => exact h.disposed ended
  | _ => trivial

theorem Later.silences (h : m.Later m') (silent : m.session.Silences hearer) :
    m'.session.Silences hearer := by
  cases hearer with
  | subscriber => exact h.disposed silent
  | _ => exact silent

/-- A hearer that is on no list is told what was due, from the first on. -/
theorem Hearing.absent (h : m.Hearing hearer signals m') (absent : m.session.Absent hearer)
    (ended : m.session.Ended hearer) : m'.session.Absent hearer ∧
      signals <+: m.session.due hearer ∧
        (¬ m'.session.Silences hearer →
          signals ++ m'.session.due hearer = m.session.due hearer) := by
  induction h with
  | start => exact ⟨absent, List.nil_prefix, fun _ => rfl⟩
  | @call m₁ signals before c control permits aside ih =>
      obtain ⟨habsent, hfirst, heq⟩ := ih
      have hcall := Session.spares_call habsent (before.later.ended ended) aside
      have hnext : m₁.Later ⟨⟨m₁.session.call c, m₁.trace ++ c.events⟩, !c.waits⟩ :=
        .single (.call c control permits)
      refine ⟨hcall.absent, hfirst, fun hloud => ?_⟩
      rw [hcall.due_eq]
      exact heq fun hsilent => hloud (hnext.silences hsilent)
  | back before control ih => exact ih
  | @step m₁ signals before control ih =>
      obtain ⟨habsent, hfirst, heq⟩ := ih
      obtain ⟨base, hstep, hloudly, hsilently⟩ := Session.exists_advances habsent
      have hnext : m₁.Later
          ⟨⟨m₁.session.step.1, m₁.trace ++ m₁.session.events⟩, m₁.session.step.2.isSome⟩ :=
        .single (.step control)
      by_cases hsilent : m₁.session.Silences hearer
      · rw [hsilently hsilent, List.append_nil]
        exact ⟨hstep.absent, hfirst, fun hloud => absurd (hnext.silences hsilent) hloud⟩
      · have hbefore := heq hsilent
        rw [hloudly hsilent, ← List.append_assoc, ← hstep.due_eq] at hbefore
        exact ⟨hstep.absent, ⟨_, hbefore⟩, fun _ => hbefore⟩

/-- The call takes the hearer off the list it was on, and what is due to it stays due. -/
theorem absent_of_cancels {c : Call} (h : m.cancels c hearer = true) :
    (m.session.call c).Absent hearer ∧ (m.session.call c).Ended hearer ∧
      (m.session.call c).due hearer = m.session.due hearer := by
  unfold cancels at h
  split at h
  next id key c tag =>
    obtain ⟨rfl, -, once⟩ := of_decide_eq_true h
    refine ⟨⟨fun k => ?_, fun _ _ _ h => h⟩, trivial, rfl⟩
    rintro ⟨rfl, key', hkey⟩
    change ((m.session.unlisten k key).store k).listeners.get? key' = _ at hkey
    rw [Session.get?_unlisten] at hkey
    split at hkey
    · cases hkey
    next hother => exact hother ⟨rfl, once _ (OrdMap.get?_eq_some_iff.1 hkey) rfl⟩
  next id key k tag =>
    obtain ⟨rfl, hlive⟩ := of_decide_eq_true h
    obtain ⟨live, found, hlistens⟩ := (Option.any_eq_true _ _).1 hlive
    have once := (of_decide_eq_true hlistens).2
    refine ⟨⟨fun _ h => h, fun k after hafter => ?_⟩, trivial, rfl⟩
    rintro ⟨rfl, key', hkey⟩
    change (m.session.modifyLive k fun live => live.removeListener key).live? k = _ at hafter
    rw [Session.live?_modifyLive, if_pos rfl, found] at hafter
    cases hafter
    change (live.listeners.erase key).get? key' = _ at hkey
    rw [OrdMap.get?_erase_eq] at hkey
    split at hkey
    · cases hkey
    next hother => exact hother (once _ (OrdMap.get?_eq_some_iff.1 hkey) rfl)
  next id k tag =>
    obtain ⟨rfl, hlive, once⟩ := of_decide_eq_true h
    obtain ⟨live, found, -⟩ := (Option.any_eq_true _ _).1 hlive
    have hended : ((m.session.dispose id).live? id).map Live.status = some .disposed := by
      rw [Session.live?_dispose, if_pos rfl, found]
      by_cases hdisposed : live.status = .disposed <;> simp [hdisposed, Live.dispose]
    refine ⟨⟨fun _ h => h, fun k after hafter => ?_⟩, hended, ?_⟩
    · rintro ⟨hstatus, hmem⟩
      change (m.session.dispose id).live? k = _ at hafter
      by_cases hk : k = id
      · rw [hk] at hafter
        rw [hafter] at hended
        exact hstatus (Option.some.inj hended)
      · rw [Session.live?_dispose, if_neg hk] at hafter
        exact once after (List.mem_eraseIdx_iff_getElem?.2 ⟨k, hk, hafter⟩) hmem
    · change (m.session.dispose id).tasks.flatMap _ = _
      rw [Session.tasks_dispose]
      rfl
  · cases h

/-- A hearer that cancels when no delivery has begun is told nothing any more. -/
theorem Hearing.nothing {c : Call} (cancels : m.cancels c hearer = true)
    (run : Hearing hearer ⟨⟨m.session.call c, m.trace ++ c.events⟩, !c.waits⟩ signals m')
    (idle : m.session.tasks = []) : signals = [] := by
  obtain ⟨habsent, hended, hdue⟩ := Moment.absent_of_cancels cancels
  have hfirst := (run.absent habsent hended).2.1
  rw [hdue, Session.due, idle] at hfirst
  exact List.prefix_nil.1 hfirst

end Moment

/-! ## Deliveries that had begun -/

namespace Session

/-- A session with one collection, and a query for a field of its rows. -/
def ofField : Session where
  plan := (Engine.queryOver ⟨0, "rows"⟩ fun rows =>
    Builder.selectValue (.ref ⟨rows.body, rows.path.get "x"⟩)).plan
  stores := [{ collection := .new "rows" none }]

theorem opened_ofField : ofField.Opened :=
  .of_body rfl rfl fun _ horigin => by cases horigin; rfl

end Session

/-- In some run a hearer is told something after the call that cancels it has returned. -/
def Hearer.ToldStill (hearer : Hearer) : Prop :=
  ∃ (m : Moment) (c : Call) (signals : List Signal) (m' : Moment), m.Reached ∧
    m.control = true ∧ m.Permits c ∧ m.cancels c hearer = true ∧
    Moment.Hearing hearer ⟨⟨m.session.call c, m.trace ++ c.events⟩, !c.waits⟩ signals m' ∧
      signals ≠ []

/-- A given run in which a listener cancels another one that would be told next. -/
theorem Hearer.ToldStill.of_follow {s : Session} (opened : s.Opened) (calls : List (Option Call))
    (c : Call) {hearer : Hearer} (returns : c.waits = false)
    (run : (Moment.follow calls ⟨⟨s, []⟩, true⟩).any (fun m =>
      m.control && decide (m.Permits c) && m.cancels c hearer &&
        !((m.session.call c).tells hearer).isEmpty) = true) : hearer.ToldStill := by
  obtain ⟨m, hfollow, hm⟩ := (Option.any_eq_true _ _).1 run
  simp only [Bool.and_eq_true, decide_eq_true_eq, Bool.not_eq_true', List.isEmpty_eq_false_iff]
    at hm
  obtain ⟨⟨⟨hcontrol, hpermits⟩, hcancels⟩, htold⟩ := hm
  -- the caller gives back control, and the next step tells the hearer
  have hstart : Moment.Hearing hearer ⟨⟨m.session.call c, m.trace ++ c.events⟩, !c.waits⟩ []
      ⟨⟨m.session.call c, m.trace ++ c.events⟩, !c.waits⟩ := .start _
  have hback := hstart.back (by simp [returns])
  exact ⟨m, c, _, _, opened.reached.follow hfollow, hcontrol, hpermits, hcancels,
    .step hback rfl, htold⟩

/-- Of two listeners of a collection, the first one takes back the subscription of the second. -/
theorem Hearer.ToldStill.listener : Hearer.ToldStill (.listener 0 2) :=
  .of_follow Session.opened_ofRows
    [some (.listen 0 1), some (.listen 0 2), some (.write 0 [.insert ⟨[.int 1]⟩ .nil]), none]
    (.unsubscribe (.collection 0 1)) rfl (by decide +kernel)

/-- Of two subscribers, the first one takes back the subscription of the second. -/
theorem Hearer.ToldStill.subscriber : Hearer.ToldStill (.subscriber 0 2) :=
  .of_follow Session.opened_ofRows
    [some (.materialize 0 { id := "rows", startPreloaded := true }), some (.subscribe 0 1), none,
      some (.subscribe 0 2), none, some (.write 0 [.insert ⟨[.int 1]⟩ .nil]), none, none, none]
    (.unsubscribe (.live 0 1)) rfl (by decide +kernel)

/-- Of two error listeners of a live query, the first one disposes of it. -/
theorem Hearer.ToldStill.errorListener : Hearer.ToldStill (.errorListener 0 2) :=
  .of_follow Session.opened_ofField
    [some (.materialize 0 { id := "rows", startPreloaded := true, policy := .strict }),
      some (.onError 0 1), some (.onError 0 2), some (.write 0 [.insert ⟨[.int 1]⟩ .nil]), none,
      none, none]
    (.dispose 0) rfl (by decide +kernel)

/-- A hearer that has cancelled is told what deliveries that had begun have left for it, in their
order, and nothing else; unless it is silenced, it is told all of that. -/
theorem told_after_cancelling {m m' : Moment} {c : Call} {hearer : Hearer} {signals : List Signal}
    (cancels : m.cancels c hearer = true)
    (run : Moment.Hearing hearer ⟨⟨m.session.call c, m.trace ++ c.events⟩, !c.waits⟩ signals m') :
    signals <+: m.session.due hearer ∧
      (¬ m'.session.Silences hearer →
        signals ++ m'.session.due hearer = m.session.due hearer) := by
  obtain ⟨habsent, hended, hdue⟩ := Moment.absent_of_cancels cancels
  obtain ⟨_, hfirst, heq⟩ := run.absent habsent hended
  rw [hdue] at hfirst heq
  exact ⟨hfirst, heq⟩

/-- The second of two listeners, which the first one has cancelled. -/
theorem told_after_cancelling_next :
    ∃ (m : Moment) (c : Call) (signals : List Signal) (m' : Moment), m.Reached ∧
      m.cancels c (.listener 0 2) = true ∧
      Moment.Hearing (.listener 0 2) ⟨⟨m.session.call c, m.trace ++ c.events⟩, !c.waits⟩ signals
        m' ∧
      signals ≠ [] ∧ signals <+: m.session.due (.listener 0 2) ∧
      signals ++ m'.session.due (.listener 0 2) = m.session.due (.listener 0 2) := by
  obtain ⟨m, c, signals, m', reached, -, -, cancels, run, htold⟩ := Hearer.ToldStill.listener
  obtain ⟨hfirst, heq⟩ := told_after_cancelling cancels run
  exact ⟨m, c, signals, m', reached, cancels, run, htold, hfirst, heq fun h => h⟩

/-- Listeners, subscribers and error listeners are told something after they have cancelled. -/
theorem silence_after_cancelling_fails :
    Hearer.ToldStill (.listener 0 2) ∧ Hearer.ToldStill (.subscriber 0 2) ∧
      Hearer.ToldStill (.errorListener 0 2) :=
  ⟨.listener, .subscriber, .errorListener⟩

end LiveQuery
