import LiveQuery.Proofs.Session.Turns

/-!
# Live queries that are there

Live queries are numbered as they are made and never taken away. So a number that stands
anywhere in a session, or in what has happened in it, is that of a live query that is there,
and a new one has no past.

**Results.** `Moment.Reached.named`.
-/

namespace LiveQuery

/-- The live query that a task is about. -/
def Task.live? : Task → Option LiveId
  | workOff id => some id
  | deliver id _ _ => some id
  | retire id _ => some id
  | finish id => id
  | _ => none

theorem Task.live?_of_holds {task : Task} {id : LiveId} (h : task.holds id = true) :
    task.live? = some id := by
  cases task with
  | workOff live => exact congrArg some (of_decide_eq_true h)
  | finish live => exact of_decide_eq_true h
  | _ => cases h

/-- Tasks, events and listeners name live queries that are there. -/
structure Named (h : History) : Prop where
  tasks : ∀ task ∈ h.session.tasks, ∀ id, task.live? = some id → id < h.session.lives.length
  events : ∀ e ∈ h.trace, e.live < h.session.lives.length
  listeners : ∀ c key id, (h.session.store c).listeners.get? key = some (.live id) →
    id < h.session.lives.length

namespace Named

variable {s s' : Session} {es new : List Event}

theorem opened (h : s.Opened) : Named ⟨s, []⟩ where
  tasks task htask := by simp [h.tasks] at htask
  events e he := absurd he List.not_mem_nil
  listeners c key id hid := by
    change (s.store c).listeners.get? key = _ at hid
    by_cases hlt : c < s.stores.length
    · have hstore : s.store c ∈ s.stores := by
        simp [Session.store, List.getD_eq_getElem?_getD, List.getElem?_eq_getElem hlt]
      rw [h.listeners _ hstore] at hid
      cases hid
    · rw [Session.store_of_length_le (Nat.le_of_not_lt hlt)] at hid
      cases hid

/-- Whatever is new in a session names live queries that are there. -/
theorem change (h : Named ⟨s, es⟩) (s' : Session) (hlength : s.lives.length ≤ s'.lives.length)
    (htasks : ∀ task ∈ s'.tasks, ∀ id, task.live? = some id →
      (∃ task' ∈ s.tasks, task'.live? = some id) ∨ id < s'.lives.length)
    (hlisteners : ∀ c key id, (s'.store c).listeners.get? key = some (.live id) →
      (s.store c).listeners.get? key = some (.live id) ∨ id < s'.lives.length) :
    Named ⟨s', es⟩ where
  tasks task htask id hid := by
    rcases htasks task htask id hid with ⟨task', htask', hid'⟩ | hlt
    · exact Nat.lt_of_lt_of_le (h.tasks task' htask' id hid') hlength
    · exact hlt
  events e he := Nat.lt_of_lt_of_le (h.events e he) hlength
  listeners c key id hid := by
    rcases hlisteners c key id hid with hold | hlt
    · exact Nat.lt_of_lt_of_le (h.listeners c key id hold) hlength
    · exact hlt

/-- Whatever happens, happens to live queries that are there. -/
theorem addEvents (h : Named ⟨s, es⟩) (hnew : ∀ e ∈ new, e.live < s.lives.length) :
    Named ⟨s, es ++ new⟩ where
  tasks := h.tasks
  events e he := (List.mem_append.1 he).elim (h.events e) (hnew e)
  listeners := h.listeners

theorem setTasks (h : Named ⟨s, es⟩) {tasks : List Task}
    (htasks : ∀ task ∈ tasks, ∀ id, task.live? = some id →
      (∃ task' ∈ s.tasks, task'.live? = some id) ∨ id < s.lives.length) :
    Named ⟨s.setTasks tasks, es⟩ :=
  h.change (s.setTasks tasks) (Nat.le_refl _) htasks fun _ _ _ hid => .inl hid

theorem push (h : Named ⟨s, es⟩) {task : Task}
    (htask : ∀ id, task.live? = some id → id < s.lives.length) : Named ⟨s.push task, es⟩ :=
  h.setTasks fun task' htask' id hid => by
    rcases List.mem_cons.1 htask' with rfl | hold
    · exact .inr (htask id hid)
    · exact .inl ⟨task', hold, hid⟩

/-- A task that goes on is about the same live query. -/
theorem replace (h : Named ⟨s, es⟩) {task : Task} {others : List Task}
    (tasks : s.tasks = task :: others) (after : Task) (hafter : after.live? = task.live?) :
    Named ⟨s.setTasks (after :: others), es⟩ :=
  h.setTasks fun task' htask' id hid => by
    rw [tasks]
    rcases List.mem_cons.1 htask' with rfl | hold
    · exact .inl ⟨task, List.mem_cons_self, hafter ▸ hid⟩
    · exact .inl ⟨task', List.mem_cons_of_mem _ hold, hid⟩

theorem setLive (h : Named ⟨s, es⟩) (id : LiveId) (live : Live) :
    Named ⟨s.setLive id live, es⟩ :=
  h.change (s.setLive id live) (Nat.le_of_eq (Session.length_lives_setLive s id live).symm)
    (fun task htask _ hid => .inl ⟨task, htask, hid⟩) fun _ _ _ hid => .inl hid

/-- Something happens to a live query. -/
theorem setLive_addEvents (h : Named ⟨s, es⟩) {id : LiveId} {live : Live}
    (found : s.live? id = some live) (after : Live) (hnew : ∀ e ∈ new, e.live = id) :
    Named ⟨s.setLive id after, es ++ new⟩ :=
  (h.setLive id after).addEvents fun e he => by
    rw [hnew e he, Session.length_lives_setLive]
    exact Session.live?_eq_some_lt found

/-- Nobody new listens to a collection. -/
theorem setListeners (h : Named ⟨s, es⟩) (s' : Session) (htasks : s'.tasks = s.tasks)
    (hlength : s'.lives.length = s.lives.length)
    (hlisteners : ∀ c key id, (s'.store c).listeners.get? key = some (.live id) →
      (s.store c).listeners.get? key = some (.live id)) : Named ⟨s', es⟩ :=
  h.change s' (Nat.le_of_eq hlength.symm)
    (fun task htask _ hid => .inl ⟨task, htasks ▸ htask, hid⟩)
    fun c key id hid => .inl (hlisteners c key id hid)

/-- Each turn names live queries that are there. -/
theorem turn {h h' : History} (hnamed : Named h) (hturn : Turn h h') : Named h' := by
  cases hturn with
  | @push s es task callable =>
      refine hnamed.push fun id hid => ?_
      cases task with
      | notify => cases hid
      | alarm => cases hid
      | retire live key =>
          cases hid
          exact callable
      | finish live =>
          cases live with
          | none => cases hid
          | some live =>
              cases hid
              exact callable
      | workOff => exact callable.elim
      | deliver => exact callable.elim
  | pop tasks done =>
      exact hnamed.setTasks fun task htask id hid =>
        .inl ⟨task, tasks ▸ List.mem_cons_of_mem _ htask, hid⟩
  | @pass s es collection batch listener rest others tasks =>
      exact hnamed.replace tasks _ rfl
  | @passAlarm s es error tag rest others tasks =>
      exact hnamed.replace tasks _ rfl
  | @tell s es live changes tag rest others tasks status =>
      have htop : .deliver live changes (tag :: rest) ∈ s.tasks := tasks ▸ List.mem_cons_self
      have hlt := hnamed.tasks _ htop live rfl
      refine (hnamed.replace tasks (.deliver live changes rest) rfl).addEvents fun e he => ?_
      rw [List.mem_singleton.1 he]
      exact hlt
  | @commit s es id collection =>
      refine hnamed.setListeners _ rfl (by simp) fun c key live hid => ?_
      rw [Session.store_modifyStore] at hid
      split at hid <;> exact hid
  | @listen s es id tag =>
      refine hnamed.setListeners _ rfl rfl fun c key live hid => ?_
      rw [Session.get?_listenAs] at hid
      split at hid
      · cases hid
      · exact hid
  | @unlisten s es id key others =>
      refine hnamed.setListeners _ rfl rfl fun c key' live hid => ?_
      rw [Session.get?_unlisten] at hid
      split at hid
      · cases hid
      · exact hid
  | @create s es query options engine made =>
      refine hnamed.change _ (by simp)
        (fun task htask _ hid => .inl ⟨task, by simpa using htask, hid⟩) fun c key live hid => ?_
      change ((s.listenAll s.lives.length engine.collections).1.store c).listeners.get? key
        = _ at hid
      rw [Session.get?_listenAll] at hid
      split at hid
      · cases hid
        exact .inr (by simp)
      · exact .inl hid
  | aside => exact hnamed.setLive _ _
  | @giveUp s es id =>
      refine hnamed.setListeners _ (by simp) (by simp) fun c key live hid => ?_
      rw [Session.get?_giveUp] at hid
      split at hid
      · cases hid
      · exact hid
  | @dispose s es id live found status =>
      refine (hnamed.setListeners (s.unlistenAll live.listening) (by simp) (by simp)
        fun c key live' hid => ?_).setLive _ _
      rw [Session.get?_unlistenAll] at hid
      split at hid
      · cases hid
      · exact hid
  | receive found => exact hnamed.setLive_addEvents found _ (by simp [Event.live])
  | receiveFirst found =>
      refine (hnamed.setLive_addEvents found _ (by simp [Event.live])).push fun id hid => ?_
      cases hid
      simpa using Session.live?_eq_some_lt found
  | start found status coming => exact hnamed.setLive_addEvents found _ coming.live_eq
  | failStart found status coming => exact hnamed.setLive_addEvents found _ coming.live_eq
  | join found => exact hnamed.setLive_addEvents found _ (by simp [Event.live])
  | refuse id tag named => exact hnamed.addEvents (by simpa [Event.live] using named)
  | apply tasks found => exact hnamed.setLive_addEvents found _ (by simp [Event.live])
  | applyTelling tasks found =>
      refine (hnamed.setLive_addEvents found _ (by simp [Event.live])).push fun id hid => ?_
      cases hid
      simpa using Session.live?_eq_some_lt found
  | failApply tasks found => exact hnamed.setLive_addEvents found _ (by simp [Event.live])
  | @rest s es id live others tasks found through =>
      exact (hnamed.setTasks fun task htask id hid =>
        .inl ⟨task, tasks ▸ List.mem_cons_of_mem _ htask, hid⟩).setLive _ _

theorem opening {h h' : History} (hnamed : Named h) (hopening : Opening h h') : Named h' := by
  cases hopening with
  | start found status coming =>
      refine (hnamed.setLive_addEvents found _ coming.live_eq).push fun id hid => ?_
      cases hid
      simpa using Session.live?_eq_some_lt found
  | join found =>
      refine (hnamed.setLive_addEvents found _ (by simp [Event.live])).push fun id hid => ?_
      cases hid
      simpa using Session.live?_eq_some_lt found

end Named

theorem Moment.Reached.named {m : Moment} (h : m.Reached) : Named m.toHistory :=
  h.keeps (fun _ => Named.opened) Named.turn Named.opening

end LiveQuery
