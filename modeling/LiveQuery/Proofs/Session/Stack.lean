import LiveQuery.Proofs.Session.Run
import Mathlib.Algebra.GroupWithZero.Nat

/-!
# The stack of tasks

A step works on the innermost task only, and a call puts its tasks on top. So what a task
sets off is done before anything below it goes on, however calls nest. Steps of which the
caller is told nothing use up weight, and so the caller always gets control back.

**Results.** `Moment.Later.above`: the tasks below come on top again only when those above
are done. `Moment.resumed`: from each moment at which the caller waits, the run goes on to
where `Session.resume` ends, and there the caller has control.
-/

namespace LiveQuery

/-- Whether a task tells a batch to the listeners of a collection. -/
def Task.notifies : Task → Bool
  | notify .. => true
  | _ => false

/-- The collections hold given rows, and on top of given tasks are only ones that tell no batch
of a collection: nothing was written. -/
structure Session.Quiet (base : List Task) (rows : CollectionId → Rows) (s : Session) : Prop where
  tasks : ∃ above, s.tasks = above ++ base ∧ ∀ task ∈ above, task.notifies = false
  contents : ∀ c, s.contents c = rows c

namespace Session

variable {s s' : Session} {base : List Task} {rows : CollectionId → Rows}

/-! ## What stays below -/

namespace Quiet

theorem refl (s : Session) : s.Quiet s.tasks s.contents :=
  ⟨⟨[], rfl, fun _ h => absurd h List.not_mem_nil⟩, fun _ => rfl⟩

theorem suffix (h : s.Quiet base rows) : base <:+ s.tasks := by
  obtain ⟨above, htasks, _⟩ := h.tasks
  exact ⟨above, htasks.symm⟩

theorem of_same (h : s.Quiet base rows) (tasks : s'.tasks = s.tasks)
    (contents : ∀ c, s'.contents c = s.contents c) : s'.Quiet base rows :=
  ⟨tasks ▸ h.tasks, fun c => (contents c).trans (h.contents c)⟩

theorem modifyLive (h : s.Quiet base rows) (id : LiveId) (f : Live → Live) :
    (s.modifyLive id f).Quiet base rows :=
  h.of_same rfl fun _ => rfl

theorem prepend (h : s.Quiet base rows) (new : List Task)
    (hnew : ∀ task ∈ new, task.notifies = false) : (s.setTasks (new ++ s.tasks)).Quiet base rows := by
  obtain ⟨above, htasks, habove⟩ := h.tasks
  refine ⟨⟨new ++ above, ?_, fun task htask => ?_⟩, h.contents⟩
  · rw [tasks_setTasks, htasks, List.append_assoc]
  · exact (List.mem_append.1 htask).elim (hnew task) (habove task)

theorem push (h : s.Quiet base rows) {task : Task} (htask : task.notifies = false) :
    (s.push task).Quiet base rows :=
  h.prepend [task] (by simpa using htask)

theorem putOut (h : s.Quiet base rows) (id : LiveId) (changes : List Change) :
    (s.putOut id changes).Quiet base rows := by
  unfold Session.putOut
  split
  · exact h
  · split
    · exact h
    · split
      · exact h.push rfl
      · split
        · exact h.modifyLive _ _
        · exact h

theorem halt (h : s.Quiet base rows) (id : LiveId) (error : EvalError) :
    (s.halt id error).Quiet base rows := by
  unfold Session.halt
  split
  · exact h
  · simp only
    split
    · exact h.modifyLive _ _
    · exact (h.modifyLive id _).push rfl

theorem start (h : s.Quiet base rows) (id : LiveId) (live : Live) (whenFailed : List Task)
    (hfailed : ∀ task ∈ whenFailed, task.notifies = false) :
    (s.start id live whenFailed).1.Quiet base rows := by
  unfold Session.start
  cases Engine.load s.contents live.engine with
  | ok done engine => exact (h.modifyLive id _).putOut id _
  | error error engine => exact ((h.prepend whenFailed hfailed).modifyLive id _).halt id error

theorem accept (h : s.Quiet base rows) (id : LiveId) (collection : CollectionId)
    (batch : List Change) : (s.accept id collection batch).Quiet base rows := by
  unfold Session.accept
  split
  · exact h
  · split
    · exact h
    · simp only
      split
      · exact h.modifyLive _ _
      · exact (h.modifyLive id _).push rfl

theorem giveUp (h : s.Quiet base rows) (id : LiveId) : (s.giveUp id).Quiet base rows :=
  h.of_same (s.tasks_giveUp id) fun c => s.contents_giveUp id c

theorem process (h : s.Quiet base rows) (id : LiveId) (live : Live) (collection : CollectionId)
    (batch : List Change) : (s.process id live collection batch).Quiet base rows := by
  unfold Session.process
  split
  · exact (h.modifyLive id _).putOut id _
  · exact (h.modifyLive id _).halt id _

/-- Of a session whose innermost task is taken out. -/
theorem tail {others : List Task} (hcontents : ∀ c, s.contents c = rows c)
    (htasks : s.tasks = others) : s.Quiet others rows :=
  ⟨⟨[], htasks, fun _ h => absurd h List.not_mem_nil⟩, hcontents⟩

/-- A queue is worked off above the other tasks. -/
theorem workOffNext {id : LiveId} {others : List Task} (tasks : s.tasks = .workOff id :: others) :
    (s.workOffNext id others).Quiet others s.contents := by
  have hall : s.Quiet others s.contents :=
    ⟨⟨[.workOff id], tasks, fun task htask => by rw [List.mem_singleton.1 htask]; rfl⟩, fun _ => rfl⟩
  have hothers : (s.setTasks others).Quiet others s.contents := .tail (fun _ => rfl) rfl
  unfold Session.workOffNext
  split
  · exact hothers
  · split
    · exact (hall.modifyLive id _).process id _ _ _
    · exact (hothers.modifyLive id _).giveUp id

end Quiet

/-- A step tells the next listener of a collection. -/
theorem quiet_step_notify {collection : CollectionId} {batch : List Change} {listener : Listener}
    {rest : List Listener} {others : List Task}
    (tasks : s.tasks = .notify collection batch (listener :: rest) :: others) :
    s.step.1.Quiet (.notify collection batch rest :: others) s.contents := by
  have htold : (s.setTasks (.notify collection batch rest :: others)).Quiet
      (.notify collection batch rest :: others) s.contents := .tail (fun _ => rfl) rfl
  cases listener with
  | caller tag =>
      simp only [step, tasks]
      exact htold
  | live id =>
      simp only [step, tasks]
      exact htold.accept id collection batch

/-- Any other step works on the innermost task. -/
theorem quiet_step (s : Session) (h : ∀ collection batch listener rest,
      s.tasks.head? ≠ some (.notify collection batch (listener :: rest))) :
    s.step.1.Quiet s.tasks.tail s.contents := by
  cases tasks : s.tasks with
  | nil =>
      simp only [step, tasks]
      exact .tail (fun _ => rfl) tasks
  | cons task others =>
      have hothers : (s.setTasks others).Quiet others s.contents := .tail (fun _ => rfl) rfl
      match task with
      | .notify collection batch [] =>
          simp only [step, tasks]
          exact hothers
      | .notify collection batch (listener :: rest) =>
          rw [tasks] at h
          exact absurd rfl (h collection batch listener rest)
      | .workOff id =>
          simp only [step, tasks]
          exact .workOffNext tasks
      | .deliver id changes [] =>
          simp only [step, tasks]
          exact hothers
      | .deliver id changes (tag :: rest) =>
          simp only [step, tasks]
          split
          · exact hothers
          · have htold : Task.notifies (.deliver id changes rest) = false := rfl
            exact hothers.push htold
      | .alarm error [] =>
          simp only [step, tasks]
          exact hothers
      | .alarm error (tag :: rest) =>
          simp only [step, tasks]
          have htold : Task.notifies (.alarm error rest) = false := rfl
          exact hothers.push htold
      | .retire id key =>
          simp only [step, tasks]
          exact hothers.modifyLive id _
      | .finish none =>
          simp only [step, tasks]
          exact hothers
      | .finish (some id) =>
          simp only [step, tasks]
          exact hothers.giveUp id

theorem suffix_step (s : Session) : s.tasks.tail <:+ s.step.1.tasks := by
  by_cases h : ∃ collection batch listener rest,
      s.tasks.head? = some (.notify collection batch (listener :: rest))
  · obtain ⟨collection, batch, listener, rest, hhead⟩ := h
    obtain ⟨others, tasks⟩ := List.head?_eq_some_iff.1 hhead
    rw [tasks]
    exact (List.suffix_cons _ _).trans (quiet_step_notify tasks).suffix
  · simp only [not_exists] at h
    exact (s.quiet_step h).suffix

theorem quiet_materialize (s : Session) (query : BodyId) (options : LiveOptions) :
    (s.materialize query options).1.Quiet s.tasks s.contents := by
  obtain ⟨error, _, hresult⟩ | ⟨engine, _, hresult⟩ := s.materialize_cases query options
  · rw [hresult]
    exact .refl s
  have hcreated : (s.create options engine).Quiet s.tasks s.contents :=
    (Quiet.refl s).of_same (s.tasks_create options engine) fun c => s.contents_create options engine c
  have hstart := hcreated.start s.lives.length (s.newLive options engine) []
    fun _ h => absurd h List.not_mem_nil
  obtain ⟨_, hresult⟩ | ⟨done, hdone, hresult⟩ | ⟨done, error, hdone, hresult⟩ := hresult
  · rwa [hresult]
  · rw [hresult]
    rwa [hdone] at hstart
  · rw [hresult]
    rw [hdone] at hstart
    exact (hstart.modifyLive _ _).giveUp _

theorem quiet_preload (s : Session) (id : LiveId) :
    (s.preload id).1.Quiet s.tasks s.contents := by
  have hcalled : (s.push (.finish (some id))).Quiet s.tasks s.contents := (Quiet.refl s).push rfl
  unfold preload ensureReady
  simp only
  split
  · exact hcalled
  · split
    · exact hcalled
    · split
      · exact hcalled
      · exact hcalled.start id _ _ fun _ h => absurd h List.not_mem_nil

theorem quiet_subscribe (s : Session) (id : LiveId) (tag : Tag) :
    (s.subscribe id tag).1.Quiet s.tasks s.contents := by
  have hcalled : (s.push (.finish (some id))).Quiet s.tasks s.contents := (Quiet.refl s).push rfl
  unfold subscribe
  simp only
  split
  · exact hcalled
  next live _ =>
    split
    · exact hcalled
    · have hjoined := hcalled.modifyLive id fun live => live.addListener tag
      split
      · have hstart := hjoined.start id (live.addListener tag)
          [.retire id live.nextListener]
          fun task htask => by rw [List.mem_singleton.1 htask]; rfl
        split
        next done _ heq => rwa [heq] at hstart
        next done _ heq => rwa [heq] at hstart
      · refine Quiet.modifyLive ?_ id _
        split
        · exact hjoined
        · exact hjoined.push rfl

/-- Only a write tells batches of a collection. -/
theorem quiet_call (s : Session) {c : Call} (hwrite : ∀ id writes, c ≠ .write id writes)
    (hinsert : ∀ id row, c ≠ .insertRow id row) : (s.call c).Quiet s.tasks s.contents := by
  have hrefl := Quiet.refl s
  cases c with
  | write id writes => exact absurd rfl (hwrite id writes)
  | insertRow id row => exact absurd rfl (hinsert id row)
  | listen id tag => exact hrefl.of_same rfl fun k => s.contents_listenAs _ _ k
  | unsubscribe subscription =>
      cases subscription with
      | collection id key => exact hrefl.of_same rfl fun k => s.contents_unlisten _ _ k
      | live id key => exact hrefl.modifyLive _ _
  | materialize query options => exact s.quiet_materialize query options
  | preload id => exact s.quiet_preload id
  | subscribe id tag => exact s.quiet_subscribe id tag
  | onError id tag => exact hrefl.modifyLive _ _
  | dispose id =>
      change (s.dispose id).Quiet s.tasks s.contents
      unfold dispose
      split
      · exact hrefl
      · split
        · exact hrefl
        · exact (hrefl.of_same (s.tasks_unlistenAll _) fun k => s.contents_unlistenAll _ k).modifyLive _ _
  | retain id => exact hrefl.modifyLive _ _
  | release id => exact (hrefl.modifyLive _ _).giveUp _

theorem suffix_write (s : Session) (id : CollectionId) (writes : List Write) :
    s.tasks <:+ (s.write id writes).1.tasks := by
  have below : s.tasks <:+ (s.push (.finish none)).tasks := List.suffix_cons _ _
  unfold write
  simp only
  split
  · exact below
  · split
    · exact below
    · exact below.trans (List.suffix_cons _ _)

/-- A call puts tasks on top of those that there are. -/
theorem suffix_call (s : Session) (c : Call) : s.tasks <:+ (s.call c).tasks := by
  by_cases hwrite : ∃ id writes, c = .write id writes
  · obtain ⟨id, writes, rfl⟩ := hwrite
    exact s.suffix_write id writes
  by_cases hinsert : ∃ id row, c = .insertRow id row
  · obtain ⟨id, row, rfl⟩ := hinsert
    change s.tasks <:+ (s.insertRow id row).1.tasks
    unfold insertRow
    split
    · exact List.suffix_cons _ _
    · exact s.suffix_write id _
  simp only [not_exists] at hwrite hinsert
  exact (s.quiet_call hwrite hinsert).suffix

end Session

/-- The tasks below stay below, until those above them are done. -/
theorem Moment.Later.above {m m' : Moment} (h : m.Later m') {above base : List Task}
    (tasks : m.session.tasks = above ++ base) :
    (∃ above', m'.session.tasks = above' ++ base ∧ above' ≠ []) ∨
      ∃ between : Moment, m.Later between ∧ between.Later m' ∧ between.session.tasks = base := by
  -- the innermost task is one of those above as long as there are any
  have hreach : ∀ {now : Moment} (above' : List Task), m.Later now →
      now.session.tasks = above' ++ base →
      (∃ above'', now.session.tasks = above'' ++ base ∧ above'' ≠ []) ∨
        ∃ between : Moment, m.Later between ∧ between.Later now ∧ between.session.tasks = base := by
    intro now above' hnow htasks
    by_cases hnone : above' = []
    · rw [hnone] at htasks
      exact .inr ⟨now, hnow, .refl, htasks⟩
    · exact .inl ⟨above', htasks, hnone⟩
  induction h with
  | refl => exact hreach above .refl tasks
  | @tail between after hbefore hnext ih =>
      rcases ih with ⟨above', habove, hsome⟩ | ⟨since, hsince, hlater, hbase⟩
      · cases hnext with
        | call c =>
            obtain ⟨new, hnew⟩ := between.session.suffix_call c
            refine hreach (new ++ above') (hbefore.tail (.call c ‹_› ‹_›)) ?_
            rw [List.append_assoc, ← habove]
            exact hnew.symm
        | back => exact .inl ⟨above', habove, hsome⟩
        | step =>
            obtain ⟨new, hnew⟩ := between.session.suffix_step
            rw [habove, List.tail_append_of_ne_nil hsome] at hnew
            refine hreach (new ++ above'.tail) (hbefore.tail (.step ‹_›)) ?_
            rw [List.append_assoc]
            exact hnew.symm
      · exact .inr ⟨since, hsince, hlater.tail hnext, hbase⟩

namespace Session

/-! ## What steps use up -/

section Weight

variable {s : Session}

theorem weight_eq (s : Session) :
    s.weight = (s.lives.map fun live => 2 * live.queue.length).sum
      + (s.tasks.map Task.weight).sum := by
  have hfold : ∀ {α : Type} (f : α → Nat) (l : List α) (n : Nat),
      l.foldr (fun a n => f a + n) n = (l.map f).sum + n := by
    intro α f l n
    induction l with
    | nil => simp
    | cons a rest ih => simp [ih, Nat.add_assoc]
  unfold weight
  simp only
  rw [hfold, hfold, Nat.add_zero]

theorem weight_push (task : Task) : (s.push task).weight = task.weight + s.weight := by
  simp only [weight_eq, tasks_push, lives_push, List.map_cons, List.sum_cons]
  omega

theorem weight_setTasks {task : Task} {others : List Task} (tasks : s.tasks = task :: others) :
    s.weight = task.weight + (s.setTasks others).weight := by
  simp only [weight_eq, tasks_setTasks, lives_setTasks, tasks, List.map_cons, List.sum_cons]
  omega

/-- The weight of a live query is that of its queue. -/
theorem weight_setLive {id : LiveId} {live : Live} (found : s.live? id = some live)
    (after : Live) :
    (s.setLive id after).weight + 2 * live.queue.length
      = s.weight + 2 * after.queue.length := by
  have hsum : ∀ (lives : List Live) (id : Nat), lives[id]? = some live →
      ((lives.modify id fun _ => after).map fun live => 2 * live.queue.length).sum
          + 2 * live.queue.length
        = (lives.map fun live => 2 * live.queue.length).sum + 2 * after.queue.length := by
    intro lives
    induction lives with
    | nil => intro id hid; cases hid
    | cons first rest ih =>
        intro id hid
        cases id with
        | zero =>
            cases hid
            simp only [List.modify_zero_cons, List.map_cons, List.sum_cons]
            omega
        | succ id =>
            have hrest := ih id hid
            simp only [List.modify_succ_cons, List.map_cons, List.sum_cons]
            omega
  have hlives := hsum s.lives id found
  rw [weight_eq, weight_eq]
  change ((s.lives.modify id fun _ => after).map _).sum + (s.tasks.map Task.weight).sum + _ = _
  omega

theorem weight_modifyLive_le (id : LiveId) {f : Live → Live}
    (shorter : ∀ live, (f live).queue.length ≤ live.queue.length) :
    (s.modifyLive id f).weight ≤ s.weight := by
  cases found : s.live? id with
  | none => exact Nat.le_of_eq (congrArg weight (modifyLive_of_none found f))
  | some live =>
      rw [modifyLive_eq_setLive found]
      have := weight_setLive found (f live)
      have := shorter live
      omega

theorem weight_giveUp_le (id : LiveId) : (s.giveUp id).weight ≤ s.weight := by
  unfold giveUp
  split
  · exact Nat.le_refl _
  next live _ =>
    split
    · exact Nat.le_refl _
    · have hsame : (s.unlistenAll live.listening).weight = s.weight := by
        simp only [weight_eq, tasks_unlistenAll, lives_unlistenAll]
      exact hsame ▸ weight_modifyLive_le id fun _ => Nat.le_refl _

theorem weight_putOut_le (id : LiveId) (changes : List Change) :
    (s.putOut id changes).weight ≤ s.weight + 1 := by
  unfold putOut
  split
  · exact Nat.le_succ _
  · split
    · exact Nat.le_succ _
    · split
      · rw [weight_push]
        exact Nat.le_of_eq (Nat.add_comm 1 s.weight)
      · split
        · exact Nat.le_succ_of_le (weight_modifyLive_le id fun _ => Nat.le_refl _)
        · exact Nat.le_succ _

theorem weight_halt_le (id : LiveId) (error : EvalError) :
    (s.halt id error).weight ≤ s.weight + 1 := by
  have hhalted : (s.modifyLive id fun live => live.halt error).weight ≤ s.weight :=
    weight_modifyLive_le id fun _ => Nat.le_refl _
  unfold halt
  split
  · exact Nat.le_succ _
  · simp only
    split
    · exact Nat.le_succ_of_le hhalted
    · rw [weight_push, Nat.add_comm]
      exact Nat.succ_le_succ hhalted

/-- A batch that is taken in has to be taken out of the queue and delivered. -/
theorem weight_accept_le (id : LiveId) (collection : CollectionId) (batch : List Change) :
    (s.accept id collection batch).weight ≤ s.weight + 3 := by
  unfold accept
  split
  · exact Nat.le_add_right _ _
  next live found =>
    split
    · exact Nat.le_add_right _ _
    · have hqueued := weight_setLive found (live.enqueue collection batch)
      have hlonger : (live.enqueue collection batch).queue.length = live.queue.length + 1 := by
        simp [Live.enqueue]
      simp only [modifyLive_eq_setLive found]
      split
      · omega
      · have hone : (Task.workOff id).weight = 1 := rfl
        rw [weight_push]
        omega

theorem weight_workOffNext_lt {id : LiveId} {others : List Task}
    (tasks : s.tasks = .workOff id :: others) : (s.workOffNext id others).weight < s.weight := by
  have hpopped : s.weight = 1 + (s.setTasks others).weight := weight_setTasks tasks
  unfold workOffNext
  cases found : s.live? id with
  | none =>
      change (s.setTasks others).weight < _
      omega
  | some live =>
      have hrest : (((s.setTasks others).modifyLive id Live.rest).giveUp id).weight < s.weight := by
        have hle : ((s.setTasks others).modifyLive id Live.rest).weight
            ≤ (s.setTasks others).weight := weight_modifyLive_le id fun _ => Nat.zero_le _
        have := weight_giveUp_le (s := (s.setTasks others).modifyLive id Live.rest) id
        omega
      have hnext : ∀ {collection batch queue}, live.queue = (collection, batch) :: queue →
          ((s.modifyLive id fun live => { live with queue }).process id live collection batch).weight
            < s.weight := by
        intro collection batch queue hqueue
        have htaken := weight_setLive found { live with queue }
        rw [hqueue, List.length_cons] at htaken
        rw [modifyLive_eq_setLive found]
        generalize s.setLive id { live with queue } = taken at htaken
        have hengine : ∀ engine, (taken.modifyLive id fun live => { live with engine }).weight
            ≤ taken.weight := fun engine => weight_modifyLive_le id fun _ => Nat.le_refl _
        unfold process
        cases Engine.apply collection batch live.engine with
        | ok changes engine =>
            have := weight_putOut_le (s := taken.modifyLive id fun live => { live with engine }) id
              changes
            have := hengine engine
            simp only at htaken ⊢
            omega
        | error error engine =>
            have := weight_halt_le (s := taken.modifyLive id fun live => { live with engine }) id
              error
            have := hengine engine
            simp only at htaken ⊢
            omega
      cases hqueue : live.queue with
      | nil => cases hstatus : live.status <;> (simp only [hqueue, hstatus]; exact hrest)
      | cons entry queue =>
          cases hstatus : live.status with
          | ready =>
              simp only [hqueue, hstatus]
              exact hnext hqueue
          | _ =>
              simp only [hqueue, hstatus]
              exact hrest

/-- A step of which the caller is told nothing uses up weight. -/
theorem weight_step_lt {s' : Session} (silent : s.step = (s', none)) : s'.weight < s.weight := by
  have hpop : ∀ {task others}, s.tasks = task :: others →
      (s.setTasks others).weight < s.weight := fun {task others} tasks => by
    have := weight_setTasks tasks
    have : 0 < task.weight := by cases task <;> simp only [Task.weight] <;> omega
    omega
  cases tasks : s.tasks with
  | nil => simp [step, tasks] at silent
  | cons task others =>
      have hpopped := hpop tasks
      match task with
      | .notify collection batch [] =>
          simp only [step, tasks, Prod.mk.injEq, and_true] at silent
          exact silent ▸ hpopped
      | .notify collection batch (.caller tag :: rest) => simp [step, tasks] at silent
      | .notify collection batch (.live id :: rest) =>
          simp only [step, tasks, Prod.mk.injEq, and_true] at silent
          have hle := weight_accept_le
            (s := { s with tasks := .notify collection batch rest :: others }) id collection batch
          have hbefore := weight_setTasks tasks
          have hafter := weight_push (s := s.setTasks others) (.notify collection batch rest)
          simp only [Task.weight, List.length_cons] at hbefore hafter
          rw [silent] at hle
          change _ ≤ ((s.setTasks others).push (.notify collection batch rest)).weight + 3 at hle
          omega
      | .workOff id =>
          simp only [step, tasks, Prod.mk.injEq, and_true] at silent
          exact silent ▸ weight_workOffNext_lt tasks
      | .deliver id changes [] =>
          simp only [step, tasks, Prod.mk.injEq, and_true] at silent
          exact silent ▸ hpopped
      | .deliver id changes (tag :: rest) =>
          simp only [step, tasks] at silent
          split at silent
          · simp only [Prod.mk.injEq, and_true] at silent
            exact silent ▸ hpopped
          · simp at silent
      | .alarm error [] =>
          simp only [step, tasks, Prod.mk.injEq, and_true] at silent
          exact silent ▸ hpopped
      | .alarm error (tag :: rest) => simp [step, tasks] at silent
      | .retire id key =>
          simp only [step, tasks, Prod.mk.injEq, and_true] at silent
          have hle : ((s.setTasks others).modifyLive id fun live => live.removeListener key).weight
              ≤ (s.setTasks others).weight := weight_modifyLive_le id fun _ => Nat.le_refl _
          exact silent ▸ Nat.lt_of_le_of_lt hle hpopped
      | .finish none => simp [step, tasks] at silent
      | .finish (some id) => simp [step, tasks] at silent

end Weight

end Session

/-- While the caller waits, the run goes on to where `Session.resume` ends: there it is told
something, and has control. -/
theorem Moment.resumed (h : History) :
    ∃ m : Moment, Moment.Later ⟨h, false⟩ m ∧ m.session = h.session.resume.1 ∧ m.control = true := by
  have hrun : ∀ (n : Nat) (s : Session) (es : List Event), s.weight < n →
      ∃ m : Moment, Moment.Later ⟨⟨s, es⟩, false⟩ m ∧ m.session = (Session.run n s).1 ∧
        m.control = true := by
    intro n
    induction n with
    | zero => exact fun s es hlt => absurd hlt (Nat.not_lt_zero _)
    | succ n ih =>
        intro s es hlt
        have hnext := Moment.Next.step (m := ⟨⟨s, es⟩, false⟩) rfl
        unfold Session.run
        cases hstep : s.step with
        | mk s' signal =>
            simp only [hstep] at hnext
            cases signal with
            | some signal => exact ⟨_, .single hnext, rfl, rfl⟩
            | none =>
                have hlighter := Session.weight_step_lt hstep
                obtain ⟨m, hlater, hm⟩ := ih s' (es ++ s.events) (by omega)
                exact ⟨m, hlater.head hnext, hm⟩
  exact hrun _ h.session h.trace (Nat.lt_succ_self _)

end LiveQuery
