import LiveQuery.Proofs.Collection
import LiveQuery.Proofs.Session.Stack

/-!
# What listeners of a collection are told

A write is told to the listeners one after another. When one of them writes in turn, this is
told to all of them before the next one is told of the first write. So a listener is told each
batch once, but those that it still waits for come after those that are committed meanwhile.

**Results.** `told_once`: a listener is told the batches of all writes, in the order of commit
if it never waits for one when another is committed; `told_once_not_in_order` is a run where it
does wait.
-/

namespace LiveQuery

/-- What happens to a listener of a collection: a batch is committed, or it is told one. -/
inductive Note where
  | committed (batch : List Change)
  | told (batch : List Change)

namespace Note

def committed? : Note → Option (List Change)
  | committed batch => some batch
  | told _ => none

def told? : Note → Option (List Change)
  | committed _ => none
  | told batch => some batch

end Note

/-- The batches that were committed. -/
def committed (notes : List Note) : List (List Change) :=
  notes.filterMap Note.committed?

/-- The batches that the listener was told. -/
def told (notes : List Note) : List (List Change) :=
  notes.filterMap Note.told?

/-- The batches that a listener still waits for, in the order in which it will be told. -/
def awaited (c : CollectionId) (tag : Tag) (tasks : List Task) : List (List Change) :=
  tasks.flatMap fun
    | .notify collection batch rest =>
        List.replicate (if collection = c then rest.count (.caller tag) else 0) batch
    | _ => []

/-- A batch is committed only when the listener has been told all those before. -/
def InTime (notes : List Note) : Prop :=
  ∀ before batch after, notes = before ++ .committed batch :: after → told before = committed before

namespace Session

/-- The batch of a transaction, if it takes effect and changes anything. -/
def batchOf (s : Session) (c : CollectionId) (writes : List Write) : List (List Change) :=
  match (s.store c).collection.apply writes with
  | .ok (_, changes) => if changes.isEmpty then [] else [changes]
  | .error _ => []

/-- The batch that a call commits to a collection. -/
def commits (s : Session) (c : CollectionId) : Call → List (List Change)
  | .write id writes => if id = c then s.batchOf id writes else []
  | .insertRow id row =>
      match (s.store id).collection.keyOf row with
      | .ok key => if id = c then s.batchOf id [.insert key row] else []
      | .error _ => []
  | _ => []

/-- The batch that a listener is told by the next step. -/
def notified (s : Session) (c : CollectionId) (tag : Tag) : List (List Change) :=
  match s.tasks with
  | .notify collection batch (.caller t :: _) :: _ => if collection = c ∧ t = tag then [batch] else []
  | _ => []

end Session

/-- A part of a run, with what happens to a listener of a collection in it. The listener
listens once, at least whenever there is a call. -/
inductive Moment.Hears (c : CollectionId) (tag : Tag) : Moment → List Note → Moment → Prop
  | start (m : Moment) : Hears c tag m [] m
  | call {m m₁ : Moment} {notes : List Note} (before : Hears c tag m notes m₁) (call : Call)
      (control : m₁.control = true) (permits : m₁.Permits call)
      (listens : (m₁.session.store c).listeners.values.count (.caller tag) = 1) :
      Hears c tag m (notes ++ (m₁.session.commits c call).map .committed)
        ⟨⟨m₁.session.call call, m₁.trace ++ call.events⟩, !call.waits⟩
  | back {m m₁ : Moment} {notes : List Note} (before : Hears c tag m notes m₁)
      (control : m₁.control = true) : Hears c tag m notes { m₁ with control := false }
  | step {m m₁ : Moment} {notes : List Note} (before : Hears c tag m notes m₁)
      (control : m₁.control = false) :
      Hears c tag m (notes ++ (m₁.session.notified c tag).map .told)
        ⟨⟨m₁.session.step.1, m₁.trace ++ m₁.session.events⟩, m₁.session.step.2.isSome⟩

/-! ## Notes -/

section

variable {c : CollectionId} {tag : Tag} {notes new : List Note} {batches : List (List Change)}

theorem committed_append : committed (notes ++ new) = committed notes ++ committed new :=
  List.filterMap_append

theorem told_append : told (notes ++ new) = told notes ++ told new :=
  List.filterMap_append

@[simp] theorem committed_map_committed : committed (batches.map .committed) = batches := by
  induction batches with
  | nil => rfl
  | cons batch rest ih => exact congrArg (batch :: ·) ih

@[simp] theorem told_map_committed : told (batches.map .committed) = [] := by
  induction batches with
  | nil => rfl
  | cons batch rest ih => exact ih

@[simp] theorem committed_map_told : committed (batches.map .told) = [] := by
  induction batches with
  | nil => rfl
  | cons batch rest ih => exact ih

@[simp] theorem told_map_told : told (batches.map .told) = batches := by
  induction batches with
  | nil => rfl
  | cons batch rest ih => exact congrArg (batch :: ·) ih

theorem InTime.of_append (h : InTime (notes ++ new)) : InTime notes := by
  intro before batch after heq
  refine h before batch (after ++ new) ?_
  rw [heq, List.append_assoc]
  rfl

theorem awaited_append (tasks others : List Task) :
    awaited c tag (tasks ++ others) = awaited c tag tasks ++ awaited c tag others :=
  List.flatMap_append

theorem awaited_notify (collection : CollectionId) (batch : List Change) (rest : List Listener)
    (others : List Task) :
    awaited c tag (.notify collection batch rest :: others)
      = List.replicate (if collection = c then rest.count (.caller tag) else 0) batch
        ++ awaited c tag others :=
  List.flatMap_cons

theorem awaited_eq_nil {tasks : List Task} (h : ∀ task ∈ tasks, task.notifies = false) :
    awaited c tag tasks = [] := by
  refine List.flatMap_eq_nil_iff.2 fun task htask => ?_
  cases task with
  | notify collection batch rest => cases h _ htask
  | _ => rfl

end

/-! ## Steps and calls -/

namespace Session

variable {s : Session} {c : CollectionId} {tag : Tag}

theorem Quiet.awaited_eq {base : List Task} {rows : CollectionId → Rows} (h : s.Quiet base rows) :
    awaited c tag s.tasks = awaited c tag base := by
  obtain ⟨above, htasks, habove⟩ := h.tasks
  rw [htasks, awaited_append, awaited_eq_nil habove, List.nil_append]

/-- A listener that is told a batch waited for it before any other. -/
theorem awaited_step (s : Session) (c : CollectionId) (tag : Tag) :
    awaited c tag s.tasks = s.notified c tag ++ awaited c tag s.step.1.tasks := by
  by_cases h : ∃ collection batch listener rest,
      s.tasks.head? = some (.notify collection batch (listener :: rest))
  · obtain ⟨collection, batch, listener, rest, hhead⟩ := h
    obtain ⟨others, tasks⟩ := List.head?_eq_some_iff.1 hhead
    rw [(quiet_step_notify tasks).awaited_eq, tasks, awaited_notify, awaited_notify]
    rw [← List.append_assoc]
    refine congrArg (· ++ _) ?_
    cases listener with
    | live id => simp [notified, tasks]
    | caller t =>
        by_cases hc : collection = c
        · by_cases ht : t = tag
          · simp [notified, tasks, hc, ht, List.replicate_succ]
          · simp [notified, tasks, hc, ht]
        · simp [notified, tasks, hc]
  · simp only [not_exists] at h
    have hnone : s.notified c tag = [] := by
      unfold notified
      split
      next collection batch t rest others tasks =>
        rw [tasks] at h
        exact absurd rfl (h collection batch (.caller t) rest)
      · rfl
    rw [(s.quiet_step h).awaited_eq, hnone, List.nil_append]
    cases tasks : s.tasks with
    | nil => rfl
    | cons task others =>
        cases task with
        | notify collection batch listeners =>
            cases listeners with
            | nil => simp [awaited_notify]
            | cons listener rest =>
                rw [tasks] at h
                exact absurd rfl (h collection batch listener rest)
        | _ => exact awaited_append [_] others

theorem contents_step (s : Session) (c : CollectionId) : s.step.1.contents c = s.contents c := by
  by_cases h : ∃ collection batch listener rest,
      s.tasks.head? = some (.notify collection batch (listener :: rest))
  · obtain ⟨collection, batch, listener, rest, hhead⟩ := h
    obtain ⟨others, tasks⟩ := List.head?_eq_some_iff.1 hhead
    exact (quiet_step_notify tasks).contents c
  · simp only [not_exists] at h
    exact (s.quiet_step h).contents c

/-- A listener waits for a batch that is committed before all others. -/
theorem awaited_write {writes : List Write} (id : CollectionId)
    (listens : (s.store c).listeners.values.count (.caller tag) = 1) :
    awaited c tag (s.write id writes).1.tasks
      = (if id = c then s.batchOf id writes else []) ++ awaited c tag s.tasks := by
  have hcalled : awaited c tag (s.push (.finish none)).tasks = awaited c tag s.tasks := by
    have hquiet : (s.push (.finish none)).Quiet s.tasks s.contents := (Quiet.refl s).push rfl
    exact hquiet.awaited_eq
  unfold write batchOf
  simp only
  cases (s.store id).collection.apply writes with
  | error error => simpa using hcalled
  | ok result =>
      obtain ⟨collection, changes⟩ := result
      by_cases hchanges : changes.isEmpty = true
      · simpa [hchanges] using hcalled
      · simp only [hchanges, Bool.false_eq_true, if_false]
        rw [tasks_push, awaited_notify]
        refine congrArg₂ (· ++ ·) ?_ hcalled
        by_cases hid : id = c
        · subst hid
          rw [if_pos rfl, if_pos rfl, listens]
          rfl
        · rw [if_neg hid, if_neg hid]
          rfl

/-- A write changes the rows of its collection by the batch that it commits. -/
theorem leads_write {writes : List Write} (id c : CollectionId) (hc : c < s.stores.length) :
    Change.Leads (s.contents c) (if id = c then s.batchOf id writes else []).flatten
      ((s.write id writes).1.contents c) := by
  unfold write batchOf
  simp only
  cases happly : (s.store id).collection.apply writes with
  | error error =>
      simp only [ite_self, List.flatten_nil]
      exact .nil _
  | ok result =>
      obtain ⟨collection, changes⟩ := result
      have hleads := Collection.leads_of_apply happly
      by_cases hid : id = c
      · subst hid
        have hcontents : ((s.push (.finish none)).modifyStore id fun store =>
            { store with collection }).contents id = collection.rows := by
          unfold contents
          rw [store_modifyStore, if_pos ⟨rfl, hc⟩]
        by_cases hchanges : changes.isEmpty = true
        · simp only [hchanges, if_true]
          rw [hcontents]
          rwa [List.isEmpty_iff.1 hchanges] at hleads
        · simp only [hchanges, Bool.false_eq_true, if_false, if_true]
          rw [contents_push, hcontents, List.flatten_singleton]
          exact hleads
      · have hcontents : ((s.push (.finish none)).modifyStore id fun store =>
            { store with collection }).contents c = s.contents c := by
          unfold contents
          rw [store_modifyStore, if_neg fun h => hid h.1.symm]
          rfl
        rw [if_neg hid, List.flatten_nil]
        dsimp only
        split
        · rw [hcontents]
          exact .nil _
        · rw [contents_push, hcontents]
          exact .nil _

/-- What a call does to a listener and to the rows that it listens to. -/
theorem commits_call (call : Call)
    (listens : (s.store c).listeners.values.count (.caller tag) = 1) :
    awaited c tag (s.call call).tasks = s.commits c call ++ awaited c tag s.tasks ∧
      Change.Leads (s.contents c) (s.commits c call).flatten ((s.call call).contents c) := by
  have hc : c < s.stores.length := by
    by_contra hge
    rw [store_of_length_le (Nat.le_of_not_lt hge)] at listens
    cases listens
  have hquiet : (∀ id writes, call ≠ .write id writes) → (∀ id row, call ≠ .insertRow id row) →
      s.commits c call = [] →
      awaited c tag (s.call call).tasks = s.commits c call ++ awaited c tag s.tasks ∧
        Change.Leads (s.contents c) (s.commits c call).flatten ((s.call call).contents c) := by
    intro hwrite hinsert hnone
    have hcall := s.quiet_call hwrite hinsert
    rw [hnone, hcall.contents c]
    exact ⟨hcall.awaited_eq, .nil _⟩
  cases call with
  | write id writes => exact ⟨awaited_write id listens, leads_write id c hc⟩
  | insertRow id row =>
      cases hkey : (s.store id).collection.keyOf row with
      | error error =>
          have hcall : s.call (.insertRow id row) = s.push (.finish none) := by
            simp only [call, insertRow, hkey]
          have hcommits : s.commits c (.insertRow id row) = [] := by simp only [commits, hkey]
          have hquiet : (s.push (.finish none)).Quiet s.tasks s.contents := (Quiet.refl s).push rfl
          rw [hcall, hcommits]
          exact ⟨hquiet.awaited_eq, .nil _⟩
      | ok key =>
          have hcall : s.call (.insertRow id row) = (s.write id [.insert key row]).1 := by
            simp only [call, insertRow, hkey]
          have hcommits : s.commits c (.insertRow id row)
              = if id = c then s.batchOf id [.insert key row] else [] := by
            simp only [commits, hkey]
          rw [hcall, hcommits]
          exact ⟨awaited_write id listens, leads_write id c hc⟩
  | _ => exact hquiet (fun _ _ h => by cases h) (fun _ _ h => by cases h) rfl

end Session

/-! ## Runs -/

namespace Moment.Hears

variable {c : CollectionId} {tag : Tag} {m m' : Moment} {notes : List Note}

/-- A listener is told, or waits for, each batch once. -/
theorem perm (h : m.Hears c tag notes m') :
    (told notes ++ awaited c tag m'.session.tasks).Perm
      (awaited c tag m.session.tasks ++ committed notes) := by
  induction h with
  | start => exact .of_eq (List.append_nil _).symm
  | @call m₁ notes before call control permits listens ih =>
      rw [(Session.commits_call call listens).1, told_append, committed_append, told_map_committed,
        committed_map_committed, List.append_nil, ← List.append_assoc (awaited c tag m.session.tasks)]
      refine .trans ?_ (ih.append_right _)
      rw [List.append_assoc]
      exact List.perm_append_comm.append_left _
  | back before control ih => exact ih
  | @step m₁ notes before control ih =>
      rw [Session.awaited_step] at ih
      rw [told_append, committed_append, told_map_told, committed_map_told, List.append_nil,
        List.append_assoc]
      exact ih

/-- The committed batches are what happens to the collection. -/
theorem leads (h : m.Hears c tag notes m') :
    Change.Leads (m.session.contents c) (committed notes).flatten (m'.session.contents c) := by
  induction h with
  | start => exact .nil _
  | @call m₁ notes before call control permits listens ih =>
      rw [committed_append, committed_map_committed, List.flatten_append]
      exact ih.append (Session.commits_call call listens).2
  | back before control ih => exact ih
  | @step m₁ notes before control ih =>
      rw [committed_append, committed_map_told, List.append_nil]
      change Change.Leads _ _ (m₁.session.step.1.contents c)
      rwa [Session.contents_step]

/-- As long as nothing is waited for when a batch is committed, batches are told in order. -/
theorem in_order (h : m.Hears c tag notes m') (idle : awaited c tag m.session.tasks = [])
    (hintime : InTime notes) :
    told notes ++ awaited c tag m'.session.tasks = committed notes := by
  induction h with
  | start => exact idle
  | @call m₁ notes before call control permits listens ih =>
      have hbefore := ih hintime.of_append
      rw [(Session.commits_call call listens).1, told_append, committed_append, told_map_committed,
        committed_map_committed, List.append_nil]
      cases hcommits : m₁.session.commits c call with
      | nil => rw [List.nil_append, List.append_nil, hbefore]
      | cons batch rest =>
          rw [hcommits] at hintime
          have htold := hintime notes batch (rest.map .committed) rfl
          rw [← htold, List.append_right_eq_self] at hbefore
          rw [hbefore, htold, List.append_nil]
  | back before control ih => exact ih hintime
  | @step m₁ notes before control ih =>
      have hbefore := ih hintime.of_append
      rw [Session.awaited_step] at hbefore
      rw [told_append, committed_append, told_map_told, committed_map_told, List.append_nil,
        List.append_assoc]
      exact hbefore

end Moment.Hears

/-- The run in which the caller makes given calls, with what happens to a listener in it. -/
def Moment.listening (c : CollectionId) (tag : Tag) :
    List (Option Call) → Moment → Option (List Note × Moment)
  | [], m => some ([], m)
  | some call :: rest, m =>
      if m.control = true ∧ m.Permits call ∧
          (m.session.store c).listeners.values.count (.caller tag) = 1 then
        (listening c tag rest ⟨⟨m.session.call call, m.trace ++ call.events⟩, !call.waits⟩).map
          fun result => ((m.session.commits c call).map .committed ++ result.1, result.2)
      else none
  | none :: rest, m =>
      if m.control = true then listening c tag rest { m with control := false }
      else
        (listening c tag rest
          ⟨⟨m.session.step.1, m.trace ++ m.session.events⟩, m.session.step.2.isSome⟩).map
            fun result => ((m.session.notified c tag).map .told ++ result.1, result.2)

theorem Moment.Hears.of_listening {c : CollectionId} {tag : Tag} {m m₁ m' : Moment}
    {before notes : List Note} (h : m.Hears c tag before m₁) {calls : List (Option Call)}
    (hrun : m₁.listening c tag calls = some (notes, m')) : m.Hears c tag (before ++ notes) m' := by
  induction calls generalizing m₁ before notes with
  | nil =>
      cases hrun
      rwa [List.append_nil]
  | cons call rest ih =>
      cases call with
      | some call =>
          unfold Moment.listening at hrun
          split at hrun
          next hcall =>
            obtain ⟨⟨after, _⟩, hafter, heq⟩ := Option.map_eq_some_iff.1 hrun
            cases heq
            rw [← List.append_assoc]
            exact ih (.call h call hcall.1 hcall.2.1 hcall.2.2) hafter
          · cases hrun
      | none =>
          unfold Moment.listening at hrun
          split at hrun
          next hcontrol => exact ih (.back h hcontrol) hrun
          next hcontrol =>
            obtain ⟨⟨after, _⟩, hafter, heq⟩ := Option.map_eq_some_iff.1 hrun
            cases heq
            rw [← List.append_assoc]
            exact ih (.step h (Bool.eq_false_iff.2 hcontrol)) hafter

/-- A listener that waits for nothing has been told each batch once. It has been told them in
the order of commit, and they replay to the rows of the collection, if it never waited for a
batch when another one was committed. -/
theorem told_once {c : CollectionId} {tag : Tag} {m m' : Moment} {notes : List Note}
    (h : m.Hears c tag notes m') (idle : awaited c tag m.session.tasks = [])
    (through : awaited c tag m'.session.tasks = []) :
    (told notes).Perm (committed notes) ∧
      Change.Leads (m.session.contents c) (committed notes).flatten (m'.session.contents c) ∧
        (InTime notes → told notes = committed notes ∧
          Change.replay (told notes).flatten (m.session.contents c) = m'.session.contents c) := by
  have hperm := h.perm
  rw [idle, through, List.append_nil, List.nil_append] at hperm
  refine ⟨hperm, h.leads, fun hintime => ?_⟩
  have horder := h.in_order idle hintime
  rw [through, List.append_nil] at horder
  rw [horder]
  exact ⟨rfl, h.leads.replay_eq⟩

/-- A listener inserts a second row while it is told of the first one. -/
theorem told_once_nested :
    ∃ m m' notes, Moment.Reached m ∧ m.Hears 0 1 notes m' ∧
      awaited 0 1 m.session.tasks = [] ∧ awaited 0 1 m'.session.tasks = [] ∧
        (committed notes).length = 2 ∧
        ((told notes).Perm (committed notes) ∧
          Change.Leads (m.session.contents 0) (committed notes).flatten (m'.session.contents 0) ∧
            (InTime notes → told notes = committed notes ∧
              Change.replay (told notes).flatten (m.session.contents 0)
                = m'.session.contents 0)) := by
  let m : Moment := ⟨⟨(Session.ofRows.listen 0 1).1, []⟩, true⟩
  have hreached : m.Reached := Session.opened_ofRows.reached.next (.call (.listen 0 1) rfl trivial)
  let calls : List (Option Call) :=
    [some (.write 0 [.insert ⟨[.int 1]⟩ .nil]), none, some (.write 0 [.insert ⟨[.int 2]⟩ .nil]),
      none, none, none, none, none, none, none]
  have hrun : (m.listening 0 1 calls).any (fun result =>
      (committed result.1).length = 2 && result.2.session.tasks.isEmpty) = true := by
    decide +kernel
  obtain ⟨⟨notes, m'⟩, hlistening, hresult⟩ := (Option.any_eq_true _ _).1 hrun
  simp only [Bool.and_eq_true, decide_eq_true_eq, List.isEmpty_iff] at hresult
  have hears : m.Hears 0 1 notes m' := Moment.Hears.of_listening (.start m) hlistening
  have hthrough : awaited 0 1 m'.session.tasks = [] := by rw [hresult.2]; rfl
  exact ⟨m, m', notes, hreached, hears, rfl, hthrough, hresult.1, told_once hears rfl hthrough⟩

/-- Two listeners; the first one updates a row while it is told of its insertion. The second one
is told of the update before it is told of the insertion, and is left with the first row. -/
theorem told_once_not_in_order :
    ∃ m m' notes, Moment.Reached m ∧ m.Hears 0 2 notes m' ∧ m.session.tasks = [] ∧
      m'.session.tasks = [] ∧ told notes ≠ committed notes ∧
        Change.replay (told notes).flatten (m.session.contents 0) ≠ m'.session.contents 0 := by
  let m : Moment := ⟨⟨((Session.ofRows.listen 0 1).1.listen 0 2).1, []⟩, true⟩
  have hreached : m.Reached := (Session.opened_ofRows.reached.next
    (.call (.listen 0 1) rfl trivial)).next (.call (.listen 0 2) rfl trivial)
  let calls : List (Option Call) :=
    [some (.write 0 [.insert ⟨[.int 1]⟩ .nil]), none,
      some (.write 0 [.update ⟨[.int 1]⟩ (.cons "x" (.int 2) .nil)]), none, none, none, none, none,
      none, none, none, none, none, none, none]
  have hrun : (m.listening 0 2 calls).any (fun result =>
      result.2.session.tasks.isEmpty && decide (told result.1 ≠ committed result.1) &&
        decide ((Change.replay (told result.1).flatten (m.session.contents 0)).entries
          ≠ (result.2.session.contents 0).entries)) = true := by
    decide +kernel
  obtain ⟨⟨notes, m'⟩, hlistening, hresult⟩ := (Option.any_eq_true _ _).1 hrun
  simp only [Bool.and_eq_true, decide_eq_true_eq, List.isEmpty_iff] at hresult
  obtain ⟨⟨hthrough, horder⟩, hrows⟩ := hresult
  exact ⟨m, m', notes, hreached, Moment.Hears.of_listening (.start m) hlistening, rfl, hthrough,
    horder, fun heq => hrows (congrArg OrdMap.entries heq)⟩

end LiveQuery
