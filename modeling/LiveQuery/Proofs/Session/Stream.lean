import LiveQuery.Proofs.Session.Engines
import LiveQuery.Proofs.Session.Queue
import LiveQuery.Proofs.Session.Subscribers

/-!
# What subscribers are told

What a subscriber has been told, and is still to be told, can be replayed and gives the
output of the live query. A batch is told to all subscribers before the next one is applied,
and one who joins is told at once what it missed; so nothing is missed and nothing is told
twice, however calls of subscribers nest.

**Results.** `Coherent` holds in every run (`Moment.Reached.streaming`). `streams_cohere`: a
subscriber that does not wait for a delivery has been told the output, in changes that fit
where they are replayed.
-/

namespace LiveQuery

/-- What a subscriber has been told. -/
def heard (id : LiveId) (tag : Tag) (trace : List Event) : List Change :=
  trace.flatMap fun
    | .told live t changes => if live = id ∧ t = tag then changes else []
    | _ => []

/-- What a subscriber is still to be told. -/
def pending (id : LiveId) (tag : Tag) (tasks : List Task) : List Change :=
  tasks.flatMap fun
    | .deliver live changes rest => if live = id ∧ tag ∈ rest then changes else []
    | _ => []

/-- A delivery that is not over stands on the task that works off the queue. -/
def Task.SettledOn (below : List Task) : Task → Prop
  | deliver id _ rest => rest = [] ∨ below.head? = some (.workOff id)
  | _ => True

/-- All deliveries that are not over stand on the tasks that work off the queues. -/
def Settled : List Task → Prop
  | [] => True
  | task :: below => task.SettledOn below ∧ Settled below

/-! ## What is heard -/

section

variable {id : LiveId} {tag : Tag} {es new : List Event} {task : Task} {tasks others : List Task}

theorem heard_append (id : LiveId) (tag : Tag) (es new : List Event) :
    heard id tag (es ++ new) = heard id tag es ++ heard id tag new :=
  List.flatMap_append

theorem heard_of_not_told (h : ∀ id tag changes, .told id tag changes ∉ new) :
    heard id tag (es ++ new) = heard id tag es := by
  have hnone : heard id tag new = [] := by
    refine List.flatMap_eq_nil_iff.2 fun e he => ?_
    cases e with
    | told live t changes => exact absurd he (h live t changes)
    | _ => rfl
  rw [heard_append, hnone, List.append_nil]

theorem heard_told (id' : LiveId) (tag' : Tag) (changes : List Change) :
    heard id tag (es ++ [.told id' tag' changes])
      = heard id tag es ++ if id' = id ∧ tag' = tag then changes else [] := by
  rw [heard_append]
  exact congrArg _ (List.flatMap_singleton _ _)

/-- Nobody is told anything who has not asked. -/
theorem heard_of_fresh (told : ∀ id tag changes, .told id tag changes ∈ es → .asked id tag ∈ es)
    (fresh : .asked id tag ∉ es) : heard id tag es = [] := by
  refine List.flatMap_eq_nil_iff.2 fun e he => ?_
  cases e with
  | told live t changes =>
      refine if_neg fun heq => fresh ?_
      rw [← heq.1, ← heq.2]
      exact told _ _ _ he
  | _ => rfl

theorem pending_cons (id : LiveId) (tag : Tag) (task : Task) (others : List Task) :
    pending id tag (task :: others) = pending id tag [task] ++ pending id tag others := by
  unfold pending
  rw [List.flatMap_cons, List.flatMap_singleton]

theorem pending_deliver (id' : LiveId) (changes : List Change) (rest : List Tag) :
    pending id tag (.deliver id' changes rest :: others)
      = (if id' = id ∧ tag ∈ rest then changes else []) ++ pending id tag others :=
  List.flatMap_cons

theorem pending_of_not_deliver (h : ∀ id changes rest, task ≠ .deliver id changes rest) :
    pending id tag (task :: others) = pending id tag others := by
  rw [pending_cons]
  cases task with
  | deliver id' changes rest => exact absurd rfl (h id' changes rest)
  | _ => rfl

theorem pending_eq_nil (h : ∀ changes rest, .deliver id changes rest ∈ tasks → tag ∉ rest) :
    pending id tag tasks = [] := by
  refine List.flatMap_eq_nil_iff.2 fun task htask => ?_
  cases task with
  | deliver live changes rest =>
      refine if_neg ?_
      rintro ⟨rfl, htag⟩
      exact h _ _ htask htag
  | _ => rfl

/-- Nothing is left to be told of a live query that nothing works off. -/
theorem pending_of_settled (h : Settled tasks) (hidle : .workOff id ∉ tasks) :
    pending id tag tasks = [] := by
  induction tasks with
  | nil => rfl
  | cons task below ih =>
      obtain ⟨htask, hbelow⟩ := h
      have hbelowIdle : .workOff id ∉ below := fun hmem => hidle (List.mem_cons_of_mem _ hmem)
      have hrest := ih hbelow hbelowIdle
      cases task with
      | deliver live changes rest =>
          rw [pending_deliver, hrest, List.append_nil]
          refine if_neg ?_
          rintro ⟨rfl, htag⟩
          rcases htask with rfl | hhead
          · cases htag
          · exact hbelowIdle (List.mem_of_head? hhead)
      | _ => rwa [pending_of_not_deliver (fun _ _ _ heq => by cases heq)]

/-- Only deliveries have to stand somewhere. -/
theorem settled_cons (h : Settled others) (htask : ∀ id changes rest, task ≠ .deliver id changes rest) :
    Settled (task :: others) := by
  refine ⟨?_, h⟩
  cases task with
  | deliver id changes rest => exact absurd rfl (htask id changes rest)
  | _ => trivial

/-- The tasks of a turn stay settled. -/
theorem Settled.turn {h h' : History} (hsettled : Settled h.session.tasks) (hturn : Turn h h') :
    Settled h'.session.tasks := by
  cases hturn with
  | push task callable =>
      refine settled_cons hsettled fun id changes rest heq => ?_
      subst heq
      exact callable
  | pop tasks => exact (tasks ▸ hsettled : Settled (_ :: _)).2
  | pass tasks => exact settled_cons (tasks ▸ hsettled : Settled (_ :: _)).2 fun _ _ _ heq => by cases heq
  | passAlarm tasks =>
      exact settled_cons (tasks ▸ hsettled : Settled (_ :: _)).2 fun _ _ _ heq => by cases heq
  | @tell s es id changes tag rest others tasks =>
      obtain ⟨hstands, hothers⟩ := (tasks ▸ hsettled : Settled (.deliver id changes (tag :: rest) :: others))
      exact ⟨.inr (hstands.resolve_left (List.cons_ne_nil _ _)), hothers⟩
  | commit => exact hsettled
  | listen => exact hsettled
  | unlisten => exact hsettled
  | @create s es query options engine =>
      change Settled (s.create options engine).tasks
      rwa [Session.tasks_create]
  | aside => exact hsettled
  | @giveUp s es id =>
      change Settled (s.giveUp id).tasks
      rwa [Session.tasks_giveUp]
  | @dispose s es id live =>
      change Settled (s.unlistenAll live.listening).tasks
      rwa [Session.tasks_unlistenAll]
  | receive => exact hsettled
  | receiveFirst => exact settled_cons hsettled fun _ _ _ heq => by cases heq
  | start => exact hsettled
  | failStart => exact hsettled
  | join => exact hsettled
  | refuse => exact hsettled
  | apply => exact hsettled
  | @applyTelling s es id live collection batch queue changes engine others tasks =>
      exact ⟨.inr (by simp [tasks]), hsettled⟩
  | failApply => exact hsettled
  | rest tasks => exact (tasks ▸ hsettled : Settled (_ :: _)).2

end

/-! ## What is heard leads to the output -/

/-- What was kept for a first subscriber leads to the output of a live query, and so does what
each subscriber was told and is still to be told. -/
structure Coherent (h : History) : Prop where
  kept : ∀ id live, h.session.live? id = some live → live.status = .ready →
    live.subscribed = false → live.options.bufferUntilSubscribed = true →
      Change.Leads .empty live.buffer (keyed live.engine.snapshot)
  hearing : ∀ id live, h.session.live? id = some live → live.status ≠ .disposed →
    ∀ tag ∈ live.listeners.values,
      Change.Leads .empty (heard id tag h.trace ++ pending id tag h.session.tasks)
        (keyed live.engine.snapshot)

namespace Coherent

variable {s s' : Session} {es new : List Event} {id : LiveId} {live : Live}

theorem opened (h : s.Opened) : Coherent ⟨s, []⟩ where
  kept id live hlive := by simp [Session.live?, h.lives] at hlive
  hearing id live hlive := by simp [Session.live?, h.lives] at hlive

/-- Nothing changes that has to do with the output and who is told. -/
theorem of_same (h : Coherent ⟨s, es⟩) (s' : Session)
    (hlives : ∀ id live', s'.live? id = some live' → ∃ live, s.live? id = some live ∧
      live'.listeners = live.listeners ∧ live'.engine = live.engine ∧
        live'.status = live.status ∧ live'.subscribed = live.subscribed ∧
          live'.buffer = live.buffer ∧ live'.options = live.options)
    (htasks : ∀ id live, s.live? id = some live → live.status ≠ .disposed → ∀ tag,
      pending id tag s'.tasks = pending id tag s.tasks) : Coherent ⟨s', es⟩ where
  kept id live' hid hready hnobody hbuffers := by
    obtain ⟨live, hlive, _, hengine, hstatus, hsubscribed, hbuffer, hoptions⟩ := hlives id live' hid
    rw [hbuffer, hengine]
    exact h.kept id live hlive (hstatus ▸ hready) (hsubscribed ▸ hnobody) (hoptions ▸ hbuffers)
  hearing id live' hid hstatus tag htag := by
    obtain ⟨live, hlive, hlisteners, hengine, heq, _⟩ := hlives id live' hid
    rw [heq] at hstatus
    rw [hengine, htasks id live hlive hstatus]
    exact h.hearing id live hlive hstatus tag (hlisteners ▸ htag)

theorem setTasks (h : Coherent ⟨s, es⟩) {tasks : List Task}
    (htasks : ∀ id live, s.live? id = some live → live.status ≠ .disposed → ∀ tag,
      pending id tag tasks = pending id tag s.tasks) : Coherent ⟨s.setTasks tasks, es⟩ :=
  h.of_same (s.setTasks tasks)
    (fun _ live hlive => ⟨live, hlive, rfl, rfl, rfl, rfl, rfl, rfl⟩) htasks

theorem push (h : Coherent ⟨s, es⟩) {task : Task}
    (htask : ∀ id changes rest, task ≠ .deliver id changes rest) : Coherent ⟨s.push task, es⟩ :=
  h.setTasks fun _ _ _ _ _ => pending_of_not_deliver htask

/-- A task is done for which nothing is to be told. -/
theorem pop (h : Coherent ⟨s, es⟩) {task : Task} {others : List Task}
    (tasks : s.tasks = task :: others) (done : task.Done s) : Coherent ⟨s.setTasks others, es⟩ := by
  refine h.setTasks fun id live hlive hstatus tag => ?_
  rw [tasks]
  cases task with
  | deliver id' changes subscribers =>
      have hnothing : ¬(id' = id ∧ tag ∈ subscribers) := by
        rintro ⟨rfl, htag⟩
        rcases done with rfl | hdisposed
        · cases htag
        · rw [hlive, Option.map_some, Option.some_inj] at hdisposed
          exact hstatus hdisposed
      rw [pending_deliver, if_neg hnothing, List.nil_append]
  | _ => rw [pending_of_not_deliver (fun _ _ _ heq => by cases heq)]

/-- What a subscriber is told, it is not still to be told. -/
theorem tell (h : Coherent ⟨s, es⟩) {changes : List Change} {tag : Tag} {rest : List Tag}
    {others : List Task} (tasks : s.tasks = .deliver id changes (tag :: rest) :: others)
    (once : (tag :: rest).Nodup) :
    Coherent ⟨s.setTasks (.deliver id changes rest :: others), es ++ [.told id tag changes]⟩ where
  kept := h.kept
  hearing k live hlive hstatus t ht := by
    have hbefore := h.hearing k live hlive hstatus t ht
    change Change.Leads .empty (heard k t (es ++ [.told id tag changes])
      ++ pending k t (.deliver id changes rest :: others)) _
    change Change.Leads .empty (heard k t es ++ pending k t s.tasks) _ at hbefore
    rw [tasks, pending_deliver] at hbefore
    rw [heard_told, pending_deliver]
    by_cases hid : id = k
    · by_cases htag : tag = t
      · have hnot : t ∉ rest := htag ▸ (List.nodup_cons.1 once).1
        rw [if_pos ⟨hid, htag⟩, if_neg fun hboth => hnot hboth.2, List.nil_append,
          List.append_assoc]
        rwa [if_pos ⟨hid, htag ▸ List.mem_cons_self⟩] at hbefore
      · have hiff : id = k ∧ t ∈ tag :: rest ↔ id = k ∧ t ∈ rest := by
          rw [List.mem_cons]
          simp [Ne.symm htag]
        rw [if_neg fun hboth => htag hboth.2, List.append_nil]
        simpa only [hiff] using hbefore
    · rw [if_neg fun hboth => hid hboth.1, if_neg fun hboth => hid hboth.1, List.append_nil]
      rwa [if_neg fun hboth => hid hboth.1] at hbefore

/-- When something happens to one live query, its own subscribers are all there is to look at. -/
theorem of_one (h : Coherent ⟨s, es⟩) (s' : Session) (after : Live)
    (hlives : ∀ k, s'.live? k = if k = id then some after else s.live? k)
    (hnew : ∀ id tag changes, .told id tag changes ∉ new)
    (htasks : ∀ k tag, k ≠ id → pending k tag s'.tasks = pending k tag s.tasks)
    (kept : after.status = .ready → after.subscribed = false →
      after.options.bufferUntilSubscribed = true →
        Change.Leads .empty after.buffer (keyed after.engine.snapshot))
    (hearing : after.status ≠ .disposed → ∀ tag ∈ after.listeners.values,
      Change.Leads .empty (heard id tag es ++ pending id tag s'.tasks)
        (keyed after.engine.snapshot)) : Coherent ⟨s', es ++ new⟩ where
  kept k live' hk := by
    change s'.live? k = _ at hk
    rw [hlives] at hk
    split at hk
    · cases hk
      exact kept
    · exact h.kept k live' hk
  hearing k live' hk hstatus tag htag := by
    change s'.live? k = _ at hk
    change Change.Leads .empty (heard k tag (es ++ new) ++ pending k tag s'.tasks) _
    rw [heard_of_not_told hnew]
    rw [hlives] at hk
    split at hk
    next heq =>
      cases hk
      exact heq ▸ hearing hstatus tag htag
    next hne =>
      rw [htasks k tag hne]
      exact h.hearing k live' hk hstatus tag htag

theorem setLive (h : Coherent ⟨s, es⟩) (found : s.live? id = some live) (after : Live)
    (hnew : ∀ id tag changes, .told id tag changes ∉ new)
    (kept : after.status = .ready → after.subscribed = false →
      after.options.bufferUntilSubscribed = true →
        Change.Leads .empty after.buffer (keyed after.engine.snapshot))
    (hearing : after.status ≠ .disposed → ∀ tag ∈ after.listeners.values,
      Change.Leads .empty (heard id tag es ++ pending id tag s.tasks)
        (keyed after.engine.snapshot)) : Coherent ⟨s.setLive id after, es ++ new⟩ :=
  h.of_one (s.setLive id after) after (Session.live?_setLive found after) hnew (fun _ _ _ => rfl)
    kept hearing

/-- A live query goes on with the same output and subscribers. -/
theorem setSame (h : Coherent ⟨s, es⟩) (found : s.live? id = some live) (after : Live)
    (hnew : ∀ id tag changes, .told id tag changes ∉ new)
    (listeners : after.listeners.entries.Sublist live.listeners.entries)
    (output : after.engine.snapshot = live.engine.snapshot)
    (status : after.status = .ready → live.status = .ready ∧ after.subscribed = live.subscribed ∧
      after.buffer = live.buffer ∧ after.options = live.options)
    (attached : after.status ≠ .disposed → live.status ≠ .disposed) :
    Coherent ⟨s.setLive id after, es ++ new⟩ := by
  refine h.setLive found after hnew (fun hready hnobody hbuffers => ?_) fun hstatus tag htag => ?_
  · obtain ⟨hlive, hsubscribed, hbuffer, hoptions⟩ := status hready
    rw [output, hbuffer]
    exact h.kept id live found hlive (hsubscribed ▸ hnobody) (hoptions ▸ hbuffers)
  · rw [output]
    exact h.hearing id live found (attached hstatus) tag ((listeners.map Prod.snd).subset htag)

/-- A subscriber that has not asked before has nothing to replay. -/
theorem nothing_of_fresh (h : Subscribers ⟨s, es⟩) {tag : Tag} (fresh : .asked id tag ∉ es) :
    heard id tag es ++ pending id tag s.tasks = [] := by
  rw [heard_of_fresh h.told fresh, List.nil_append]
  exact pending_eq_nil fun changes rest hmem htag => fresh ((h.waiting id changes rest hmem).2 tag htag)

theorem leads_insertions {plan : Plan} (h : Engined plan ⟨s, es⟩) (found : s.live? id = some live) :
    Change.Leads .empty live.insertions (keyed live.engine.snapshot) := by
  obtain ⟨query, hreached⟩ := h.reached id live found
  exact Change.leads_insertions hreached.regular.nodup_snapshot

/-- What a subscriber that joins is told gives the output. -/
theorem leads_welcome {plan : Plan} (h : Coherent ⟨s, es⟩) (hengined : Engined plan ⟨s, es⟩)
    (found : s.live? id = some live) (status : live.status = .ready) :
    Change.Leads .empty live.welcome (keyed live.engine.snapshot) := by
  unfold Live.welcome
  split
  next hfirst =>
    simp only [Bool.and_eq_true, Bool.not_eq_true'] at hfirst
    exact h.kept id live found status hfirst.1 hfirst.2
  · exact leads_insertions hengined found

/-- An idle live query starts for nobody, or for its first subscriber. -/
theorem nobody_or_first (h : Subscribers ⟨s, es⟩) (found : s.live? id = some live)
    (status : live.status = .idle) {before : Live} (coming : Coming id es live before new) :
    before.subscribed = false ∧ before.listeners = .empty ∨
      before.subscribed = true ∧
        ∃ tag, before.listeners.values = [tag] ∧ .asked id tag ∉ es := by
  obtain ⟨hsubscribed, _⟩ := h.idle id live found status
  have hnobody := (h.lives id live found).nobody hsubscribed
  cases coming with
  | alone => exact .inl ⟨hsubscribed, hnobody⟩
  | joined tag fresh =>
      refine .inr ⟨rfl, tag, ?_, fresh⟩
      unfold Live.addListener
      simp only [hnobody]
      rfl

/-- The subscriber that an idle live query starts for has not heard anything. -/
theorem fresh_of_coming (h : Subscribers ⟨s, es⟩) (found : s.live? id = some live)
    (status : live.status = .idle) {before : Live} (coming : Coming id es live before new) {t : Tag}
    (ht : t ∈ before.listeners.values) : before.subscribed = true ∧ .asked id t ∉ es := by
  rcases nobody_or_first h found status coming with ⟨_, hnobody⟩ | ⟨hfirst, tag, htag, hfresh⟩
  · rw [hnobody] at ht
    cases ht
  · rw [htag, List.mem_singleton] at ht
    exact ⟨hfirst, ht ▸ hfresh⟩

/-- What a live query tells when it starts gives its output. -/
theorem leads_loaded {plan : Plan} (h : Engined plan ⟨s, es⟩) (found : s.live? id = some live)
    (before : Live) {engine : Engine} (loaded : Engine.load s.contents live.engine = .ok () engine) :
    Change.Leads .empty (before.evaluated engine).insertions (keyed engine.snapshot) := by
  obtain ⟨query, hreached⟩ := h.reached id live found
  have hregular := (hreached.loaded s.contents).regular
  rw [loaded] at hregular
  exact Change.leads_insertions hregular.nodup_snapshot

/-- A live query starts and has nothing to tell yet. -/
theorem start {plan : Plan} (h : Coherent ⟨s, es⟩) (hengined : Engined plan ⟨s, es⟩)
    (hsubscribers : Subscribers ⟨s, es⟩) (found : s.live? id = some live)
    (status : live.status = .idle) {before : Live} (coming : Coming id es live before new)
    {engine : Engine} (loaded : Engine.load s.contents live.engine = .ok () engine)
    (quiet : before.subscribed = true → (before.evaluated engine).insertions = []) :
    Coherent ⟨s.setLive id
      ((before.evaluated engine).keeping (before.evaluated engine).insertions), es ++ new⟩ := by
  have hleads := leads_loaded hengined found before loaded
  have hsame := coming.same
  refine h.setLive found _ (fun _ _ _ hmem => ?_) (fun _ hnobody hbuffers => ?_) fun _ t ht => ?_
  · obtain ⟨_, heq⟩ := coming.eq_asked hmem
    cases heq
  · rw [Live.subscribed_keeping] at hnobody
    rw [Live.options_keeping] at hbuffers
    rw [Live.buffer_keeping, if_pos ⟨hnobody, hbuffers⟩, Live.engine_keeping]
    rw [show (before.evaluated engine).buffer = [] from
      hsame.2.2.2.2.2.2.2.trans (hsubscribers.idle id live found status).2, List.nil_append]
    exact hleads
  · rw [Live.listeners_keeping] at ht
    obtain ⟨hsubscribed, hfresh⟩ := fresh_of_coming hsubscribers found status coming ht
    rw [nothing_of_fresh hsubscribers hfresh, Live.engine_keeping]
    rw [← show (before.evaluated engine).insertions = [] from quiet hsubscribed]
    exact hleads

theorem failStart {plan : Plan} (h : Coherent ⟨s, es⟩) (hengined : Engined plan ⟨s, es⟩)
    (hsubscribers : Subscribers ⟨s, es⟩) (found : s.live? id = some live)
    (status : live.status = .idle) {before : Live} (coming : Coming id es live before new)
    {engine : Engine} {error : EvalError}
    (failed : Engine.load s.contents live.engine = .error error engine) :
    Coherent ⟨s.setLive id ({ before with engine }.halt error), es ++ new⟩ := by
  obtain ⟨query, hmade⟩ := hengined.unloaded id live found status
  have hnothing : engine.snapshot = [] :=
    (Engine.load_failure (Engine.regular_ofQuery hmade) failed).trans (Engine.snapshot_ofQuery hmade)
  refine h.setLive found ({ before with engine }.halt error) (fun _ _ _ hmem => ?_)
    (fun hready => by cases hready) fun _ t ht => ?_
  · obtain ⟨_, heq⟩ := coming.eq_asked hmem
    cases heq
  · obtain ⟨_, hfresh⟩ := fresh_of_coming hsubscribers found status coming ht
    rw [nothing_of_fresh hsubscribers hfresh]
    change Change.Leads .empty [] (keyed engine.snapshot)
    rw [hnothing]
    exact .nil _

/-- A subscriber joins a live query; it may be told something at once. -/
theorem join {plan : Plan} (h : Coherent ⟨s, es⟩) (hengined : Engined plan ⟨s, es⟩)
    (hsubscribers : Subscribers ⟨s, es⟩) (found : s.live? id = some live)
    (status : live.status = .ready) {tag : Tag} (fresh : .asked id tag ∉ es) (s' : Session)
    (hlives : s'.lives = (s.setLive id (live.joinedBy tag)).lives)
    (htasks : s'.tasks = s.tasks ∧ live.welcome = [] ∨
      s'.tasks = .deliver id live.welcome [tag] :: s.tasks) :
    Coherent ⟨s', es ++ [.asked id tag]⟩ := by
  have hleads := h.leads_welcome hengined found status
  -- what the others are still to be told is the same as before
  have hothers : ∀ k t, (k = id → t ≠ tag) → pending k t s'.tasks = pending k t s.tasks := by
    intro k t hne
    rcases htasks with ⟨heq, _⟩ | heq
    · rw [heq]
    · rw [heq, pending_deliver, if_neg, List.nil_append]
      rintro ⟨rfl, ht⟩
      exact hne rfl (List.mem_singleton.1 ht)
  refine h.of_one s' (live.joinedBy tag) (fun k => ?_) (fun _ _ _ hmem => by simp at hmem)
    (fun k t hk => hothers k t fun heq => absurd heq hk) (fun _ hnobody => ?_) fun _ t ht => ?_
  · rw [← Session.live?_setLive found]
    exact congrArg (·[k]?) hlives
  · rw [Live.subscribed_joinedBy] at hnobody
    cases hnobody
  · have hlive := hsubscribers.lives id live found
    rw [Live.listeners_joinedBy] at ht
    rw [Live.engine_joinedBy]
    rcases (hlive.mem_values_addListener tag t).1 ht with rfl | ht
    · have hnothing := nothing_of_fresh hsubscribers fresh
      obtain ⟨hheard, hpending⟩ := List.append_eq_nil_iff.1 hnothing
      rcases htasks with ⟨heq, hquiet⟩ | heq
      · rw [heq, hnothing, ← hquiet]
        exact hleads
      · rw [heq, pending_deliver, if_pos ⟨rfl, List.mem_singleton_self _⟩, hheard,
          show pending id t s.tasks = [] from hpending, List.nil_append, List.append_nil]
        exact hleads
    · rw [hothers id t fun _ heq => fresh (heq ▸ hlive.asked t ht)]
      exact h.hearing id live found (fun hdisposed => by rw [status] at hdisposed; cases hdisposed)
        t ht

/-- What a batch changes of the output. -/
theorem exact_apply {plan : Plan} (hengined : Engined plan ⟨s, es⟩)
    (found : s.live? id = some live) {collection : CollectionId} {batch changes : List Change}
    {engine : Engine} (applied : Engine.apply collection batch live.engine = .ok changes engine) :
    Change.Leads (keyed live.engine.snapshot) changes (keyed engine.snapshot) := by
  obtain ⟨query, hreached⟩ := hengined.reached id live found
  exact (Engine.exact_of_apply hreached.regular applied).leads

/-- A batch of whose changes nobody is told. -/
theorem apply {plan : Plan} (h : Coherent ⟨s, es⟩) (hengined : Engined plan ⟨s, es⟩)
    (hsubscribers : Subscribers ⟨s, es⟩) (found : s.live? id = some live)
    (status : live.status = .ready) {collection : CollectionId} {batch changes : List Change}
    {engine : Engine} (applied : Engine.apply collection batch live.engine = .ok changes engine)
    (quiet : live.subscribed = true → changes = [])
    (queue : List (CollectionId × List Change)) :
    Coherent ⟨s.setLive id ({ live with queue, engine }.keeping changes),
      es ++ [.applied id collection batch]⟩ := by
  have hleads := exact_apply hengined found applied
  have hnew : ∀ id' tag changes', .told id' tag changes' ∉ [Event.applied id collection batch] := by
    simp
  refine h.setLive found ({ live with queue, engine }.keeping changes) hnew (fun _ hnobody hbuffers => ?_) fun _ t ht => ?_
  · rw [Live.subscribed_keeping] at hnobody
    rw [Live.options_keeping] at hbuffers
    rw [Live.buffer_keeping, if_pos ⟨hnobody, hbuffers⟩, Live.engine_keeping]
    exact (h.kept id live found status hnobody hbuffers).append hleads
  · rw [Live.listeners_keeping] at ht
    rw [Live.engine_keeping]
    cases hsubscribed : live.subscribed with
    | false =>
        rw [show ({ live with queue, engine } : Live).listeners = .empty from
          (hsubscribers.lives id live found).nobody hsubscribed] at ht
        cases ht
    | true =>
        rw [quiet hsubscribed] at hleads
        change Change.Leads _ _ (keyed engine.snapshot)
        rw [← hleads.replay_eq]
        exact h.hearing id live found (fun hdisposed => by rw [status] at hdisposed; cases hdisposed)
          t ht

/-- A batch of whose changes all subscribers are told: they have been told all of the earlier
ones. -/
theorem applyTelling {plan : Plan} (h : Coherent ⟨s, es⟩) (hengined : Engined plan ⟨s, es⟩)
    (hqueued : Queued ⟨s, es⟩) (hsettled : Settled s.tasks) {others : List Task}
    (tasks : s.tasks = .workOff id :: others) (found : s.live? id = some live)
    {collection : CollectionId} {batch changes : List Change} {engine : Engine}
    (applied : Engine.apply collection batch live.engine = .ok changes engine)
    (subscribed : live.subscribed = true) (queue : List (CollectionId × List Change)) :
    Coherent ⟨(s.setLive id { live with queue, engine }).push
      (.deliver id changes live.listeners.values), es ++ [.applied id collection batch]⟩ := by
  have hleads := exact_apply hengined found applied
  have hnothing : ∀ t, pending id t s.tasks = [] := fun t => by
    have honce := hqueued.once
    rw [Session.working, tasks] at honce
    have hothers : .workOff id ∉ others := fun hmem =>
      (List.nodup_cons.1 honce).1 (List.mem_filterMap.2 ⟨_, hmem, rfl⟩)
    rw [tasks] at hsettled
    rw [tasks, pending_of_not_deliver (fun _ _ _ heq => by cases heq)]
    exact pending_of_settled hsettled.2 hothers
  have hnew : ∀ id' tag changes', .told id' tag changes' ∉ [Event.applied id collection batch] := by
    simp
  refine h.of_one _ { live with queue, engine } (Session.live?_setLive found _) hnew
    (fun k t hk => ?_) (fun _ hnobody => ?_) fun hstatus t ht => ?_
  · change pending k t (.deliver id changes live.listeners.values :: s.tasks) = _
    rw [pending_deliver, if_neg fun hboth => hk hboth.1.symm, List.nil_append]
  · cases subscribed.symm.trans hnobody
  · change Change.Leads .empty (heard id t es
      ++ pending id t (.deliver id changes live.listeners.values :: s.tasks)) _
    have hbefore := h.hearing id live found hstatus t ht
    change Change.Leads .empty (heard id t es ++ pending id t s.tasks) _ at hbefore
    rw [hnothing, List.append_nil] at hbefore
    rw [pending_deliver, if_pos ⟨rfl, ht⟩, hnothing, List.append_nil]
    exact hbefore.append hleads

theorem failApply {plan : Plan} (h : Coherent ⟨s, es⟩) (hengined : Engined plan ⟨s, es⟩)
    (found : s.live? id = some live) (status : live.status = .ready) {collection : CollectionId}
    {batch : List Change} {engine : Engine} {error : EvalError}
    (failed : Engine.apply collection batch live.engine = .error error engine)
    (queue : List (CollectionId × List Change)) :
    Coherent ⟨s.setLive id ({ live with queue, engine }.halt error),
      es ++ [.applied id collection batch, .failed id]⟩ := by
  obtain ⟨query, hreached⟩ := hengined.reached id live found
  have hnew : ∀ id' tag changes,
      .told id' tag changes ∉ [.applied id collection batch, Event.failed id] := by simp
  refine h.setSame found ({ live with queue, engine }.halt error) hnew (List.Sublist.refl _)
    (Engine.apply_failure hreached.regular failed) (fun hready => by cases hready) fun _ => ?_
  rw [status]
  exact fun h => by cases h

theorem create (h : Coherent ⟨s, es⟩) (options : LiveOptions) (engine : Engine) :
    Coherent ⟨s.create options engine, es⟩ where
  kept k live hk hready := by
    rw [Session.live?_create] at hk
    split at hk
    · cases hk
      cases hready
    · exact h.kept k live hk hready
  hearing k live hk hstatus tag htag := by
    rw [Session.live?_create] at hk
    change Change.Leads .empty (heard k tag es ++ pending k tag (s.create options engine).tasks) _
    rw [Session.tasks_create]
    split at hk
    · cases hk
      cases htag
    · exact h.hearing k live hk hstatus tag htag

theorem not_told_nil (id : LiveId) (tag : Tag) (changes : List Change) :
    Event.told id tag changes ∉ [] := List.not_mem_nil

/-- Each turn keeps what subscribers hear coherent, as long as deliveries are settled. -/
theorem turn {plan : Plan} {h h' : History} (hcoherent : Coherent h) (hengined : Engined plan h)
    (hqueued : Queued h) (hsubscribers : Subscribers h) (hsettled : Settled h.session.tasks)
    (hturn : Turn h h') : Coherent h' := by
  cases hturn with
  | push task callable =>
      refine hcoherent.push fun id changes rest heq => ?_
      subst heq
      exact callable
  | pop tasks done => exact hcoherent.pop tasks done
  | pass tasks =>
      refine hcoherent.setTasks fun _ _ _ _ _ => ?_
      rw [tasks, pending_of_not_deliver (fun _ _ _ heq => by cases heq),
        pending_of_not_deliver (fun _ _ _ heq => by cases heq)]
  | passAlarm tasks =>
      refine hcoherent.setTasks fun _ _ _ _ _ => ?_
      rw [tasks, pending_of_not_deliver (fun _ _ _ heq => by cases heq),
        pending_of_not_deliver (fun _ _ _ heq => by cases heq)]
  | @tell s es id changes tag rest others tasks status =>
      have htop : .deliver id changes (tag :: rest) ∈ s.tasks := tasks ▸ List.mem_cons_self
      exact hcoherent.tell tasks (hsubscribers.waiting id changes _ htop).1
  | commit =>
      exact hcoherent.of_same _
        (fun _ live found => ⟨live, found, rfl, rfl, rfl, rfl, rfl, rfl⟩) fun _ _ _ _ _ => rfl
  | listen =>
      exact hcoherent.of_same _
        (fun _ live found => ⟨live, found, rfl, rfl, rfl, rfl, rfl, rfl⟩) fun _ _ _ _ _ => rfl
  | unlisten =>
      exact hcoherent.of_same _
        (fun _ live found => ⟨live, found, rfl, rfl, rfl, rfl, rfl, rfl⟩) fun _ _ _ _ _ => rfl
  | create => exact hcoherent.create _ _
  | @aside s es id live handles listeners errorListeners found fewer owned =>
      have hset := hcoherent.setSame found { live with handles, listeners, errorListeners }
        not_told_nil fewer rfl (fun h => ⟨h, rfl, rfl, rfl⟩) fun h => h
      rwa [List.append_nil] at hset
  | @giveUp s es id =>
      refine hcoherent.of_same _ (fun k live' hk => ?_) fun _ _ _ _ _ => by rw [Session.tasks_giveUp]
      rw [Session.live?_giveUp, Option.map_eq_some_iff] at hk
      obtain ⟨live, found, rfl⟩ := hk
      refine ⟨live, found, ?_⟩
      split <;> exact ⟨rfl, rfl, rfl, rfl, rfl, rfl⟩
  | @dispose s es id live found status =>
      have hunlistened : Coherent ⟨s.unlistenAll live.listening, es⟩ :=
        hcoherent.of_same _
          (fun k live' hk => ⟨live', by simpa using hk, rfl, rfl, rfl, rfl, rfl, rfl⟩)
          fun _ _ _ _ _ => by rw [Session.tasks_unlistenAll]
      have hfound : (s.unlistenAll live.listening).live? id = some live := by simpa using found
      have hset := hunlistened.setSame hfound live.dispose not_told_nil (List.nil_sublist _) rfl
        (fun h => by cases h) fun h => absurd rfl h
      rwa [List.append_nil] at hset
  | @receive s es id live collection batch found status =>
      exact hcoherent.setSame found (live.enqueue collection batch)
        (fun _ _ _ hmem => by simp at hmem) (List.Sublist.refl _) rfl
        (fun h => ⟨h, rfl, rfl, rfl⟩) fun h => h
  | @receiveFirst s es id live collection batch found status =>
      exact (hcoherent.setSame found (live.enqueue collection batch)
        (fun _ _ _ hmem => by simp at hmem) (List.Sublist.refl _) rfl
        (fun h => ⟨h, rfl, rfl, rfl⟩) fun h => h).push fun _ _ _ heq => by cases heq
  | start found status coming loaded quiet =>
      exact hcoherent.start hengined hsubscribers found status coming loaded quiet
  | failStart found status coming failed =>
      exact hcoherent.failStart hengined hsubscribers found status coming failed
  | join found status fresh quiet =>
      exact hcoherent.join hengined hsubscribers found status fresh _ rfl (.inl ⟨rfl, quiet⟩)
  | @refuse s es id tag named =>
      refine ⟨hcoherent.kept, fun k live hk hstatus t ht => ?_⟩
      change Change.Leads .empty (heard k t (es ++ [.asked id tag]) ++ _) _
      rw [heard_of_not_told (by simp)]
      exact hcoherent.hearing k live hk hstatus t ht
  | apply tasks found status next applied quiet =>
      exact hcoherent.apply hengined hsubscribers found status applied quiet _
  | applyTelling tasks found status next applied subscribed =>
      exact hcoherent.applyTelling hengined hqueued hsettled tasks found applied subscribed _
  | failApply tasks found status next failed =>
      exact hcoherent.failApply hengined found status failed _
  | @rest s es id live others tasks found through =>
      have hpopped : Coherent ⟨s.setTasks others, es⟩ :=
        hcoherent.setTasks fun _ _ _ _ _ => by
          rw [tasks, pending_of_not_deliver (fun _ _ _ heq => by cases heq)]
      have hfound : (s.setTasks others).live? id = some live := found
      have hset := hpopped.setSame hfound live.rest not_told_nil (List.Sublist.refl _) rfl
        (fun h => ⟨h, rfl, rfl, rfl⟩) fun h => h
      rwa [List.append_nil] at hset

/-- A live query that starts, or is joined, has one subscriber to tell. -/
theorem opening {plan : Plan} {h h' : History} (hcoherent : Coherent h) (hengined : Engined plan h)
    (hsubscribers : Subscribers h) (hopening : Opening h h') :
    Coherent h' ∧ ∃ id changes tag,
      h'.session.tasks = .deliver id changes [tag] :: h.session.tasks := by
  cases hopening with
  | @start s es id live before new engine found status coming loaded subscribed some =>
      have hfirst := (nobody_or_first hsubscribers found status coming).resolve_left fun h => by
        cases h.1.symm.trans subscribed
      obtain ⟨tag, htag, _⟩ := hfirst.2
      refine ⟨?_, id, (before.evaluated engine).insertions, tag, by rw [← htag]; rfl⟩
      have hleads := leads_loaded hengined found before loaded
      refine hcoherent.of_one _ (before.evaluated engine) (Session.live?_setLive found _)
        (fun _ _ _ hmem => ?_) (fun k t hk => ?_) (fun _ hnobody => ?_) fun _ t ht => ?_
      · obtain ⟨_, heq⟩ := coming.eq_asked hmem
        cases heq
      · change pending k t (.deliver id _ before.listeners.values :: s.tasks) = _
        rw [pending_deliver, if_neg fun hboth => hk hboth.1.symm, List.nil_append]
      · cases subscribed.symm.trans hnobody
      · obtain ⟨_, hfresh⟩ := fresh_of_coming hsubscribers found status coming ht
        obtain ⟨hheard, hpending⟩ :=
          List.append_eq_nil_iff.1 (nothing_of_fresh hsubscribers hfresh)
        change Change.Leads .empty (heard id t es
          ++ pending id t (.deliver id _ before.listeners.values :: s.tasks)) _
        rw [pending_deliver, if_pos ⟨rfl, ht⟩, hheard,
          show pending id t s.tasks = [] from hpending, List.nil_append, List.append_nil]
        exact hleads
  | join found status fresh some =>
      exact ⟨hcoherent.join hengined hsubscribers found status fresh _ rfl (.inr rfl), _, _, _, rfl⟩

end Coherent

/-! ## Runs -/

/-- What turns keep of a history as long as deliveries are settled. -/
structure Flowing (plan : Plan) (h : History) : Prop where
  named : Named h
  queued : Queued h
  subscribers : Subscribers h
  engined : Engined plan h
  coherent : Coherent h
  settled : Settled h.session.tasks

namespace Flowing

variable {plan : Plan} {h h' : History}

theorem turn (hflowing : Flowing plan h) (hturn : Turn h h') : Flowing plan h' where
  named := hflowing.named.turn hturn
  queued := hflowing.queued.turn hflowing.named hturn
  subscribers := hflowing.subscribers.turn hturn
  engined := hflowing.engined.turn hturn
  coherent := hflowing.coherent.turn hflowing.engined hflowing.queued hflowing.subscribers
    hflowing.settled hturn
  settled := hflowing.settled.turn hturn

theorem turns (hflowing : Flowing plan h) (hturns : Turns h h') : Flowing plan h' := by
  induction hturns with
  | refl => exact hflowing
  | tail _ hturn ih => exact ih.turn hturn

end Flowing

/-- One subscriber is told something at once, before anything else happens. -/
def Moment.Welcoming (m : Moment) : Prop :=
  m.control = false ∧ ∃ id changes tag others,
    m.session.tasks = .deliver id changes [tag] :: others ∧ Settled others

/-- Deliveries are settled, except that one may have begun to a single subscriber. -/
structure Moment.Streaming (m : Moment) : Prop where
  coherent : Coherent m.toHistory
  settled : Settled m.session.tasks ∨ m.Welcoming

namespace Moment.Streaming

variable {m m' : Moment}

/-- The subscriber is told at the next step. -/
theorem welcomed (hcoherent : Coherent m.toHistory) (hwelcoming : m.Welcoming) (hnext : m.Next m') :
    m'.Streaming := by
  obtain ⟨hcontrol, id, changes, tag, others, tasks, hothers⟩ := hwelcoming
  cases hnext with
  | call c control => cases hcontrol.symm.trans control
  | back control => cases hcontrol.symm.trans control
  | step =>
      by_cases hstatus : (m.session.live? id).map Live.status = some .disposed
      · have hstep : m.session.step.1 = m.session.setTasks others := by
          simp only [Session.step, tasks, hstatus]
          rfl
        have hevents : m.session.events = [] := by
          simp only [Session.events, tasks, if_pos hstatus]
        rw [hstep, hevents, List.append_nil]
        exact ⟨hcoherent.pop tasks (.inr hstatus), .inl hothers⟩
      · have hstep : m.session.step.1 = m.session.setTasks (.deliver id changes [] :: others) := by
          simp only [Session.step, tasks]
          rfl
        have hevents : m.session.events = [.told id tag changes] := by
          simp only [Session.events, tasks, if_neg hstatus]
        rw [hstep, hevents]
        exact ⟨hcoherent.tell tasks (List.nodup_singleton tag), .inl ⟨.inl rfl, hothers⟩⟩

theorem next (h : m.Streaming) (hreached : m.Reached) (hnext : m.Next m') : m'.Streaming := by
  rcases h.settled with hsettled | hwelcoming
  · have hflowing : Flowing m.session.plan m.toHistory :=
      ⟨hreached.named, hreached.queued, hreached.subscribers, hreached.engined, h.coherent,
        hsettled⟩
    rcases hnext.turns with hturns | ⟨_, hcontrol, between, hturns, hopening⟩
    · have hafter := hflowing.turns hturns
      exact ⟨hafter.coherent, .inl hafter.settled⟩
    · have hbetween := hflowing.turns hturns
      obtain ⟨hcoherent, id, changes, tag, tasks⟩ :=
        hbetween.coherent.opening hbetween.engined hbetween.subscribers hopening
      exact ⟨hcoherent, .inr ⟨hcontrol, id, changes, tag, _, tasks, hbetween.settled⟩⟩
  · exact welcomed h.coherent hwelcoming hnext

end Moment.Streaming

theorem Moment.Reached.streaming {m : Moment} (h : m.Reached) : m.Streaming :=
  h.induction (fun s hs => ⟨Coherent.opened hs, .inl (by simp [hs.tasks, Settled])⟩)
    fun _ _ hreached hstreaming hnext => hstreaming.next hreached hnext

/-- What is heard is what the listeners of the caller are told. -/
theorem Session.told_mem_events {s : Session} {id : LiveId} {tag : Tag} {changes : List Change} :
    .told id tag changes ∈ s.events ↔
      s.step.2 = some (.batch tag changes) ∧
        ∃ rest others, s.tasks = .deliver id changes (tag :: rest) :: others := by
  unfold Session.events
  split
  next collection batch live rest others tasks =>
    rw [tasks]
    split <;> simp
  next live others tasks =>
    rw [tasks]
    unfold Session.workedOff
    repeat' split
    all_goals simp
  next live changes' tag' rest others tasks =>
    by_cases hstatus : (s.live? live).map Live.status = some .disposed
    · simp [Session.step, tasks, hstatus]
    · have hstep : s.step.2 = some (.batch tag' changes') := by
        simp only [Session.step, tasks]
      rw [hstep, if_neg hstatus, tasks]
      constructor
      · intro hmem
        cases List.mem_singleton.1 hmem
        exact ⟨rfl, rest, others, rfl⟩
      · rintro ⟨hsignal, rest', others', htasks⟩
        cases hsignal
        cases htasks
        exact List.mem_singleton_self _
  next hother =>
    refine iff_of_false List.not_mem_nil ?_
    rintro ⟨_, rest, others, tasks⟩
    exact hother _ _ _ _ _ tasks

/-- What a subscriber hears from a live query. -/
structure Moment.Follows (m : Moment) (id : LiveId) (live : Live) (tag : Tag) : Prop where
  /-- Each change it was told fits where it is replayed. -/
  fits : ∃ rows, Change.Leads .empty (heard id tag m.trace) rows
  /-- When it is not waiting for a delivery, it has been told the output. -/
  whole : (∀ changes rest, .deliver id changes rest ∈ m.session.tasks → tag ∉ rest) →
    Change.replay (heard id tag m.trace) .empty = keyed live.engine.snapshot

theorem streams_cohere {m : Moment} (h : m.Reached) {id : LiveId} {live : Live}
    (found : m.session.live? id = some live) (status : live.status ≠ .disposed) {tag : Tag}
    (attached : tag ∈ live.listeners.values) : m.Follows id live tag where
  fits := by
    obtain ⟨rows, hheard, _⟩ := (h.streaming.coherent.hearing id live found status tag attached).split
    exact ⟨rows, hheard⟩
  whole hidle := by
    have hleads := h.streaming.coherent.hearing id live found status tag attached
    rw [pending_eq_nil hidle, List.append_nil] at hleads
    exact hleads.replay_eq

/-- A row is written before anybody subscribes, and another one while the first subscriber is
told. -/
theorem streams_cohere_buffered :
    ∃ (m : Moment) (live : Live), m.Reached ∧ m.session.live? 0 = some live ∧
      live.status = .ready ∧ 1 ∈ live.listeners.values ∧ (heard 0 1 m.trace).length = 2 ∧
        m.session.tasks.length = 0 ∧ m.Follows 0 live 1 := by
  let calls : List (Option Call) :=
    [some (.materialize 0 { id := "rows", startPreloaded := true }),
      some (.write 0 [.insert ⟨[.int 1]⟩ .nil]), none, none, none, none, none,
      some (.subscribe 0 1), none, some (.write 0 [.insert ⟨[.int 2]⟩ .nil]), none, none, none,
      none, none, none, none, none, none, none, none]
  have hrun : (Moment.follow calls ⟨⟨Session.ofRows, []⟩, true⟩).any (fun m =>
      (heard 0 1 m.trace).length = 2 && m.session.tasks.isEmpty &&
        (m.session.live? 0).any fun live => live.status = .ready && 1 ∈ live.listeners.values) =
          true := by
    decide +kernel
  obtain ⟨m, hfollow, hm⟩ := (Option.any_eq_true _ _).1 hrun
  have hreached := Session.opened_ofRows.reached.follow hfollow
  simp only [Bool.and_eq_true, decide_eq_true_eq, Option.any_eq_true] at hm
  obtain ⟨⟨hheard, htasks⟩, live, found, hready, hattached⟩ := hm
  refine ⟨m, live, hreached, found, hready, hattached, hheard, ?_, ?_⟩
  · simpa using htasks
  · exact streams_cohere hreached found (by rw [hready]; exact fun h => by cases h) hattached

end LiveQuery
