import LiveQuery.Proofs.Session.Turns

/-!
# Subscribers of live queries

Whoever is told something by a live query has asked for it before, and each subscriber is in
the list once. Nobody subscribes to a live query that is idle: the first one makes it start.

**Results.** `Moment.Reached.subscribers`.
-/

namespace LiveQuery

/-- The subscribers of a live query, by what has happened. -/
structure Live.Subscribed (id : LiveId) (es : List Event) (live : Live) : Prop where
  asked : ∀ tag ∈ live.listeners.values, .asked id tag ∈ es
  once : live.listeners.values.Nodup
  fresh : ∀ key tag, live.listeners.get? key = some tag → key < live.nextListener
  nobody : live.subscribed = false → live.listeners = .empty

namespace Live.Subscribed

variable {id : LiveId} {es es' : List Event} {live : Live}

theorem mono (h : live.Subscribed id es) (hes : es ⊆ es') : live.Subscribed id es' :=
  { h with asked := fun tag htag => hes (h.asked tag htag) }

theorem of_same (h : live.Subscribed id es) {after : Live}
    (listeners : after.listeners = live.listeners) (next : after.nextListener = live.nextListener)
    (subscribed : after.subscribed = live.subscribed) : after.Subscribed id es where
  asked := listeners ▸ h.asked
  once := listeners ▸ h.once
  fresh := by
    rw [listeners, next]
    exact h.fresh
  nobody := by
    rw [listeners, subscribed]
    exact h.nobody

theorem none_next (h : live.Subscribed id es) : live.listeners.get? live.nextListener = none := by
  cases hget : live.listeners.get? live.nextListener with
  | none => rfl
  | some tag => exact absurd (h.fresh _ tag hget) (Nat.lt_irrefl _)

theorem mem_values_addListener (h : live.Subscribed id es) (tag t : Tag) :
    t ∈ (live.addListener tag).listeners.values ↔ t = tag ∨ t ∈ live.listeners.values :=
  (OrdMap.values_insert_perm h.none_next tag).mem_iff.trans List.mem_cons

/-- A subscriber that has not asked before joins. -/
theorem addListener (h : live.Subscribed id es) {tag : Tag} (fresh : .asked id tag ∉ es) :
    (live.addListener tag).Subscribed id (es ++ [.asked id tag]) where
  asked t ht := by
    rcases (h.mem_values_addListener tag t).1 ht with rfl | ht
    · exact List.mem_append_right _ (List.mem_singleton_self _)
    · exact List.mem_append_left _ (h.asked t ht)
  once := by
    refine (OrdMap.values_insert_perm h.none_next tag).nodup_iff.2 (List.nodup_cons.2 ⟨?_, h.once⟩)
    exact fun hmem => fresh (h.asked tag hmem)
  fresh key t hkey := by
    change (live.listeners.insert live.nextListener tag).get? key = some t at hkey
    change key < live.nextListener + 1
    rw [OrdMap.get?_insert_eq] at hkey
    split at hkey
    next heq => exact heq ▸ Nat.lt_succ_self _
    · exact Nat.lt_succ_of_lt (h.fresh key t hkey)
  nobody hnone := by cases hnone

/-- Some subscribers leave. -/
theorem fewer (h : live.Subscribed id es) {after : Live}
    (listeners : after.listeners.entries.Sublist live.listeners.entries)
    (next : after.nextListener = live.nextListener)
    (subscribed : after.subscribed = live.subscribed) : after.Subscribed id es where
  asked tag htag := h.asked tag ((listeners.map Prod.snd).subset htag)
  once := (listeners.map Prod.snd).nodup h.once
  fresh key tag hkey := by
    rw [next]
    exact h.fresh key tag
      (OrdMap.get?_eq_some_iff.2 (listeners.subset (OrdMap.get?_eq_some_iff.1 hkey)))
  nobody hnone := by
    rw [subscribed] at hnone
    rw [h.nobody hnone] at listeners
    exact OrdMap.ext_get? fun key => by
      cases hget : after.listeners.get? key with
      | none => rfl
      | some tag => cases listeners.subset (OrdMap.get?_eq_some_iff.1 hget)

theorem coming (h : live.Subscribed id es) {before : Live} {new : List Event}
    (hcoming : Coming id es live before new) : before.Subscribed id (es ++ new) := by
  cases hcoming with
  | alone =>
      rw [List.append_nil]
      exact h
  | joined tag fresh => exact h.addListener fresh

end Live.Subscribed

/-- The subscribers of live queries, and those who are still to be told something. -/
structure Subscribers (h : History) : Prop where
  lives : ∀ id live, h.session.live? id = some live → live.Subscribed id h.trace
  idle : ∀ id live, h.session.live? id = some live → live.status = .idle →
    live.subscribed = false ∧ live.buffer = []
  waiting : ∀ id changes rest, .deliver id changes rest ∈ h.session.tasks →
    rest.Nodup ∧ ∀ tag ∈ rest, .asked id tag ∈ h.trace
  told : ∀ id tag changes, .told id tag changes ∈ h.trace → .asked id tag ∈ h.trace

namespace Subscribers

variable {s s' : Session} {es new : List Event} {id : LiveId} {live : Live}

theorem opened (h : s.Opened) : Subscribers ⟨s, []⟩ where
  lives id live hlive := by simp [Session.live?, h.lives] at hlive
  idle id live hlive := by simp [Session.live?, h.lives] at hlive
  waiting id changes rest hmem := by simp [h.tasks] at hmem
  told id tag changes hmem := absurd hmem List.not_mem_nil

/-- Nothing changes that has to do with subscribers. -/
theorem of_same (h : Subscribers ⟨s, es⟩)
    (hlives : ∀ id live', s'.live? id = some live' → ∃ live, s.live? id = some live ∧
      live'.listeners = live.listeners ∧ live'.nextListener = live.nextListener ∧
        live'.subscribed = live.subscribed ∧ live'.buffer = live.buffer ∧
          live'.status = live.status)
    (htasks : ∀ id changes rest, .deliver id changes rest ∈ s'.tasks → rest = [] ∨
      .deliver id changes rest ∈ s.tasks) : Subscribers ⟨s', es⟩ where
  lives id live' hid := by
    obtain ⟨live, hlive, hlisteners, hnext, hsubscribed, _⟩ := hlives id live' hid
    exact (h.lives id live hlive).of_same hlisteners hnext hsubscribed
  idle id live' hid hidle := by
    obtain ⟨live, hlive, _, _, hsubscribed, hbuffer, hstatus⟩ := hlives id live' hid
    rw [hsubscribed, hbuffer]
    exact h.idle id live hlive (hstatus ▸ hidle)
  waiting id changes rest hmem := by
    rcases htasks id changes rest hmem with rfl | hmem
    · exact ⟨.nil, fun _ htag => absurd htag List.not_mem_nil⟩
    · exact h.waiting id changes rest hmem
  told := h.told

theorem setTasks (h : Subscribers ⟨s, es⟩) {tasks : List Task}
    (htasks : ∀ id changes rest, .deliver id changes rest ∈ tasks → rest = [] ∨
      .deliver id changes rest ∈ s.tasks) : Subscribers ⟨s.setTasks tasks, es⟩ :=
  h.of_same (fun _ live hlive => ⟨live, hlive, rfl, rfl, rfl, rfl, rfl⟩) htasks

theorem push (h : Subscribers ⟨s, es⟩) {task : Task}
    (htask : ∀ id changes rest, task ≠ .deliver id changes rest) :
    Subscribers ⟨s.push task, es⟩ :=
  h.setTasks fun id changes rest hmem =>
    .inr ((List.mem_cons.1 hmem).resolve_left fun heq => htask id changes rest heq.symm)

/-- More has happened than before. -/
theorem addEvents (h : Subscribers ⟨s, es⟩)
    (hnew : ∀ id tag changes, .told id tag changes ∈ new → .asked id tag ∈ es) :
    Subscribers ⟨s, es ++ new⟩ where
  lives id live hid := (h.lives id live hid).mono (List.subset_append_left _ _)
  idle := h.idle
  waiting id changes rest hmem :=
    (h.waiting id changes rest hmem).imp_right fun hasked tag htag =>
      List.mem_append_left _ (hasked tag htag)
  told id tag changes hmem := by
    refine List.mem_append_left _ ?_
    rcases List.mem_append.1 hmem with hmem | hmem
    · exact h.told id tag changes hmem
    · exact hnew id tag changes hmem

/-- Something happens to one live query and its subscribers. -/
theorem setLive (h : Subscribers ⟨s, es⟩) (found : s.live? id = some live) (after : Live)
    (hnew : ∀ id tag changes, .told id tag changes ∉ new)
    (subscribed : after.Subscribed id (es ++ new))
    (idle : after.status = .idle → after.subscribed = false ∧ after.buffer = []) :
    Subscribers ⟨s.setLive id after, es ++ new⟩ where
  lives k live' hk := by
    change (s.setLive id after).live? k = _ at hk
    rw [Session.live?_setLive found] at hk
    split at hk
    next heq =>
      cases hk
      exact heq ▸ subscribed
    · exact (h.lives k live' hk).mono (List.subset_append_left _ _)
  idle k live' hk hidle := by
    change (s.setLive id after).live? k = _ at hk
    rw [Session.live?_setLive found] at hk
    split at hk
    · cases hk
      exact idle hidle
    · exact h.idle k live' hk hidle
  waiting := (h.addEvents fun id tag changes hmem => absurd hmem (hnew id tag changes)).waiting
  told := (h.addEvents fun id tag changes hmem => absurd hmem (hnew id tag changes)).told

/-- A live query goes on with the same subscribers. -/
theorem setSame (h : Subscribers ⟨s, es⟩) (found : s.live? id = some live) (after : Live)
    (hnew : ∀ id tag changes, .told id tag changes ∉ new)
    (listeners : after.listeners = live.listeners) (next : after.nextListener = live.nextListener)
    (subscribed : after.subscribed = live.subscribed)
    (idle : after.status = .idle → live.status = .idle ∧ after.buffer = live.buffer) :
    Subscribers ⟨s.setLive id after, es ++ new⟩ := by
  refine h.setLive found after hnew
    (((h.lives id live found).of_same listeners next subscribed).mono
      (List.subset_append_left _ _)) fun hidle => ?_
  rw [subscribed, (idle hidle).2]
  exact h.idle id live found (idle hidle).1

theorem not_told_nil (id : LiveId) (tag : Tag) (changes : List Change) :
    Event.told id tag changes ∉ [] := List.not_mem_nil

/-- What is to be told is told to subscribers. -/
theorem deliver (h : Subscribers ⟨s, es⟩) {changes : List Change} {tags : List Tag}
    (once : tags.Nodup) (asked : ∀ tag ∈ tags, .asked id tag ∈ es) :
    Subscribers ⟨s.push (.deliver id changes tags), es⟩ where
  lives := h.lives
  idle := h.idle
  waiting k changes' rest hmem := by
    rcases List.mem_cons.1 hmem with heq | hmem
    · cases heq
      exact ⟨once, asked⟩
    · exact h.waiting k changes' rest hmem
  told := h.told

/-- A live query that starts tells its first subscriber, if there is one. -/
theorem startCommon (h : Subscribers ⟨s, es⟩) (found : s.live? id = some live) {before : Live}
    (coming : Coming id es live before new) (after : Live)
    (listeners : after.listeners = before.listeners)
    (next : after.nextListener = before.nextListener)
    (subscribed : after.subscribed = before.subscribed) (idle : after.status ≠ .idle) :
    Subscribers ⟨s.setLive id after, es ++ new⟩ :=
  h.setLive found after
    (fun _ _ _ hmem => by
      obtain ⟨_, heq⟩ := coming.eq_asked hmem
      cases heq)
    (((h.lives id live found).coming coming).of_same listeners next subscribed)
    fun hidle => absurd hidle idle

theorem join (h : Subscribers ⟨s, es⟩) (found : s.live? id = some live)
    (status : live.status = .ready) {tag : Tag} (fresh : .asked id tag ∉ es) :
    Subscribers ⟨s.setLive id (live.joinedBy tag), es ++ [.asked id tag]⟩ := by
  refine h.setLive found _ (fun _ _ _ hmem => by simp at hmem)
    (((h.lives id live found).addListener fresh).of_same (Live.listeners_joinedBy _ _)
      (Live.nextListener_joinedBy _ _) (Live.subscribed_joinedBy _ _)) fun hidle => ?_
  rw [Live.status_joinedBy, status] at hidle
  cases hidle

theorem turn {h h' : History} (hsubscribers : Subscribers h) (hturn : Turn h h') :
    Subscribers h' := by
  cases hturn with
  | push task callable =>
      refine hsubscribers.push fun id changes rest heq => ?_
      subst heq
      exact callable
  | pop tasks done =>
      exact hsubscribers.setTasks fun _ _ _ hmem => .inr (tasks ▸ List.mem_cons_of_mem _ hmem)
  | @pass s es collection batch listener rest others tasks =>
      refine hsubscribers.setTasks fun _ _ _ hmem => .inr ?_
      rw [tasks]
      exact List.mem_cons_of_mem _ ((List.mem_cons.1 hmem).resolve_left fun heq => by cases heq)
  | @passAlarm s es error tag rest others tasks =>
      refine hsubscribers.setTasks fun _ _ _ hmem => .inr ?_
      rw [tasks]
      exact List.mem_cons_of_mem _ ((List.mem_cons.1 hmem).resolve_left fun heq => by cases heq)
  | @tell s es id changes tag rest others tasks status =>
      have htop : .deliver id changes (tag :: rest) ∈ s.tasks := tasks ▸ List.mem_cons_self
      obtain ⟨hnodup, hasked⟩ := hsubscribers.waiting id changes _ htop
      have hothers : Subscribers ⟨s.setTasks others, es⟩ :=
        hsubscribers.setTasks fun _ _ _ hmem => .inr (tasks ▸ List.mem_cons_of_mem _ hmem)
      refine (hothers.deliver (List.nodup_cons.1 hnodup).2 fun t ht =>
        hasked t (List.mem_cons_of_mem _ ht)).addEvents fun id' tag' changes' hmem => ?_
      obtain ⟨rfl, rfl, rfl⟩ := Event.told.inj (List.mem_singleton.1 hmem)
      exact hasked _ List.mem_cons_self
  | commit =>
      exact hsubscribers.of_same (fun _ live found => ⟨live, found, rfl, rfl, rfl, rfl, rfl⟩)
        fun _ _ _ hmem => .inr hmem
  | listen =>
      exact hsubscribers.of_same (fun _ live found => ⟨live, found, rfl, rfl, rfl, rfl, rfl⟩)
        fun _ _ _ hmem => .inr hmem
  | unlisten =>
      exact hsubscribers.of_same (fun _ live found => ⟨live, found, rfl, rfl, rfl, rfl, rfl⟩)
        fun _ _ _ hmem => .inr hmem
  | @create s es query options engine made =>
      refine ⟨fun k live hk => ?_, fun k live hk hidle => ?_, ?_, hsubscribers.told⟩
      · rw [Session.live?_create] at hk
        split at hk
        · cases hk
          exact ⟨fun _ h => absurd h List.not_mem_nil, .nil, fun _ _ h => (by cases h), fun _ => rfl⟩
        · exact hsubscribers.lives k live hk
      · rw [Session.live?_create] at hk
        split at hk
        · cases hk
          exact ⟨rfl, rfl⟩
        · exact hsubscribers.idle k live hk hidle
      · rw [Session.tasks_create]
        exact hsubscribers.waiting
  | @aside s es id live handles listeners errorListeners found fewer owned =>
      have hfewer : ({ live with handles, listeners, errorListeners } : Live).Subscribed id es :=
        (hsubscribers.lives id live found).fewer fewer rfl rfl
      have hset := hsubscribers.setLive found _ not_told_nil
        (hfewer.mono (List.subset_append_left _ [])) (hsubscribers.idle id live found)
      rwa [List.append_nil] at hset
  | @giveUp s es id =>
      refine hsubscribers.of_same (fun k live' hk => ?_) fun _ _ _ hmem => .inr (by simpa using hmem)
      rw [Session.live?_giveUp, Option.map_eq_some_iff] at hk
      obtain ⟨live, found, rfl⟩ := hk
      refine ⟨live, found, ?_⟩
      split <;> exact ⟨rfl, rfl, rfl, rfl, rfl⟩
  | @dispose s es id live found status =>
      have hunlistened : Subscribers ⟨s.unlistenAll live.listening, es⟩ :=
        hsubscribers.of_same (fun k live' hk => ⟨live', by simpa using hk, rfl, rfl, rfl, rfl, rfl⟩)
          fun _ _ _ hmem => .inr (by simpa using hmem)
      have hfound : (s.unlistenAll live.listening).live? id = some live := by simpa using found
      have hnobody : live.dispose.Subscribed id es :=
        (hsubscribers.lives id live found).fewer (List.nil_sublist _) rfl rfl
      have hset := hunlistened.setLive hfound _ not_told_nil
        (hnobody.mono (List.subset_append_left _ [])) fun hidle => by cases hidle
      rwa [List.append_nil] at hset
  | @receive s es id live collection batch found status =>
      exact hsubscribers.setSame found (live.enqueue collection batch) (by simp) rfl rfl rfl
        fun hidle => ⟨hidle, rfl⟩
  | @receiveFirst s es id live collection batch found status =>
      exact (hsubscribers.setSame found (live.enqueue collection batch) (by simp) rfl rfl rfl
        fun hidle => ⟨hidle, rfl⟩).push fun _ _ _ heq => by cases heq
  | @start s es id live before new engine found status coming =>
      refine hsubscribers.startCommon found coming _ (Live.listeners_keeping _ _)
        (Live.nextListener_keeping _ _) (Live.subscribed_keeping _ _) ?_
      rw [Live.status_keeping]
      exact fun h => by cases h
  | @failStart s es id live before new error engine found status coming =>
      exact hsubscribers.startCommon found coming ({ before with engine }.halt error) rfl rfl rfl
        fun h => by cases h
  | join found status fresh => exact hsubscribers.join found status fresh
  | refuse id tag =>
      exact hsubscribers.addEvents fun _ _ _ hmem => by cases List.mem_singleton.1 hmem
  | @apply s es id live collection batch queue changes engine _ tasks found status =>
      refine hsubscribers.setSame found _ (by simp)
        (Live.listeners_keeping { live with queue, engine } changes)
        (Live.nextListener_keeping { live with queue, engine } changes)
        (Live.subscribed_keeping { live with queue, engine } changes) fun hidle => ?_
      rw [Live.status_keeping, status] at hidle
      cases hidle
  | @applyTelling s es id live collection batch queue changes engine _ tasks found status =>
      have hlive := hsubscribers.lives id live found
      exact (hsubscribers.setSame found { live with queue, engine } (by simp) rfl rfl rfl
        fun hidle => ⟨hidle, rfl⟩).deliver hlive.once fun tag htag =>
          List.mem_append_left _ (hlive.asked tag htag)
  | @failApply s es id live collection batch queue error engine _ tasks found status =>
      have hnew : ∀ id' tag changes,
          .told id' tag changes ∉ [.applied id collection batch, Event.failed id] := by simp
      exact hsubscribers.setSame found ({ live with queue, engine }.halt error) hnew rfl rfl rfl
        fun hidle => by cases hidle
  | @rest s es id live others tasks found =>
      have hpopped : Subscribers ⟨s.setTasks others, es⟩ :=
        hsubscribers.setTasks fun _ _ _ hmem => .inr (tasks ▸ List.mem_cons_of_mem _ hmem)
      have hfound : (s.setTasks others).live? id = some live := found
      have hset := hpopped.setSame hfound live.rest not_told_nil rfl rfl rfl
        fun hidle => ⟨hidle, rfl⟩
      rwa [List.append_nil] at hset

theorem opening {h h' : History} (hsubscribers : Subscribers h) (hopening : Opening h h') :
    Subscribers h' := by
  cases hopening with
  | @start s es id live before new engine found status coming =>
      have hbefore := (hsubscribers.lives id live found).coming coming
      exact (hsubscribers.startCommon found coming (before.evaluated engine) rfl rfl rfl
        fun h => by cases h).deliver hbefore.once hbefore.asked
  | join found status fresh =>
      exact (hsubscribers.join found status fresh).deliver (List.nodup_singleton _) fun t ht =>
        List.mem_append_right _ (by rw [List.mem_singleton.1 ht]; exact List.mem_singleton_self _)

end Subscribers

theorem Moment.Reached.subscribers {m : Moment} (h : m.Reached) : Subscribers m.toHistory :=
  h.keeps (fun _ => Subscribers.opened) Subscribers.turn Subscribers.opening

end LiveQuery
