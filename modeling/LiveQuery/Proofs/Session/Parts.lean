import LiveQuery.Session
import LiveQuery.Proofs.Map

/-!
# Parts of sessions

What each operation on a session does to its tasks, its live queries and its stores. Most
operations leave two of the three alone.
-/

namespace LiveQuery

theorem Live.status_of_check {live : Live} {u : Unit} (h : live.check = .ok u) :
    live.status = .idle ∨ live.status = .ready := by
  unfold Live.check at h
  cases hstatus : live.status <;> simp [hstatus] at h ⊢

theorem Live.not_disposed_of_check {live : Live} {u : Unit} (h : live.check = .ok u) :
    live.status ≠ .disposed := by
  rcases Live.status_of_check h with hstatus | hstatus <;> simp [hstatus]

/-- The live query with changes kept for the first subscriber, before there is one. -/
def Live.keeping (live : Live) (changes : List Change) : Live :=
  if live.subscribed = false ∧ live.options.bufferUntilSubscribed = true then
    { live with buffer := live.buffer ++ changes }
  else live

namespace Live

/-! ## Parts of live queries -/

section Keeping

variable (live : Live) (changes : List Change)

@[simp] theorem options_keeping : (live.keeping changes).options = live.options := by
  unfold keeping
  split <;> rfl

@[simp] theorem engine_keeping : (live.keeping changes).engine = live.engine := by
  unfold keeping
  split <;> rfl

@[simp] theorem status_keeping : (live.keeping changes).status = live.status := by
  unfold keeping
  split <;> rfl

@[simp] theorem handles_keeping : (live.keeping changes).handles = live.handles := by
  unfold keeping
  split <;> rfl

@[simp] theorem listening_keeping : (live.keeping changes).listening = live.listening := by
  unfold keeping
  split <;> rfl

@[simp] theorem queue_keeping : (live.keeping changes).queue = live.queue := by
  unfold keeping
  split <;> rfl

@[simp] theorem busy_keeping : (live.keeping changes).busy = live.busy := by
  unfold keeping
  split <;> rfl

@[simp] theorem listeners_keeping : (live.keeping changes).listeners = live.listeners := by
  unfold keeping
  split <;> rfl

@[simp] theorem nextListener_keeping : (live.keeping changes).nextListener = live.nextListener := by
  unfold keeping
  split <;> rfl

@[simp] theorem subscribed_keeping : (live.keeping changes).subscribed = live.subscribed := by
  unfold keeping
  split <;> rfl

theorem buffer_keeping : (live.keeping changes).buffer
    = if live.subscribed = false ∧ live.options.bufferUntilSubscribed = true then
        live.buffer ++ changes
      else live.buffer := by
  unfold keeping
  split <;> rfl

end Keeping

end Live

namespace Session

/-! ## Parts of sessions -/

section Parts

variable (s : Session)

@[simp] theorem tasks_modifyLive (id : LiveId) (f : Live → Live) :
    (s.modifyLive id f).tasks = s.tasks := rfl

@[simp] theorem tasks_modifyStore (id : CollectionId) (f : Store → Store) :
    (s.modifyStore id f).tasks = s.tasks := rfl

@[simp] theorem tasks_push (task : Task) : (s.push task).tasks = task :: s.tasks := rfl

@[simp] theorem plan_modifyLive (id : LiveId) (f : Live → Live) :
    (s.modifyLive id f).plan = s.plan := rfl

@[simp] theorem plan_modifyStore (id : CollectionId) (f : Store → Store) :
    (s.modifyStore id f).plan = s.plan := rfl

@[simp] theorem plan_push (task : Task) : (s.push task).plan = s.plan := rfl

@[simp] theorem lives_modifyStore (id : CollectionId) (f : Store → Store) :
    (s.modifyStore id f).lives = s.lives := rfl

@[simp] theorem lives_push (task : Task) : (s.push task).lives = s.lives := rfl

@[simp] theorem length_lives_modifyLive (id : LiveId) (f : Live → Live) :
    (s.modifyLive id f).lives.length = s.lives.length :=
  List.length_modify _ _ _

@[simp] theorem stores_modifyLive (id : LiveId) (f : Live → Live) :
    (s.modifyLive id f).stores = s.stores := rfl

@[simp] theorem stores_push (task : Task) : (s.push task).stores = s.stores := rfl

@[simp] theorem length_stores_modifyStore (id : CollectionId) (f : Store → Store) :
    (s.modifyStore id f).stores.length = s.stores.length :=
  List.length_modify _ _ _

@[simp] theorem store_modifyLive (id : LiveId) (f : Live → Live) (c : CollectionId) :
    (s.modifyLive id f).store c = s.store c := rfl

@[simp] theorem store_push (task : Task) (c : CollectionId) :
    (s.push task).store c = s.store c := rfl

@[simp] theorem live?_modifyStore (c : CollectionId) (f : Store → Store) (id : LiveId) :
    (s.modifyStore c f).live? id = s.live? id := rfl

@[simp] theorem live?_push (task : Task) (id : LiveId) : (s.push task).live? id = s.live? id := rfl

theorem live?_modifyLive (id : LiveId) (f : Live → Live) (k : LiveId) :
    (s.modifyLive id f).live? k = if k = id then (s.live? k).map f else s.live? k := by
  change (s.lives.modify id f)[k]? = _
  rw [List.getElem?_modify]
  by_cases h : id = k
  · simp [h, live?]
  · simp [h, Ne.symm h, live?]

theorem store_modifyStore (c : CollectionId) (f : Store → Store) (k : CollectionId) :
    (s.modifyStore c f).store k
      = if k = c ∧ c < s.stores.length then f (s.store k) else s.store k := by
  change (s.stores.modify c f).getD k default = _
  rw [List.getD_eq_getElem?_getD, List.getElem?_modify]
  by_cases h : c = k
  · subst h
    by_cases hlt : c < s.stores.length
    · simp [hlt, store]
    · simp [hlt, store]
  · simp [h, Ne.symm h, store]

theorem modifyLive_congr {s : Session} {id : LiveId} {f g : Live → Live}
    (h : ∀ live, s.live? id = some live → f live = g live) :
    s.modifyLive id f = s.modifyLive id g := by
  have hlives : s.lives.modify id f = s.lives.modify id g := by
    refine List.ext_getElem? fun k => ?_
    rw [List.getElem?_modify, List.getElem?_modify]
    by_cases hk : id = k
    · subst hk
      cases hlive : s.lives[id]? with
      | none => rfl
      | some live => simp [h live hlive]
    · simp [hk]
  change { s with lives := s.lives.modify id f } = { s with lives := s.lives.modify id g }
  rw [hlives]

theorem modifyLive_of_none {s : Session} {id : LiveId} (h : s.live? id = none) (f : Live → Live) :
    s.modifyLive id f = s := by
  change { s with lives := s.lives.modify id f } = s
  rw [List.modify_eq_self (List.getElem?_eq_none_iff.1 h)]

/-- The session with a live query in another state. -/
def setLive (s : Session) (id : LiveId) (live : Live) : Session :=
  s.modifyLive id fun _ => live

theorem modifyLive_eq_setLive {s : Session} {id : LiveId} {live : Live}
    (h : s.live? id = some live) (f : Live → Live) : s.modifyLive id f = s.setLive id (f live) :=
  modifyLive_congr fun live' hlive' => by
    rw [h] at hlive'
    cases hlive'
    rfl

@[simp] theorem tasks_setLive (id : LiveId) (live : Live) :
    (s.setLive id live).tasks = s.tasks := rfl

@[simp] theorem plan_setLive (id : LiveId) (live : Live) :
    (s.setLive id live).plan = s.plan := rfl

@[simp] theorem stores_setLive (id : LiveId) (live : Live) :
    (s.setLive id live).stores = s.stores := rfl

@[simp] theorem store_setLive (id : LiveId) (live : Live) (c : CollectionId) :
    (s.setLive id live).store c = s.store c := rfl

@[simp] theorem length_lives_setLive (id : LiveId) (live : Live) :
    (s.setLive id live).lives.length = s.lives.length :=
  length_lives_modifyLive _ _ _

theorem live?_setLive {s : Session} {id : LiveId} {live : Live} (h : s.live? id = some live)
    (after : Live) (k : LiveId) :
    (s.setLive id after).live? k = if k = id then some after else s.live? k := by
  rw [setLive, live?_modifyLive]
  split
  next hk => simp [hk, h]
  · rfl

theorem setLive_self {s : Session} {id : LiveId} {live : Live} (h : s.live? id = some live) :
    s.setLive id live = s := by
  change { s with lives := s.lives.modify id _ } = s
  have hlives : s.lives.modify id (fun _ => live) = s.lives := by
    refine List.ext_getElem? fun k => ?_
    rw [List.getElem?_modify]
    by_cases hk : id = k
    · subst hk
      rw [show s.lives[id]? = some live from h]
      simp
    · simp [hk]
  rw [hlives]

theorem setLive_setLive (id : LiveId) (live after : Live) :
    (s.setLive id live).setLive id after = s.setLive id after := by
  change { s with lives := (s.lives.modify id _).modify id _ } = { s with lives := _ }
  congr 1
  refine List.ext_getElem? fun k => ?_
  simp only [List.getElem?_modify]
  by_cases hk : id = k
  · cases s.lives[k]? <;> simp [hk]
  · simp [hk]

/-- The session with other tasks. -/
def setTasks (s : Session) (tasks : List Task) : Session :=
  { s with tasks }

@[simp] theorem tasks_setTasks (tasks : List Task) : (s.setTasks tasks).tasks = tasks := rfl

@[simp] theorem plan_setTasks (tasks : List Task) : (s.setTasks tasks).plan = s.plan := rfl

@[simp] theorem lives_setTasks (tasks : List Task) : (s.setTasks tasks).lives = s.lives := rfl

@[simp] theorem stores_setTasks (tasks : List Task) : (s.setTasks tasks).stores = s.stores := rfl

@[simp] theorem store_setTasks (tasks : List Task) (c : CollectionId) :
    (s.setTasks tasks).store c = s.store c := rfl

@[simp] theorem live?_setTasks (tasks : List Task) (id : LiveId) :
    (s.setTasks tasks).live? id = s.live? id := rfl

theorem live?_eq_some_lt {s : Session} {id : LiveId} {live : Live} (h : s.live? id = some live) :
    id < s.lives.length :=
  (List.getElem?_eq_some_iff.1 h).1

/-! ## Subscriptions to collections -/

@[simp] theorem tasks_listenAs (c : CollectionId) (listener : Listener) :
    (s.listenAs c listener).1.tasks = s.tasks := rfl

@[simp] theorem lives_listenAs (c : CollectionId) (listener : Listener) :
    (s.listenAs c listener).1.lives = s.lives := rfl

@[simp] theorem plan_listenAs (c : CollectionId) (listener : Listener) :
    (s.listenAs c listener).1.plan = s.plan := rfl

@[simp] theorem length_stores_listenAs (c : CollectionId) (listener : Listener) :
    (s.listenAs c listener).1.stores.length = s.stores.length :=
  length_stores_modifyStore _ _ _

@[simp] theorem tasks_unlistenAll (listening : List (CollectionId × Nat)) :
    (s.unlistenAll listening).tasks = s.tasks := by
  induction listening generalizing s with
  | nil => rfl
  | cons entry rest ih => exact ih _

@[simp] theorem lives_unlistenAll (listening : List (CollectionId × Nat)) :
    (s.unlistenAll listening).lives = s.lives := by
  induction listening generalizing s with
  | nil => rfl
  | cons entry rest ih => exact ih _

@[simp] theorem plan_unlistenAll (listening : List (CollectionId × Nat)) :
    (s.unlistenAll listening).plan = s.plan := by
  induction listening generalizing s with
  | nil => rfl
  | cons entry rest ih => exact ih _

@[simp] theorem length_stores_unlistenAll (listening : List (CollectionId × Nat)) :
    (s.unlistenAll listening).stores.length = s.stores.length := by
  induction listening generalizing s with
  | nil => rfl
  | cons entry rest ih => exact (ih _).trans (length_stores_modifyStore _ _ _)

@[simp] theorem live?_unlistenAll (listening : List (CollectionId × Nat)) (k : LiveId) :
    (s.unlistenAll listening).live? k = s.live? k := by
  simp [live?]

@[simp] theorem tasks_listenAll (id : LiveId) (refs : List CollectionRef) :
    (s.listenAll id refs).1.tasks = s.tasks := by
  induction refs generalizing s with
  | nil => rfl
  | cons ref rest ih => exact ih _

@[simp] theorem lives_listenAll (id : LiveId) (refs : List CollectionRef) :
    (s.listenAll id refs).1.lives = s.lives := by
  induction refs generalizing s with
  | nil => rfl
  | cons ref rest ih => exact ih _

@[simp] theorem plan_listenAll (id : LiveId) (refs : List CollectionRef) :
    (s.listenAll id refs).1.plan = s.plan := by
  induction refs generalizing s with
  | nil => rfl
  | cons ref rest ih => exact ih _

@[simp] theorem length_stores_listenAll (id : LiveId) (refs : List CollectionRef) :
    (s.listenAll id refs).1.stores.length = s.stores.length := by
  induction refs generalizing s with
  | nil => rfl
  | cons ref rest ih => exact (ih _).trans (length_stores_modifyStore _ _ _)

/-! ### Rows of collections -/

@[simp] theorem contents_modifyLive (id : LiveId) (f : Live → Live) (c : CollectionId) :
    (s.modifyLive id f).contents c = s.contents c := rfl

@[simp] theorem contents_push (task : Task) (c : CollectionId) :
    (s.push task).contents c = s.contents c := rfl

@[simp] theorem contents_setTasks (tasks : List Task) (c : CollectionId) :
    (s.setTasks tasks).contents c = s.contents c := rfl

@[simp] theorem contents_listenAs (c : CollectionId) (listener : Listener) (k : CollectionId) :
    (s.listenAs c listener).1.contents k = s.contents k := by
  unfold listenAs contents
  simp only
  rw [store_modifyStore]
  split <;> rfl

@[simp] theorem contents_unlisten (c : CollectionId) (key : Nat) (k : CollectionId) :
    (s.unlisten c key).contents k = s.contents k := by
  unfold unlisten contents
  rw [store_modifyStore]
  split <;> rfl

@[simp] theorem contents_unlistenAll (listening : List (CollectionId × Nat)) (k : CollectionId) :
    (s.unlistenAll listening).contents k = s.contents k := by
  induction listening generalizing s with
  | nil => rfl
  | cons entry rest ih => exact (ih _).trans (contents_unlisten _ _ _ _)

@[simp] theorem contents_listenAll (id : LiveId) (refs : List CollectionRef) (k : CollectionId) :
    (s.listenAll id refs).1.contents k = s.contents k := by
  induction refs generalizing s with
  | nil => rfl
  | cons ref rest ih => exact (ih _).trans (contents_listenAs _ _ _ _)

/-! ### Who listens to a collection -/

theorem get?_listenAs (c : CollectionId) (listener : Listener) (k : CollectionId) (key : Nat) :
    ((s.listenAs c listener).1.store k).listeners.get? key
      = if k = c ∧ c < s.stores.length ∧ key = (s.store c).nextListener then some listener
        else (s.store k).listeners.get? key := by
  unfold listenAs
  simp only
  rw [store_modifyStore]
  by_cases hk : k = c ∧ c < s.stores.length
  · obtain ⟨rfl, hlt⟩ := hk
    simp [hlt, OrdMap.get?_insert_eq]
  · rw [if_neg hk, if_neg fun h => hk ⟨h.1, h.2.1⟩]

theorem nextListener_listenAs (c : CollectionId) (listener : Listener) (k : CollectionId) :
    ((s.listenAs c listener).1.store k).nextListener
      = if k = c ∧ c < s.stores.length then (s.store c).nextListener + 1
        else (s.store k).nextListener := by
  unfold listenAs
  simp only
  rw [store_modifyStore]
  split <;> rfl

theorem nextListener_le_listenAs (c : CollectionId) (listener : Listener) (k : CollectionId) :
    (s.store k).nextListener ≤ ((s.listenAs c listener).1.store k).nextListener := by
  rw [nextListener_listenAs]
  split
  next h => exact h.1 ▸ Nat.le_succ _
  · exact Nat.le_refl _

/-- There is nobody to listen to a collection that is not there. -/
theorem store_of_length_le {s : Session} {c : CollectionId} (h : s.stores.length ≤ c) :
    s.store c = default := by
  simp [store, List.getD_eq_getElem?_getD, List.getElem?_eq_none h]

theorem get?_unlisten (c : CollectionId) (key : Nat) (k : CollectionId) (key' : Nat) :
    ((s.unlisten c key).store k).listeners.get? key'
      = if k = c ∧ key' = key then none else (s.store k).listeners.get? key' := by
  unfold unlisten
  rw [store_modifyStore]
  by_cases hk : k = c
  · subst hk
    by_cases hlt : k < s.stores.length
    · simp [hlt, OrdMap.get?_erase_eq]
    · rw [if_neg fun h => hlt h.2, store_of_length_le (Nat.le_of_not_lt hlt)]
      split <;> rfl
  · simp [hk]

theorem nextListener_unlisten (c : CollectionId) (key : Nat) (k : CollectionId) :
    ((s.unlisten c key).store k).nextListener = (s.store k).nextListener := by
  unfold unlisten
  rw [store_modifyStore]
  split <;> rfl

theorem get?_unlistenAll (listening : List (CollectionId × Nat)) (k : CollectionId) (key : Nat) :
    ((s.unlistenAll listening).store k).listeners.get? key
      = if (k, key) ∈ listening then none else (s.store k).listeners.get? key := by
  induction listening generalizing s with
  | nil => simp [unlistenAll]
  | cons entry rest ih =>
      obtain ⟨c, first⟩ := entry
      rw [unlistenAll, ih, get?_unlisten]
      by_cases hfirst : k = c ∧ key = first
      · simp [hfirst]
      · have hne : (k, key) ≠ (c, first) := fun h => hfirst (Prod.mk.inj h)
        simp [hfirst]

theorem nextListener_unlistenAll (listening : List (CollectionId × Nat)) (k : CollectionId) :
    ((s.unlistenAll listening).store k).nextListener = (s.store k).nextListener := by
  induction listening generalizing s with
  | nil => rfl
  | cons entry rest ih => exact (ih _).trans (s.nextListener_unlisten entry.1 entry.2 k)

theorem collections_listenAll (id : LiveId) (refs : List CollectionRef) :
    (s.listenAll id refs).2.map Prod.fst = refs.map CollectionRef.id := by
  induction refs generalizing s with
  | nil => rfl
  | cons ref rest ih => exact congrArg (ref.id :: ·) (ih _)

/-- The live query listens under new keys, and nobody else is touched. -/
theorem get?_listenAll (id : LiveId) (refs : List CollectionRef) (k : CollectionId) (key : Nat) :
    ((s.listenAll id refs).1.store k).listeners.get? key
      = if (k, key) ∈ (s.listenAll id refs).2 ∧ k < s.stores.length then some (.live id)
        else (s.store k).listeners.get? key := by
  induction refs generalizing s with
  | nil => simp [listenAll]
  | cons ref rest ih =>
      have hrest := ih (s.listenAs ref.id (.live id)).1
      rw [length_stores_listenAs, get?_listenAs] at hrest
      change (((s.listenAs ref.id (.live id)).1.listenAll id rest).1.store k).listeners.get? key
        = if (k, key) ∈ (ref.id, (s.store ref.id).nextListener)
            :: ((s.listenAs ref.id (.live id)).1.listenAll id rest).2 ∧ k < s.stores.length
          then _ else _
      rw [hrest]
      by_cases hlt : k < s.stores.length
      · by_cases hfirst : k = ref.id ∧ key = (s.store ref.id).nextListener
        · obtain ⟨rfl, rfl⟩ := hfirst
          simp [hlt]
        · have hne : (k, key) ≠ (ref.id, (s.store ref.id).nextListener) := fun h =>
            hfirst (Prod.mk.inj h)
          have hnot : ¬(k = ref.id ∧ ref.id < s.stores.length
              ∧ key = (s.store ref.id).nextListener) := fun h => hfirst ⟨h.1, h.2.2⟩
          simp [hlt, hnot, List.mem_cons, hne]
      · have hnot : ¬(k = ref.id ∧ ref.id < s.stores.length
            ∧ key = (s.store ref.id).nextListener) := fun h => hlt (h.1 ▸ h.2.1)
        simp [hlt, hnot]

theorem nextListener_le_listenAll (id : LiveId) (refs : List CollectionRef) (k : CollectionId) :
    (s.store k).nextListener ≤ ((s.listenAll id refs).1.store k).nextListener := by
  induction refs generalizing s with
  | nil => exact Nat.le_refl _
  | cons ref rest ih =>
      exact Nat.le_trans (s.nextListener_le_listenAs ref.id (.live id) k) (ih _)

/-- The keys under which a live query listens are new ones. -/
theorem key_of_mem_listenAll {id : LiveId} {refs : List CollectionRef} {k : CollectionId}
    {key : Nat} (h : (k, key) ∈ (s.listenAll id refs).2) (hlt : k < s.stores.length) :
    (s.store k).nextListener ≤ key ∧
      key < ((s.listenAll id refs).1.store k).nextListener := by
  induction refs generalizing s with
  | nil => cases h
  | cons ref rest ih =>
      rcases List.mem_cons.1 h with heq | hrest
      · obtain ⟨rfl, rfl⟩ := Prod.mk.inj heq
        refine ⟨Nat.le_refl _, Nat.lt_of_lt_of_le ?_
          (nextListener_le_listenAll (s.listenAs ref.id (.live id)).1 id rest ref.id)⟩
        rw [nextListener_listenAs, if_pos ⟨rfl, hlt⟩]
        exact Nat.lt_succ_self _
      · obtain ⟨hle, hkey⟩ := ih _ hrest (by simpa using hlt)
        exact ⟨Nat.le_trans (s.nextListener_le_listenAs ref.id (.live id) k) hle, hkey⟩

/-! ## Giving up -/

@[simp] theorem tasks_giveUp (id : LiveId) : (s.giveUp id).tasks = s.tasks := by
  unfold giveUp
  split
  · rfl
  · split <;> simp

@[simp] theorem length_lives_giveUp (id : LiveId) :
    (s.giveUp id).lives.length = s.lives.length := by
  unfold giveUp
  split
  · rfl
  · split <;> simp

@[simp] theorem plan_giveUp (id : LiveId) : (s.giveUp id).plan = s.plan := by
  unfold giveUp
  split
  · rfl
  · split <;> simp

@[simp] theorem contents_giveUp (id : LiveId) (c : CollectionId) :
    (s.giveUp id).contents c = s.contents c := by
  unfold giveUp
  split
  · rfl
  · split
    · rfl
    · rw [contents_modifyLive, contents_unlistenAll]

@[simp] theorem length_stores_giveUp (id : LiveId) :
    (s.giveUp id).stores.length = s.stores.length := by
  unfold giveUp
  split
  · rfl
  · split <;> simp

/-- Giving a live query up takes its subscriptions to collections, and nothing else. -/
theorem live?_giveUp (id k : LiveId) :
    (s.giveUp id).live? k = (s.live? k).map fun live =>
      if k = id ∧ s.keeps id = false then { live with listening := [] } else live := by
  unfold giveUp
  cases hlive : s.live? id with
  | none =>
      by_cases hk : k = id
      · simp [hk, hlive]
      · simp [hk]
  | some live =>
      by_cases hkeeps : s.keeps id = true
      · simp [hkeeps]
      · by_cases hk : k = id
        · subst hk
          simp [hkeeps, live?_modifyLive, hlive]
        · simp [hkeeps, live?_modifyLive, hk]

theorem get?_giveUp (id : LiveId) (c : CollectionId) (key : Nat) :
    ((s.giveUp id).store c).listeners.get? key
      = if s.keeps id = false ∧ ∃ live, s.live? id = some live ∧ (c, key) ∈ live.listening then none
        else (s.store c).listeners.get? key := by
  unfold giveUp
  cases hlive : s.live? id with
  | none => simp
  | some live =>
      by_cases hkeeps : s.keeps id = true
      · simp [hkeeps]
      · simp [hkeeps, get?_unlistenAll]

theorem nextListener_giveUp (id : LiveId) (c : CollectionId) :
    ((s.giveUp id).store c).nextListener = (s.store c).nextListener := by
  unfold giveUp
  split
  · rfl
  · split
    · rfl
    · exact s.nextListener_unlistenAll _ c

/-! ## Disposing -/

@[simp] theorem tasks_dispose (id : LiveId) : (s.dispose id).tasks = s.tasks := by
  unfold dispose
  split
  · rfl
  · split
    · rfl
    · exact s.tasks_unlistenAll _

theorem live?_dispose (id k : LiveId) :
    (s.dispose id).live? k
      = if k = id then
          (s.live? k).map fun live => if live.status = .disposed then live else live.dispose
        else s.live? k := by
  unfold dispose
  by_cases hk : k = id
  · subst hk
    cases found : s.live? k with
    | none => simp [found]
    | some live =>
        by_cases hdisposed : live.status = .disposed
        · simp [hdisposed, found]
        · simp [hdisposed, live?_modifyLive, found]
  · rw [if_neg hk]
    split
    · rfl
    · split
      · rfl
      · rw [live?_modifyLive, if_neg hk, live?_unlistenAll]

/-! ## Output and errors -/

/-- Changes that are put out are told to the subscribers, or kept for the first one. -/
theorem putOut_eq {s : Session} {id : LiveId} {live : Live} (h : s.live? id = some live)
    (hstatus : live.status ≠ .disposed) (changes : List Change) :
    s.putOut id changes
      = if live.subscribed = true ∧ changes ≠ [] then
          s.push (.deliver id changes live.listeners.values)
        else s.setLive id (live.keeping changes) := by
  unfold putOut Live.keeping
  rw [h]
  by_cases hchanges : changes = []
  · simp [hchanges, setLive_self h]
  · cases hsubscribed : live.subscribed with
    | true => simp [hchanges, hstatus, hsubscribed]
    | false =>
        cases hbuffer : live.options.bufferUntilSubscribed with
        | true => simp [hchanges, hstatus, hsubscribed, hbuffer, modifyLive_eq_setLive h]
        | false => simp [hsubscribed, hbuffer, setLive_self h]

/-- A live query halts, and its error listeners are told. -/
theorem halt_cases {s : Session} {id : LiveId} {live : Live} (h : s.live? id = some live)
    (error : EvalError) :
    s.halt id error = s.setLive id (live.halt error) ∨
    s.halt id error = (s.setLive id (live.halt error)).push
      (.alarm (.eval live.id error) live.errorListeners) := by
  unfold halt
  rw [h]
  by_cases hlisteners : live.errorListeners = []
  · exact .inl (by simp [hlisteners, modifyLive_eq_setLive h])
  · exact .inr (by simp [hlisteners, modifyLive_eq_setLive h])

/-! ## Making queries live -/

/-- A new live query, when it has subscribed to the collections it reads. -/
def newLive (s : Session) (options : LiveOptions) (engine : Engine) : Live :=
  { options, engine, listening := (s.listenAll s.lives.length engine.collections).2 }

/-- The session with one more live query, which listens to the collections it reads. -/
def create (s : Session) (options : LiveOptions) (engine : Engine) : Session :=
  let listened := (s.listenAll s.lives.length engine.collections).1
  { listened with lives := listened.lives ++ [s.newLive options engine] }

theorem live?_create (options : LiveOptions) (engine : Engine) (k : LiveId) :
    (s.create options engine).live? k
      = if k = s.lives.length then some (s.newLive options engine) else s.live? k := by
  change ((s.listenAll s.lives.length engine.collections).1.lives ++ [_])[k]? = _
  rw [lives_listenAll, List.getElem?_append]
  split
  next hlt =>
    rw [if_neg (Nat.ne_of_lt hlt)]
    rfl
  next hge =>
    by_cases hk : k = s.lives.length
    · simp [hk]
    · have hlt : s.lives.length < k := Nat.lt_of_le_of_ne (Nat.le_of_not_lt hge) (Ne.symm hk)
      rw [if_neg hk, live?, List.getElem?_eq_none (Nat.le_of_lt hlt), List.getElem?_eq_none]
      rw [List.length_singleton]
      exact Nat.sub_pos_of_lt hlt

theorem live?_create_self (options : LiveOptions) (engine : Engine) :
    (s.create options engine).live? s.lives.length = some (s.newLive options engine) := by
  rw [live?_create, if_pos rfl]

@[simp] theorem tasks_create (options : LiveOptions) (engine : Engine) :
    (s.create options engine).tasks = s.tasks :=
  s.tasks_listenAll _ _

@[simp] theorem plan_create (options : LiveOptions) (engine : Engine) :
    (s.create options engine).plan = s.plan :=
  s.plan_listenAll _ _

@[simp] theorem contents_create (options : LiveOptions) (engine : Engine) (c : CollectionId) :
    (s.create options engine).contents c = s.contents c :=
  s.contents_listenAll _ _ c

@[simp] theorem length_stores_create (options : LiveOptions) (engine : Engine) :
    (s.create options engine).stores.length = s.stores.length :=
  s.length_stores_listenAll _ _

@[simp] theorem length_lives_create (options : LiveOptions) (engine : Engine) :
    (s.create options engine).lives.length = s.lives.length + 1 := by
  change ((s.listenAll s.lives.length engine.collections).1.lives ++ [_]).length = _
  rw [lives_listenAll, List.length_append, List.length_singleton]

/-- A new live query that fails at once has nobody to tell of it. -/
theorem start_create_error {options : LiveOptions} {engine : Engine} {done : Session}
    {error : LiveError}
    (h : (s.create options engine).start s.lives.length (s.newLive options engine) []
      = (done, .error error)) :
    ∃ engine' error', done = (s.create options engine).setLive s.lives.length
      ({ s.newLive options engine with engine := engine' }.halt error') := by
  unfold start at h
  cases hload : Engine.load (s.create options engine).contents (s.newLive options engine).engine with
  | ok u engine' =>
      rw [hload] at h
      cases h
  | error error' engine' =>
      rw [hload] at h
      obtain ⟨rfl, _⟩ := Prod.mk.inj h
      refine ⟨engine', error', ?_⟩
      have hfound := s.live?_create_self options engine
      change ((s.create options engine).modifyLive s.lives.length fun live =>
        { live with engine := engine' }).halt s.lives.length error' = _
      rw [modifyLive_eq_setLive hfound]
      have hengine : ((s.create options engine).setLive s.lives.length
          { s.newLive options engine with engine := engine' }).live? s.lives.length
            = some { s.newLive options engine with engine := engine' } := by
        rw [live?_setLive hfound, if_pos rfl]
      unfold halt
      rw [hengine]
      change (if true = true then _ else _) = _
      rw [if_pos rfl, modifyLive_eq_setLive hengine, setLive_setLive]

/-- What a call answers that has made a query live, when its first evaluation has ended. -/
def started (id : LiveId) : Session × Except LiveError Unit → Session × Except LiveError LiveId
  | (s, .ok ()) => (s, .ok id)
  | (s, .error error) =>
      ((s.modifyLive id fun live => { live with handles := 0 }).giveUp id, .error error)

/-- A query that cannot be built is refused. Another one is live, unless it is to be
evaluated at once and fails: then it is given up. -/
theorem materialize_cases (query : BodyId) (options : LiveOptions) :
    (∃ error, Engine.ofQuery s.plan query options.policy = .error error ∧
      s.materialize query options = (s, .error (.build error))) ∨
    ∃ engine, Engine.ofQuery s.plan query options.policy = .ok engine ∧
      ((options.startPreloaded = false ∧
          s.materialize query options = (s.create options engine, .ok s.lives.length)) ∨
        (∃ done, (s.create options engine).start s.lives.length (s.newLive options engine) []
            = (done, .ok ()) ∧
          s.materialize query options = (done, .ok s.lives.length)) ∨
        ∃ done error, (s.create options engine).start s.lives.length
            (s.newLive options engine) [] = (done, .error error) ∧
          s.materialize query options
            = ((done.modifyLive s.lives.length fun live => { live with handles := 0 }).giveUp
                s.lives.length, .error error)) := by
  unfold materialize
  cases hmade : Engine.ofQuery s.plan query options.policy with
  | error error => exact .inl ⟨error, rfl, rfl⟩
  | ok engine =>
      refine .inr ⟨engine, rfl, ?_⟩
      cases hpreloaded : options.startPreloaded with
      | false =>
          exact .inl ⟨rfl, rfl⟩
      | true =>
          refine .inr ?_
          generalize hstart : (s.create options engine).start s.lives.length
            (s.newLive options engine) [] = result
          change (∃ done, result = (done, .ok ()) ∧ started s.lives.length
              ((s.create options engine).start s.lives.length (s.newLive options engine) [])
                = (done, .ok s.lives.length)) ∨
            ∃ done error, result = (done, .error error) ∧ started s.lives.length
              ((s.create options engine).start s.lives.length (s.newLive options engine) [])
                = started s.lives.length (done, .error error)
          rw [hstart]
          obtain ⟨done, error | u⟩ := result
          · exact .inr ⟨done, error, rfl, rfl⟩
          · exact .inl ⟨done, rfl, rfl⟩

end Parts

end Session

end LiveQuery
