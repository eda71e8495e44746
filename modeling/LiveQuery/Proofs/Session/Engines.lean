import LiveQuery.Proofs.Session.Turns

/-!
# Engines of live queries

Each live query runs an engine of its own, made for its query, and only loads it and applies
batches to it. So what holds of all engines that are reached holds of these.

**Results.** `Moment.Reached.engine`, and `Moment.Reached.unloaded` for a live query that is
idle.
-/

namespace LiveQuery

/-- The engines of live queries are reached in the session's plan, which stays the same; those
of idle live queries are as they were made. -/
structure Engined (plan : Plan) (h : History) : Prop where
  plan_eq : h.session.plan = plan
  reached : ∀ id live, h.session.live? id = some live →
    ∃ query, Engine.Reached plan query live.options.policy live.engine
  unloaded : ∀ id live, h.session.live? id = some live → live.status = .idle →
    ∃ query, Engine.ofQuery plan query live.options.policy = .ok live.engine

namespace Engined

variable {plan : Plan} {s s' : Session} {es es' : List Event} {id : LiveId} {live : Live}

theorem opened (h : s.Opened) : Engined s.plan ⟨s, []⟩ where
  plan_eq := rfl
  reached id live hlive := by simp [Session.live?, h.lives] at hlive
  unloaded id live hlive := by simp [Session.live?, h.lives] at hlive

/-- No engine changes. -/
theorem of_same (h : Engined plan ⟨s, es⟩) (hplan : s'.plan = s.plan)
    (hlives : ∀ id live', s'.live? id = some live' → ∃ live, s.live? id = some live ∧
      live'.options = live.options ∧ live'.engine = live.engine ∧
        (live'.status = .idle → live.status = .idle)) : Engined plan ⟨s', es'⟩ where
  plan_eq := hplan.trans h.plan_eq
  reached id live' hid := by
    obtain ⟨live, hlive, hoptions, hengine, _⟩ := hlives id live' hid
    rw [hoptions, hengine]
    exact h.reached id live hlive
  unloaded id live' hid hidle := by
    obtain ⟨live, hlive, hoptions, hengine, hstatus⟩ := hlives id live' hid
    rw [hoptions, hengine]
    exact h.unloaded id live hlive (hstatus hidle)

/-- One live query changes, with an engine that is reached. -/
theorem setLive (h : Engined plan ⟨s, es⟩) (found : s.live? id = some live) (after : Live)
    (options : after.options = live.options)
    (reached : ∀ query, Engine.Reached plan query live.options.policy live.engine →
      Engine.Reached plan query live.options.policy after.engine)
    (idle : after.status ≠ .idle ∨ live.status = .idle ∧ after.engine = live.engine) :
    Engined plan ⟨s.setLive id after, es'⟩ where
  plan_eq := h.plan_eq
  reached k live' hk := by
    change (s.setLive id after).live? k = _ at hk
    rw [Session.live?_setLive found] at hk
    split at hk
    · cases hk
      rw [options]
      exact (h.reached id live found).imp reached
    · exact h.reached k live' hk
  unloaded k live' hk hidle := by
    change (s.setLive id after).live? k = _ at hk
    rw [Session.live?_setLive found] at hk
    split at hk
    · cases hk
      obtain ⟨hlive, hengine⟩ := idle.resolve_left (not_not.2 hidle)
      rw [options, hengine]
      exact h.unloaded id live found hlive
    · exact h.unloaded k live' hk hidle

theorem setSame (h : Engined plan ⟨s, es⟩) (found : s.live? id = some live) (after : Live)
    (options : after.options = live.options) (engine : after.engine = live.engine)
    (status : after.status = live.status) : Engined plan ⟨s.setLive id after, es'⟩ := by
  refine h.setLive found after options (fun query hquery => engine ▸ hquery) ?_
  by_cases hidle : live.status = .idle
  · exact .inr ⟨hidle, engine⟩
  · exact .inl (status ▸ hidle)

/-- The engine of a live query goes on. -/
theorem setEngine (h : Engined plan ⟨s, es⟩) (found : s.live? id = some live) (after : Live)
    (options : after.options = live.options) (status : after.status ≠ .idle)
    (engine : (∃ contents, after.engine = stateAfter (Engine.load contents live.engine)) ∨
      ∃ collection batch, after.engine = stateAfter (Engine.apply collection batch live.engine)) :
    Engined plan ⟨s.setLive id after, es'⟩ := by
  refine h.setLive found after options (fun query hquery => ?_) (.inl status)
  obtain ⟨contents, heq⟩ | ⟨collection, batch, heq⟩ := engine
  · exact heq ▸ .loaded contents hquery
  · exact heq ▸ .applied collection batch hquery

theorem create (h : Engined plan ⟨s, es⟩) {query : BodyId} {options : LiveOptions}
    {engine : Engine} (made : Engine.ofQuery s.plan query options.policy = .ok engine) :
    Engined plan ⟨s.create options engine, es⟩ := by
  rw [show s.plan = plan from h.plan_eq] at made
  refine ⟨(s.plan_create options engine).trans h.plan_eq, fun k live hk => ?_,
    fun k live hk hidle => ?_⟩
  · rw [Session.live?_create] at hk
    split at hk
    · cases hk
      exact ⟨query, .made made⟩
    · exact h.reached k live hk
  · rw [Session.live?_create] at hk
    split at hk
    · cases hk
      exact ⟨query, made⟩
    · exact h.unloaded k live hk hidle

theorem turn {h h' : History} (hengined : Engined plan h) (hturn : Turn h h') :
    Engined plan h' := by
  cases hturn with
  | push => exact hengined.of_same rfl fun _ live found => ⟨live, found, rfl, rfl, fun h => h⟩
  | pop => exact hengined.of_same rfl fun _ live found => ⟨live, found, rfl, rfl, fun h => h⟩
  | pass => exact hengined.of_same rfl fun _ live found => ⟨live, found, rfl, rfl, fun h => h⟩
  | passAlarm => exact hengined.of_same rfl fun _ live found => ⟨live, found, rfl, rfl, fun h => h⟩
  | tell => exact hengined.of_same rfl fun _ live found => ⟨live, found, rfl, rfl, fun h => h⟩
  | commit => exact hengined.of_same rfl fun _ live found => ⟨live, found, rfl, rfl, fun h => h⟩
  | listen => exact hengined.of_same rfl fun _ live found => ⟨live, found, rfl, rfl, fun h => h⟩
  | unlisten => exact hengined.of_same rfl fun _ live found => ⟨live, found, rfl, rfl, fun h => h⟩
  | create made => exact hengined.create made
  | aside found => exact hengined.setSame found _ rfl rfl rfl
  | @giveUp s es id =>
      refine hengined.of_same (s.plan_giveUp id) fun k live' hk => ?_
      rw [Session.live?_giveUp, Option.map_eq_some_iff] at hk
      obtain ⟨live, found, rfl⟩ := hk
      refine ⟨live, found, ?_⟩
      split <;> exact ⟨rfl, rfl, fun h => h⟩
  | @dispose s es id live found status =>
      have hunlistened : Engined plan ⟨s.unlistenAll live.listening, es⟩ :=
        hengined.of_same (s.plan_unlistenAll _) fun k live' hk =>
          ⟨live', by simpa using hk, rfl, rfl, fun h => h⟩
      have hfound : (s.unlistenAll live.listening).live? id = some live := by simpa using found
      exact hunlistened.setLive hfound live.dispose rfl (fun _ h => h)
        (.inl fun h => by cases h)
  | @receive s es id live collection batch found status =>
      exact hengined.setSame found (live.enqueue collection batch) rfl rfl rfl
  | @receiveFirst s es id live collection batch found status =>
      have hqueued : Engined plan ⟨s.setLive id (live.enqueue collection batch), es⟩ :=
        hengined.setSame found (live.enqueue collection batch) rfl rfl rfl
      exact hqueued.of_same rfl fun _ live found => ⟨live, found, rfl, rfl, fun h => h⟩
  | @start s es id live before new engine found status coming loaded =>
      refine hengined.setEngine found _ ((Live.options_keeping _ _).trans coming.same.1) ?_
        (.inl ⟨s.contents, ?_⟩)
      · rw [Live.status_keeping]
        exact fun h => by cases h
      · rw [Live.engine_keeping, loaded]
        rfl
  | @failStart s es id live before new error engine found status coming failed =>
      refine hengined.setEngine found ({ before with engine }.halt error) coming.same.1
        (fun h => by cases h) (.inl ⟨s.contents, ?_⟩)
      rw [failed]
      rfl
  | join found =>
      exact hengined.setSame found _ (Live.options_joinedBy _ _) (Live.engine_joinedBy _ _)
        (Live.status_joinedBy _ _)
  | refuse => exact hengined.of_same rfl fun _ live found => ⟨live, found, rfl, rfl, fun h => h⟩
  | @apply s es id live collection batch queue changes engine _ tasks found status next applied =>
      refine hengined.setEngine found _ (Live.options_keeping { live with queue, engine } changes)
        ?_ (.inr ⟨collection, batch, ?_⟩)
      · rw [Live.status_keeping, status]
        exact fun h => by cases h
      · rw [Live.engine_keeping, applied]
        rfl
  | @applyTelling s es id live collection batch queue changes engine _ tasks found status next
      applied =>
      have happlied : Engined plan ⟨s.setLive id { live with queue, engine }, es⟩ := by
        refine hengined.setEngine found { live with queue, engine } rfl ?_
          (.inr ⟨collection, batch, ?_⟩)
        · exact fun h => (nomatch status.symm.trans h)
        · rw [applied]
          rfl
      exact happlied.of_same rfl fun _ live found => ⟨live, found, rfl, rfl, fun h => h⟩
  | @failApply s es id live collection batch queue error engine _ tasks found status next failed =>
      refine hengined.setEngine found ({ live with queue, engine }.halt error) rfl
        (fun h => by cases h) (.inr ⟨collection, batch, ?_⟩)
      rw [failed]
      rfl
  | @rest s es id live others tasks found =>
      have hpopped : Engined plan ⟨s.setTasks others, es⟩ :=
        hengined.of_same rfl fun _ live found => ⟨live, found, rfl, rfl, fun h => h⟩
      exact hpopped.setSame found live.rest rfl rfl rfl

theorem opening {h h' : History} (hengined : Engined plan h) (hopening : Opening h h') :
    Engined plan h' := by
  cases hopening with
  | @start s es id live before new engine found status coming loaded =>
      have hready : Engined plan ⟨s.setLive id (before.evaluated engine), es⟩ := by
        refine hengined.setEngine found (before.evaluated engine) coming.same.1
          (fun h => by cases h) (.inl ⟨s.contents, ?_⟩)
        rw [loaded]
        rfl
      exact hready.of_same rfl fun _ live found => ⟨live, found, rfl, rfl, fun h => h⟩
  | @join s es id live tag found =>
      have hjoined : Engined plan ⟨s.setLive id (live.joinedBy tag), es⟩ :=
        hengined.setSame found _ (Live.options_joinedBy _ _) (Live.engine_joinedBy _ _)
          (Live.status_joinedBy _ _)
      exact hjoined.of_same rfl fun _ live found => ⟨live, found, rfl, rfl, fun h => h⟩

end Engined

/-- The plan of a session stays as it was opened, and its engines are reached in it. -/
theorem Moment.Reached.engined {m : Moment} (h : m.Reached) :
    Engined m.session.plan m.toHistory := by
  have hsome := h.keeps (P := fun h => ∃ plan, Engined plan h)
    (fun s hs => ⟨s.plan, Engined.opened hs⟩) (fun h hturn => h.imp fun _ h => h.turn hturn)
    (fun h hopening => h.imp fun _ h => h.opening hopening)
  obtain ⟨plan, hengined⟩ := hsome
  exact hengined.plan_eq ▸ hengined

end LiveQuery
