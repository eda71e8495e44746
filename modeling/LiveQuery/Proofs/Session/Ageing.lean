import LiveQuery.Proofs.Session.Turns

/-!
# How live queries age

A live query is idle, then ready, then errored, then disposed of. It may pass over a stage,
but it never goes back. Each kind of event has a last stage at which it happens: batches are
received and applied while the query is ready at most, and subscribers are told something
until it is disposed of.

**Results.** `Moment.Later.aged`: this is how live queries age in every run.
-/

namespace LiveQuery

/-- The stage in the life of a live query that a status stands for. -/
def Status.stage : Status → Nat
  | idle => 0
  | ready => 1
  | errored => 2
  | disposed => 3

theorem Status.stage_le_disposed (status : Status) : status.stage ≤ Status.disposed.stage := by
  cases status <;> decide

theorem Status.stage_le_errored {status : Status} (h : status ≠ .disposed) :
    status.stage ≤ Status.errored.stage := by
  cases status with
  | disposed => exact absurd rfl h
  | _ => decide

theorem Status.eq_disposed {status : Status} (h : Status.disposed.stage ≤ status.stage) :
    status = .disposed := by
  cases status with
  | disposed => rfl
  | _ => exact absurd h (by decide)

/-- The last stage of a live query at which an event happens to it. -/
def Event.lastStage : Event → Nat
  | asked .. => Status.disposed.stage
  | told .. => Status.errored.stage
  | _ => Status.ready.stage

/-- What becomes of the live queries from one moment to a later one. -/
structure Aged (h h' : History) : Prop where
  lives : ∀ id live, h.session.live? id = some live →
    ∃ live', h'.session.live? id = some live' ∧ live.status.stage ≤ live'.status.stage
  events : ∃ new, h'.trace = h.trace ++ new ∧ ∀ e ∈ new, ∀ live,
    h.session.live? e.live = some live → live.status.stage ≤ e.lastStage

namespace Aged

variable {s s' : Session} {es : List Event} {id : LiveId} {live : Live}

protected theorem refl (h : History) : Aged h h where
  lives _ live found := ⟨live, found, Nat.le_refl _⟩
  events := ⟨[], (List.append_nil _).symm, fun _ he => absurd he List.not_mem_nil⟩

protected theorem trans {h₁ h₂ h₃ : History} (h : Aged h₁ h₂) (h' : Aged h₂ h₃) : Aged h₁ h₃ where
  lives id live found := by
    obtain ⟨between, found', hle⟩ := h.lives id live found
    obtain ⟨after, found'', hle'⟩ := h'.lives id between found'
    exact ⟨after, found'', Nat.le_trans hle hle'⟩
  events := by
    obtain ⟨new, htrace, hnew⟩ := h.events
    obtain ⟨new', htrace', hnew'⟩ := h'.events
    refine ⟨new ++ new', by rw [htrace', htrace, List.append_assoc], fun e he live found => ?_⟩
    rcases List.mem_append.1 he with he | he
    · exact hnew e he live found
    · obtain ⟨between, found', hle⟩ := h.lives e.live live found
      exact Nat.le_trans hle (hnew' e he between found')

/-- Nothing happens to any live query. -/
theorem of_same (hlives : ∀ id live, s.live? id = some live →
    ∃ live', s'.live? id = some live' ∧ live'.status = live.status) : Aged ⟨s, es⟩ ⟨s', es⟩ where
  lives id live found := by
    obtain ⟨live', found', hstatus⟩ := hlives id live found
    exact ⟨live', found', Nat.le_of_eq (congrArg Status.stage hstatus.symm)⟩
  events := ⟨[], (List.append_nil _).symm, fun _ he => absurd he List.not_mem_nil⟩

/-- Something happens to one live query. -/
theorem of_one (found : s.live? id = some live) (s' : Session) (after : Live) (new : List Event)
    (hlives : ∀ k, s'.live? k = if k = id then some after else s.live? k)
    (hstage : live.status.stage ≤ after.status.stage)
    (hnew : ∀ e ∈ new, e.live = id ∧ live.status.stage ≤ e.lastStage) :
    Aged ⟨s, es⟩ ⟨s', es ++ new⟩ where
  lives k live' found' := by
    change ∃ live'', s'.live? k = _ ∧ _
    rw [hlives]
    split
    next heq =>
      rw [heq] at found'
      cases found.symm.trans found'
      exact ⟨after, rfl, hstage⟩
    next => exact ⟨live', found', Nat.le_refl _⟩
  events := by
    refine ⟨new, rfl, fun e he live' found' => ?_⟩
    obtain ⟨heq, hle⟩ := hnew e he
    rw [heq] at found'
    cases found.symm.trans found'
    exact hle

/-- A live query is in a stage at least as late as before. -/
theorem setLive (found : s.live? id = some live) (after : Live)
    (hstage : live.status.stage ≤ after.status.stage) :
    Aged ⟨s, es⟩ ⟨s.setLive id after, es⟩ := by
  have hone : Aged ⟨s, es⟩ ⟨s.setLive id after, es ++ []⟩ :=
    of_one found _ after [] (Session.live?_setLive found after) hstage fun e he =>
      absurd he List.not_mem_nil
  rwa [List.append_nil] at hone

theorem late_of_coming {es : List Event} {before : Live} {new : List Event}
    (h : Coming id es live before new) (status : live.status = .idle) :
    ∀ e ∈ new, e.live = id ∧ live.status.stage ≤ e.lastStage := by
  intro e he
  obtain ⟨tag, rfl⟩ := h.eq_asked he
  rw [status]
  exact ⟨rfl, Nat.zero_le _⟩

/-- One turn lets live queries age. -/
theorem turn {h h' : History} (hturn : Turn h h') : Aged h h' := by
  cases hturn with
  | push => exact of_same fun _ live found => ⟨live, found, rfl⟩
  | pop => exact of_same fun _ live found => ⟨live, found, rfl⟩
  | pass => exact of_same fun _ live found => ⟨live, found, rfl⟩
  | passAlarm => exact of_same fun _ live found => ⟨live, found, rfl⟩
  | @tell s es id changes tag rest others tasks status =>
      refine ⟨fun _ live found => ⟨live, found, Nat.le_refl _⟩, _, rfl, fun e he live found => ?_⟩
      cases List.mem_singleton.1 he
      change s.live? id = some live at found
      rw [found, Option.map_some] at status
      exact Status.stage_le_errored fun hdisposed => status (congrArg some hdisposed)
  | commit => exact of_same fun _ live found => ⟨live, found, rfl⟩
  | listen => exact of_same fun _ live found => ⟨live, found, rfl⟩
  | unlisten => exact of_same fun _ live found => ⟨live, found, rfl⟩
  | @create s es query options engine =>
      refine of_same fun k live found => ⟨live, ?_, rfl⟩
      rw [Session.live?_create, if_neg (Nat.ne_of_lt (Session.live?_eq_some_lt found))]
      exact found
  | aside found => exact setLive found _ (Nat.le_refl _)
  | giveUp id =>
      refine of_same fun k live found => ?_
      rw [Session.live?_giveUp, found, Option.map_some]
      exact ⟨_, rfl, by split <;> rfl⟩
  | @dispose s es id live found =>
      have hunlistened : Aged ⟨s, es⟩ ⟨s.unlistenAll live.listening, es⟩ :=
        of_same fun k live' found' => ⟨live', by simpa using found', rfl⟩
      exact hunlistened.trans (setLive (by simpa using found) live.dispose (Status.stage_le_disposed _))
  | receive found status =>
      exact of_one found _ _ _ (Session.live?_setLive found _) (Nat.le_refl _)
        (by simp [Event.live, Event.lastStage, status])
  | receiveFirst found status =>
      exact of_one found _ _ _ (Session.live?_setLive found _) (Nat.le_refl _)
        (by simp [Event.live, Event.lastStage, status])
  | @start s es id live before new engine found status coming =>
      refine of_one found _ _ new (Session.live?_setLive found _) ?_ (late_of_coming coming status)
      rw [status]
      exact Nat.zero_le _
  | @failStart s es id live before new error engine found status coming =>
      refine of_one found _ ({ before with engine }.halt error) new (Session.live?_setLive found _)
        ?_ (late_of_coming coming status)
      rw [status]
      exact Nat.zero_le _
  | join found =>
      exact of_one found _ _ _ (Session.live?_setLive found _)
        (Nat.le_of_eq (congrArg Status.stage (Live.status_joinedBy _ _).symm))
        (by simpa [Event.live, Event.lastStage] using Status.stage_le_disposed _)
  | refuse id tag =>
      refine ⟨fun _ live found => ⟨live, found, Nat.le_refl _⟩, _, rfl, fun e he live _ => ?_⟩
      cases List.mem_singleton.1 he
      exact Status.stage_le_disposed _
  | @apply s es id live collection batch queue changes engine _ tasks found status =>
      exact of_one found _ _ _ (Session.live?_setLive found _)
        (Nat.le_of_eq (congrArg Status.stage (Live.status_keeping { live with queue, engine } _).symm))
        (by simp [Event.live, Event.lastStage, status])
  | @applyTelling s es id live collection batch queue changes engine _ tasks found status =>
      exact of_one found _ { live with queue, engine } _ (Session.live?_setLive found _)
        (Nat.le_refl _) (by simp [Event.live, Event.lastStage, status])
  | @failApply s es id live collection batch queue error engine _ tasks found status =>
      refine of_one found _ ({ live with queue, engine }.halt error) _
        (Session.live?_setLive found _) ?_ (by simp [Event.live, Event.lastStage, status])
      rw [status]
      exact Nat.le_succ 1
  | @rest s es id live others tasks found =>
      have hfound : (s.setTasks others).live? id = some live := found
      have hpopped : Aged ⟨s, es⟩ ⟨s.setTasks others, es⟩ :=
        of_same fun _ live found => ⟨live, found, rfl⟩
      exact hpopped.trans (setLive hfound live.rest (Nat.le_refl _))

theorem opening {h h' : History} (hopening : Opening h h') : Aged h h' := by
  cases hopening with
  | @start s es id live before new engine found status coming =>
      refine of_one found _ (before.evaluated engine) new (Session.live?_setLive found _) ?_
        (late_of_coming coming status)
      rw [status]
      exact Nat.zero_le _
  | join found =>
      exact of_one found _ _ _ (Session.live?_setLive found _)
        (Nat.le_of_eq (congrArg Status.stage (Live.status_joinedBy _ _).symm))
        (by simpa [Event.live, Event.lastStage] using Status.stage_le_disposed _)

end Aged

theorem Moment.Later.aged {m m' : Moment} (h : m.Later m') :
    Aged m.toHistory m'.toHistory := by
  induction h with
  | refl => exact .refl _
  | tail _ hnext ih =>
      exact hnext.keeps (P := fun h => Aged m.toHistory h) (fun hm hturn => hm.trans (.turn hturn))
        (fun hm hopening => hm.trans (.opening hopening)) ih

end LiveQuery
