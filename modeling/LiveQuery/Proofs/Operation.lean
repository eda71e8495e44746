import LiveQuery.View.Upkeep

/-!
# Operations that can fail

Upkeep and engines run as operations on a state that keep what they did when they fail.
What such an operation leaves alone is said for both outcomes at once (`Keeps`), and so is
what it maintains while it fails with some errors only (`Safe`); what it achieves is said for
success, by taking it apart at its steps (`bind_eq_ok`).
-/

namespace LiveQuery

section Operation

variable {ε σ α β γ : Type}

/-! ## Outcomes of evaluations -/

theorem Except.bind_eq_ok {x : Except ε α} {f : α → Except ε β} {b : β} :
    x >>= f = .ok b ↔ ∃ a, x = .ok a ∧ f a = .ok b := by
  cases x with
  | error e =>
      constructor
      · rintro ⟨⟩
      · rintro ⟨_, ⟨⟩, _⟩
  | ok a => exact ⟨fun h => ⟨a, rfl, h⟩, fun ⟨_, rfl, h⟩ => h⟩

theorem Except.bind_eq_error {x : Except ε α} {f : α → Except ε β} {e : ε} :
    x >>= f = .error e ↔ x = .error e ∨ ∃ a, x = .ok a ∧ f a = .error e := by
  cases x with
  | error e' =>
      refine ⟨fun h => .inl (congrArg _ (Except.error.inj h)), ?_⟩
      rintro (h | ⟨_, ⟨⟩, _⟩)
      exact congrArg _ (Except.error.inj h)
  | ok a =>
      refine ⟨fun h => .inr ⟨a, rfl, h⟩, ?_⟩
      rintro (h | ⟨_, ha, h⟩)
      · cases h
      · cases ha
        exact h

theorem Except.map_eq_ok {f : α → β} {x : Except ε α} {b : β} :
    f <$> x = .ok b ↔ ∃ a, x = .ok a ∧ f a = b := by
  cases x with
  | error e =>
      constructor
      · rintro ⟨⟩
      · rintro ⟨_, ⟨⟩, _⟩
  | ok a => exact ⟨fun h => ⟨a, rfl, Except.ok.inj h⟩, fun ⟨_, rfl, h⟩ => congrArg Except.ok h⟩

theorem Except.pure_eq_ok {a b : α} : (pure a : Except ε α) = .ok b ↔ a = b :=
  ⟨fun h => Except.ok.inj h, fun h => congrArg Except.ok h⟩

theorem Except.of_toOption {x : Except ε α} {a : α} (h : x.toOption = some a) : x = .ok a := by
  cases x with
  | error e => cases h
  | ok b => exact congrArg Except.ok (Option.some.inj h)

/-- An evaluation whose result is known in part succeeds. -/
theorem Except.exists_of_toOption {x : Except ε α} {f : α → β} {b : β}
    (h : x.toOption.map f = some b) : ∃ a, x = .ok a ∧ f a = b := by
  cases x with
  | error e => cases h
  | ok a => exact ⟨a, rfl, Option.some.inj h⟩

/-- Whether an evaluation succeeds with `true`. -/
def Except.isTrue : Except ε Bool → Bool
  | .ok b => b
  | .error _ => false

@[simp] theorem Except.isTrue_ok (b : Bool) : isTrue (.ok b : Except ε Bool) = b := rfl

theorem Except.isTrue_iff {x : Except ε Bool} : isTrue x = true ↔ x = .ok true := by
  cases x with
  | error e => exact ⟨fun h => (nomatch h), fun h => (nomatch h)⟩
  | ok b => exact ⟨fun h => congrArg _ h, fun h => Except.ok.inj h⟩

/-- A loop that keeps the elements with an evaluated property succeeds when the property can
be evaluated for all elements. -/
theorem Except.filter_eq_ok {p : α → Except ε Bool} {g : α → β} {f : List α → Except ε (List β)}
    (nil : f [] = .ok [])
    (cons : ∀ x xs, f (x :: xs) = do
      let b ← p x
      let others ← f xs
      return if b then g x :: others else others) {xs : List α} {ys : List β} :
    f xs = .ok ys ↔ (∀ x ∈ xs, ∃ b, p x = .ok b) ∧ ys = (xs.filter fun x => isTrue (p x)).map g := by
  induction xs generalizing ys with
  | nil =>
      rw [nil]
      exact ⟨fun h => ⟨fun _ hx => absurd hx List.not_mem_nil, (Except.ok.inj h).symm⟩,
        fun h => congrArg _ h.2.symm⟩
  | cons x xs ih =>
      rw [cons, List.forall_mem_cons]
      cases hx : p x with
      | error e =>
          constructor
          · rintro ⟨⟩
          · rintro ⟨⟨⟨_, ⟨⟩⟩, _⟩, _⟩
      | ok b =>
          rw [List.filter_cons, hx]
          cases hxs : f xs with
          | error e =>
              constructor
              · rintro ⟨⟩
              · rintro ⟨⟨_, hall⟩, _⟩
                cases hxs.symm.trans (ih.2 ⟨hall, rfl⟩)
          | ok others =>
              obtain ⟨hall, rfl⟩ := ih.1 hxs
              constructor
              · intro h
                cases h
                refine ⟨⟨⟨b, rfl⟩, hall⟩, ?_⟩
                cases b <;> rfl
              · rintro ⟨_, rfl⟩
                cases b <;> rfl

/-! ## Steps of operations -/

/-- The state in which an operation ends. -/
def stateAfter : EStateM.Result ε σ α → σ
  | .ok _ s => s
  | .error _ s => s

@[simp] theorem stateAfter_ok (a : α) (s : σ) :
    stateAfter (.ok a s : EStateM.Result ε σ α) = s := rfl

@[simp] theorem stateAfter_error (e : ε) (s : σ) :
    stateAfter (.error e s : EStateM.Result ε σ α) = s := rfl

theorem bind_eq_ok {x : EStateM ε σ α} {f : α → EStateM ε σ β} {s s'' : σ} {b : β} :
    (x >>= f) s = .ok b s'' ↔ ∃ a s', x s = .ok a s' ∧ f a s' = .ok b s'' := by
  change EStateM.bind x f s = _ ↔ _
  unfold EStateM.bind
  cases x s with
  | error e s' => exact ⟨fun h => (nomatch h), fun ⟨_, _, h, _⟩ => (nomatch h)⟩
  | ok a s' =>
      constructor
      · exact fun h => ⟨a, s', rfl, h⟩
      · rintro ⟨_, _, h, h'⟩
        cases h
        exact h'

theorem bind_eq_error {x : EStateM ε σ α} {f : α → EStateM ε σ β} {s s'' : σ} {e : ε} :
    (x >>= f) s = .error e s''
      ↔ x s = .error e s'' ∨ ∃ a s', x s = .ok a s' ∧ f a s' = .error e s'' := by
  change EStateM.bind x f s = _ ↔ _
  unfold EStateM.bind
  cases x s with
  | error e' s' =>
      constructor
      · intro h
        cases h
        exact .inl rfl
      · rintro (h | ⟨_, _, h, _⟩)
        · cases h
          rfl
        · cases h
  | ok a s' =>
      constructor
      · exact fun h => .inr ⟨a, s', rfl, h⟩
      · rintro (h | ⟨_, _, h, h'⟩)
        · cases h
        · cases h
          exact h'

/-- An operation succeeds if something is known of the state after it. -/
theorem exists_of_run' {x : EStateM ε σ α} {f : σ → β} {s : σ} {b : β}
    (h : EStateM.run' (do let _ ← x; return f (← get)) s = some b) :
    ∃ a s', x s = .ok a s' ∧ f s' = b := by
  unfold EStateM.run' at h
  split at h
  next known after hrun =>
    obtain ⟨a, s', hx, hrest⟩ := bind_eq_ok.1 hrun
    cases hrest
    exact ⟨a, _, hx, Option.some.inj h⟩
  · cases h

@[simp] theorem pure_run (a : α) (s : σ) : (pure a : EStateM ε σ α) s = .ok a s := rfl

@[simp] theorem get_run (s : σ) : (get : EStateM ε σ σ) s = .ok s s := rfl

@[simp] theorem set_run (s s' : σ) : (set s' : EStateM ε σ PUnit) s = .ok ⟨⟩ s' := rfl

@[simp] theorem modify_run (f : σ → σ) (s : σ) :
    (modify f : EStateM ε σ PUnit) s = .ok ⟨⟩ (f s) := rfl

@[simp] theorem throw_run (e : ε) (s : σ) : (throw e : EStateM ε σ α) s = .error e s := rfl

/-! ## What an operation leaves alone -/

/-- An operation leaves a part of the state as it was, also when it fails. -/
def Keeps (part : σ → γ) (x : EStateM ε σ α) : Prop :=
  ∀ s, part (stateAfter (x s)) = part s

namespace Keeps

variable {part : σ → γ}

theorem pure (a : α) : Keeps part (pure a : EStateM ε σ α) := fun _ => rfl

theorem throw (e : ε) : Keeps part (throw e : EStateM ε σ α) := fun _ => rfl

theorem get : Keeps part (get : EStateM ε σ σ) := fun _ => rfl

theorem modify {f : σ → σ} (h : ∀ s, part (f s) = part s) :
    Keeps part (modify f : EStateM ε σ PUnit) := h

theorem bind {x : EStateM ε σ α} {f : α → EStateM ε σ β} (hx : Keeps part x)
    (hf : ∀ a, Keeps part (f a)) : Keeps part (x >>= f) := by
  intro s
  change part (stateAfter (EStateM.bind x f s)) = _
  have hs := hx s
  unfold EStateM.bind
  cases hrun : x s with
  | error e s' =>
      rw [hrun] at hs
      exact hs
  | ok a s' =>
      rw [hrun] at hs
      exact (hf a s').trans hs

/-- The part after success. -/
theorem of_ok {x : EStateM ε σ α} (hx : Keeps part x) {s s' : σ} {a : α} (h : x s = .ok a s') :
    part s' = part s := by
  have := hx s
  rwa [h] at this

/-- The part after a failure. -/
theorem of_error {x : EStateM ε σ α} (hx : Keeps part x) {s s' : σ} {e : ε}
    (h : x s = .error e s') : part s' = part s := by
  have := hx s
  rwa [h] at this

end Keeps

/-! ## What an operation maintains -/

/-- From a state, an operation ends in a state with a property, also when it fails, and it fails
with allowed errors only. -/
structure Safe (P : σ → Prop) (F : ε → Prop) (x : EStateM ε σ α) (s : σ) : Prop where
  after : P (stateAfter (x s))
  failure : ∀ {e s'}, x s = .error e s' → F e

namespace Safe

variable {P : σ → Prop} {F : ε → Prop}

theorem pure {s : σ} (h : P s) (a : α) : Safe P F (pure a : EStateM ε σ α) s :=
  ⟨h, fun h => by cases h⟩

theorem throw {s : σ} (h : P s) {e : ε} (he : F e) : Safe P F (throw e : EStateM ε σ α) s :=
  ⟨h, fun h => by cases h; exact he⟩

theorem get {s : σ} (h : P s) : Safe P F (get : EStateM ε σ σ) s :=
  ⟨h, fun h => by cases h⟩

theorem modify {s : σ} {f : σ → σ} (h : P (f s)) :
    Safe P F (modify f : EStateM ε σ PUnit) s :=
  ⟨h, fun h => by cases h⟩

/-- The state after success. -/
theorem of_ok {x : EStateM ε σ α} {s s' : σ} {a : α} (hx : Safe P F x s) (h : x s = .ok a s') :
    P s' := by
  have := hx.after
  rwa [h] at this

/-- The state after a failure. -/
theorem of_error {x : EStateM ε σ α} {s s' : σ} {e : ε} (hx : Safe P F x s)
    (h : x s = .error e s') : P s' := by
  have := hx.after
  rwa [h] at this

theorem mono {Q : σ → Prop} {x : EStateM ε σ α} {s : σ} (hx : Safe P F x s) (h : ∀ s, P s → Q s) :
    Safe Q F x s :=
  ⟨h _ hx.after, hx.failure⟩

/-- Another operation that does the same in its state is as safe. -/
theorem of_eq {x y : EStateM ε σ α} {s s' : σ} (h : x s = y s') (hy : Safe P F y s') :
    Safe P F x s :=
  ⟨by rw [h]; exact hy.after, fun hfail => hy.failure (h ▸ hfail)⟩

theorem bind {x : EStateM ε σ α} {f : α → EStateM ε σ β} {s : σ} (hx : Safe P F x s)
    (hf : ∀ a s', x s = .ok a s' → P s' → Safe P F (f a) s') : Safe P F (x >>= f) s := by
  cases hx' : x s with
  | error e s' =>
      have hrun : (x >>= f) s = .error e s' := bind_eq_error.2 (.inl hx')
      refine ⟨by rw [hrun]; exact hx.of_error hx', fun h => ?_⟩
      rw [hrun] at h
      cases h
      exact hx.failure hx'
  | ok a s' =>
      refine of_eq ?_ (hf a s' hx' (hx.of_ok hx'))
      change EStateM.bind x f s = _
      unfold EStateM.bind
      rw [hx']

end Safe

/-! ## How an operation ends -/

/-- An operation ends with a result and in a state as told, or with an error and in a state as told
for failures. -/
inductive Ends (Q : α → σ → Prop) (R : ε → σ → Prop) : EStateM.Result ε σ α → Prop
  | ok {a : α} {s : σ} (h : Q a s) : Ends Q R (.ok a s)
  | error {e : ε} {s : σ} (h : R e s) : Ends Q R (.error e s)

namespace Ends

variable {Q : α → σ → Prop} {R : ε → σ → Prop}

theorem of_ok {a : α} {s : σ} (h : Ends Q R (.ok a s)) : Q a s := by
  cases h with
  | ok h => exact h

theorem of_error {e : ε} {s : σ} (h : Ends Q R (.error e s)) : R e s := by
  cases h with
  | error h => exact h

theorem get {s : σ} : Ends (fun a s' => a = s ∧ s' = s) R ((get : EStateM ε σ σ) s) :=
  .ok ⟨rfl, rfl⟩

theorem modify {f : σ → σ} {s : σ} :
    Ends (fun _ s' => s' = f s) R ((modify f : EStateM ε σ PUnit) s) :=
  .ok rfl

theorem mono {Q' : α → σ → Prop} {r : EStateM.Result ε σ α} (h : Ends Q R r)
    (hok : ∀ a s, Q a s → Q' a s) : Ends Q' R r := by
  cases h with
  | ok h => exact .ok (hok _ _ h)
  | error h => exact .error h

theorem bind {Q' : β → σ → Prop} {x : EStateM ε σ α} {f : α → EStateM ε σ β} {s : σ}
    (hx : Ends Q R (x s)) (hf : ∀ a s', x s = .ok a s' → Q a s' → Ends Q' R (f a s')) :
    Ends Q' R ((x >>= f) s) := by
  cases hrun : x s with
  | ok a s' =>
      rw [hrun] at hx
      have hbind : (x >>= f) s = f a s' := by
        change EStateM.bind x f s = _
        rw [EStateM.bind, hrun]
      rw [hbind]
      exact hf a s' hrun hx.of_ok
  | error e s' =>
      rw [hrun] at hx
      rw [bind_eq_error.2 (.inl hrun)]
      exact .error hx.of_error

/-- An operation that ends alike in both cases is safe. -/
theorem safe {P : σ → Prop} {F : ε → Prop} {x : EStateM ε σ α} {s : σ}
    (h : Ends (fun _ s' => P s') (fun e s' => P s' ∧ F e) (x s)) : Safe P F x s := by
  cases hrun : x s with
  | ok a s' =>
      rw [hrun] at h
      exact ⟨by rw [hrun]; exact h.of_ok, fun hfail => by cases hrun.symm.trans hfail⟩
  | error e s' =>
      rw [hrun] at h
      refine ⟨by rw [hrun]; exact h.of_error.1, fun hfail => ?_⟩
      cases hrun.symm.trans hfail
      exact h.of_error.2

end Ends

theorem Upkeep.ends_ofExcept {R : EvalError → View → Prop} {x : Except EvalError α} {view : View}
    (hx : ∀ e, x = .error e → R e view) :
    Ends (fun a after => x = .ok a ∧ after = view) R (Upkeep.ofExcept x view) := by
  cases x with
  | error e => exact .error (hx e rfl)
  | ok a => exact .ok ⟨rfl, rfl⟩

theorem Upkeep.safe_ofExcept {P : View → Prop} {F : EvalError → Prop} {x : Except EvalError α}
    {view : View} (h : P view) (hx : ∀ e, x = .error e → F e) :
    Safe P F (Upkeep.ofExcept x) view := by
  cases x with
  | error e => exact .throw h (hx e rfl)
  | ok a => exact .pure h a

theorem Upkeep.keeps_ofExcept {part : View → γ} (x : Except EvalError α) :
    Keeps part (Upkeep.ofExcept x) := by
  cases x with
  | error e => exact Keeps.throw e
  | ok a => exact Keeps.pure a

theorem Upkeep.ofExcept_eq_ok {x : Except EvalError α} {a : α} {view after : View} :
    Upkeep.ofExcept x view = .ok a after ↔ x = .ok a ∧ after = view := by
  cases x with
  | error e => exact ⟨fun h => (nomatch h), fun ⟨h, _⟩ => (nomatch h)⟩
  | ok b =>
      constructor
      · intro h
        cases h
        exact ⟨rfl, rfl⟩
      · rintro ⟨h, rfl⟩
        cases h
        rfl

end Operation

end LiveQuery
