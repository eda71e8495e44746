import LiveQuery.Accumulator
import LiveQuery.Proofs.Map

/-!
# Values that come and go

What an accumulator holds depends on the values that were added and not taken out again,
in whatever order they came and went.

**Results.** `Accumulator.add_right_comm`, and `Accumulator.takeOut?_add` for the
accumulators that hold what was added (`Accumulator.Sound`).
-/

namespace LiveQuery

namespace Bag

variable {κ : Type} [Ord κ]

/-- Each value that is held is held at least once. -/
def Positive (bag : Bag κ) : Prop :=
  ∀ value n, bag.get? value = some n → 0 < n

theorem positive_empty : Positive (OrdMap.empty : Bag κ) :=
  fun _ _ h => by cases h

variable [DecidableEq κ] [Std.TransOrd κ] [Std.LawfulEqOrd κ]

theorem get?_add (bag : Bag κ) (value k : κ) :
    (bag.add value).get? k
      = if k = value then some ((bag.get? value).getD 0 + 1) else bag.get? k :=
  OrdMap.get?_insert_eq _ _ _ _

theorem Positive.add {bag : Bag κ} (h : bag.Positive) (value : κ) : (bag.add value).Positive := by
  intro k n hk
  rw [get?_add] at hk
  split at hk
  · cases hk
    exact Nat.succ_pos _
  · exact h k n hk

theorem add_right_comm (bag : Bag κ) (x y : κ) : (bag.add x).add y = (bag.add y).add x := by
  refine OrdMap.ext_get? fun k => ?_
  simp only [get?_add]
  by_cases hx : k = x <;> by_cases hy : k = y <;> by_cases hxy : x = y <;> simp_all [eq_comm]

theorem takeOut?_add {bag : Bag κ} (h : bag.Positive) (value : κ) :
    (bag.add value).takeOut? value = some bag := by
  unfold takeOut?
  rw [get?_add, if_pos rfl]
  dsimp only
  cases hget : bag.get? value with
  | none =>
      rw [if_pos (by simp)]
      exact congrArg some (OrdMap.erase_insert hget)
  | some n =>
      have hpos := h value n hget
      rw [if_neg (by simp; omega)]
      refine congrArg some (OrdMap.ext_get? fun k => ?_)
      rw [OrdMap.get?_insert_eq, get?_add]
      split
      next heq => rw [heq, hget]; simp
      · rfl

end Bag

namespace Total

/-- The numbers that are counted are held. -/
structure Sound (total : Total) : Prop where
  positive : total.floats.Positive
  count_le : total.floatCount ≤ total.count

theorem sound_start : ({} : Total).Sound :=
  ⟨Bag.positive_empty, Nat.le_refl _⟩

theorem Sound.add {total : Total} (h : total.Sound) (value : Scalar) :
    (total.add value).Sound := by
  cases value with
  | int i => exact ⟨h.positive, Nat.le_succ_of_le h.count_le⟩
  | float x => exact ⟨h.positive.add x, Nat.succ_le_succ h.count_le⟩
  | _ => exact h

theorem add_right_comm (total : Total) (x y : Scalar) :
    (total.add x).add y = (total.add y).add x := by
  cases x <;> cases y <;> simp [add, Int.add_right_comm, Bag.add_right_comm]

theorem takeOut?_add {total : Total} (h : total.Sound) (value : Scalar) :
    (total.add value).takeOut? value = some total := by
  cases value with
  | int i =>
      have hne : total.count + 1 ≠ total.floatCount := by
        have := h.count_le
        omega
      simp [add, takeOut?, hne]
  | float x => simp [add, takeOut?, Bag.takeOut?_add h.positive]
  | _ => rfl

end Total

namespace Accumulator

/-- The values that are counted are held. -/
def Sound : Accumulator → Prop
  | tuples _ => True
  | present _ => True
  | sum total => total.Sound
  | average total => total.Sound
  | least values => values.Positive
  | greatest values => values.Positive

theorem sound_start (function : Aggregate) (arguments : Nat) :
    (start function arguments).Sound := by
  cases function with
  | count =>
      unfold start
      dsimp only
      split <;> trivial
  | sum => exact Total.sound_start
  | avg => exact Total.sound_start
  | min => exact Bag.positive_empty
  | max => exact Bag.positive_empty

theorem Sound.add {acc : Accumulator} (h : acc.Sound) (value : Scalar) : (acc.add value).Sound := by
  cases acc with
  | tuples n => trivial
  | present n =>
      unfold Accumulator.add
      dsimp only
      split <;> trivial
  | sum total => exact Total.Sound.add h value
  | average total => exact Total.Sound.add h value
  | least values =>
      unfold Accumulator.add
      dsimp only
      split
      · exact h
      · exact Bag.Positive.add h value
  | greatest values =>
      unfold Accumulator.add
      dsimp only
      split
      · exact h
      · exact Bag.Positive.add h value

/-- The order in which values are added makes no difference. -/
theorem add_right_comm (acc : Accumulator) (x y : Scalar) :
    (acc.add x).add y = (acc.add y).add x := by
  cases acc with
  | tuples n => rfl
  | present n => cases hx : x.isNullish <;> cases hy : y.isNullish <;> simp [add, hx, hy]
  | sum total => simp [add, Total.add_right_comm]
  | average total => simp [add, Total.add_right_comm]
  | least values =>
      cases hx : x.isNullish <;> cases hy : y.isNullish <;>
        simp [add, hx, hy, Bag.add_right_comm]
  | greatest values =>
      cases hx : x.isNullish <;> cases hy : y.isNullish <;>
        simp [add, hx, hy, Bag.add_right_comm]

/-- Taking out a value that was added leaves what was there before. -/
theorem takeOut?_add {acc : Accumulator} (h : acc.Sound) (value : Scalar) :
    (acc.add value).takeOut? value = some acc := by
  cases acc with
  | tuples n => simp [add, takeOut?]
  | present n => cases hvalue : value.isNullish <;> simp [add, takeOut?, hvalue]
  | sum total => simp [add, takeOut?, Total.takeOut?_add h]
  | average total => simp [add, takeOut?, Total.takeOut?_add h]
  | least values =>
      cases hvalue : value.isNullish <;> simp [add, takeOut?, hvalue, Bag.takeOut?_add h]
  | greatest values =>
      cases hvalue : value.isNullish <;> simp [add, takeOut?, hvalue, Bag.takeOut?_add h]

end Accumulator

end LiveQuery
