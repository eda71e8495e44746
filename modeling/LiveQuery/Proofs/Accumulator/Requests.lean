import LiveQuery.Proofs.Accumulator
import Mathlib.Algebra.BigOperators.Group.Multiset.Basic
import Mathlib.Algebra.Ring.Nat
import Mathlib.Data.Multiset.Filter

/-!
# Accumulators under requests

An accumulator is asked to add values and to take values out, one after another. To take a value
out undoes an addition, and is refused just if no accumulator gives this one by that addition. So
whatever is asked, the numbers that an accumulator holds agree with each other. As long as only
values are taken out that are there, it is what it would be if just the values that are left had
been added.

**Results.** `Accumulator.takeOut?_eq_some_iff`; `Accumulator.misuse_safe` for all requests, and
`Accumulator.folds_survivors` for those that take out what is there.
-/

namespace LiveQuery

/-! ## Maps of numbers -/

namespace OrdMap

variable {κ : Type} [Ord κ] [Std.TransOrd κ]

theorem sum_place (key : κ) (n : Nat) {entries : List (κ × Nat)} (h : Increasing entries) :
    ((place key n entries).map Prod.snd).sum + (lookup key entries).getD 0
      = (entries.map Prod.snd).sum + n := by
  induction entries with
  | nil => simp [place, lookup]
  | cons entry rest ih =>
      obtain ⟨hfirst, hrest⟩ := List.pairwise_cons.1 h
      unfold place lookup
      cases hcompare : compare key entry.1 with
      | lt =>
          have hnone : lookup key rest = none := lookup_eq_none_of_lt fun e he =>
            Std.TransCmp.lt_trans hcompare (hfirst e he)
          simp [hnone]
          omega
      | eq =>
          simp
          omega
      | gt =>
          have := ih hrest
          simp
          omega

/-- When the number at a key is replaced, the sum of the numbers changes by the difference. -/
theorem sum_values_insert (m : OrdMap κ Nat) (key : κ) (n : Nat) :
    (m.insert key n).values.sum + (m.get? key).getD 0 = m.values.sum + n :=
  sum_place key n m.increasing

end OrdMap

/-! ## Undoing additions -/

namespace Bag

variable {κ : Type} [Ord κ] [DecidableEq κ] [Std.TransOrd κ] [Std.LawfulEqOrd κ]

omit [DecidableEq κ] [Std.LawfulEqOrd κ] in
theorem sum_values_add (bag : Bag κ) (value : κ) :
    (bag.add value).values.sum = bag.values.sum + 1 := by
  have := OrdMap.sum_values_insert bag value ((bag.get? value).getD 0 + 1)
  unfold add
  omega

/-- What is left when a value is taken out is what gives the bag when it is added again. -/
theorem takeOut?_eq_some_iff {bag left : Bag κ} (h : bag.Positive) {value : κ} :
    bag.takeOut? value = some left ↔ left.Positive ∧ left.add value = bag := by
  constructor
  · intro htake
    unfold takeOut? at htake
    cases hget : bag.get? value with
    | none =>
        rw [hget] at htake
        cases htake
    | some n =>
        have hpos := h value n hget
        rw [hget] at htake
        dsimp only at htake
        split at htake
        next hle =>
          obtain rfl : n = 1 := by omega
          cases htake
          refine ⟨fun k m hk => ?_, OrdMap.ext_get? fun k => ?_⟩
          · rw [OrdMap.get?_erase_eq] at hk
            split at hk
            · cases hk
            · exact h k m hk
          · rw [get?_add, OrdMap.get?_erase_self, OrdMap.get?_erase_eq]
            split
            next hk => rw [hk, hget]; rfl
            · rfl
        next hlt =>
          cases htake
          refine ⟨fun k m hk => ?_, OrdMap.ext_get? fun k => ?_⟩
          · rw [OrdMap.get?_insert_eq] at hk
            split at hk
            · cases hk
              omega
            · exact h k m hk
          · rw [get?_add, OrdMap.get?_insert_self, OrdMap.get?_insert_eq]
            split
            next hk => rw [hk, hget, Option.getD_some, Nat.sub_add_cancel hpos]
            · rfl
  · rintro ⟨hleft, rfl⟩
    exact takeOut?_add hleft value

end Bag

namespace Total

/-- The numbers that are counted are held, and no others. -/
structure Consistent (total : Total) : Prop extends total.Sound where
  floatCount_eq : total.floatCount = total.floats.values.sum

theorem consistent_start : ({} : Total).Consistent :=
  ⟨sound_start, rfl⟩

theorem Consistent.add {total : Total} (h : total.Consistent) (value : Scalar) :
    (total.add value).Consistent := by
  refine ⟨h.toSound.add value, ?_⟩
  cases value with
  | float x =>
      dsimp only [Total.add]
      rw [Bag.sum_values_add, h.floatCount_eq]
  | _ => exact h.floatCount_eq

theorem takeOut?_eq_some_iff {total left : Total} (h : total.Consistent) {value : Scalar} :
    total.takeOut? value = some left ↔ left.Consistent ∧ left.add value = total := by
  refine ⟨fun htake => ?_, fun ⟨hleft, hadd⟩ => hadd ▸ takeOut?_add hleft.toSound value⟩
  have hle := h.count_le
  cases value with
  | int i =>
      unfold takeOut? at htake
      dsimp only at htake
      split at htake
      · cases htake
      next hne =>
        cases htake
        have hcount : total.count - 1 + 1 = total.count := by omega
        refine ⟨⟨⟨h.positive, ?_⟩, h.floatCount_eq⟩, ?_⟩
        · dsimp only
          omega
        · simp only [add, Int.sub_add_cancel, hcount]
  | float x =>
      obtain ⟨floats, hfloats, rfl⟩ := Option.map_eq_some_iff.1 htake
      obtain ⟨hpositive, hadd⟩ := (Bag.takeOut?_eq_some_iff h.positive).1 hfloats
      have hsum : total.floatCount = floats.values.sum + 1 := by
        rw [h.floatCount_eq, ← hadd, Bag.sum_values_add]
      have hfloat : total.floatCount - 1 + 1 = total.floatCount := by omega
      have hcount : total.count - 1 + 1 = total.count := by omega
      refine ⟨⟨⟨hpositive, ?_⟩, ?_⟩, ?_⟩
      · dsimp only
        omega
      · dsimp only
        omega
      · simp only [add, hadd, hfloat, hcount]
  | _ =>
      cases htake
      exact ⟨h, rfl⟩

/-- The numbers that taking a value out lowers by one. -/
def counters (total : Total) : Scalar → List Nat
  | .int _ => [total.count]
  | .float x => [(total.floats.get? x).getD 0, total.floatCount, total.count]
  | _ => []

theorem counters_add (total : Total) (value : Scalar) :
    (total.add value).counters value = (total.counters value).map (· + 1) := by
  cases value <;> simp [add, counters, Bag.get?_add]

end Total

namespace Accumulator

/-- The numbers that an accumulator holds agree with each other. -/
def Consistent : Accumulator → Prop
  | tuples _ => True
  | present _ => True
  | sum total => total.Consistent
  | average total => total.Consistent
  | least values => values.Positive
  | greatest values => values.Positive

theorem Consistent.sound {acc : Accumulator} (h : acc.Consistent) : acc.Sound := by
  cases acc with
  | sum total => exact h.toSound
  | average total => exact h.toSound
  | _ => exact h

theorem consistent_start (function : Aggregate) (arguments : Nat) :
    (start function arguments).Consistent := by
  cases function with
  | sum => exact Total.consistent_start
  | avg => exact Total.consistent_start
  | count =>
      unfold start
      dsimp only
      split <;> trivial
  | min => exact Bag.positive_empty
  | max => exact Bag.positive_empty

theorem Consistent.add {acc : Accumulator} (h : acc.Consistent) (value : Scalar) :
    (acc.add value).Consistent := by
  cases acc with
  | sum total => exact Total.Consistent.add h value
  | average total => exact Total.Consistent.add h value
  | tuples n => trivial
  | present n =>
      unfold Accumulator.add
      dsimp only
      split <;> trivial
  | least values =>
      unfold Accumulator.add
      dsimp only
      split
      · exact h
      · exact Bag.Positive.add h value
  | greatest values =>
      unfold Accumulator.add
      dsimp only
      split
      · exact h
      · exact Bag.Positive.add h value

/-- What is left when a value is taken out is what gives the accumulator when the value is added
again. So a value is refused just if there is no such accumulator. -/
theorem takeOut?_eq_some_iff {acc left : Accumulator} (h : acc.Consistent) {value : Scalar} :
    acc.takeOut? value = some left ↔ left.Consistent ∧ left.add value = acc := by
  refine ⟨fun htake => ?_, fun ⟨hleft, hadd⟩ => hadd ▸ takeOut?_add hleft.sound value⟩
  cases acc with
  | tuples n =>
      unfold takeOut? at htake
      dsimp only at htake
      split at htake
      · cases htake
      next hpos =>
        cases htake
        exact ⟨trivial, congrArg tuples (Nat.sub_add_cancel (Nat.pos_of_ne_zero hpos))⟩
  | present n =>
      cases hnull : value.isNullish with
      | true =>
          simp only [takeOut?, hnull, if_true, Option.some.injEq] at htake
          subst htake
          exact ⟨trivial, by simp [add, hnull]⟩
      | false =>
          unfold takeOut? at htake
          simp only [hnull, Bool.false_eq_true, if_false] at htake
          split at htake
          · cases htake
          next hpos =>
            cases htake
            refine ⟨trivial, ?_⟩
            simp only [add, hnull, Bool.false_eq_true, if_false]
            rw [Nat.sub_add_cancel (Nat.pos_of_ne_zero hpos)]
  | sum total =>
      obtain ⟨total', htotal, rfl⟩ := Option.map_eq_some_iff.1 htake
      obtain ⟨hconsistent, hadd⟩ := (Total.takeOut?_eq_some_iff h).1 htotal
      exact ⟨hconsistent, congrArg sum hadd⟩
  | average total =>
      obtain ⟨total', htotal, rfl⟩ := Option.map_eq_some_iff.1 htake
      obtain ⟨hconsistent, hadd⟩ := (Total.takeOut?_eq_some_iff h).1 htotal
      exact ⟨hconsistent, congrArg average hadd⟩
  | least values =>
      cases hnull : value.isNullish with
      | true =>
          simp only [takeOut?, hnull, if_true, Option.some.injEq] at htake
          subst htake
          exact ⟨h, by simp [add, hnull]⟩
      | false =>
          simp only [takeOut?, hnull, Bool.false_eq_true, if_false] at htake
          obtain ⟨values', hvalues, rfl⟩ := Option.map_eq_some_iff.1 htake
          obtain ⟨hpositive, hadd⟩ := (Bag.takeOut?_eq_some_iff h).1 hvalues
          exact ⟨hpositive, by simp [add, hnull, hadd]⟩
  | greatest values =>
      cases hnull : value.isNullish with
      | true =>
          simp only [takeOut?, hnull, if_true, Option.some.injEq] at htake
          subst htake
          exact ⟨h, by simp [add, hnull]⟩
      | false =>
          simp only [takeOut?, hnull, Bool.false_eq_true, if_false] at htake
          obtain ⟨values', hvalues, rfl⟩ := Option.map_eq_some_iff.1 htake
          obtain ⟨hpositive, hadd⟩ := (Bag.takeOut?_eq_some_iff h).1 hvalues
          exact ⟨hpositive, by simp [add, hnull, hadd]⟩

/-- The numbers that taking a value out lowers by one. -/
def counters (acc : Accumulator) (value : Scalar) : List Nat :=
  match acc with
  | tuples n => [n]
  | present n => if value.isNullish then [] else [n]
  | sum total => total.counters value
  | average total => total.counters value
  | least values => if value.isNullish then [] else [(values.get? value).getD 0]
  | greatest values => if value.isNullish then [] else [(values.get? value).getD 0]

theorem counters_add (acc : Accumulator) (value : Scalar) :
    (acc.add value).counters value = (acc.counters value).map (· + 1) := by
  cases acc with
  | tuples n => rfl
  | present n => cases hnull : value.isNullish <;> simp [add, counters, hnull]
  | sum total => exact total.counters_add value
  | average total => exact total.counters_add value
  | least values =>
      cases hnull : value.isNullish <;> simp [add, counters, hnull, Bag.get?_add]
  | greatest values =>
      cases hnull : value.isNullish <;> simp [add, counters, hnull, Bag.get?_add]

/-! ## All requests -/

/-- What an accumulator is asked for: to add a value, or to take one out. -/
inductive Request where
  | add (value : Scalar)
  | takeOut (value : Scalar)

/-- The accumulator after a request, none if the request is refused. -/
def answer? (acc : Accumulator) : Request → Option Accumulator
  | .add value => some (acc.add value)
  | .takeOut value => acc.takeOut? value

/-- The accumulator after a request that may be refused. -/
def serve (acc : Accumulator) (request : Request) : Accumulator :=
  (acc.answer? request).getD acc

theorem Consistent.serve {acc : Accumulator} (h : acc.Consistent) (request : Request) :
    (acc.serve request).Consistent := by
  unfold Accumulator.serve
  cases request with
  | add value => exact h.add value
  | takeOut value =>
      cases htake : acc.takeOut? value with
      | none => simpa [answer?, htake] using h
      | some left => simpa [answer?, htake] using ((takeOut?_eq_some_iff h).1 htake).1

theorem consistent_foldl_serve {acc : Accumulator} (h : acc.Consistent) (requests : List Request) :
    (requests.foldl serve acc).Consistent := by
  induction requests generalizing acc with
  | nil => exact h
  | cons request rest ih => exact ih (h.serve request)

/-- Whatever an accumulator has been asked for, its numbers agree. A value is refused just if no
consistent accumulator gives this one when the value is added, and then nothing changes; one that
is taken out lowers positive numbers by one each, and is undone when it is added again. -/
theorem misuse_safe (function : Aggregate) (arguments : Nat) (requests : List Request) :
    ∃ acc, requests.foldl serve (start function arguments) = acc ∧ acc.Consistent ∧
      ∀ value,
        (acc.takeOut? value = none → acc.serve (.takeOut value) = acc) ∧
        (acc.takeOut? value = none ↔
          ∀ left : Accumulator, left.Consistent → left.add value ≠ acc) ∧
        ∀ left, acc.takeOut? value = some left →
          left.Consistent ∧ left.add value = acc ∧
            (∀ n ∈ acc.counters value, 0 < n) ∧
            left.counters value = (acc.counters value).map (· - 1) := by
  have hall := consistent_foldl_serve (consistent_start function arguments) requests
  refine ⟨_, rfl, hall, fun value => ⟨fun hnone => ?_, ?_, fun left hleft => ?_⟩⟩
  · simp [serve, answer?, hnone]
  · simp only [Option.eq_none_iff_forall_ne_some, ne_eq, takeOut?_eq_some_iff hall, not_and]
  · obtain ⟨hconsistent, hadd⟩ := (takeOut?_eq_some_iff hall).1 hleft
    refine ⟨hconsistent, hadd, ?_, ?_⟩ <;> rw [← hadd] <;> simp [counters_add, Function.comp_def]

/-! ## Requests for what is there -/

/-- The requests take out only values that are there, and leave the given ones. -/
inductive Request.Leave : List Request → Multiset Scalar → Prop
  | nil : Leave [] 0
  | add {requests : List Request} {values : Multiset Scalar} (value : Scalar)
      (before : Leave requests values) : Leave (requests ++ [.add value]) (value ::ₘ values)
  | takeOut {requests : List Request} {values : Multiset Scalar} (value : Scalar)
      (before : Leave requests (value ::ₘ values)) : Leave (requests ++ [.takeOut value]) values

instance : RightCommutative add := ⟨add_right_comm⟩

theorem foldl_add_cons (acc : Accumulator) (value : Scalar) (values : Multiset Scalar) :
    (value ::ₘ values).foldl add acc = (values.foldl add acc).add value := by
  rw [← Multiset.singleton_add, add_comm, Multiset.foldl_add]
  rfl

theorem Consistent.foldl_add {acc : Accumulator} (h : acc.Consistent) (values : Multiset Scalar) :
    (values.foldl Accumulator.add acc).Consistent := by
  induction values using Multiset.induction with
  | empty => exact h
  | cons value values ih =>
      rw [foldl_add_cons]
      exact ih.add value

/-- Requests for what is there are all granted, and all that counts is what they leave. -/
theorem Request.Leave.foldlM_answer? {requests : List Request} {values : Multiset Scalar}
    (h : Leave requests values) (function : Aggregate) (arguments : Nat) :
    requests.foldlM answer? (start function arguments)
      = some (values.foldl Accumulator.add (start function arguments)) := by
  induction h with
  | nil => rfl
  | add value before ih =>
      rw [List.foldlM_append, ih, foldl_add_cons]
      rfl
  | takeOut value before ih =>
      rw [List.foldlM_append, ih, foldl_add_cons]
      have hconsistent := (consistent_start function arguments).foldl_add
      simpa [answer?] using takeOut?_add (hconsistent _).sound value

end Accumulator

/-! ## What the values of aggregates say -/

namespace Scalar

/-- The value of an integer. -/
def asInt? : Scalar → Option Int
  | int i => some i.toInt
  | _ => none

/-- The values that are neither missing nor said to be none. -/
def presentOf (values : Multiset Scalar) : Multiset Scalar :=
  values.filter fun value => value.isNullish = false

/-- The value is the least of the values, and null when there are none. -/
def LeastOf (value : Scalar) (values : Multiset Scalar) : Prop :=
  (values = 0 → value = null) ∧
    (values ≠ 0 → value ∈ values ∧ ∀ other ∈ values, (compare value other).isLE)

/-- The value is the greatest of the values, and null when there are none. -/
def GreatestOf (value : Scalar) (values : Multiset Scalar) : Prop :=
  (values = 0 → value = null) ∧
    (values ≠ 0 → value ∈ values ∧ ∀ other ∈ values, (compare other value).isLE)

/-- An integer that 64 bits hold is kept as it is. -/
theorem exists_ofInt_eq {i : Int} (hlow : -0x8000000000000000 ≤ i) (hhigh : i < 0x8000000000000000) :
    ∃ exact : Int64, exact.toInt = i ∧ ofInt i = .int exact := by
  refine ⟨Int64.ofInt i, Int64.toInt_ofInt_of_le hlow hhigh, ?_⟩
  rw [ofInt, ofInt?, if_pos ⟨hlow, hhigh⟩, Option.getD_some]

theorem presentOf_cons (value : Scalar) (values : Multiset Scalar) :
    presentOf (value ::ₘ values)
      = if value.isNullish then presentOf values else value ::ₘ presentOf values := by
  unfold presentOf
  rw [Multiset.filter_cons]
  cases value.isNullish <;> simp

end Scalar

namespace OrdMap

variable {κ ν : Type} [Ord κ] [Std.TransOrd κ]

/-- The first entry has the least key. -/
theorem exists_first? {m : OrdMap κ ν} {key : κ} (h : key ∈ m.keys) :
    ∃ first, m.first? = some first ∧ first.1 ∈ m.keys ∧
      ∀ k ∈ m.keys, (compare first.1 k).isLE := by
  obtain ⟨entries, hincreasing⟩ := m
  cases entries with
  | nil => cases h
  | cons first rest =>
      refine ⟨first, rfl, List.mem_cons_self, fun k hk => ?_⟩
      rcases List.mem_cons.1 hk with rfl | hk
      · simp
      · obtain ⟨entry, hentry, rfl⟩ := List.mem_map.1 hk
        simp [(List.pairwise_cons.1 hincreasing).1 entry hentry]

/-- The last entry has the greatest key. -/
theorem exists_last? {m : OrdMap κ ν} {key : κ} (h : key ∈ m.keys) :
    ∃ last, m.last? = some last ∧ last.1 ∈ m.keys ∧
      ∀ k ∈ m.keys, (compare k last.1).isLE := by
  obtain ⟨entries, hincreasing⟩ := m
  rcases List.eq_nil_or_concat' entries with rfl | ⟨before, last, rfl⟩
  · cases h
  · refine ⟨last, by simp [last?], List.mem_map_of_mem (by simp), fun k hk => ?_⟩
    obtain ⟨entry, hentry, rfl⟩ := List.mem_map.1 hk
    rcases List.mem_append.1 hentry with hentry | hentry
    · simp [(List.pairwise_append.1 hincreasing).2.2 entry hentry last (by simp)]
    · rw [List.mem_singleton.1 hentry]
      simp

end OrdMap

namespace Bag

variable {κ : Type} [Ord κ] [DecidableEq κ] [Std.TransOrd κ] [Std.LawfulEqOrd κ]

instance : RightCommutative (add (κ := κ)) := ⟨add_right_comm⟩

theorem mem_keys_foldl_add {values : Multiset κ} (bag : Bag κ) {k : κ} :
    k ∈ (values.foldl add bag).keys ↔ k ∈ values ∨ k ∈ bag.keys := by
  induction values using Multiset.induction generalizing bag with
  | empty => simp
  | cons value values ih =>
      rw [Multiset.foldl_cons, ih, add, OrdMap.mem_keys_insert, Multiset.mem_cons]
      tauto

end Bag

namespace Total

instance : RightCommutative add := ⟨add_right_comm⟩

/-- Values without floats are as many numbers as there are integers, which are added up. -/
theorem foldl_add_eq {values : Multiset Scalar} (h : ∀ x, Scalar.float x ∉ values) (total : Total) :
    values.foldl add total
      = { total with
          ints := total.ints + (values.filterMap Scalar.asInt?).sum
          count := total.count + (values.filterMap Scalar.asInt?).card } := by
  induction values using Multiset.induction generalizing total with
  | empty => simp
  | cons value values ih =>
      have hrest : ∀ x, Scalar.float x ∉ values := fun x hx => h x (Multiset.mem_cons_of_mem hx)
      rw [Multiset.foldl_cons, ih hrest]
      cases value with
      | int i =>
          rw [Multiset.filterMap_cons_some Scalar.asInt? _ _ rfl, Multiset.sum_cons,
            Multiset.card_cons]
          simp only [add, Int.add_assoc, Nat.add_comm 1, Nat.add_assoc]
      | float x => exact absurd (Multiset.mem_cons_self _ _) (h x)
      | _ =>
          rw [Multiset.filterMap_cons_none _ _ rfl]
          rfl

end Total

namespace Accumulator

variable (values : Multiset Scalar)

theorem foldl_add_tuples (n : Nat) : values.foldl add (tuples n) = tuples (n + values.card) := by
  induction values using Multiset.induction generalizing n with
  | empty => rfl
  | cons value values ih =>
      rw [Multiset.foldl_cons, add, ih, Multiset.card_cons]
      congr 1
      omega

theorem foldl_add_present (n : Nat) :
    values.foldl add (present n) = present (n + (Scalar.presentOf values).card) := by
  induction values using Multiset.induction generalizing n with
  | empty => rfl
  | cons value values ih =>
      rw [Multiset.foldl_cons, add, Scalar.presentOf_cons]
      cases value.isNullish with
      | true => exact ih n
      | false =>
          rw [if_neg (by simp), if_neg (by simp), ih, Multiset.card_cons]
          congr 1
          omega

/-- An accumulator made of a bag by leaving out missing values holds the others. -/
theorem foldl_add_bag (wrap : Bag Scalar → Accumulator)
    (hadd : ∀ bag value, (wrap bag).add value
      = if value.isNullish then wrap bag else wrap (bag.add value)) (bag : Bag Scalar) :
    values.foldl add (wrap bag) = wrap ((Scalar.presentOf values).foldl Bag.add bag) := by
  induction values using Multiset.induction generalizing bag with
  | empty => rfl
  | cons value values ih =>
      rw [Multiset.foldl_cons, hadd, Scalar.presentOf_cons]
      cases value.isNullish with
      | true => exact ih bag
      | false => simpa using ih (bag.add value)

theorem value_count (arguments : Nat) :
    (values.foldl add (start .count arguments)).value
      = .int (Int64.ofNat
          (if arguments = 0 then values.card else (Scalar.presentOf values).card)) := by
  unfold start
  dsimp only
  split
  · rw [foldl_add_tuples, Nat.zero_add]
    rfl
  · rw [foldl_add_present, Nat.zero_add]
    rfl

theorem value_sum {values : Multiset Scalar} (h : ∀ x, Scalar.float x ∉ values) (arguments : Nat) :
    (values.foldl add (start .sum arguments)).value
      = if values.filterMap Scalar.asInt? = 0 then .null
        else .ofInt (values.filterMap Scalar.asInt?).sum := by
  have hfold : values.foldl add (start .sum arguments) = sum (values.foldl Total.add {}) := by
    unfold start
    dsimp only
    generalize ({} : Total) = total
    induction values using Multiset.induction generalizing total with
    | empty => rfl
    | cons value values ih =>
        rw [Multiset.foldl_cons, Multiset.foldl_cons]
        exact ih (fun x hx => h x (Multiset.mem_cons_of_mem hx)) _
  rw [hfold, Total.foldl_add_eq h]
  simp [value, Total.sum]

theorem value_min (arguments : Nat) :
    (values.foldl add (start .min arguments)).value.LeastOf (Scalar.presentOf values) := by
  unfold start
  rw [foldl_add_bag values least fun _ _ => rfl]
  refine ⟨fun hnone => by rw [hnone]; rfl, fun hsome => ?_⟩
  obtain ⟨value, hvalue⟩ := Multiset.exists_mem_of_ne_zero hsome
  obtain ⟨first, hfirst, hmem, hle⟩ :=
    OrdMap.exists_first? ((Bag.mem_keys_foldl_add OrdMap.empty).2 (.inl hvalue))
  rw [Accumulator.value, hfirst]
  simpa [Bag.mem_keys_foldl_add] using And.intro hmem hle

theorem value_max (arguments : Nat) :
    (values.foldl add (start .max arguments)).value.GreatestOf (Scalar.presentOf values) := by
  unfold start
  rw [foldl_add_bag values greatest fun _ _ => rfl]
  refine ⟨fun hnone => by rw [hnone]; rfl, fun hsome => ?_⟩
  obtain ⟨value, hvalue⟩ := Multiset.exists_mem_of_ne_zero hsome
  obtain ⟨last, hlast, hmem, hle⟩ :=
    OrdMap.exists_last? ((Bag.mem_keys_foldl_add OrdMap.empty).2 (.inl hvalue))
  rw [Accumulator.value, hlast]
  simpa [Bag.mem_keys_foldl_add] using And.intro hmem hle

/-- Requests that take out only what is there are all granted, and leave the accumulator of the
values that are left, added in any order. Its value counts them (the present ones, when it counts
values), is the exact sum of the integers where there are no floats and 64 bits hold it, and the
least or the greatest of the present ones. -/
theorem folds_survivors {requests : List Request} {survivors : Multiset Scalar}
    (h : Request.Leave requests survivors) (function : Aggregate) (arguments : Nat) :
    ∃ acc, requests.foldlM answer? (start function arguments) = some acc ∧
      (∀ values : List Scalar, (values : Multiset Scalar) = survivors →
        values.foldl add (start function arguments) = acc) ∧
      (function = .count → acc.value = .int (Int64.ofNat
        (if arguments = 0 then survivors.card else (Scalar.presentOf survivors).card))) ∧
      (function = .sum → (∀ x, Scalar.float x ∉ survivors) →
        ∀ integers, survivors.filterMap Scalar.asInt? = integers →
          (integers = 0 → acc.value = .null) ∧
          (integers ≠ 0 →
            -0x8000000000000000 ≤ integers.sum → integers.sum < 0x8000000000000000 →
              ∃ i : Int64, i.toInt = integers.sum ∧ acc.value = .int i)) ∧
      (function = .min → acc.value.LeastOf (Scalar.presentOf survivors)) ∧
      (function = .max → acc.value.GreatestOf (Scalar.presentOf survivors)) := by
  refine ⟨_, h.foldlM_answer? function arguments, ?_, ?_, ?_, ?_, ?_⟩
  · rintro values rfl
    exact (Multiset.coe_foldl add _ values).symm
  · rintro rfl
    exact value_count survivors arguments
  · rintro rfl hfloats integers rfl
    rw [value_sum hfloats]
    refine ⟨fun hnone => if_pos hnone, fun hsome hlow hhigh => ?_⟩
    rw [if_neg hsome]
    exact Scalar.exists_ofInt_eq hlow hhigh
  · rintro rfl
    exact value_min survivors arguments
  · rintro rfl
    exact value_max survivors arguments

/-- Of three values one came and went, and the least of the others is missing. -/
theorem folds_survivors_interleaved :
    Request.Leave [.add (.int 7), .add .null, .takeOut (.int 7), .add (.int 5)]
        {.int 5, .null} ∧
      ∃ acc, [Request.add (.int 7), .add .null, .takeOut (.int 7), .add (.int 5)].foldlM answer?
        (start .min 1) = some acc ∧ acc.value = .int 5 := by
  have hadded : Request.Leave [.add (.int 7), .add .null] {.int 7, .null} := by
    rw [Multiset.pair_comm]
    exact .add .null (.add (.int 7) .nil)
  have h := Request.Leave.add (.int 5) (.takeOut (.int 7) hadded)
  obtain ⟨acc, hacc, hvalues, -⟩ := folds_survivors h .min 1
  refine ⟨h, acc, hacc, ?_⟩
  rw [← hvalues [.int 5, .null] rfl]
  decide

/-- Missing values are left out even where they are the least, and the sum of nothing is null. -/
theorem least_survivor_fails :
    (Request.Leave [.add .null, .add (.int 5)] {.int 5, .null} ∧
      ∃ acc, [Request.add .null, .add (.int 5)].foldlM answer? (start .min 1) = some acc ∧
        ¬ acc.value.LeastOf {.int 5, .null}) ∧
    (Request.Leave [] 0 ∧
      ∃ acc, ([] : List Request).foldlM answer? (start .sum 1) = some acc ∧
        acc.value ≠ .int 0) := by
  refine ⟨⟨.add (.int 5) (.add .null .nil), _, rfl, fun hleast => ?_⟩, .nil, _, rfl, by decide⟩
  have hle := (hleast.2 (Multiset.cons_ne_zero)).2 .null (by decide)
  exact absurd hle (by decide)

end Accumulator

end LiveQuery
