import Mathlib.Data.List.Basic

/-!
# The first of each

Of elements that a test takes for the same, `List.eraseDupsBy` keeps the first. No element
is kept that the test takes for an earlier one, and every element has one that is kept.
-/

namespace LiveQuery

variable {α : Type}

theorem eraseDupsBy_sublist (r : α → α → Bool) (l : List α) : (l.eraseDupsBy r).Sublist l := by
  match l with
  | [] => exact .slnil
  | a :: rest =>
      rw [List.eraseDupsBy_cons]
      exact ((eraseDupsBy_sublist r _).trans List.filter_sublist).cons_cons a
termination_by l.length
decreasing_by exact Nat.lt_succ_of_le (List.length_filter_le _ _)

theorem pairwise_eraseDupsBy (r : α → α → Bool) (l : List α) :
    (l.eraseDupsBy r).Pairwise fun a b => r b a = false := by
  match l with
  | [] => exact .nil
  | a :: rest =>
      rw [List.eraseDupsBy_cons]
      refine .cons (fun b hb => ?_) (pairwise_eraseDupsBy r _)
      have hmem := (eraseDupsBy_sublist r _).subset hb
      simpa using (List.mem_filter.1 hmem).2
termination_by l.length
decreasing_by exact Nat.lt_succ_of_le (List.length_filter_le _ _)

/-- Every element is kept, or an earlier one that is taken for the same. -/
theorem exists_mem_eraseDupsBy (r : α → α → Bool) (hrefl : ∀ a, r a a = true)
    {l : List α} {a : α} (ha : a ∈ l) : ∃ b ∈ l.eraseDupsBy r, r a b = true := by
  match l with
  | first :: rest =>
      rw [List.eraseDupsBy_cons]
      rcases List.mem_cons.1 ha with rfl | ha
      · exact ⟨a, List.mem_cons_self, hrefl a⟩
      · by_cases hsame : r a first = true
        · exact ⟨first, List.mem_cons_self, hsame⟩
        · have hleft : a ∈ rest.filter fun b => r b first = false :=
            List.mem_filter.2 ⟨ha, by simpa using hsame⟩
          obtain ⟨b, hb, hab⟩ := exists_mem_eraseDupsBy r hrefl hleft
          exact ⟨b, List.mem_cons_of_mem _ hb, hab⟩
termination_by l.length
decreasing_by exact Nat.lt_succ_of_le (List.length_filter_le _ _)

/-- An element is kept just if no earlier one is taken for it. -/
theorem mem_eraseDupsBy_iff {β : Type} [BEq β] [LawfulBEq β] (f : α → β) {l : List α} {a : α} :
    a ∈ l.eraseDupsBy (fun a b => f a == f b) ↔
      ∃ before after, l = before ++ a :: after ∧ ∀ b ∈ before, f b ≠ f a := by
  match l with
  | [] => simp
  | first :: rest =>
      rw [List.eraseDupsBy_cons, List.mem_cons, mem_eraseDupsBy_iff f]
      constructor
      · rintro (rfl | ⟨before, after, hleft, hbefore⟩)
        · exact ⟨[], rest, rfl, fun _ h => absurd h List.not_mem_nil⟩
        · -- what was left out of the rest is taken for the first one, and `a` is not
          obtain ⟨early, late, rfl, rfl, hlate⟩ := List.filter_eq_append_iff.1 hleft
          obtain ⟨between, after', rfl, hbetween, ha, rfl⟩ := List.filter_eq_cons_iff.1 hlate
          refine ⟨first :: (early ++ between), after', by simp, fun b hb heq => ?_⟩
          have hfirst : f a ≠ f first := by simpa using ha
          rcases List.mem_cons.1 hb with rfl | hb
          · exact hfirst heq.symm
          · by_cases hsame : f b = f first
            · exact hfirst (heq.symm.trans hsame)
            · rcases List.mem_append.1 hb with hb | hb
              · exact hbefore b (List.mem_filter.2 ⟨hb, by simpa using hsame⟩) heq
              · exact absurd (by simpa using hsame) (hbetween b hb)
      · rintro ⟨before, after, hl, hbefore⟩
        cases before with
        | nil => exact .inl (List.cons.inj hl).1.symm
        | cons first' before =>
            obtain ⟨rfl, rfl⟩ := List.cons.inj hl
            obtain ⟨hfirst, hbefore⟩ := List.forall_mem_cons.1 hbefore
            refine .inr ⟨before.filter fun b => (f b == f first) = false,
              after.filter fun b => (f b == f first) = false, ?_,
              fun b hb => hbefore b (List.mem_filter.1 hb).1⟩
            rw [List.append_eq, List.filter_append,
              List.filter_cons_of_pos (by simpa using Ne.symm hfirst)]
termination_by l.length
decreasing_by exact Nat.lt_succ_of_le (List.length_filter_le _ _)

end LiveQuery
