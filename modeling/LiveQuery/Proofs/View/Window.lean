import Mathlib
import LiveQuery.Proofs.View.DeltaJoin
import LiveQuery.Proofs.View.Keys

/-!
# What the window shows

A window chooses its candidates among the output rows, puts them in order and shows those whose
place is within its bounds. The place of a candidate is the number of candidates before it. Since
no two candidates tie, this settles what is shown, and in which order, whatever led to the output
rows.

The order is one for rows that have a value to sort by for each order term. Upkeep makes no others
(`Blueprint.Reached.sortable`).

**Results.** `Blueprint.windows_shown`.
-/

namespace LiveQuery

/-! ## The order of rows -/

theorem compareTerms_swap (terms : List OrderTerm) (xs ys : List Scalar) :
    compareTerms terms xs ys = (compareTerms terms ys xs).swap := by
  induction terms generalizing xs ys with
  | nil => rfl
  | cons term terms ih =>
      cases xs with
      | nil => cases ys <;> rfl
      | cons x xs =>
          cases ys with
          | nil => rfl
          | cons y ys =>
              simp only [compareTerms, Ordering.swap_then, ih xs ys]
              congr 1
              cases term.direction
              · exact Std.OrientedOrd.eq_swap
              · exact Std.OrientedOrd.eq_swap

/-- Lists with a value for each term are in a chain. -/
theorem compareTerms_chained {terms : List OrderTerm} {xs ys zs : List Scalar}
    (hxs : xs.length = terms.length) (hys : ys.length = terms.length)
    (hzs : zs.length = terms.length) :
    Chained (compareTerms terms xs ys) (compareTerms terms ys zs) (compareTerms terms xs zs) := by
  induction terms generalizing xs ys zs with
  | nil => exact .of_eq rfl rfl rfl
  | cons term terms ih =>
      obtain ⟨x, xs, rfl⟩ := List.exists_cons_of_length_eq_add_one hxs
      obtain ⟨y, ys, rfl⟩ := List.exists_cons_of_length_eq_add_one hys
      obtain ⟨z, zs, rfl⟩ := List.exists_cons_of_length_eq_add_one hzs
      simp only [List.length_cons, Nat.add_right_cancel_iff] at hxs hys hzs
      refine Chained.andThen ?_ fun _ _ => ih hxs hys hzs
      cases term.direction
      · exact .of_transOrd compare x y z
      · have : Std.TransCmp fun a b : Scalar => compare b a := .opposite
        exact .of_transOrd (fun a b => compare b a) x y z

namespace Body

variable (body : Body)

/-- An entry comes before another one, by the order terms, then by key. -/
def Before (a b : Key × StagedRow) : Prop :=
  body.compareRows a b = .lt

instance (a b : Key × StagedRow) : Decidable (body.Before a b) :=
  inferInstanceAs (Decidable (_ = _))

/-- Every row has a value to sort by for each order term. -/
def Sortable (staged : OrdMap Key StagedRow) : Prop :=
  ∀ key row, staged.get? key = some row → row.sort.length = body.orderTerms.length

/-- The candidates before an entry. -/
def place (staged : OrdMap Key StagedRow) (entry : Key × StagedRow) : Nat :=
  (body.candidates staged).countP fun other => body.Before other entry

/-- A place within the bounds of the window. -/
def InBounds (place : Nat) : Prop :=
  body.offset.getD 0 ≤ place ∧
    ∀ limit, body.limit = some limit → place < body.offset.getD 0 + limit

/-- What a window chooses from: all output rows, or of those that are distinct one each, that with
the smallest key, identified by itself. -/
structure Chooses (staged : OrdMap Key StagedRow) (candidates : List (Key × StagedRow)) : Prop where
  all : body.distinct = false → ∀ key row, (key, row) ∈ candidates ↔ staged.get? key = some row
  distinct : body.distinct = true → ∀ key row, (key, row) ∈ candidates ↔
    key = .ofScalar (.record row.row) ∧ ∃ k, staged.get? k = some row ∧
      ∀ k' row', staged.get? k' = some row' → row'.row = row.row → (compare k k').isLE
  nodup : (candidates.map Prod.fst).Nodup

/-- The order of the entries is a strict order in which no two of them tie. -/
structure Ranks (candidates : List (Key × StagedRow)) : Prop where
  irrefl : ∀ a ∈ candidates, ¬body.Before a a
  trans : ∀ a ∈ candidates, ∀ b ∈ candidates, ∀ c ∈ candidates,
    body.Before a b → body.Before b c → body.Before a c
  total : ∀ a ∈ candidates, ∀ b ∈ candidates, a = b ∨ body.Before a b ∨ body.Before b a

/-- The candidates whose place is within the bounds, in order. -/
structure Cuts (staged : OrdMap Key StagedRow) (shown : List (Key × StagedRow)) : Prop where
  mem : ∀ entry, entry ∈ shown ↔
    entry ∈ body.candidates staged ∧ body.InBounds (body.place staged entry)
  sorted : shown.Pairwise body.Before

variable {body} {staged : OrdMap Key StagedRow}

theorem compareRows_swap (a b : Key × StagedRow) :
    body.compareRows a b = (body.compareRows b a).swap := by
  rw [compareRows, compareRows, Ordering.swap_then, compareTerms_swap body.orderTerms a.2.sort,
    (Std.OrientedOrd.eq_swap : compare a.1 b.1 = _)]

theorem compareRows_chained {a b c : Key × StagedRow}
    (ha : a.2.sort.length = body.orderTerms.length)
    (hb : b.2.sort.length = body.orderTerms.length)
    (hc : c.2.sort.length = body.orderTerms.length) :
    Chained (body.compareRows a b) (body.compareRows b c) (body.compareRows a c) :=
  (compareTerms_chained ha hb hc).andThen fun _ _ => .of_transOrd compare a.1 b.1 c.1

/-- Rows with different keys do not tie. -/
theorem before_of_isLE {a b : Key × StagedRow} (h : (body.compareRows a b).isLE)
    (hne : a.1 ≠ b.1) : body.Before a b := by
  cases hcompare : body.compareRows a b with
  | lt => exact hcompare
  | eq => exact absurd (Std.LawfulEqOrd.eq_of_compare (Ordering.then_eq_eq.1 hcompare).2) hne
  | gt =>
      rw [hcompare] at h
      cases h

theorem Before.asymm {a b : Key × StagedRow} (h : body.Before a b) : ¬body.Before b a := by
  intro hback
  have hswap := body.compareRows_swap a b
  rw [h, hback] at hswap
  cases hswap

theorem Before.irrefl (a : Key × StagedRow) : ¬body.Before a a :=
  fun h => h.asymm h

/-! ## Candidates -/

theorem exists_of_mem_candidates {entry : Key × StagedRow}
    (h : entry ∈ body.candidates staged) : ∃ key, staged.get? key = some entry.2 := by
  unfold candidates at h
  split at h
  · obtain ⟨row, hrow, rfl⟩ := List.mem_map.1 h
    exact OrdMap.mem_values.1 ((eraseDupsBy_sublist _ _).subset hrow)
  · exact ⟨entry.1, OrdMap.get?_eq_some_iff.2 h⟩

theorem Sortable.length_sort (h : body.Sortable staged) :
    ∀ entry ∈ body.candidates staged, entry.2.sort.length = body.orderTerms.length :=
  fun _ hentry =>
    let ⟨key, hkey⟩ := exists_of_mem_candidates hentry
    h key _ hkey

/-- The first of the rows that are equal stands at the smallest of their keys. -/
theorem mem_eraseDups_values {row : StagedRow} :
    row ∈ staged.values.eraseDupsBy (fun s t => s.row == t.row) ↔
      ∃ k, staged.get? k = some row ∧
        ∀ k' row', staged.get? k' = some row' → row'.row = row.row → (compare k k').isLE := by
  rw [mem_eraseDupsBy_iff StagedRow.row]
  constructor
  · rintro ⟨before, after, hvalues, hfirst⟩
    obtain ⟨early, late, hentries, rfl, hlate⟩ := List.map_eq_append_iff.1 hvalues
    obtain ⟨⟨k, _⟩, later, rfl, rfl, rfl⟩ := List.map_eq_cons_iff.1 hlate
    refine ⟨k, OrdMap.get?_eq_some_iff.2 (by simp [hentries]), fun k' row' hget hsame => ?_⟩
    have hmem := OrdMap.get?_eq_some_iff.1 hget
    have hincreasing := staged.increasing
    rw [hentries] at hmem hincreasing
    rcases List.mem_append.1 hmem with hearly | hmem
    · exact absurd hsame (hfirst row' (List.mem_map_of_mem hearly))
    · rcases List.mem_cons.1 hmem with heq | hlater
      · cases heq
        simp
      · have hlt := (List.pairwise_cons.1 (List.pairwise_append.1 hincreasing).2.1).1 _ hlater
        rw [hlt]
        rfl
  · rintro ⟨k, hget, hleast⟩
    obtain ⟨early, late, hentries⟩ := List.append_of_mem (OrdMap.get?_eq_some_iff.1 hget)
    refine ⟨early.map Prod.snd, late.map Prod.snd, by simp [OrdMap.values, hentries],
      fun row' hrow' hsame => ?_⟩
    obtain ⟨⟨k', _⟩, hearly, rfl⟩ := List.mem_map.1 hrow'
    have hincreasing := staged.increasing
    rw [hentries] at hincreasing
    have hlt := (List.pairwise_append.1 hincreasing).2.2 _ hearly _ List.mem_cons_self
    have hle := hleast k' _ (OrdMap.get?_eq_some_iff.2 (by simp [hentries, hearly])) hsame
    rw [Std.OrientedCmp.gt_of_lt hlt] at hle
    cases hle

theorem chooses_candidates (body : Body) (staged : OrdMap Key StagedRow) :
    body.Chooses staged (body.candidates staged) where
  all hall key row := by
    rw [candidates, if_neg (by simp [hall]), OrdMap.get?_eq_some_iff]
  distinct hdistinct key row := by
    rw [candidates, if_pos hdistinct, ← mem_eraseDups_values]
    constructor
    · intro h
      obtain ⟨_, hrow, heq⟩ := List.mem_map.1 h
      cases heq
      exact ⟨rfl, hrow⟩
    · rintro ⟨rfl, hrow⟩
      exact List.mem_map.2 ⟨row, hrow, rfl⟩
  nodup := body.nodup_candidates staged

theorem Sortable.ranks (h : body.Sortable staged) : body.Ranks (body.candidates staged) where
  irrefl a _ := Before.irrefl a
  trans a ha b hb c hc hab hbc :=
    (compareRows_chained (h.length_sort a ha) (h.length_sort b hb) (h.length_sort c hc)).lt_left hab
      (by rw [show body.compareRows b c = .lt from hbc]; rfl)
  total a ha b hb := by
    by_cases hkey : a.1 = b.1
    · exact .inl (List.inj_on_of_nodup_map (body.nodup_candidates staged) ha hb hkey)
    · refine .inr ?_
      cases hcompare : body.compareRows a b with
      | lt => exact .inl hcompare
      | eq => exact .inl (before_of_isLE (by rw [hcompare]; rfl) hkey)
      | gt =>
          have hswap := body.compareRows_swap b a
          rw [hcompare] at hswap
          exact .inr hswap

/-! ## Sorting -/

/-- The entry with just one value for each order term. -/
def padded (body : Body) (entry : Key × StagedRow) : Key × StagedRow :=
  (entry.1, { entry.2 with sort := entry.2.sort.takeD body.orderTerms.length .undefined })

theorem padded_eq {entry : Key × StagedRow}
    (h : entry.2.sort.length = body.orderTerms.length) : body.padded entry = entry := by
  have hsort : entry.2.sort.takeD body.orderTerms.length .undefined = entry.2.sort := by
    rw [List.takeD_eq_take _ (Nat.le_of_eq h.symm), List.take_of_length_le (Nat.le_of_eq h)]
  rw [padded, hsort]

/-- The candidates in order. -/
def ranking (body : Body) (staged : OrdMap Key StagedRow) : List (Key × StagedRow) :=
  (body.candidates staged).mergeSort fun a b => (body.compareRows a b).isLE

theorem ranking_perm (body : Body) (staged : OrdMap Key StagedRow) :
    (body.ranking staged).Perm (body.candidates staged) :=
  List.mergeSort_perm _ _

theorem nodup_ranking (body : Body) (staged : OrdMap Key StagedRow) :
    ((body.ranking staged).map Prod.fst).Nodup :=
  ((body.ranking_perm staged).map Prod.fst).nodup_iff.2 (body.nodup_candidates staged)

/-- Of rows with a value for each order term, an earlier one comes before a later one. -/
theorem pairwise_ranking (h : body.Sortable staged) :
    (body.ranking staged).Pairwise body.Before := by
  -- sorting compares rows as the order of all padded rows does
  have hpadded : body.ranking staged = (body.candidates staged).mergeSort fun a b =>
      (body.compareRows (body.padded a) (body.padded b)).isLE := by
    have := List.map_mergeSort (l := body.candidates staged) (f := id)
      (r := fun a b => (body.compareRows a b).isLE)
      (s := fun a b => (body.compareRows (body.padded a) (body.padded b)).isLE)
      fun a ha b hb => by
        rw [id, id, padded_eq (h.length_sort a ha), padded_eq (h.length_sort b hb)]
    simpa [ranking] using this
  have hsorted : (body.ranking staged).Pairwise fun a b =>
      (body.compareRows (body.padded a) (body.padded b)).isLE := by
    rw [hpadded]
    refine List.pairwise_mergeSort (fun a b c => ?_) (fun a b => ?_) _
    · have hsized (entry : Key × StagedRow) :
          (body.padded entry).2.sort.length = body.orderTerms.length := List.takeD_length _ _ _
      exact (compareRows_chained (hsized a) (hsized b) (hsized c)).isLE
    · rw [body.compareRows_swap (body.padded b) (body.padded a)]
      cases body.compareRows (body.padded a) (body.padded b) <;> rfl
  refine (hsorted.and (List.pairwise_map.1 (body.nodup_ranking staged))).imp_of_mem
    fun {a b} ha hb hab => ?_
  have hlength := fun entry hentry => h.length_sort entry ((body.ranking_perm staged).mem_iff.1 hentry)
  rw [padded_eq (hlength a ha), padded_eq (hlength b hb)] at hab
  exact before_of_isLE hab.1 hab.2

/-- As many candidates come before an entry as stand before it in order. -/
theorem place_of_ranking (h : body.Sortable staged) {before after : List (Key × StagedRow)}
    {entry : Key × StagedRow} (hranking : body.ranking staged = before ++ entry :: after) :
    body.place staged entry = before.length := by
  have hsorted := pairwise_ranking h
  rw [hranking, List.pairwise_append, List.pairwise_cons] at hsorted
  obtain ⟨-, ⟨hafter, -⟩, hbefore⟩ := hsorted
  have hall : before.countP (fun other => decide (body.Before other entry)) = before.length :=
    List.countP_eq_length.2 fun other hother =>
      decide_eq_true (hbefore other hother entry List.mem_cons_self)
  have hnone : (entry :: after).countP (fun other => decide (body.Before other entry)) = 0 :=
    List.countP_eq_zero.2 fun other hother => by
      rw [decide_eq_true_eq]
      rcases List.mem_cons.1 hother with rfl | hother
      · exact Before.irrefl other
      · exact (hafter other hother).asymm
  rw [place, ← (body.ranking_perm staged).countP_eq, hranking, List.countP_append, hall, hnone,
    Nat.add_zero]

/-- The entries that the window shows. -/
def shown (body : Body) (staged : OrdMap Key StagedRow) : List (Key × StagedRow) :=
  let rest := (body.ranking staged).drop (body.offset.getD 0)
  match body.limit with
  | some limit => rest.take limit
  | none => rest

theorem window_eq (body : Body) (staged : OrdMap Key StagedRow) :
    body.window staged = (body.shown staged).map fun entry => (entry.1, entry.2.row) :=
  rfl

theorem shown_sublist (body : Body) (staged : OrdMap Key StagedRow) :
    (body.shown staged).Sublist (body.ranking staged) := by
  unfold shown
  split
  · exact (List.take_sublist _ _).trans (List.drop_sublist _ _)
  · exact List.drop_sublist _ _

/-- An entry is shown if it stands within the bounds. -/
theorem mem_shown_iff {entry : Key × StagedRow} :
    entry ∈ body.shown staged ↔
      ∃ i, (body.ranking staged)[i]? = some entry ∧ body.InBounds i := by
  unfold shown InBounds
  cases body.limit with
  | none =>
      simp only [List.mem_iff_getElem?, List.getElem?_drop]
      constructor
      · rintro ⟨i, hi⟩
        exact ⟨_, hi, Nat.le_add_right _ _, fun _ h => by cases h⟩
      · rintro ⟨i, hi, hoffset, -⟩
        exact ⟨i - body.offset.getD 0, by rwa [Nat.add_sub_cancel' hoffset]⟩
  | some limit =>
      simp only [List.mem_iff_getElem?, List.getElem?_take, List.getElem?_drop]
      constructor
      · rintro ⟨i, hi⟩
        obtain ⟨hlimit, hi⟩ := Option.ite_none_right_eq_some.1 hi
        refine ⟨_, hi, Nat.le_add_right _ _, fun _ h => ?_⟩
        cases h
        exact Nat.add_lt_add_left hlimit _
      · rintro ⟨i, hi, hoffset, hlimit⟩
        refine ⟨i - body.offset.getD 0, ?_⟩
        rw [if_pos (Nat.sub_lt_left_of_lt_add hoffset (hlimit limit rfl)),
          Nat.add_sub_cancel' hoffset, hi]

theorem cuts_shown (h : body.Sortable staged) : body.Cuts staged (body.shown staged) where
  mem entry := by
    have hplace : ∀ i, (body.ranking staged)[i]? = some entry → body.place staged entry = i := by
      intro i hi
      obtain ⟨hlt, rfl⟩ := List.getElem?_eq_some_iff.1 hi
      have hranking : body.ranking staged = (body.ranking staged).take i
          ++ (body.ranking staged)[i] :: (body.ranking staged).drop (i + 1) := by simp
      rw [place_of_ranking h hranking, List.length_take_of_le (Nat.le_of_lt hlt)]
    rw [mem_shown_iff, ← (body.ranking_perm staged).mem_iff, List.mem_iff_getElem?]
    constructor
    · rintro ⟨i, hi, hbounds⟩
      exact ⟨⟨i, hi⟩, (hplace i hi).symm ▸ hbounds⟩
    · rintro ⟨⟨i, hi⟩, hbounds⟩
      exact ⟨i, hi, hplace i hi ▸ hbounds⟩
  sorted := (pairwise_ranking h).sublist (body.shown_sublist staged)

/-- What is shown is settled by the output rows. -/
theorem Cuts.eq {shown shown' : List (Key × StagedRow)} (h : body.Cuts staged shown)
    (h' : body.Cuts staged shown') : shown = shown' := by
  have hnodup : ∀ {l : List (Key × StagedRow)}, l.Pairwise body.Before → l.Nodup := by
    intro l hsorted
    rw [List.Nodup]
    refine hsorted.imp fun {a b} hab => ?_
    rintro rfl
    exact Before.irrefl a hab
  refine List.Perm.eq_of_pairwise (fun a b _ _ hab hba => absurd hba hab.asymm) h.sorted h'.sorted ?_
  refine (List.perm_ext_iff_of_nodup (hnodup h.sorted) (hnodup h'.sorted)).2 fun entry => ?_
  rw [h.mem, h'.mem]

/-! ## Without a window -/

/-- Where there is nothing to sort, to cut or to make distinct, all rows are left, by key. -/
theorem window_of_plain (h : body.isWindowed = false) :
    body.window staged = staged.entries.map fun entry => (entry.1, entry.2.row) := by
  simp only [isWindowed, Bool.or_eq_false_iff, Option.isSome_eq_false_iff,
    Option.isNone_iff_eq_none] at h
  obtain ⟨⟨⟨hdistinct, horder⟩, hlimit⟩, hoffset⟩ := h
  have hcandidates : body.candidates staged = staged.entries := if_neg (by simp [hdistinct])
  have hsorted : staged.entries.mergeSort (fun a b => (body.compareRows a b).isLE)
      = staged.entries := by
    refine List.mergeSort_of_pairwise (staged.increasing.imp fun {a b} hlt => ?_)
    rw [compareRows, orderTerms, horder, hlt]
    rfl
  simp only [window, hcandidates, hsorted, hlimit, hoffset, Option.getD_none, List.drop_zero]

/-- Each row of a window is one of the output rows. -/
theorem exists_of_mem_window {key : Key} {row : Row} (h : (key, row) ∈ body.window staged) :
    ∃ k made, staged.get? k = some made ∧ made.row = row := by
  obtain ⟨entry, hentry, heq⟩ := List.mem_map.1 (body.window_eq staged ▸ h)
  obtain ⟨k, hk⟩ := exists_of_mem_candidates
    ((body.ranking_perm staged).mem_iff.1 ((body.shown_sublist staged).subset hentry))
  exact ⟨k, entry.2, hk, congrArg Prod.snd heq⟩

end Body

/-! ## Rows as they are made -/

/-- All rows of a view have a property, the output rows and the visible ones. -/
structure View.All (P : StagedRow → Prop) (view : View) : Prop where
  staged : ∀ key made, view.staged.get? key = some made → P made
  visible : ∀ key row, view.visible.get? key = some row → ∃ made : StagedRow, P made ∧ made.row = row

namespace Blueprint

variable {b : Blueprint} {ev : Evaluator} {outer : List Frame} {view after : View}
  {P : StagedRow → Prop}

/-- What is put out for a tuple or a group is projected in some frames. -/
theorem exists_project_of_stagedRow {key : Key} {made : StagedRow}
    (h : b.stagedRow ev outer view key = .ok (some made)) :
    ∃ frames, ev.project frames b.body = .ok made := by
  unfold stagedRow at h
  split at h
  · split at h
    · cases h
    · obtain ⟨kept, -, h⟩ := Except.bind_eq_ok.1 h
      split at h
      · obtain ⟨row, hrow, h⟩ := Except.bind_eq_ok.1 h
        cases h
        exact ⟨_, hrow⟩
      · cases h
  · split at h
    · cases h
    · obtain ⟨row, hrow, h⟩ := Except.bind_eq_ok.1 h
      cases h
      exact ⟨_, hrow⟩

/-- Each row that is published is an output row, or was visible before. -/
theorem exists_of_published {touched : List Key} {key : Key} {row : Row}
    (h : (b.published touched view).1.get? key = some row) :
    (∃ k made, view.staged.get? k = some made ∧ made.row = row) ∨
      view.visible.get? key = some row := by
  unfold published at h
  split at h
  · exact .inl (Body.exists_of_mem_window (OrdMap.mem_of_get?_ofList h))
  · rw [get?_foldl_set] at h
    split at h
    · obtain ⟨made, hmade, heq⟩ := Option.map_eq_some_iff.1 h
      exact .inl ⟨key, made, hmade, heq⟩
    · exact .inr h

/-- Each change maintains what is so of all rows that the body projects. -/
theorem upholds_all (hmade : ∀ frames made, ev.project frames b.body = .ok made → P made) :
    b.Upholds ev outer (View.All P) fun _ => True where
  removed _ h := ⟨h.staged, h.visible⟩
  left _ _ h _ := ⟨h.staged, h.visible⟩
  emptied _ h := ⟨h.staged, h.visible⟩
  indexed _ h := ⟨h.staged, h.visible⟩
  opened h _ _ := ⟨h.staged, h.visible⟩
  entered h _ _ _ _ := ⟨h.staged, h.visible⟩
  added _ h _ := ⟨h.staged, h.visible⟩
  staged h hrow := by
    refine ⟨fun k row hk => ?_, h.visible⟩
    rw [OrdMap.get?_set] at hk
    split at hk
    · subst hk
      obtain ⟨frames, hproject⟩ := exists_project_of_stagedRow hrow
      exact hmade frames row hproject
    · exact h.staged k row hk
  published _ h := by
    refine ⟨h.staged, fun key row hrow => ?_⟩
    rcases exists_of_published hrow with ⟨k, made, hk, heq⟩ | hrow
    · exact ⟨made, h.staged k made hk, heq⟩
    · exact h.visible key row hrow
  started h := by
    unfold startFrom
    split
    · exact ⟨fun _ _ h => (nomatch h), h.visible⟩
    · exact h

/-- Whatever upkeep does, a view has rows as its body projects them only. -/
theorem Reached.all
    (hmade : ∀ (ev : Evaluator) frames made, ev.project frames b.body = .ok made → P made)
    (h : b.Reached view) : view.All P := by
  induction h with
  | empty => exact ⟨fun _ _ h => (nomatch h), fun _ _ h => (nomatch h)⟩
  | rederive _ ev outer ih =>
      exact ((upholds_all (hmade ev)).safe_rederive (fun _ _ _ _ => trivial) ih).after
  | follow _ ev changed ih =>
      exact ((upholds_all (hmade ev)).safe_follow changed (fun _ _ _ _ _ => trivial) ih).after

theorem length_sort_of_project {frames : List Frame} {body : Body} {made : StagedRow}
    (h : ev.project frames body = .ok made) : made.sort.length = body.orderTerms.length := by
  obtain ⟨row, -, h⟩ := Except.bind_eq_ok.1 h
  obtain ⟨sort, hsort, h⟩ := Except.bind_eq_ok.1 h
  cases h
  rw [Evaluator.length_of_evalAll hsort, List.length_map]

/-- A visible row tells nothing about what it was sorted by. -/
theorem all_of_sortable (h : b.body.Sortable view.staged) :
    view.All fun made => made.sort.length = b.body.orderTerms.length :=
  ⟨h, fun _ row _ => ⟨⟨row, b.body.orderTerms.map fun _ => .undefined⟩, by simp, rfl⟩⟩

/-- Upkeep makes rows with a value to sort by for each order term only. -/
theorem Reached.sortable (h : b.Reached view) : b.body.Sortable view.staged :=
  (h.all (P := fun made => made.sort.length = b.body.orderTerms.length)
    fun _ _ _ => length_sort_of_project).staged

end Blueprint

/-! ## What is visible -/

/-- The visible rows are those of the window over the output rows. -/
structure View.Shows (b : Blueprint) (view : View) : Prop where
  visible : view.visible = OrdMap.ofList (b.body.window view.staged)
  order : b.body.isWindowed = true → view.order = (b.body.window view.staged).map Prod.fst

/-- The visible rows, their list and the keys of a window are entries of the output rows whose place
is within bounds, in order and under different keys. -/
structure View.Displays (b : Blueprint) (view : View) (shown : List (Key × StagedRow)) : Prop where
  cuts : b.body.Cuts view.staged shown
  nodup : (shown.map Prod.fst).Nodup
  visible : ∀ key row, view.visible.get? key = some row ↔ ∃ made, (key, made) ∈ shown ∧ made.row = row
  output : view.output b = shown.map fun entry => (entry.1, entry.2.row)
  order : b.body.isWindowed = true → view.order = shown.map Prod.fst

namespace View.Shows

variable {b : Blueprint} {view : View}

theorem emptyView (b : Blueprint) : b.emptyView.Shows b := by
  have hnone : b.body.window b.emptyView.staged = [] := by
    have hcandidates : b.body.candidates b.emptyView.staged = [] := by
      unfold Body.candidates
      split <;> rfl
    unfold Body.window
    simp only [hcandidates, List.mergeSort_nil, List.drop_nil, List.take_nil]
    split <;> rfl
  exact ⟨by rw [hnone]; rfl, fun _ => by rw [hnone]; rfl⟩

/-- Without a window all output rows are visible. -/
theorem get?_of_plain (h : view.Shows b) (hplain : b.body.isWindowed = false) (key : Key) :
    view.visible.get? key = (view.staged.get? key).map StagedRow.row := by
  have hkeys : ((b.body.window view.staged).map Prod.fst).Nodup := b.body.nodup_window _
  ext row
  rw [h.visible, OrdMap.get?_ofList_eq_some_iff hkeys, Body.window_of_plain hplain, List.mem_map,
    Option.map_eq_some_iff]
  constructor
  · rintro ⟨entry, hentry, heq⟩
    cases heq
    exact ⟨entry.2, OrdMap.get?_eq_some_iff.2 hentry, rfl⟩
  · rintro ⟨made, hmade, rfl⟩
    exact ⟨(key, made), OrdMap.get?_eq_some_iff.1 hmade, rfl⟩

theorem of_plain (hplain : b.body.isWindowed = false)
    (h : ∀ key, view.visible.get? key = (view.staged.get? key).map StagedRow.row) :
    view.Shows b := by
  refine ⟨OrdMap.ext_get? fun key => ?_, fun hwindowed => by simp [hplain] at hwindowed⟩
  have hshows : View.Shows b { view with visible := OrdMap.ofList (b.body.window view.staged) } :=
    ⟨rfl, fun hwindowed => by simp [hplain] at hwindowed⟩
  rw [h key]
  exact (hshows.get?_of_plain hplain key).symm

theorem displays (h : view.Shows b) (sortable : b.body.Sortable view.staged) :
    view.Displays b (b.body.shown view.staged) := by
  have hwindow := b.body.window_eq view.staged
  have hnodup := b.body.nodup_window view.staged
  have hkeys : (b.body.window view.staged).map Prod.fst
      = (b.body.shown view.staged).map Prod.fst := by
    rw [hwindow, List.map_map]
    rfl
  refine ⟨Body.cuts_shown sortable, hkeys ▸ hnodup, fun key row => ?_, ?_, fun hwindowed =>
    (h.order hwindowed).trans hkeys⟩
  · rw [h.visible, OrdMap.get?_ofList_eq_some_iff hnodup, hwindow, List.mem_map]
    constructor
    · rintro ⟨entry, hentry, heq⟩
      cases heq
      exact ⟨entry.2, hentry, rfl⟩
    · rintro ⟨made, hmade, rfl⟩
      exact ⟨(key, made), hmade, rfl⟩
  · rw [← hwindow, View.output]
    split
    next hwindowed =>
      rw [h.order hwindowed, h.visible]
      exact filterMap_get?_ofList hnodup
    next hplain =>
      have hplain : b.body.isWindowed = false := eq_false_of_ne_true hplain
      rw [h.visible, OrdMap.entries_ofList (m := view.staged)]
      rw [Body.window_of_plain hplain, List.map_map]
      rfl

end View.Shows

theorem View.Displays.shows {b : Blueprint} {view : View} {shown : List (Key × StagedRow)}
    (h : view.Displays b shown) (sortable : b.body.Sortable view.staged) : view.Shows b := by
  have hwindow : b.body.window view.staged = shown.map fun entry => (entry.1, entry.2.row) := by
    rw [h.cuts.eq (Body.cuts_shown sortable)]
    rfl
  refine ⟨OrdMap.ext_get? fun key => ?_, fun hwindowed => ?_⟩
  · ext row
    rw [OrdMap.get?_ofList_eq_some_iff (b.body.nodup_window _), h.visible, hwindow, List.mem_map]
    constructor
    · rintro ⟨made, hmade, rfl⟩
      exact ⟨(key, made), hmade, rfl⟩
    · rintro ⟨entry, hentry, heq⟩
      cases heq
      exact ⟨entry.2, hentry, rfl⟩
  · rw [h.order hwindowed, hwindow, List.map_map]
    rfl

namespace Blueprint

variable {b : Blueprint} {ev : Evaluator} {outer : List Frame} {view after : View}
  {changes : List Change}

theorem staged_stageAll {keys : List Key}
    (run : b.stageAll ev outer keys view = .ok () after) :
    ∀ key ∉ keys, after.staged.get? key = view.staged.get? key := by
  induction keys generalizing view with
  | nil =>
      cases run
      exact fun _ _ => rfl
  | cons first rest ih =>
      obtain ⟨_, _, hget, run⟩ := bind_eq_ok.1 run
      cases hget
      obtain ⟨made, _, hmade, run⟩ := bind_eq_ok.1 run
      obtain ⟨-, hsame⟩ := Upkeep.ofExcept_eq_ok.1 hmade
      rw [hsame] at run
      obtain ⟨_, _, hset, run⟩ := bind_eq_ok.1 run
      cases hset
      intro key hkey
      obtain ⟨hne, hrest⟩ := not_or.1 (mt List.mem_cons.2 hkey)
      rw [ih run key hrest, OrdMap.get?_set, if_neg hne]

/-- Making rows again lets the visible rows follow. Without a window, those of other keys have to be
visible already. -/
theorem shows_refresh {touched : List Key}
    (hothers : b.body.isWindowed = false → ∀ key ∉ touched,
      view.visible.get? key = (view.staged.get? key).map StagedRow.row)
    (run : b.refresh ev outer touched view = .ok changes after) : after.Shows b := by
  obtain ⟨⟨⟩, mid, hstage, run⟩ := bind_eq_ok.1 run
  obtain ⟨_, hpublish, -⟩ := b.publish_exact (OrdSet.ofList touched).keys mid
  rw [hpublish] at run
  cases run
  cases hwindowed : b.body.isWindowed with
  | true =>
      refine ⟨?_, fun _ => ?_⟩
      · simp only [published, hwindowed, if_true]
      · simp only [published, hwindowed, if_true]
  | false =>
      refine .of_plain hwindowed fun key => ?_
      simp only [published, hwindowed, Bool.false_eq_true, if_false, get?_foldl_set]
      split
      · rfl
      next hkey =>
        have hvisible : mid.visible = view.visible :=
          (Prod.mk.inj ((b.keepsShown_stageAll ev outer _).of_ok hstage)).1
        rw [hvisible, hothers hwindowed key (mt OrdSet.mem_keys_ofList.2 hkey),
          staged_stageAll hstage key hkey]

/-- The output rows and the visible ones before rows are made again. -/
theorem rows_replaceTuples {outdated : List Key} {added : List Tuple} {touched : List Key}
    (run : b.replaceTuples ev outer outdated added view = .ok touched after) :
    after.staged = view.staged ∧ after.visible = view.visible := by
  obtain ⟨hstaged, hshown⟩ :=
    Prod.mk.inj ((b.ignoresRows_replaceTuples ev outer outdated added).keeps.of_ok run)
  exact ⟨hstaged, (Prod.mk.inj hshown).1⟩

theorem shows_rederive (h : b.body.isWindowed = false → b.nested = false → view.Shows b)
    (run : b.rederive ev outer view = .ok changes after) : after.Shows b := by
  rw [rederive_eq] at run
  obtain ⟨derived, _, hderived, run⟩ := bind_eq_ok.1 run
  obtain ⟨-, hsame⟩ := Upkeep.ofExcept_eq_ok.1 hderived
  rw [hsame] at run
  obtain ⟨_, _, hget, run⟩ := bind_eq_ok.1 run
  cases hget
  obtain ⟨touched, mid, hreplace, run⟩ := bind_eq_ok.1 run
  obtain ⟨_, _, hget, run⟩ := bind_eq_ok.1 run
  cases hget
  obtain ⟨hstaged, hvisible⟩ := rows_replaceTuples hreplace
  refine shows_refresh (fun hplain key hkey => ?_) run
  rw [hstaged, hvisible]
  unfold startFrom
  split
  next hnested =>
    -- what was visible before is known and made again
    have hunknown : key ∉ view.visible.keys := by
      rw [if_pos hnested] at hkey
      exact fun hmem => hkey (List.mem_append_left _ (List.mem_append_left _ hmem))
    exact OrdMap.not_mem_keys.1 hunknown
  next hflat => exact (h hplain (eq_false_of_ne_true hflat)).get?_of_plain hplain key

theorem shows_follow {changed : List (Nat × List Key)}
    (h : b.body.isWindowed = false → view.Shows b)
    (run : b.follow ev changed view = .ok changes after) : after.Shows b := by
  obtain ⟨derived, _, hderived, run⟩ := bind_eq_ok.1 run
  obtain ⟨-, hsame⟩ := Upkeep.ofExcept_eq_ok.1 hderived
  rw [hsame] at run
  obtain ⟨_, _, hget, run⟩ := bind_eq_ok.1 run
  cases hget
  obtain ⟨touched, mid, hreplace, run⟩ := bind_eq_ok.1 run
  obtain ⟨hstaged, hvisible⟩ := rows_replaceTuples hreplace
  refine shows_refresh (fun hplain key _ => ?_) run
  rw [hstaged, hvisible]
  exact (h hplain).get?_of_plain hplain key

/-- Whatever output rows there are, the window chooses all of them or one of each that is distinct,
orders its candidates strictly and shows those whose place is within its bounds; this settles what
it shows. Upkeep makes rows that can be ordered only. Each refresh that succeeds makes just these
rows visible and lists their keys in order, whatever was visible before, and so does all upkeep,
also of a body without a window. -/
theorem windows_shown (b : Blueprint) :
    (∀ staged, b.body.Sortable staged →
      b.body.Chooses staged (b.body.candidates staged) ∧
      b.body.Ranks (b.body.candidates staged) ∧
      ∃ shown, b.body.window staged = shown.map (fun entry => (entry.1, entry.2.row)) ∧
        ∀ other, b.body.Cuts staged other ↔ other = shown) ∧
    (∀ view, b.Reached view → b.body.Sortable view.staged) ∧
    (∃ shown, b.emptyView.Displays b shown) ∧
    ∀ ev outer view changes after, b.body.Sortable view.staged →
      b.body.isWindowed = true ∨ (∃ shown, view.Displays b shown) →
      (b.body.isWindowed = true ∧ ∃ touched, b.refresh ev outer touched view = .ok changes after) ∨
        b.rederive ev outer view = .ok changes after ∨
        (∃ changed, b.follow ev changed view = .ok changes after) →
      b.body.Sortable after.staged ∧ ∃ shown, after.Displays b shown := by
  refine ⟨fun staged hsortable => ?_, fun view hview => hview.sortable, ?_, ?_⟩
  · refine ⟨Body.chooses_candidates _ _, hsortable.ranks, b.body.shown staged, rfl, fun other => ?_⟩
    constructor
    · exact fun hcuts => hcuts.eq (Body.cuts_shown hsortable)
    · rintro rfl
      exact Body.cuts_shown hsortable
  · exact ⟨_, (View.Shows.emptyView b).displays Reached.empty.sortable⟩
  · intro ev outer view changes after hsortable hbefore hrun
    have hall := all_of_sortable hsortable
    have hshows (hplain : b.body.isWindowed = false) : view.Shows b := by
      obtain ⟨shown, hshown⟩ := hbefore.resolve_left (by simp [hplain])
      exact hshown.shows hsortable
    have hsorted (outer : List Frame) : b.Upholds ev outer
        (View.All fun made => made.sort.length = b.body.orderTerms.length) fun _ => True :=
      upholds_all fun _ _ => length_sort_of_project
    have hafter : b.body.Sortable after.staged ∧ after.Shows b := by
      rcases hrun with ⟨hwindowed, touched, hrun⟩ | hrun | ⟨changed, hrun⟩
      · exact ⟨(((hsorted outer).safe_refresh touched hall).of_ok hrun).staged,
          shows_refresh (fun hplain => by simp [hplain] at hwindowed) hrun⟩
      · have hrederived := (hsorted outer).safe_rederive (fun _ _ _ _ => trivial) hall
        exact ⟨(hrederived.of_ok hrun).staged, shows_rederive (fun hplain _ => hshows hplain) hrun⟩
      · have hfollowed := (hsorted []).safe_follow changed (fun _ _ _ _ _ => trivial) hall
        exact ⟨(hfollowed.of_ok hrun).staged, shows_follow hshows hrun⟩
    exact ⟨hafter.1, _, hafter.2.displays hafter.1⟩

/-- The second and the third of the different values of a field, from the greatest on. -/
def runnersUp : Plan :=
  ((do
    let a ← Builder.bind "a" (.collection ⟨0, "rows"⟩) none
    Builder.select [.field "x" (.ref ⟨a.body, a.path.get "x"⟩)]
    Builder.orderBy (.ref ⟨a.body, a.path.get "x"⟩) .desc
    Builder.distinct
    Builder.offset 1
    Builder.limit 2 : Builder Unit).run (Plan.openQuery {})).2.plan

/-- The tuples are those of rows with given fields. -/
def deriveRunnersUp (fields : List (Int64 × Int64)) : Upkeep (List Change) :=
  (runnersUp.blueprint default 0).rederive
    { plan := runnersUp, policy := .undefined, inputs := Plan.inputsOf fields } []

/-- The greatest value goes away, and one of two equal values. -/
theorem windows_shown_runnersUp :
    ∃ view changes after, (runnersUp.blueprint default 0).Reached view ∧
      deriveRunnersUp [(1, 7), (3, 8), (4, 5)] view = .ok changes after ∧
      view.order.map Key.parts = [[.record (.cons "x" (.int 8) .nil)],
        [.record (.cons "x" (.int 7) .nil)]] ∧
      after.order.map Key.parts = [[.record (.cons "x" (.int 7) .nil)],
        [.record (.cons "x" (.int 5) .nil)]] ∧
      ∃ shown, after.Displays (runnersUp.blueprint default 0) shown := by
  obtain ⟨_, view, hfirst, horders⟩ : ∃ changes view,
      deriveRunnersUp [(1, 7), (2, 8), (3, 8), (4, 5), (5, 9)]
        (runnersUp.blueprint default 0).emptyView = .ok changes view ∧
      (view.order.map Key.parts, EStateM.run' (do
        let _ ← deriveRunnersUp [(1, 7), (3, 8), (4, 5)]
        return (← get).order.map Key.parts) view)
      = ([[.record (.cons "x" (.int 8) .nil)], [.record (.cons "x" (.int 7) .nil)]],
        some [[.record (.cons "x" (.int 7) .nil)], [.record (.cons "x" (.int 5) .nil)]]) :=
    exists_of_run' (by decide_cbv)
  obtain ⟨horder, hrun⟩ := Prod.mk.inj horders
  obtain ⟨changes, after, hsecond, hafter⟩ := exists_of_run' hrun
  have hview : (runnersUp.blueprint default 0).Reached view := by
    have hreached := Reached.empty.rederive (b := runnersUp.blueprint default 0)
      { plan := runnersUp, policy := .undefined
        inputs := Plan.inputsOf [(1, 7), (2, 8), (3, 8), (4, 5), (5, 9)] } []
    change Reached _ (stateAfter (deriveRunnersUp _ _)) at hreached
    rwa [hfirst] at hreached
  obtain ⟨-, hsortable, -, hshown⟩ := windows_shown (runnersUp.blueprint default 0)
  exact ⟨view, changes, after, hview, hsecond, horder, hafter,
    (hshown _ _ view changes after (hsortable view hview) (.inl (by decide +kernel))
      (.inr (.inl hsecond))).2⟩

end Blueprint

end LiveQuery
