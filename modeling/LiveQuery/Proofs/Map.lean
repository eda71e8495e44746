import LiveQuery.OrdMap
import Mathlib.Data.List.Basic
import Mathlib.Data.List.Nodup
import Mathlib.Data.List.Perm.Basic

/-!
# Maps through their look-ups

An ordered map is determined by its look-ups, so every operation on it is described by
what it does to them.

**Results.** `get?_set`, `get?_insertAll`, `get?_ofList` for the operations that are made
of insertions and deletions, `ofList_entries` for reading a map back, and `mem_keys_addAll`
for sets.
-/

namespace LiveQuery

section Map

variable {κ ν : Type} [Ord κ]

namespace OrdMap

/-! ## Entries and look-ups -/

theorem get?_eq_some_iff [Std.TransOrd κ] [Std.LawfulEqOrd κ] {m : OrdMap κ ν} {k : κ} {v : ν} :
    m.get? k = some v ↔ (k, v) ∈ m.entries := by
  refine ⟨mem_of_lookup, fun hmem => ?_⟩
  obtain ⟨entries, hsorted⟩ := m
  simp only [get?] at hmem ⊢
  induction entries with
  | nil => cases hmem
  | cons e rest ih =>
      obtain ⟨hfirst, hrest⟩ := List.pairwise_cons.1 hsorted
      rcases List.mem_cons.1 hmem with rfl | hmem
      · simp [lookup, Std.ReflCmp.compare_self]
      · have hne : compare k e.1 ≠ .eq := fun heq => by
          have hlt := hfirst _ hmem
          rw [Std.LawfulEqOrd.eq_of_compare heq] at hlt
          simp [Std.ReflCmp.compare_self] at hlt
        simp [lookup, hne, ih hrest hmem]

theorem mem_keys [Std.TransOrd κ] [Std.LawfulEqOrd κ] {m : OrdMap κ ν} {k : κ} :
    k ∈ m.keys ↔ ∃ v, m.get? k = some v := by
  simp [keys, get?_eq_some_iff]

theorem not_mem_keys [Std.TransOrd κ] [Std.LawfulEqOrd κ] {m : OrdMap κ ν} {k : κ} :
    k ∉ m.keys ↔ m.get? k = none := by
  rw [mem_keys, Option.eq_none_iff_forall_ne_some]
  exact not_exists

theorem contains_iff_mem_keys [Std.TransOrd κ] [Std.LawfulEqOrd κ] {m : OrdMap κ ν} {k : κ} :
    m.contains k = true ↔ k ∈ m.keys := by
  rw [contains, Option.isSome_iff_exists, mem_keys]

theorem nodup_keys [Std.ReflOrd κ] (m : OrdMap κ ν) : m.keys.Nodup := by
  rw [keys, List.Nodup, List.pairwise_map]
  refine m.increasing.imp fun hlt heq => ?_
  simp [heq, Std.ReflCmp.compare_self ] at hlt

@[simp] theorem entries_empty : (empty : OrdMap κ ν).entries = [] := rfl

@[simp] theorem keys_empty : (empty : OrdMap κ ν).keys = [] := rfl

theorem isEmpty_iff [Std.TransOrd κ] [Std.LawfulEqOrd κ] {m : OrdMap κ ν} :
    m.isEmpty = true ↔ m = empty := by
  refine ⟨fun h => ?_, fun h => h ▸ rfl⟩
  cases m
  simp only [isEmpty, List.isEmpty_iff] at h
  subst h
  rfl

@[simp] theorem insertAll_nil [Std.TransOrd κ] (m : OrdMap κ ν) : m.insertAll [] = m := rfl

@[simp] theorem insertAll_cons [Std.TransOrd κ] (m : OrdMap κ ν) (entry : κ × ν) (rest : List (κ × ν)) :
    m.insertAll (entry :: rest) = (m.insert entry.1 entry.2).insertAll rest := rfl

/-! ## Operations by look-up -/

variable [DecidableEq κ] [Std.TransOrd κ] [Std.LawfulEqOrd κ]

theorem get?_insert_eq (m : OrdMap κ ν) (key : κ) (value : ν) (k : κ) :
    (m.insert key value).get? k = if k = key then some value else m.get? k := by
  simp [get?_insert]

theorem get?_erase_eq (m : OrdMap κ ν) (key k : κ) :
    (m.erase key).get? k = if k = key then none else m.get? k := by
  simp [get?_erase]

theorem get?_set (m : OrdMap κ ν) (key : κ) (value : Option ν) (k : κ) :
    (m.set key value).get? k = if k = key then value else m.get? k := by
  cases value with
  | none => exact get?_erase_eq m key k
  | some value => exact get?_insert_eq m key value k

@[simp] theorem get?_set_self (m : OrdMap κ ν) (key : κ) (value : Option ν) :
    (m.set key value).get? key = value := by
  simp [get?_set]

theorem mem_keys_insert {m : OrdMap κ ν} {key : κ} {value : ν} {k : κ} :
    k ∈ (m.insert key value).keys ↔ k = key ∨ k ∈ m.keys := by
  rw [mem_keys, mem_keys, get?_insert_eq]
  by_cases hk : k = key <;> simp [hk]

/-- Taking out a key that is not there changes nothing. -/
theorem erase_eq_self {m : OrdMap κ ν} {key : κ} (h : m.get? key = none) : m.erase key = m :=
  ext_get? fun k => by
    rw [get?_erase_eq]
    split
    next heq => rw [heq, h]
    · rfl

/-- Taking out a key that was put in restores a map that did not have it. -/
theorem erase_insert {m : OrdMap κ ν} {key : κ} {value : ν} (h : m.get? key = none) :
    (m.insert key value).erase key = m :=
  ext_get? fun k => by
    rw [get?_erase_eq, get?_insert_eq]
    split
    next heq => rw [heq, h]
    · rfl

/-! ## Maps from lists -/

theorem get?_insertAll_of_not_mem {m : OrdMap κ ν} {entries : List (κ × ν)} {k : κ}
    (h : k ∉ entries.map Prod.fst) : (m.insertAll entries).get? k = m.get? k := by
  induction entries generalizing m with
  | nil => rfl
  | cons entry rest ih =>
      obtain ⟨hne, hrest⟩ := not_or.1 (mt List.mem_cons.2 h)
      rw [insertAll_cons, ih hrest, get?_insert_eq, if_neg hne]

theorem get?_insertAll_of_mem {m : OrdMap κ ν} {entries : List (κ × ν)} {k : κ} {v : ν}
    (hnodup : (entries.map Prod.fst).Nodup) (h : (k, v) ∈ entries) :
    (m.insertAll entries).get? k = some v := by
  induction entries generalizing m with
  | nil => cases h
  | cons entry rest ih =>
      obtain ⟨hfirst, hrest⟩ := List.nodup_cons.1 hnodup
      rw [insertAll_cons]
      rcases List.mem_cons.1 h with rfl | h
      · rw [get?_insertAll_of_not_mem hfirst, get?_insert_self]
      · exact ih hrest h

/-- What a map holds after insertions it held before, or it was inserted. -/
theorem mem_of_get?_insertAll {m : OrdMap κ ν} {entries : List (κ × ν)} {k : κ} {v : ν}
    (h : (m.insertAll entries).get? k = some v) : m.get? k = some v ∨ (k, v) ∈ entries := by
  induction entries generalizing m with
  | nil => exact .inl h
  | cons entry rest ih =>
      rw [insertAll_cons] at h
      rcases ih h with hinserted | hrest
      · rw [get?_insert_eq] at hinserted
        split at hinserted
        next hk =>
          cases hinserted
          exact .inr (hk ▸ List.mem_cons_self)
        · exact .inl hinserted
      · exact .inr (List.mem_cons_of_mem _ hrest)

theorem mem_of_get?_ofList {entries : List (κ × ν)} {k : κ} {v : ν}
    (h : (ofList entries).get? k = some v) : (k, v) ∈ entries := by
  rcases mem_of_get?_insertAll h with hempty | hmem
  · cases hempty
  · exact hmem

theorem exists_get?_ofList {entries : List (κ × ν)} {k : κ} (h : k ∈ entries.map Prod.fst) :
    ∃ v, (ofList entries).get? k = some v := by
  suffices hall : ∀ m : OrdMap κ ν, ∃ v, (m.insertAll entries).get? k = some v from hall _
  induction entries with
  | nil => cases h
  | cons entry rest ih =>
      intro m
      by_cases hrest : k ∈ rest.map Prod.fst
      · exact ih hrest _
      · have hfirst : k = entry.1 := (List.mem_cons.1 h).resolve_right hrest
        rw [insertAll_cons, get?_insertAll_of_not_mem hrest, get?_insert_eq, if_pos hfirst]
        exact ⟨entry.2, rfl⟩

theorem get?_ofList_of_not_mem {entries : List (κ × ν)} {k : κ}
    (h : k ∉ entries.map Prod.fst) : (ofList entries).get? k = none :=
  get?_insertAll_of_not_mem h

theorem get?_ofList_of_mem {entries : List (κ × ν)} {k : κ} {v : ν}
    (hnodup : (entries.map Prod.fst).Nodup) (h : (k, v) ∈ entries) :
    (ofList entries).get? k = some v :=
  get?_insertAll_of_mem hnodup h

/-- With different keys in the list, the map has just its entries. -/
theorem get?_ofList_eq_some_iff {entries : List (κ × ν)} {k : κ} {v : ν}
    (hnodup : (entries.map Prod.fst).Nodup) :
    (ofList entries).get? k = some v ↔ (k, v) ∈ entries := by
  refine ⟨fun h => ?_, get?_ofList_of_mem hnodup⟩
  by_cases hmem : k ∈ entries.map Prod.fst
  · obtain ⟨entry, hentry, rfl⟩ := List.mem_map.1 hmem
    rw [get?_ofList_of_mem hnodup hentry] at h
    cases h
    exact hentry
  · rw [get?_ofList_of_not_mem hmem] at h
    cases h

@[simp] theorem ofList_entries (m : OrdMap κ ν) : ofList m.entries = m :=
  ext_get? fun k => by
    ext v
    rw [get?_ofList_eq_some_iff m.nodup_keys, get?_eq_some_iff]

theorem keys_ofList_perm {entries : List (κ × ν)} (hnodup : (entries.map Prod.fst).Nodup) :
    (ofList entries).keys.Perm (entries.map Prod.fst) := by
  refine (List.perm_ext_iff_of_nodup (nodup_keys _) hnodup).2 fun k => ?_
  rw [mem_keys]
  constructor
  · rintro ⟨v, h⟩
    exact List.mem_map.2 ⟨(k, v), (get?_ofList_eq_some_iff hnodup).1 h, rfl⟩
  · intro h
    obtain ⟨entry, hmem, rfl⟩ := List.mem_map.1 h
    exact ⟨entry.2, get?_ofList_of_mem hnodup hmem⟩

omit [DecidableEq κ] in
theorem mem_values {m : OrdMap κ ν} {value : ν} :
    value ∈ m.values ↔ ∃ key, m.get? key = some value := by
  simp [values, get?_eq_some_iff]

/-- A new key brings one more entry. -/
theorem entries_insert_perm {m : OrdMap κ ν} {key : κ} (h : m.get? key = none) (value : ν) :
    (m.insert key value).entries.Perm ((key, value) :: m.entries) := by
  have hnodup : ∀ m : OrdMap κ ν, m.entries.Nodup := fun m => .of_map Prod.fst m.nodup_keys
  have hnew : (key, value) ∉ m.entries := fun hmem => by
    rw [← get?_eq_some_iff, h] at hmem
    cases hmem
  refine (List.perm_ext_iff_of_nodup (hnodup _) (List.nodup_cons.2 ⟨hnew, hnodup m⟩)).2 ?_
  rintro ⟨k, v⟩
  rw [← get?_eq_some_iff, get?_insert_eq, List.mem_cons, Prod.mk.injEq, ← get?_eq_some_iff]
  split
  next hk =>
    rw [hk, h, Option.some_inj]
    simp [eq_comm]
  next hk => simp [hk]

theorem keys_insert_perm {m : OrdMap κ ν} {key : κ} (h : m.get? key = none) (value : ν) :
    (m.insert key value).keys.Perm (key :: m.keys) :=
  (entries_insert_perm h value).map Prod.fst

theorem values_insert_perm {m : OrdMap κ ν} {key : κ} (h : m.get? key = none) (value : ν) :
    (m.insert key value).values.Perm (value :: m.values) :=
  (entries_insert_perm h value).map Prod.snd

/-- A key that is there stands beside those that are left without it. -/
theorem keys_erase_perm {m : OrdMap κ ν} {key : κ} {value : ν} (h : m.get? key = some value) :
    m.keys.Perm (key :: (m.erase key).keys) := by
  have hback : (m.erase key).insert key value = m := ext_get? fun k => by
    rw [get?_insert_eq, get?_erase_eq]
    split
    next hk => rw [hk, h]
    · rfl
  have habsent : (m.erase key).get? key = none := by simp
  have hperm := keys_insert_perm habsent value
  rwa [hback] at hperm

omit [DecidableEq κ] in
/-- When some of the look-ups are left, so are their values. -/
theorem values_eq_filter {m m' : OrdMap κ ν} (p : ν → Bool)
    (h : ∀ k, m'.get? k = (m.get? k).filter p) : m'.values = m.values.filter p := by
  have hsame : m' = ⟨m.entries.filter fun entry => p entry.2, m.increasing.filter _⟩ :=
    ext_get? fun k => by
      ext v
      rw [h, Option.filter_eq_some_iff, get?_eq_some_iff, get?_eq_some_iff, List.mem_filter]
  rw [hsame, values, values, List.filter_map]
  rfl

omit [DecidableEq κ] in
/-- A value that stands at one key only is counted once. -/
theorem count_values_eq_one [BEq ν] [LawfulBEq ν] {m : OrdMap κ ν} {key : κ} {value : ν}
    (h : m.get? key = some value) (honly : ∀ k, m.get? k = some value → k = key) :
    m.values.count value = 1 := by
  obtain ⟨before, after, hentries⟩ := List.append_of_mem (get?_eq_some_iff.1 h)
  have hnodup := m.nodup_keys
  have hnot : ∀ entry ∈ m.entries, entry.2 = value → entry.1 = key := by
    rintro ⟨k, v⟩ hmem rfl
    exact honly k (get?_eq_some_iff.2 hmem)
  rw [keys, hentries, List.map_append, List.map_cons, List.nodup_middle, List.nodup_cons,
    List.mem_append, not_or] at hnodup
  rw [hentries] at hnot
  have hnone : ∀ part : List (κ × ν), part ⊆ before ++ (key, value) :: after →
      key ∉ part.map Prod.fst → (part.map Prod.snd).count value = 0 := by
    refine fun part hpart hkey => List.count_eq_zero.2 fun hmem => ?_
    obtain ⟨entry, hentry, hvalue⟩ := List.mem_map.1 hmem
    exact hkey (List.mem_map.2 ⟨entry, hentry, hnot entry (hpart hentry) hvalue⟩)
  rw [values, hentries, List.map_append, List.map_cons, List.count_append, List.count_cons_self,
    hnone before (List.subset_append_left _ _) hnodup.1.1,
    hnone after (fun _ h => List.mem_append_right _ (List.mem_cons_of_mem _ h)) hnodup.1.2]

/-- Entries in increasing order are read back as they are. -/
theorem entries_ofList {m : OrdMap κ ν} {ν' : Type} {entries : List (κ × ν')}
    (h : entries.map Prod.fst = m.keys) : (ofList entries).entries = entries := by
  have hincreasing : Increasing entries := by
    have := m.increasing
    rw [Increasing, ← List.pairwise_map (R := fun a b => compare a b = .lt) (f := Prod.fst)] at this ⊢
    exact h ▸ this
  exact congrArg OrdMap.entries (ofList_entries ⟨entries, hincreasing⟩)

end OrdMap

namespace OrdSet

variable [DecidableEq κ] [Std.TransOrd κ] [Std.LawfulEqOrd κ]

theorem mem_keys_add {s : OrdSet κ} {key k : κ} :
    k ∈ OrdMap.keys (s.add key) ↔ k = key ∨ k ∈ OrdMap.keys s :=
  OrdMap.mem_keys_insert

theorem mem_keys_addAll {s : OrdSet κ} {keys : List κ} {k : κ} :
    k ∈ OrdMap.keys (s.addAll keys) ↔ k ∈ keys ∨ k ∈ OrdMap.keys s := by
  induction keys generalizing s with
  | nil => simp [addAll]
  | cons key rest ih =>
      rw [addAll, List.foldl_cons, ← addAll, ih, mem_keys_add]
      simp only [List.mem_cons]
      tauto

@[simp] theorem mem_keys_ofList {keys : List κ} {k : κ} :
    k ∈ OrdMap.keys (OrdSet.ofList keys) ↔ k ∈ keys := by
  simp [OrdSet.ofList, mem_keys_addAll]

end OrdSet

end Map

end LiveQuery
