import LiveQuery.Scalar.Order

/-!
# Ordered maps

A finite map, kept as the list of its entries in strictly increasing order of the
keys. There is one such list for each map, so maps with the same values are equal.

**Results.** `get?_insert` and `get?_erase` say what an operation does to every
look-up, and `ext_get?` that the look-ups determine the map.
-/

namespace LiveQuery

section OrdMap

variable {κ ν : Type} [Ord κ]

/-- Entries in strictly increasing order of the keys. -/
def Increasing (entries : List (κ × ν)) : Prop :=
  entries.Pairwise fun a b => compare a.1 b.1 = .lt

/-- A finite map with its entries in key order. -/
structure OrdMap (κ ν : Type) [Ord κ] where
  entries : List (κ × ν)
  increasing : Increasing entries

namespace OrdMap

/-! ## Lists of entries -/

/-- The value of the first entry with the given key. -/
def lookup (key : κ) : List (κ × ν) → Option ν
  | [] => none
  | (k, v) :: rest => if compare key k = .eq then some v else lookup key rest

/-- Puts an entry in its place, instead of the one with its key. -/
def place (key : κ) (value : ν) : List (κ × ν) → List (κ × ν)
  | [] => [(key, value)]
  | (k, v) :: rest =>
      match compare key k with
      | .lt => (key, value) :: (k, v) :: rest
      | .eq => (key, value) :: rest
      | .gt => (k, v) :: place key value rest

/-- Takes out the entry with the given key. -/
def remove (key : κ) : List (κ × ν) → List (κ × ν)
  | [] => []
  | (k, v) :: rest => if compare key k = .eq then rest else (k, v) :: remove key rest

theorem remove_sublist (key : κ) (entries : List (κ × ν)) :
    (remove key entries).Sublist entries := by
  induction entries with
  | nil => exact .slnil
  | cons entry rest ih =>
      unfold remove
      split
      · exact .cons _ (.refl _)
      · exact .cons_cons _ ih

theorem mem_place {key : κ} {value : ν} {entries : List (κ × ν)} {entry : κ × ν}
    (h : entry ∈ place key value entries) : entry = (key, value) ∨ entry ∈ entries := by
  induction entries with
  | nil => exact .inl (List.mem_singleton.1 h)
  | cons e rest ih =>
      unfold place at h
      split at h
      · exact (List.mem_cons.1 h)
      · exact (List.mem_cons.1 h).imp_right (List.mem_cons_of_mem _)
      · rcases List.mem_cons.1 h with rfl | h
        · exact .inr List.mem_cons_self
        · exact (ih h).imp_right (List.mem_cons_of_mem _)

theorem increasing_remove {entries : List (κ × ν)} (h : Increasing entries) (key : κ) :
    Increasing (remove key entries) :=
  List.Pairwise.sublist (remove_sublist key entries) h

theorem increasing_place [Std.TransOrd κ] {entries : List (κ × ν)} (h : Increasing entries)
    (key : κ) (value : ν) : Increasing (place key value entries) := by
  induction entries with
  | nil => exact List.pairwise_singleton _ _
  | cons e rest ih =>
      obtain ⟨hfirst, hrest⟩ := List.pairwise_cons.1 h
      unfold OrdMap.place
      split
      next hlt =>
        refine List.pairwise_cons.2 ⟨fun entry hmem => ?_, h⟩
        rcases List.mem_cons.1 hmem with rfl | hmem
        · exact hlt
        · exact Std.TransCmp.lt_trans hlt (hfirst entry hmem)
      next heq =>
        exact List.pairwise_cons.2
          ⟨fun entry hmem => Std.TransCmp.lt_of_eq_of_lt heq (hfirst entry hmem), hrest⟩
      next hgt =>
        refine List.pairwise_cons.2 ⟨fun entry hmem => ?_, ih hrest⟩
        rcases mem_place hmem with rfl | hmem
        · exact Std.OrientedCmp.lt_of_gt hgt
        · exact hfirst entry hmem

theorem lookup_place [Std.TransOrd κ] (key : κ) (value : ν) (entries : List (κ × ν)) (k : κ) :
    lookup k (place key value entries)
      = if compare k key = .eq then some value else lookup k entries := by
  induction entries with
  | nil => rfl
  | cons e rest ih =>
      unfold place
      split
      · rfl
      next heq =>
        simp only [lookup]
        rw [Std.TransCmp.congr_right heq]
        split <;> rfl
      next hgt =>
        simp only [lookup, ih]
        by_cases hk : compare k key = .eq
        · have hgt' : compare k e.1 = .gt := (Std.TransCmp.congr_left hk).trans hgt
          simp [hk, hgt']
        · rw [if_neg hk, if_neg hk]

theorem lookup_eq_none_of_lt {key : κ} {entries : List (κ × ν)}
    (h : ∀ entry ∈ entries, compare key entry.1 = .lt) : lookup key entries = none := by
  induction entries with
  | nil => rfl
  | cons e rest ih =>
      have hlt := h e List.mem_cons_self
      simp only [lookup, hlt]
      exact ih fun entry hmem => h entry (List.mem_cons_of_mem _ hmem)

theorem lookup_remove [Std.TransOrd κ] {entries : List (κ × ν)} (h : Increasing entries)
    (key k : κ) :
    lookup k (remove key entries)
      = if compare k key = .eq then none else lookup k entries := by
  induction entries with
  | nil => simp [remove, lookup]
  | cons e rest ih =>
      obtain ⟨hfirst, hrest⟩ := List.pairwise_cons.1 h
      unfold remove
      split
      next heq =>
        by_cases hk : compare k key = .eq
        · rw [if_pos hk]
          exact lookup_eq_none_of_lt fun entry hmem =>
            Std.TransCmp.lt_of_eq_of_lt (Std.TransCmp.eq_trans hk heq) (hfirst entry hmem)
        · rw [if_neg hk]
          simp only [lookup]
          rw [if_neg]
          rwa [← Std.TransCmp.congr_right heq]
      next hne =>
        simp only [lookup, ih hrest]
        by_cases hk : compare k key = .eq
        · rw [if_pos hk, if_neg, if_pos hk]
          rwa [Std.TransCmp.congr_left hk]
        · rw [if_neg hk, if_neg hk]

/-! ## Maps -/

def empty : OrdMap κ ν :=
  ⟨[], .nil⟩

instance : EmptyCollection (OrdMap κ ν) := ⟨empty⟩

instance : Inhabited (OrdMap κ ν) := ⟨empty⟩

def isEmpty (m : OrdMap κ ν) : Bool :=
  m.entries.isEmpty

def size (m : OrdMap κ ν) : Nat :=
  m.entries.length

/-- The value at a key. -/
def get? (m : OrdMap κ ν) (key : κ) : Option ν :=
  lookup key m.entries

def contains (m : OrdMap κ ν) (key : κ) : Bool :=
  (m.get? key).isSome

/-- Sets the value at a key. -/
def insert [Std.TransOrd κ] (m : OrdMap κ ν) (key : κ) (value : ν) : OrdMap κ ν :=
  ⟨place key value m.entries, increasing_place m.increasing key value⟩

/-- Takes a key out. -/
def erase (m : OrdMap κ ν) (key : κ) : OrdMap κ ν :=
  ⟨remove key m.entries, increasing_remove m.increasing key⟩

/-- Sets the value at a key, or takes the key out. -/
def set [Std.TransOrd κ] (m : OrdMap κ ν) (key : κ) : Option ν → OrdMap κ ν
  | some value => m.insert key value
  | none => m.erase key

/-- Inserts entries one after another, a later one replacing an earlier one. -/
def insertAll [Std.TransOrd κ] (m : OrdMap κ ν) (entries : List (κ × ν)) : OrdMap κ ν :=
  entries.foldl (fun m entry => m.insert entry.1 entry.2) m

def ofList [Std.TransOrd κ] (entries : List (κ × ν)) : OrdMap κ ν :=
  empty.insertAll entries

def keys (m : OrdMap κ ν) : List κ :=
  m.entries.map Prod.fst

def values (m : OrdMap κ ν) : List ν :=
  m.entries.map Prod.snd

/-- The entry with the least key. -/
def first? (m : OrdMap κ ν) : Option (κ × ν) :=
  m.entries.head?

/-- The entry with the greatest key. -/
def last? (m : OrdMap κ ν) : Option (κ × ν) :=
  m.entries.getLast?

@[simp] theorem get?_empty (key : κ) : (empty : OrdMap κ ν).get? key = none := rfl

theorem get?_insert [Std.TransOrd κ] (m : OrdMap κ ν) (key : κ) (value : ν) (k : κ) :
    (m.insert key value).get? k = if compare k key = .eq then some value else m.get? k :=
  lookup_place key value m.entries k

theorem get?_erase [Std.TransOrd κ] (m : OrdMap κ ν) (key k : κ) :
    (m.erase key).get? k = if compare k key = .eq then none else m.get? k :=
  lookup_remove m.increasing key k

@[simp] theorem get?_insert_self [Std.TransOrd κ] (m : OrdMap κ ν) (key : κ) (value : ν) :
    (m.insert key value).get? key = some value := by
  rw [get?_insert, if_pos (Std.ReflCmp.compare_self)]

@[simp] theorem get?_erase_self [Std.TransOrd κ] (m : OrdMap κ ν) (key : κ) :
    (m.erase key).get? key = none := by
  rw [get?_erase, if_pos (Std.ReflCmp.compare_self)]

theorem mem_of_lookup [Std.LawfulEqOrd κ] {key : κ} {value : ν} {entries : List (κ × ν)}
    (h : lookup key entries = some value) : (key, value) ∈ entries := by
  induction entries with
  | nil => cases h
  | cons e rest ih =>
      unfold lookup at h
      split at h
      next heq =>
        cases h
        rw [Std.LawfulEqOrd.eq_of_compare heq]
        exact List.mem_cons_self
      · exact List.mem_cons_of_mem _ (ih h)

/-- Two lists in increasing order are equal when all look-ups agree. -/
theorem eq_of_lookup [Std.TransOrd κ] [Std.LawfulEqOrd κ] {l l' : List (κ × ν)}
    (h : Increasing l) (h' : Increasing l') (hlookup : ∀ k, lookup k l = lookup k l') :
    l = l' := by
  induction l generalizing l' with
  | nil =>
      cases l' with
      | nil => rfl
      | cons e rest =>
          have := hlookup e.1
          simp [lookup, Std.ReflCmp.compare_self] at this
  | cons e rest ih =>
      obtain ⟨hfirst, hrest⟩ := List.pairwise_cons.1 h
      cases l' with
      | nil =>
          have := hlookup e.1
          simp [lookup, Std.ReflCmp.compare_self] at this
      | cons e' rest' =>
          obtain ⟨hfirst', hrest'⟩ := List.pairwise_cons.1 h'
          have hsame : compare e.1 e'.1 = .eq := by
            cases hcmp : compare e.1 e'.1 with
            | eq => rfl
            | lt =>
                have hnone : lookup e.1 (e' :: rest') = none :=
                  lookup_eq_none_of_lt fun entry hmem => by
                    rcases List.mem_cons.1 hmem with rfl | hmem
                    · exact hcmp
                    · exact Std.TransCmp.lt_trans hcmp (hfirst' entry hmem)
                have := hlookup e.1
                rw [hnone] at this
                simp [lookup, Std.ReflCmp.compare_self] at this
            | gt =>
                have hlt := Std.OrientedCmp.lt_of_gt hcmp
                have hnone : lookup e'.1 (e :: rest) = none :=
                  lookup_eq_none_of_lt fun entry hmem => by
                    rcases List.mem_cons.1 hmem with rfl | hmem
                    · exact hlt
                    · exact Std.TransCmp.lt_trans hlt (hfirst entry hmem)
                have := hlookup e'.1
                rw [hnone] at this
                simp [lookup, Std.ReflCmp.compare_self] at this
          have hkey : e.1 = e'.1 := Std.LawfulEqOrd.eq_of_compare hsame
          have hvalue : e.2 = e'.2 := by
            have := hlookup e.1
            simpa [lookup, hkey, Std.ReflCmp.compare_self] using this
          have hhead : e = e' := Prod.ext hkey hvalue
          subst hhead
          congr 1
          refine ih hrest hrest' fun k => ?_
          by_cases hk : compare k e.1 = .eq
          · rw [lookup_eq_none_of_lt fun entry hmem =>
                Std.TransCmp.lt_of_eq_of_lt hk (hfirst entry hmem),
              lookup_eq_none_of_lt fun entry hmem =>
                Std.TransCmp.lt_of_eq_of_lt hk (hfirst' entry hmem)]
          · have := hlookup k
            simpa [lookup, hk] using this

/-- The look-ups determine the map. -/
theorem ext_get? [Std.TransOrd κ] [Std.LawfulEqOrd κ] {m m' : OrdMap κ ν}
    (h : ∀ k, m.get? k = m'.get? k) : m = m' := by
  cases m
  cases m'
  congr
  exact eq_of_lookup ‹_› ‹_› h

end OrdMap

/-- A finite set, with its elements in order. -/
abbrev OrdSet (κ : Type) [Ord κ] := OrdMap κ Unit

namespace OrdSet

def add [Std.TransOrd κ] (s : OrdSet κ) (key : κ) : OrdSet κ :=
  OrdMap.insert s key ()

def addAll [Std.TransOrd κ] (s : OrdSet κ) (keys : List κ) : OrdSet κ :=
  keys.foldl add s

def ofList [Std.TransOrd κ] (keys : List κ) : OrdSet κ :=
  addAll OrdMap.empty keys

end OrdSet

end OrdMap

end LiveQuery
