import Mathlib.Data.List.Basic
import Mathlib.Data.List.Nodup
import Mathlib.Data.List.Perm.Basic

/-! Lists of values filed under distinct keys, an entry being taken out by moving the last one. -/

namespace Registry

variable {κ β : Type*} [DecidableEq κ] {i : Nat} {entries : List (κ × β)} {key : κ} {value : β}

/-- The value filed under a key. -/
def find (entries : List (κ × β)) (key : κ) : Option β :=
  (entries.find? fun entry => entry.1 = key).map (·.2)

/-- Change the value filed under a key. -/
def modify (entries : List (κ × β)) (key : κ) (f : β → β) : List (κ × β) :=
  entries.map fun entry => if entry.1 = key then (entry.1, f entry.2) else entry

/-- Take out the entry of a key, the last entry taking its place. -/
def remove (entries : List (κ × β)) (key : κ) : List (κ × β) :=
  match entries.findIdx? (fun entry => entry.1 = key), entries.getLast? with
  | some i, some last => (entries.set i last).dropLast
  | _, _ => entries

/-- No two entries have one key. -/
def Distinct (entries : List (κ × β)) : Prop := (entries.map (·.1)).Nodup

/-- Replacing an entry by the last and dropping the last takes that entry out. -/
theorem set_dropLast_perm {α : Type*} {items : List α} (inside : i < items.length)
    {last : α} (ends : items.getLast? = some last) :
    (items[i] :: (items.set i last).dropLast).Perm items := by
  -- Everything before the last entry is looked at apart from it.
  obtain ⟨front, rfl⟩ : ∃ front, items = front ++ [last] := List.getLast?_eq_some_iff.mp ends
  rcases Nat.lt_or_ge i front.length with before | after
  · rw [List.set_append_left i last before, List.dropLast_concat, List.getElem_append_left before]
    have moved : (front[i] :: front.set i last).Perm (last :: front) := by
      rw [List.set_eq_take_append_cons_drop, if_pos before]
      conv_rhs => rw [← List.take_append_drop i front, List.drop_eq_getElem_cons before]
      have swapped : (front[i] :: (front.take i ++ last :: front.drop (i + 1))).Perm
          (front[i] :: last :: (front.take i ++ front.drop (i + 1))) :=
        List.Perm.cons _ List.perm_middle
      refine swapped.trans ((List.Perm.swap _ _ _).trans (List.Perm.cons _ ?_))
      exact List.perm_middle.symm
    exact moved.trans (List.perm_append_singleton last front).symm
  · -- The entry is the last one itself.
    have same : i = front.length := by
      rw [List.length_append, List.length_singleton] at inside
      omega
    subst same
    have stays : (front ++ [last]).set front.length last = front ++ [last] := by simp
    rw [stays, List.dropLast_concat, List.getElem_concat_length rfl]
    exact (List.perm_append_singleton last front).symm

/-- What is found under a key is filed under it. -/
theorem mem_of_find (found : find entries key = some value) : (key, value) ∈ entries := by
  obtain ⟨entry, first, rfl⟩ := Option.map_eq_some_iff.mp found
  have named := List.find?_some first
  have filed := List.mem_of_find?_eq_some first
  simp only [decide_eq_true_eq] at named
  rw [← named]
  exact filed

/-- What is filed under a key is one of the entries. -/
theorem find_eq_some_iff (distinct : Distinct entries) :
    find entries key = some value ↔ (key, value) ∈ entries := by
  constructor
  · exact mem_of_find
  · intro filed
    unfold find
    induction entries with
    | nil => cases filed
    | cons entry rest ih =>
      obtain ⟨apart, distinct⟩ := List.nodup_cons.mp distinct
      rcases List.mem_cons.mp filed with rfl | later
      · simp
      · -- An earlier entry of the same key would be a second one.
        have other : entry.1 ≠ key := by
          rintro rfl
          exact apart (List.mem_map.mpr ⟨_, later, rfl⟩)
        rw [List.find?_cons_of_neg (by simpa using other)]
        exact ih distinct later

/-- Entries keep their keys when values change. -/
theorem modify_keys (entries : List (κ × β)) (key : κ) (f : β → β) :
    (modify entries key f).map (·.1) = entries.map (·.1) := by
  unfold modify
  rw [List.map_map]
  apply List.map_congr_left
  intro entry _
  by_cases same : entry.1 = key <;> simp [same]

/-- Values may change without any two entries coming under one key. -/
theorem Distinct.modify (distinct : Distinct entries) (key : κ)
    (f : β → β) : Distinct (modify entries key f) := by
  unfold Distinct
  rw [modify_keys]
  exact distinct

/-- The entries after one value has changed. -/
theorem mem_modify {entries : List (κ × β)} {key other : κ} {f : β → β} {value : β} :
    (other, value) ∈ modify entries key f ↔
      ∃ old, (other, old) ∈ entries ∧ value = if other = key then f old else old := by
  unfold modify
  rw [List.mem_map]
  constructor
  · rintro ⟨⟨name, old⟩, filed, changed⟩
    by_cases same : name = key
    · simp only [same, if_true, Prod.mk.injEq] at changed
      obtain ⟨rfl, rfl⟩ := changed
      exact ⟨old, by rw [← same]; exact filed, by simp⟩
    · simp only [same, if_false, Prod.mk.injEq] at changed
      obtain ⟨rfl, rfl⟩ := changed
      exact ⟨old, filed, by simp [same]⟩
  · rintro ⟨old, filed, rfl⟩
    refine ⟨(other, old), filed, ?_⟩
    by_cases same : other = key <;> simp [same]

/-- Taking out an entry leaves the others in some order. -/
theorem remove_perm (distinct : Distinct entries)
    (filed : (key, value) ∈ entries) : ((key, value) :: remove entries key).Perm entries := by
  -- The first entry under the key is the one filed, as there is no other.
  cases found : entries.findIdx? fun entry => entry.1 = key with
  | none =>
    have absent := List.findIdx?_eq_none_iff.mp found _ filed
    simp at absent
  | some i =>
    obtain ⟨inside, named, -⟩ := List.findIdx?_eq_some_iff_getElem.mp found
    simp only [decide_eq_true_eq] at named
    have same : entries[i] = (key, value) := by
      have here : (key, entries[i].2) ∈ entries := by
        rw [← named]
        exact List.getElem_mem inside
      have one := (find_eq_some_iff distinct).mpr here
      rw [(find_eq_some_iff distinct).mpr filed] at one
      rw [← Option.some.inj one.symm, ← named]
    obtain ⟨last, ends⟩ : ∃ last, entries.getLast? = some last := by
      cases entries with
      | nil => cases filed
      | cons entry rest => exact ⟨_, List.getLast?_eq_some_getLast (List.cons_ne_nil _ _)⟩
    have taken := set_dropLast_perm inside ends
    simp only [remove, found, ends]
    rwa [same] at taken

/-- The entry taken out has a key that no remaining entry has. -/
theorem Distinct.apart (distinct : Distinct entries)
    (filed : (key, value) ∈ entries) : Distinct ((key, value) :: Registry.remove entries key) := by
  have order := (remove_perm distinct filed).map Prod.fst
  exact order.nodup_iff.mpr distinct

/-- A key that is not there is not taken out. -/
theorem remove_absent (absent : key ∉ entries.map (·.1)) :
    remove entries key = entries := by
  have missing : entries.findIdx? (fun entry => decide (entry.1 = key)) = none := by
    rw [List.findIdx?_eq_none_iff]
    intro entry filed
    rw [decide_eq_false_iff_not]
    rintro rfl
    exact absent (List.mem_map.mpr ⟨entry, filed, rfl⟩)
  simp only [remove, missing]

section

variable (distinct : Distinct entries)
include distinct

/-- No two of the remaining entries have one key. -/
theorem Distinct.remove (key : κ) :
    Distinct (remove entries key) := by
  by_cases present : key ∈ entries.map (·.1)
  · obtain ⟨⟨_, value⟩, filed, rfl⟩ := List.mem_map.mp present
    exact (List.nodup_cons.mp (distinct.apart filed)).2
  · rw [remove_absent present]
    exact distinct

/-- The entries that remain are those of the other keys. -/
theorem mem_remove {other : κ} :
    (other, value) ∈ remove entries key ↔ (other, value) ∈ entries ∧ other ≠ key := by
  by_cases present : key ∈ entries.map (·.1)
  · obtain ⟨⟨name, taken⟩, filed, rfl⟩ := List.mem_map.mp present
    have apart := (List.nodup_cons.mp (distinct.apart filed)).1
    rw [← (remove_perm distinct filed).mem_iff, List.mem_cons]
    constructor
    · intro stays
      refine ⟨.inr stays, ?_⟩
      rintro rfl
      exact apart (List.mem_map.mpr ⟨_, stays, rfl⟩)
    · rintro ⟨same | stays, differs⟩
      · exact absurd (congrArg Prod.fst same) differs
      · exact stays
  · rw [remove_absent present]
    constructor
    · intro filed
      refine ⟨filed, ?_⟩
      rintro rfl
      exact present (List.mem_map.mpr ⟨_, filed, rfl⟩)
    · exact And.left

omit [DecidableEq κ] in
/-- Entries of one key stand in one place. -/
theorem Distinct.place {j : Nat} {entry other : κ × β} (here : entries[i]? = some entry)
    (there : entries[j]? = some other) (same : entry.1 = other.1) : i = j := by
  obtain ⟨inside, -⟩ := List.getElem?_eq_some_iff.mp here
  refine (List.getElem?_inj (by simpa using inside) distinct).mp ?_
  rw [List.getElem?_map, List.getElem?_map, here, there, Option.map_some, Option.map_some, same]

/-- An entry is the first of its key. -/
theorem Distinct.findIdx?_eq (here : entries[i]? = some (key, value)) :
    entries.findIdx? (fun entry => decide (entry.1 = key)) = some i := by
  obtain ⟨inside, there⟩ := List.getElem?_eq_some_iff.mp here
  rw [List.findIdx?_eq_some_iff_getElem]
  refine ⟨inside, by simp [there], fun k before => ?_⟩
  have apart : entries[k].1 ≠ key := by
    intro same
    have := distinct.place (List.getElem?_eq_getElem (by omega)) here same
    omega
  simpa using apart

/-- An entry is taken out where it stands. -/
theorem Distinct.remove_eq (here : entries[i]? = some (key, value)) :
    ∃ last, entries.getLast? = some last ∧
      Registry.remove entries key = (entries.set i last).dropLast := by
  obtain ⟨inside, -⟩ := List.getElem?_eq_some_iff.mp here
  have filled : entries ≠ [] := List.ne_nil_of_length_pos (by omega)
  refine ⟨_, List.getLast?_eq_some_getLast filled, ?_⟩
  simp only [Registry.remove, distinct.findIdx?_eq here, List.getLast?_eq_some_getLast filled]

/-- A value is changed where it stands. -/
theorem Distinct.modify_eq (here : entries[i]? = some (key, value)) (f : β → β) :
    Registry.modify entries key f = entries.set i (key, f value) := by
  apply List.ext_getElem?
  intro j
  unfold Registry.modify
  rw [List.getElem?_map]
  by_cases same : i = j
  · subst same
    rw [here, List.getElem?_set_self (List.getElem?_eq_some_iff.mp here).1]
    simp
  · rw [List.getElem?_set_ne same]
    cases there : entries[j]? with
    | none => rfl
    | some entry =>
      have apart : entry.1 ≠ key := fun clash => same (distinct.place here there clash.symm)
      simp [apart]

/-- Taking out an entry leaves what stands before it, and what stands behind it in some order. -/
theorem Distinct.remove_split (here : entries[i]? = some (key, value)) :
    (Registry.remove entries key).take i = entries.take i ∧
      ((Registry.remove entries key).drop i).Perm (entries.drop (i + 1)) := by
  obtain ⟨last, ends, taken⟩ := distinct.remove_eq here
  obtain ⟨inside, -⟩ := List.getElem?_eq_some_iff.mp here
  obtain ⟨front, rfl⟩ : ∃ front, entries = front ++ [last] := List.getLast?_eq_some_iff.mp ends
  rw [List.length_append, List.length_singleton] at inside
  rw [taken]
  rcases Nat.lt_or_ge i front.length with before | after
  · -- The last entry comes first of those behind.
    rw [List.set_append_left i last before, List.dropLast_concat, List.take_set_of_le (Nat.le_refl i),
      List.take_append_of_le_length (Nat.le_of_lt before),
      List.drop_append_of_le_length (by omega)]
    refine ⟨rfl, ?_⟩
    rw [List.drop_set, if_neg (by omega), Nat.sub_self, List.drop_eq_getElem_cons before,
      List.set_cons_zero]
    exact (List.perm_append_singleton last _).symm
  · obtain rfl : i = front.length := by omega
    rw [List.set_append_right _ _ (Nat.le_refl _)]
    simp

end

/-- Taking out an entry adds none. -/
theorem remove_length_le (entries : List (κ × β)) (key : κ) :
    (remove entries key).length ≤ entries.length := by
  unfold remove
  split
  · rw [List.length_dropLast, List.length_set]
    exact Nat.sub_le _ _
  · exact Nat.le_refl _

end Registry
