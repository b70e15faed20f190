/-! # Keyed lists

Lists of values under keys, in the order in which the keys first came. A value that is put under a
key takes the place of the one before.
-/

namespace Nibble.Keyed

variable {κ α : Type} [DecidableEq κ]

def find? (entries : List (κ × α)) (key : κ) : Option α :=
  (entries.find? (·.1 = key)).map (·.2)

def insert (key : κ) (value : α) : List (κ × α) → List (κ × α)
  | [] => [(key, value)]
  | (other, old) :: rest =>
    if other = key then (key, value) :: rest else (other, old) :: insert key value rest

theorem find?_cons (key other : κ) (value : α) (rest : List (κ × α)) :
    find? ((other, value) :: rest) key = if other = key then some value else find? rest key := by
  by_cases h : other = key <;> simp [find?, h]

theorem find?_insert (entries : List (κ × α)) (key other : κ) (value : α) :
    find? (insert key value entries) other =
      if key = other then some value else find? entries other := by
  induction entries with
  | nil => rw [insert, find?_cons]
  | cons entry rest ih =>
    obtain ⟨k, v⟩ := entry
    rw [insert]
    split
    next h =>
      subst h
      simp only [find?_cons]
      split <;> rfl
    next h =>
      rw [find?_cons, find?_cons, ih]
      split
      next hk => rw [if_neg fun he => h (hk.trans he.symm)]
      next => rfl

theorem mem_insert_self (entries : List (κ × α)) (key : κ) (value : α) :
    (key, value) ∈ insert key value entries := by
  induction entries with
  | nil => exact .head _
  | cons entry rest ih =>
    rw [insert]
    split
    · exact .head _
    · exact .tail _ ih

theorem mem_of_mem_insert {entries : List (κ × α)} {key : κ} {value : α} {entry : κ × α}
    (h : entry ∈ insert key value entries) : entry = (key, value) ∨ entry ∈ entries := by
  induction entries with
  | nil => exact .inl (List.mem_singleton.mp h)
  | cons other rest ih =>
    rw [insert] at h
    split at h
    · exact (List.mem_cons.mp h).imp_right (.tail _)
    · rcases List.mem_cons.mp h with rfl | h
      · exact .inr (.head _)
      · exact (ih h).imp_right (.tail _)

/-- A key that is there keeps its place, and any other comes last. -/
theorem keys_insert (entries : List (κ × α)) (key : κ) (value : α) :
    (insert key value entries).map Prod.fst =
      if key ∈ entries.map Prod.fst then entries.map Prod.fst
      else entries.map Prod.fst ++ [key] := by
  induction entries with
  | nil => rfl
  | cons entry rest ih =>
    obtain ⟨k, v⟩ := entry
    rw [insert]
    split
    next h => simp [h]
    next h =>
      rw [List.map_cons, ih]
      by_cases hk : key ∈ rest.map Prod.fst <;> simp_all [eq_comm]

theorem nodup_keys_insert {entries : List (κ × α)} (h : (entries.map Prod.fst).Nodup) (key : κ)
    (value : α) : ((insert key value entries).map Prod.fst).Nodup := by
  rw [keys_insert]
  split
  next => exact h
  next hk =>
    refine List.nodup_append.mpr ⟨h, List.pairwise_singleton _ key, ?_⟩
    rintro other ho _ hkey rfl
    exact hk (List.mem_singleton.mp hkey ▸ ho)

theorem isSome_find?_iff {entries : List (κ × α)} {key : κ} :
    (find? entries key).isSome ↔ key ∈ entries.map Prod.fst := by
  simp only [find?, Option.isSome_map, List.find?_isSome, decide_eq_true_eq, List.mem_map]

theorem length_insert (entries : List (κ × α)) (key : κ) (value : α) :
    (insert key value entries).length =
      if (find? entries key).isSome then entries.length else entries.length + 1 := by
  have hkeys := congrArg List.length (keys_insert entries key value)
  rw [List.length_map] at hkeys
  rw [hkeys]
  by_cases hk : key ∈ entries.map Prod.fst
  · rw [if_pos hk, if_pos (isSome_find?_iff.mpr hk), List.length_map]
  · rw [if_neg hk, if_neg (mt isSome_find?_iff.mp hk), List.length_append, List.length_map,
      List.length_singleton]

theorem find?_eq_some_iff_mem {entries : List (κ × α)} (h : (entries.map Prod.fst).Nodup) {key : κ}
    {value : α} : find? entries key = some value ↔ (key, value) ∈ entries := by
  induction entries with
  | nil => exact ⟨nofun, nofun⟩
  | cons entry rest ih =>
    obtain ⟨other, old⟩ := entry
    obtain ⟨hother, hrest⟩ := List.nodup_cons.mp h
    rw [find?_cons, List.mem_cons, Prod.mk.injEq]
    split
    next hk =>
      subst hk
      have hnot : (other, value) ∉ rest := fun hmem =>
        hother (List.mem_map.mpr ⟨_, hmem, rfl⟩)
      simp only [hnot, or_false, true_and, Option.some.injEq, eq_comm]
    next hk =>
      have hne : key ≠ other := fun he => hk he.symm
      simp only [hne, false_and, false_or, ih hrest]

end Nibble.Keyed
