import Mailroom.Data.Table
import Mathlib.Data.List.Nodup

/-! Tables as finite maps: what is found under a key after each change, and how the entries stand
when every key is there once. -/

namespace Mailroom.Table

variable {κ α : Type} [DecidableEq κ]

theorem get?_cons (entry : κ × α) (rest : List (κ × α)) (key : κ) :
    (⟨entry :: rest⟩ : Table κ α).get? key =
      if key = entry.1 then some entry.2 else (⟨rest⟩ : Table κ α).get? key := by
  obtain ⟨k, v⟩ := entry
  by_cases h : key = k
  · simp [get?, h]
  · simp [get?, List.lookup_cons, h, beq_eq_false_iff_ne.mpr h]

theorem get?_put (t : Table κ α) (key other : κ) (value : α) :
    (t.put key value).get? other = if other = key then some value else t.get? other := by
  by_cases h : other = key
  · subst h
    rw [if_pos rfl, get?_put_self]
  · rw [if_neg h, get?_put_of_ne t value h]

theorem get?_remove (t : Table κ α) (key other : κ) :
    (t.remove key).get? other = if other = key then none else t.get? other := by
  obtain ⟨entries⟩ := t
  induction entries with
  | nil => simp [remove, get?]
  | cons entry rest ih =>
    by_cases hk : entry.1 = key
    · have hdrop : (⟨entry :: rest⟩ : Table κ α).remove key = (⟨rest⟩ : Table κ α).remove key := by
        simp [remove, hk]
      rw [hdrop, ih, get?_cons, hk]
      split <;> rfl
    · have hkeep : (⟨entry :: rest⟩ : Table κ α).remove key =
          ⟨entry :: ((⟨rest⟩ : Table κ α).remove key).entries⟩ := by
        simp [remove, hk]
      rw [hkeep, get?_cons, ih, get?_cons]
      by_cases ho : other = entry.1
      · simp [ho, hk]
      · simp [ho]

theorem get?_modify (t : Table κ α) (key other : κ) (f : α → α) :
    (t.modify key f).get? other =
      if other = key then (t.get? other).map f else t.get? other := by
  obtain ⟨entries⟩ := t
  induction entries with
  | nil => simp [modify, get?]
  | cons entry rest ih =>
    have hcons : (⟨entry :: rest⟩ : Table κ α).modify key f =
        ⟨(if entry.1 = key then (entry.1, f entry.2) else entry) ::
          ((⟨rest⟩ : Table κ α).modify key f).entries⟩ := rfl
    rw [hcons, get?_cons, ih, get?_cons]
    by_cases hk : entry.1 = key
    · subst hk
      by_cases ho : other = entry.1 <;> simp [ho]
    · by_cases ho : other = entry.1 <;> simp [ho, hk]

omit [DecidableEq κ] in
theorem eq_empty {t : Table κ α} (h : t.entries.isEmpty = true) : t = .empty :=
  congrArg mk (List.isEmpty_iff.mp h)

omit [DecidableEq κ] in
@[simp] theorem keys_map {β : Type} (f : α → β) (t : Table κ α) : (t.map f).keys = t.keys := by
  simp [keys, map, Function.comp_def]

@[simp] theorem keys_modify (t : Table κ α) (key : κ) (f : α → α) :
    (t.modify key f).keys = t.keys := by
  rw [keys, modify, List.map_map]
  refine List.map_congr_left fun entry _ => ?_
  rw [Function.comp_apply]
  split <;> rfl

theorem get?_map {β : Type} (f : α → β) (t : Table κ α) (key : κ) :
    (t.map f).get? key = (t.get? key).map f := by
  obtain ⟨entries⟩ := t
  induction entries with
  | nil => rfl
  | cons entry rest ih =>
    have hcons : (⟨entry :: rest⟩ : Table κ α).map f =
        ⟨(entry.1, f entry.2) :: ((⟨rest⟩ : Table κ α).map f).entries⟩ := rfl
    rw [hcons, get?_cons, ih, get?_cons]
    split <;> rfl

theorem get?_eq_none_iff {t : Table κ α} {key : κ} : t.get? key = none ↔ key ∉ t.keys := by
  simp [get?, keys, List.lookup_eq_none_iff]
  grind

theorem mem_of_get? {t : Table κ α} {key : κ} {value : α} (h : t.get? key = some value) :
    (key, value) ∈ t.entries := by
  obtain ⟨entries⟩ := t
  induction entries with
  | nil => simp [get?] at h
  | cons entry rest ih =>
    rw [get?_cons] at h
    by_cases hk : key = entry.1
    · rw [if_pos hk] at h
      rw [hk, ← Option.some.inj h]
      exact List.mem_cons_self
    · rw [if_neg hk] at h
      exact List.mem_cons_of_mem _ (ih h)

theorem get?_of_mem {t : Table κ α} (hkeys : t.keys.Nodup) {key : κ} {value : α}
    (h : (key, value) ∈ t.entries) : t.get? key = some value := by
  obtain ⟨entries⟩ := t
  induction entries with
  | nil => simp at h
  | cons entry rest ih =>
    rw [get?_cons]
    obtain ⟨hnew, hrest⟩ := List.nodup_cons.mp hkeys
    rcases List.mem_cons.mp h with rfl | hmem
    · rw [if_pos rfl]
    · have hne : key ≠ entry.1 := by
        rintro rfl
        exact hnew (List.mem_map.mpr ⟨_, hmem, rfl⟩)
      rw [if_neg hne]
      exact ih hrest hmem

/-- A new key goes to the end. -/
theorem put_of_new {t : Table κ α} {key : κ} (value : α) (h : key ∉ t.keys) :
    t.put key value = ⟨t.entries ++ [(key, value)]⟩ := by
  obtain ⟨entries⟩ := t
  induction entries with
  | nil => rfl
  | cons entry rest ih =>
    obtain ⟨hne, hrest⟩ := not_or.mp (List.mem_cons.not.mp h)
    have := congrArg Table.entries (ih hrest)
    simp only [put] at this ⊢
    rw [putEntry, if_neg (Ne.symm hne), this]
    rfl

theorem keys_put_of_mem {t : Table κ α} {key : κ} (value : α) (h : key ∈ t.keys) :
    (t.put key value).keys = t.keys := by
  obtain ⟨entries⟩ := t
  induction entries with
  | nil => simp [keys] at h
  | cons entry rest ih =>
    by_cases hk : entry.1 = key
    · simp [put, putEntry, keys, hk]
    · have hrest : key ∈ (⟨rest⟩ : Table κ α).keys := by
        rcases List.mem_cons.mp h with rfl | hmem
        · exact absurd rfl hk
        · exact hmem
      have := ih hrest
      simp only [put, keys] at this ⊢
      rw [putEntry, if_neg hk, List.map_cons, List.map_cons, this]

theorem nodup_put {t : Table κ α} (hkeys : t.keys.Nodup) (key : κ) (value : α) :
    (t.put key value).keys.Nodup := by
  by_cases h : key ∈ t.keys
  · rw [keys_put_of_mem value h]
    exact hkeys
  · rw [put_of_new value h]
    simpa [keys, List.nodup_append] using
      ⟨hkeys, fun a b hab hak => h (hak ▸ List.mem_map.mpr ⟨(a, b), hab, rfl⟩)⟩

/-- A value that is put stands in the place of its key, or at the end when the key is new. -/
theorem values_put {t : Table κ α} (hkeys : t.keys.Nodup) (key : κ) (value : α) :
    (t.put key value).values =
      (t.entries.map fun entry => if entry.1 = key then value else entry.2) ++
        if t.has key then [] else [value] := by
  obtain ⟨entries⟩ := t
  induction entries with
  | nil => rfl
  | cons entry rest ih =>
    obtain ⟨hnew, hrest⟩ := List.nodup_cons.mp hkeys
    by_cases hk : entry.1 = key
    · have hothers : rest.map (fun e => if e.1 = key then value else e.2) = rest.map Prod.snd :=
        List.map_congr_left fun e he => if_neg fun heq =>
          hnew (List.mem_map.mpr ⟨e, he, heq.trans hk.symm⟩)
      simp [put, putEntry, values, has, get?_cons, hk, hothers]
    · have hput : (⟨entry :: rest⟩ : Table κ α).put key value =
          ⟨entry :: ((⟨rest⟩ : Table κ α).put key value).entries⟩ := by
        simp [put, putEntry, hk]
      have hhas : (⟨entry :: rest⟩ : Table κ α).has key = (⟨rest⟩ : Table κ α).has key := by
        simp [has, get?_cons, Ne.symm hk]
      rw [hput, hhas, List.map_cons, if_neg hk, List.cons_append, ← ih hrest]
      rfl

/-- A value that was put is the only one to change under its key. -/
theorem modify_put {t : Table κ α} (hkeys : t.keys.Nodup) (key : κ) (value : α) (f : α → α) :
    (t.put key value).modify key f = t.put key (f value) := by
  obtain ⟨entries⟩ := t
  simp only [put, modify]
  congr 1
  induction entries with
  | nil => simp [putEntry]
  | cons entry rest ih =>
    obtain ⟨hnew, hrest⟩ := List.nodup_cons.mp hkeys
    by_cases hk : entry.1 = key
    · have hothers : rest.map (fun e => if e.1 = key then (e.1, f e.2) else e) = rest :=
        (List.map_congr_left fun e he => if_neg fun heq =>
          hnew (List.mem_map.mpr ⟨e, he, heq.trans hk.symm⟩)).trans (List.map_id rest)
      rw [putEntry, if_pos hk, putEntry, if_pos hk, List.map_cons, if_pos rfl, hothers]
    · rw [putEntry, if_neg hk, putEntry, if_neg hk, List.map_cons, if_neg hk, ih hrest]

/-- When every value stands under one key, the values are different from each other. -/
theorem nodup_values {t : Table κ α} (hkeys : t.keys.Nodup)
    (honce : ∀ key key' value, t.get? key = some value → t.get? key' = some value → key = key') :
    t.values.Nodup := by
  refine List.Nodup.map_on (fun entry hentry entry' hentry' heq => ?_) (List.Nodup.of_map _ hkeys)
  have hget := get?_of_mem hkeys hentry
  have hget' := get?_of_mem hkeys hentry'
  exact Prod.ext (honce _ _ _ hget (heq ▸ hget')) heq

theorem mem_values_iff {t : Table κ α} (hkeys : t.keys.Nodup) {value : α} :
    value ∈ t.values ↔ ∃ key, t.get? key = some value := by
  constructor
  · intro h
    obtain ⟨⟨key, _⟩, hentry, rfl⟩ := List.mem_map.mp h
    exact ⟨key, get?_of_mem hkeys hentry⟩
  · rintro ⟨key, h⟩
    exact List.mem_map.mpr ⟨_, mem_of_get? h, rfl⟩

theorem mem_entries_put {t : Table κ α} {key : κ} {value : α} {entry : κ × α}
    (h : entry ∈ (t.put key value).entries) : entry = (key, value) ∨ entry ∈ t.entries := by
  obtain ⟨entries⟩ := t
  simp only [put] at h ⊢
  induction entries with
  | nil => exact Or.inl (List.mem_singleton.mp h)
  | cons first rest ih =>
    by_cases hk : first.1 = key
    · rw [putEntry, if_pos hk] at h
      exact (List.mem_cons.mp h).imp id (List.mem_cons_of_mem _)
    · rw [putEntry, if_neg hk] at h
      rcases List.mem_cons.mp h with rfl | hmem
      · exact Or.inr List.mem_cons_self
      · exact (ih hmem).imp id (List.mem_cons_of_mem _)

/-- Putting leaves the entries of other keys where they are. -/
theorem mem_put_of_ne {t : Table κ α} {key : κ} (value : α) {entry : κ × α}
    (h : entry ∈ t.entries) (hne : entry.1 ≠ key) : entry ∈ (t.put key value).entries := by
  obtain ⟨entries⟩ := t
  simp only [put] at h ⊢
  induction entries with
  | nil => cases h
  | cons first rest ih =>
    by_cases hk : first.1 = key
    · rw [putEntry, if_pos hk]
      refine List.mem_cons_of_mem _ ((List.mem_cons.mp h).resolve_left ?_)
      rintro rfl
      exact hne hk
    · rw [putEntry, if_neg hk]
      exact List.mem_cons.mpr ((List.mem_cons.mp h).imp_right ih)

theorem mem_put_self (t : Table κ α) (key : κ) (value : α) :
    (key, value) ∈ (t.put key value).entries :=
  mem_of_get? (get?_put_self t key value)

theorem mem_entries_remove {t : Table κ α} {key : κ} {entry : κ × α} :
    entry ∈ (t.remove key).entries ↔ entry ∈ t.entries ∧ entry.1 ≠ key := by
  simp [remove]

theorem nodup_remove {t : Table κ α} (hkeys : t.keys.Nodup) (key : κ) :
    (t.remove key).keys.Nodup :=
  hkeys.sublist (List.filter_sublist.map Prod.fst)

/-- A part of a table with every key once holds what the table holds there. -/
theorem get?_filter {t : Table κ α} (hkeys : t.keys.Nodup) (p : κ × α → Bool) {key : κ}
    {value : α} : (⟨t.entries.filter p⟩ : Table κ α).get? key = some value ↔
      t.get? key = some value ∧ p (key, value) = true := by
  have hsub : (t.entries.filter p).Sublist t.entries := List.filter_sublist
  constructor
  · intro h
    obtain ⟨hmem, hp⟩ := List.mem_filter.mp (mem_of_get? h)
    exact ⟨get?_of_mem hkeys hmem, hp⟩
  · rintro ⟨h, hp⟩
    exact get?_of_mem (hkeys.sublist (hsub.map Prod.fst))
      (List.mem_filter.mpr ⟨mem_of_get? h, hp⟩)

end Mailroom.Table
