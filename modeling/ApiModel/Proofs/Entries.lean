import ApiModel.Entries
import Mathlib.Data.List.Nodup
/-!
# Entries and keys

A map that grows by `insert` has distinct keys, and where keys are distinct an entry is what
its key reads.  A list that grows by `addNew` has distinct members.
-/

namespace ApiModel

namespace Entries

/-- What a key reads is an entry of the map. -/
theorem mem_of_get? {α : Type} {m : Entries α} {key : String} {value : α}
    (h : m.get? key = some value) : (key, value) ∈ m := by
  induction m with
  | nil => simp at h
  | cons entry m ih =>
    obtain ⟨key', value'⟩ := entry
    rw [get?_cons] at h
    split_ifs at h with hkey
    · cases h
      rw [hkey]
      exact List.mem_cons_self
    · exact List.mem_cons_of_mem _ (ih h)

/-- The key of an entry is a key of the map. -/
theorem mem_keys_of_mem {α : Type} {m : Entries α} {key : String} {value : α}
    (h : (key, value) ∈ m) : key ∈ m.keys :=
  List.mem_map_of_mem (f := Prod.fst) h

/-- In a map with distinct keys every entry is what its key reads. -/
theorem get?_eq_some_iff {α : Type} {m : Entries α} (hkeys : m.keys.Nodup) {key : String}
    {value : α} : m.get? key = some value ↔ (key, value) ∈ m := by
  refine ⟨mem_of_get?, ?_⟩
  intro h
  induction m with
  | nil => simp at h
  | cons entry m ih =>
    obtain ⟨key', value'⟩ := entry
    have hnodup := List.nodup_cons.mp hkeys
    rw [get?_cons]
    rcases List.mem_cons.mp h with heq | hmem
    · cases heq
      rw [if_pos rfl]
    · have hne : key ≠ key' := by
        rintro rfl
        exact hnodup.1 (mem_keys_of_mem hmem)
      rw [if_neg hne]
      exact ih hnodup.2 hmem

/-- Writing a key adds no entry but the one that it writes. -/
theorem mem_insert {α : Type} {m : Entries α} {key key' : String} {value value' : α}
    (h : (key', value') ∈ m.insert key value) :
    (key', value') ∈ m ∨ (key' = key ∧ value' = value) := by
  induction m with
  | nil => simpa [insert] using h
  | cons entry m ih =>
    obtain ⟨key'', value''⟩ := entry
    simp only [insert] at h
    split_ifs at h with hkey
    · rcases List.mem_cons.mp h with heq | hmem
      · cases heq
        exact .inr ⟨hkey, rfl⟩
      · exact .inl (.tail _ hmem)
    · rcases List.mem_cons.mp h with heq | hmem
      · exact .inl (by rw [heq]; exact List.mem_cons_self)
      · exact (ih hmem).imp (.tail _) id

/-- Writing a key repeats none. -/
theorem nodup_keys_insert {α : Type} {m : Entries α} (hkeys : m.keys.Nodup) (key : String)
    (value : α) : (m.insert key value).keys.Nodup := by
  rw [keys_insert]
  split_ifs with hmem
  · exact hkeys
  · rw [List.nodup_append]
    refine ⟨hkeys, List.nodup_singleton key, fun a ha b hb hab => hmem ?_⟩
    rw [List.mem_singleton] at hb
    rw [← hb, ← hab]
    exact ha

/-- A key reads nothing exactly if the map does not have it. -/
theorem get?_eq_none_iff {α : Type} {m : Entries α} {key : String} :
    m.get? key = none ↔ key ∉ m.keys := by
  induction m with
  | nil => simp [keys]
  | cons entry m ih =>
    obtain ⟨key', value'⟩ := entry
    rw [get?_cons]
    by_cases hkey : key = key'
    · simp [hkey, keys]
    · rw [if_neg hkey, ih]
      simp [keys, hkey]

/-- The keys of a map are what reads a value. -/
theorem mem_keys_iff {α : Type} {m : Entries α} {key : String} :
    key ∈ m.keys ↔ ∃ value, m.get? key = some value := by
  rw [← Option.isSome_iff_exists, Option.isSome_iff_ne_none, ne_eq, get?_eq_none_iff, not_not]

/-- Writing a key adds that key and no other. -/
theorem mem_keys_insert {α : Type} {m : Entries α} {key key' : String} {value : α} :
    key' ∈ (m.insert key value).keys ↔ key' ∈ m.keys ∨ key' = key := by
  rw [keys_insert]
  split_ifs with hmem
  · constructor
    · exact .inl
    · rintro (h | rfl)
      · exact h
      · exact hmem
  · simp

/-- A new key is put at the end. -/
theorem insert_of_not_mem {α : Type} {m : Entries α} {key : String} {value : α}
    (h : key ∉ m.keys) : insert m key value = m ++ [(key, value)] := by
  induction m with
  | nil => rfl
  | cons entry m ih =>
    obtain ⟨key', value'⟩ := entry
    have hne : ¬ key' = key := fun heq => h (heq ▸ List.mem_cons_self)
    have hrest : key ∉ keys m := fun hmem => h (List.mem_cons_of_mem _ hmem)
    rw [insert, if_neg hne, ih hrest]
    rfl

/-- Putting again what is there changes nothing. -/
theorem insert_of_get? {α : Type} {m : Entries α} {key : String} {value : α}
    (h : m.get? key = some value) : insert m key value = m := by
  induction m with
  | nil => cases h
  | cons entry m ih =>
    obtain ⟨key', value'⟩ := entry
    rw [get?_cons] at h
    by_cases hkey : key = key'
    · rw [if_pos hkey] at h
      cases h
      rw [insert, if_pos hkey.symm]
    · rw [if_neg hkey] at h
      rw [insert, if_neg fun heq => hkey heq.symm, ih h]

/-- Of two maps in a row the first one is read first. -/
theorem get?_append {α : Type} (m m' : Entries α) (key : String) :
    get? (m ++ m') key = (get? m key).or (get? m' key) := by
  induction m with
  | nil => rfl
  | cons entry m ih =>
    obtain ⟨key', value⟩ := entry
    change get? ((key', value) :: (m ++ m')) key = _
    rw [get?_cons, get?_cons, ih]
    split_ifs <;> rfl

/-- What is found is still found when entries are added behind. -/
theorem get?_of_prefix {α : Type} {m m' : Entries α} (h : m <+: m') {key : String} {value : α}
    (hkey : m.get? key = some value) : m'.get? key = some value := by
  obtain ⟨more, rfl⟩ := h
  rw [get?_append, hkey, Option.some_or]

/-- A map grows by one entry when a new key is written, and keeps its length otherwise. -/
theorem length_insert {α : Type} (m : Entries α) (key : String) (value : α) :
    (m.insert key value).length = if (m.get? key).isSome then m.length else m.length + 1 := by
  have hkeys := congrArg List.length (keys_insert m key value)
  unfold keys at hkeys
  rw [List.length_map] at hkeys
  rw [hkeys]
  by_cases hmem : key ∈ m.keys
  · obtain ⟨found, hfound⟩ := mem_keys_iff.mp hmem
    unfold keys at hmem
    simp [hmem, hfound]
  · have hnone := get?_eq_none_iff.mpr hmem
    unfold keys at hmem
    simp [hmem, hnone]

/-- Of several writes of one key the last one counts. -/
theorem get?_foldl_insert {α : Type} (writes m : Entries α) (key : String) :
    get? (writes.foldl (fun m write => m.insert write.1 write.2) m) key =
      (get? writes.reverse key).or (m.get? key) := by
  induction writes generalizing m with
  | nil => rfl
  | cons write writes ih =>
    rw [List.foldl_cons, ih, get?_insert, List.reverse_cons, get?_append, Option.or_assoc,
      get?_cons]
    split_ifs <;> rfl

/-- A list of writes gives a map that has each key once, whatever the list repeats. -/
theorem nodup_keys_ofList {α : Type} (writes : List (String × α)) :
    (ofList writes).keys.Nodup := by
  have hfold (m : Entries α) (hm : m.keys.Nodup) :
      (writes.foldl (fun m write => m.insert write.1 write.2) m).keys.Nodup := by
    induction writes generalizing m with
    | nil => exact hm
    | cons write writes ih => exact ih _ (nodup_keys_insert hm write.1 write.2)
  exact hfold [] List.nodup_nil

/-- Changing the values changes what the keys read, and nothing else. -/
theorem get?_mapValues {α β : Type} (f : α → β) (m : Entries α) (key : String) :
    (m.mapValues f).get? key = (m.get? key).map f := by
  induction m with
  | nil => rfl
  | cons entry m ih =>
    obtain ⟨key', value'⟩ := entry
    change get? ((key', f value') :: mapValues f m) key = _
    rw [get?_cons, get?_cons, ih]
    split_ifs <;> rfl

/-- Values that are made of key and value are found under the keys. -/
theorem get?_map {α β : Type} (f : String → α → β) (m : Entries α) (key : String) :
    get? (m.map fun (key, value) => (key, f key value)) key = (m.get? key).map (f key) := by
  induction m with
  | nil => rfl
  | cons entry m ih =>
    obtain ⟨key', value'⟩ := entry
    rw [List.map_cons, get?_cons, get?_cons, ih]
    split_ifs with hkey
    · rw [hkey]
      rfl
    · rfl

/-- The values say nothing about the keys. -/
theorem keys_mapValues {α β : Type} (f : α → β) (m : Entries α) :
    (m.mapValues f).keys = m.keys := by
  rw [keys, mapValues, List.map_map]
  rfl

end Entries

section Members

variable {α : Type} [DecidableEq α]

/-- What `addNew` gives a list is the element that it adds. -/
theorem mem_addNew {a b : α} {l : List α} : b ∈ addNew l a ↔ b ∈ l ∨ b = a := by
  unfold addNew
  split_ifs with h
  · constructor
    · exact .inl
    · rintro (hb | rfl)
      · exact hb
      · exact h
  · simp

/-- An element that is there already is not added again. -/
theorem nodup_addNew {a : α} {l : List α} (hl : l.Nodup) : (addNew l a).Nodup := by
  unfold addNew
  split_ifs with h
  · exact hl
  · rw [List.nodup_append]
    refine ⟨hl, List.nodup_singleton a, ?_⟩
    rintro b hb c hc rfl
    rw [List.mem_singleton.mp hc] at hb
    exact h hb

/-- Adding one element after the other gives a list the members of both. -/
theorem mem_foldl_addNew {a : α} {as taken : List α} :
    a ∈ as.foldl addNew taken ↔ a ∈ taken ∨ a ∈ as := by
  induction as generalizing taken with
  | nil => simp
  | cons b as ih =>
    rw [List.foldl_cons, ih, mem_addNew, List.mem_cons, or_assoc]

/-- Adding one element after the other repeats none. -/
theorem nodup_foldl_addNew {as taken : List α} (htaken : taken.Nodup) :
    (as.foldl addNew taken).Nodup := by
  induction as generalizing taken with
  | nil => exact htaken
  | cons a as ih => exact ih (nodup_addNew htaken)

/-- Members that are all different are all added. -/
theorem foldl_addNew_of_nodup {as taken : List α} (hall : (taken ++ as).Nodup) :
    as.foldl addNew taken = taken ++ as := by
  induction as generalizing taken with
  | nil => simp
  | cons a as ih =>
    have hnew : a ∉ taken := fun ha =>
      (List.nodup_append.mp hall).2.2 a ha a List.mem_cons_self rfl
    rw [List.append_cons] at hall ⊢
    rw [List.foldl_cons, addNew, if_neg hnew, ih hall]

/-- Members keep the places where they were added first. -/
theorem foldl_addNew (as taken : List α) :
    as.foldl addNew taken = taken ++ (as.filter fun a => a ∉ taken).eraseDups := by
  induction as generalizing taken with
  | nil => simp
  | cons a as ih =>
    rw [List.foldl_cons, ih]
    unfold addNew
    split_ifs with hmem
    · rw [List.filter_cons_of_neg (by simpa using hmem)]
    · rw [List.filter_cons_of_pos (by simpa using hmem), List.eraseDups_cons, List.filter_filter,
        List.append_assoc, List.singleton_append]
      congr 3
      refine List.filter_congr fun b _ => ?_
      simp [not_or, and_comm, beq_eq_decide]

end Members

/-- Without its repetitions a list repeats nothing. -/
theorem nodup_eraseDups {α : Type} [BEq α] [LawfulBEq α] (as : List α) : as.eraseDups.Nodup := by
  match as with
  | [] => rw [List.eraseDups_nil]; exact List.nodup_nil
  | a :: as =>
    rw [List.eraseDups_cons, List.nodup_cons]
    refine ⟨?_, nodup_eraseDups (as.filter fun b => !b == a)⟩
    simp
termination_by as.length
decreasing_by
  have hle := List.length_filter_le (fun b => !b == a) as
  simp only [List.length_cons]
  omega

/-- Keys keep the places where they were written first. -/
theorem keys_foldl_insert {α : Type} (writes m : Entries α) :
    Entries.keys (writes.foldl (fun m write => m.insert write.1 write.2) m) =
      writes.keys.foldl addNew m.keys := by
  induction writes generalizing m with
  | nil => rfl
  | cons write writes ih =>
    rw [List.foldl_cons, ih, Entries.keys_insert]
    unfold Entries.keys
    rw [List.map_cons, List.foldl_cons]
    congr 1

/-- What is found after several writes was there before or is one of them. -/
theorem Entries.mem_foldl_insert {α : Type} {writes m : Entries α} {entry : String × α}
    (h : entry ∈ writes.foldl (fun m write => m.insert write.1 write.2) m) :
    entry ∈ m ∨ entry ∈ writes := by
  induction writes generalizing m with
  | nil => exact .inl h
  | cons write writes ih =>
    obtain hold | hnew := ih h
    · obtain hbefore | ⟨hkey, hvalue⟩ := mem_insert hold
      · exact .inl hbefore
      · right
        rw [Prod.ext hkey hvalue]
        exact List.mem_cons_self
    · exact .inr (List.mem_cons_of_mem _ hnew)

end ApiModel
