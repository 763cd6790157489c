/-!
# Insertion-ordered maps

A document is read and written in the order of its text, so its maps are lists of
entries.  A key put again keeps its first position and takes the last value;
`insert` is the only way the library grows such a map, and it keeps the keys distinct.
-/

namespace ApiModel

/-- A map from names, in the order in which its keys first arrived. -/
abbrev Entries (α : Type) := List (String × α)

namespace Entries

variable {α β : Type}

/-- The value under a key. -/
def get? (m : Entries α) (key : String) : Option α :=
  List.lookup key m

/-- Whether a key is present. -/
def contains (m : Entries α) (key : String) : Bool :=
  (m.get? key).isSome

/-- The keys, in order. -/
def keys (m : Entries α) : List String :=
  m.map Prod.fst

/-- The values, in the order of their keys. -/
def values (m : Entries α) : List α :=
  m.map Prod.snd

/-- Puts a value under a key: in place when the key is present, at the end otherwise. -/
def insert : Entries α → String → α → Entries α
  | [], key, value => [(key, value)]
  | (key', value') :: m, key, value =>
    if key' = key then (key', value) :: m else (key', value') :: insert m key value

/-- The map that a list of writes leaves behind. -/
def ofList (writes : List (String × α)) : Entries α :=
  writes.foldl (fun m (key, value) => m.insert key value) []

/-- Applies a function to every value. -/
def mapValues (f : α → β) (m : Entries α) : Entries β :=
  m.map fun (key, value) => (key, f value)

@[simp] theorem get?_nil (key : String) : get? ([] : Entries α) key = none := rfl

theorem get?_cons (key' key : String) (value : α) (m : Entries α) :
    get? ((key', value) :: m) key = if key = key' then some value else get? m key := by
  by_cases h : key = key'
  · simp [get?, h]
  · have hb : (key == key') = false := by simpa using h
    simp only [get?, List.lookup_cons, hb, h, if_false]

/-- A written key reads back its value and no other key changes. -/
theorem get?_insert (m : Entries α) (key other : String) (value : α) :
    (m.insert key value).get? other = if other = key then some value else m.get? other := by
  induction m with
  | nil => simp [insert, get?_cons]
  | cons entry m ih =>
    obtain ⟨key', value'⟩ := entry
    by_cases h : key' = key
    · by_cases ho : other = key <;> simp [insert, get?_cons, h, ho]
    · by_cases ho : other = key'
      · simp [insert, get?_cons, h, ho]
      · simp [insert, get?_cons, h, ho, ih]

/-- A write adds its key at the end unless the key is there already. -/
theorem keys_insert (m : Entries α) (key : String) (value : α) :
    (m.insert key value).keys = if key ∈ m.keys then m.keys else m.keys ++ [key] := by
  induction m with
  | nil => simp [insert, keys]
  | cons entry m ih =>
    obtain ⟨key', value'⟩ := entry
    simp only [keys] at ih
    by_cases h : key' = key
    · simp [insert, keys, h]
    · have h' : ¬ key = key' := fun e => h e.symm
      by_cases hm : key ∈ m.map Prod.fst
      · simp only [hm, if_true] at ih
        simp [insert, keys, h, h', hm, ih]
      · simp only [hm, if_false] at ih
        simp [insert, keys, h, h', hm, ih]

end Entries

/-- Adds a member to a list that is kept free of repetitions. -/
def addNew {α : Type} [DecidableEq α] (members : List α) (member : α) : List α :=
  if member ∈ members then members else members ++ [member]

end ApiModel
