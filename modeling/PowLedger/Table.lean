/-!
# Finite tables

A table maps finitely many keys to values and keeps the order in which keys were first written. It
is a list of pairs whose keys are pairwise distinct. Every operation is described through one view,
the look-up `get?`: writing changes it at one key, erasing clears it at one key, and the size counts
the keys.
-/

namespace PowLedger

/-- Finitely many keys with a value each, in the order of their first writing. -/
structure Table (α β : Type) where
  /-- The pairs, oldest key first. -/
  entries : List (α × β)
  /-- No key occurs twice. -/
  distinct : (entries.map Prod.fst).Nodup

namespace Table

variable {α β : Type}

/-- The table without entries. -/
def empty : Table α β :=
  ⟨[], List.nodup_nil⟩

instance : EmptyCollection (Table α β) := ⟨empty⟩

instance : Inhabited (Table α β) := ⟨empty⟩

/-- The keys, oldest first. -/
def keys (t : Table α β) : List α :=
  t.entries.map Prod.fst

/-- The values, in the order of their keys. -/
def values (t : Table α β) : List β :=
  t.entries.map Prod.snd

/-- The number of keys. -/
def size (t : Table α β) : Nat :=
  t.entries.length

variable [DecidableEq α]

/-- The first value paired with `key` in a list of pairs. -/
def find? (key : α) : List (α × β) → Option β
  | [] => none
  | (k, v) :: rest => if k = key then some v else find? key rest

/-- The value of `key`. -/
def get? (t : Table α β) (key : α) : Option β :=
  find? key t.entries

/-- Whether `key` has a value. -/
def contains (t : Table α β) (key : α) : Bool :=
  (t.get? key).isSome

/-- Pairs `key` with `value` in place, or at the end if the key is new. -/
def write (key : α) (value : β) : List (α × β) → List (α × β)
  | [] => [(key, value)]
  | (k, v) :: rest => if k = key then (key, value) :: rest else (k, v) :: write key value rest

/-- Takes the pair of `key` out. -/
def remove (key : α) (l : List (α × β)) : List (α × β) :=
  l.filter fun p => p.1 ≠ key

theorem mem_keys_write {key : α} {value : β} {l : List (α × β)} {k : α} :
    k ∈ (write key value l).map Prod.fst ↔ k = key ∨ k ∈ l.map Prod.fst := by
  induction l with
  | nil => simp [write]
  | cons p rest ih =>
    obtain ⟨j, v⟩ := p
    by_cases h : j = key
    · subst h; simp [write]
    · simp only [write, h, if_false, List.map_cons, List.mem_cons, ih]
      constructor
      · rintro (h | h | h) <;> simp [h]
      · rintro (h | h | h) <;> simp [h]

theorem nodup_write {key : α} {value : β} {l : List (α × β)} (h : (l.map Prod.fst).Nodup) :
    ((write key value l).map Prod.fst).Nodup := by
  induction l with
  | nil => simp [write]
  | cons p rest ih =>
    obtain ⟨j, v⟩ := p
    simp only [List.map_cons, List.nodup_cons] at h
    by_cases hj : j = key
    · subst hj; simpa [write] using h
    · have hfresh : j ∉ (write key value rest).map Prod.fst := fun hm =>
        (mem_keys_write.mp hm).elim hj h.1
      simpa [write, hj] using ⟨by simpa using hfresh, ih h.2⟩

/-- The table with `key` mapped to `value`. -/
def insert (t : Table α β) (key : α) (value : β) : Table α β :=
  ⟨write key value t.entries, nodup_write t.distinct⟩

/-- The table without `key`. -/
def erase (t : Table α β) (key : α) : Table α β :=
  ⟨remove key t.entries, t.distinct.sublist (List.filter_sublist.map Prod.fst)⟩

/-! ### What each operation does to the look-up -/

@[simp] theorem get?_empty (key : α) : (empty : Table α β).get? key = none := rfl

theorem find?_write (key : α) (value : β) (l : List (α × β)) (k : α) :
    find? k (write key value l) = if key = k then some value else find? k l := by
  induction l with
  | nil => simp [write, find?]
  | cons p rest ih =>
    obtain ⟨j, v⟩ := p
    by_cases hj : j = key
    · subst hj
      by_cases hk : j = k <;> simp [write, find?, hk]
    · by_cases hk : j = k
      · subst hk
        have : ¬key = j := fun h => hj h.symm
        simp [write, find?, hj, this]
      · simp [write, find?, hj, hk, ih]

/-- A write changes the look-up at its own key only. -/
theorem get?_insert (t : Table α β) (key : α) (value : β) (k : α) :
    (t.insert key value).get? k = if key = k then some value else t.get? k :=
  find?_write key value t.entries k

/-- An erasure clears the look-up at its own key only. -/
theorem get?_erase (t : Table α β) (key k : α) :
    (t.erase key).get? k = if key = k then none else t.get? k := by
  show find? k (remove key t.entries) = if key = k then none else find? k t.entries
  unfold remove
  induction t.entries with
  | nil => simp [find?]
  | cons p rest ih =>
    obtain ⟨j, v⟩ := p
    by_cases hj : j = key
    · subst hj
      by_cases hk : j = k
      · subst hk; simpa [find?] using ih
      · simpa [find?, hk] using ih
    · by_cases hk : j = k
      · subst hk
        have : ¬key = j := fun h => hj h.symm
        simp [find?, hj, this]
      · simp only [ne_eq, hj, not_false_eq_true, decide_true, List.filter_cons_of_pos, find?, hk,
          if_false]
        exact ih

end Table

end PowLedger
