import Mathlib.Algebra.Order.Ring.Nat
import Mathlib.Data.List.Nodup
import Mathlib.Data.List.Perm.Subperm
import Mathlib.Tactic.Common
import PowLedger.Table

/-!
# Many writings to a table

What the look-up sees after a list of erasures or of writings, and what both do to a sum over the
values of the table: erasing a key takes the weight of its value off, and writing a new key adds
the weight of the new value.
-/

namespace PowLedger

namespace Table

variable {α β : Type} [DecidableEq α]

/-! ### Entries -/

/-- A key without value is not among the keys. -/
theorem find?_eq_none_iff {key : α} {l : List (α × β)} :
    find? key l = none ↔ key ∉ l.map Prod.fst := by
  induction l with
  | nil => simp [find?]
  | cons p l ih =>
    obtain ⟨k, v⟩ := p
    by_cases hk : k = key
    · simp [find?, hk]
    · simp [find?, hk, ih, Ne.symm hk]

/-- A new key goes to the end. -/
theorem write_of_notMem {key : α} {value : β} {l : List (α × β)} (h : key ∉ l.map Prod.fst) :
    write key value l = l ++ [(key, value)] := by
  induction l with
  | nil => rfl
  | cons p l ih =>
    obtain ⟨k, v⟩ := p
    simp only [List.map_cons, List.mem_cons, not_or] at h
    rw [write, if_neg (Ne.symm h.1), ih h.2, List.cons_append]

/-- A key has no value just when it is no key. -/
theorem get?_eq_none_iff {t : Table α β} {key : α} : t.get? key = none ↔ key ∉ t.keys :=
  find?_eq_none_iff

/-- Containing a key means having a value for it. -/
theorem contains_iff {t : Table α β} {key : α} :
    t.contains key = true ↔ ∃ value, t.get? key = some value :=
  Option.isSome_iff_exists

/-- A key has a value exactly if the pair is an entry. -/
theorem get?_eq_some_iff {t : Table α β} {key : α} {value : β} :
    t.get? key = some value ↔ (key, value) ∈ t.entries := by
  obtain ⟨l, hl⟩ := t
  show find? key l = some value ↔ (key, value) ∈ l
  induction l with
  | nil => simp [find?]
  | cons p l ih =>
    obtain ⟨k, v⟩ := p
    simp only [List.map_cons, List.nodup_cons] at hl
    by_cases hk : k = key
    · subst hk
      have hnot : (k, value) ∉ l := fun hmem => hl.1 (List.mem_map_of_mem (f := Prod.fst) hmem)
      simp [find?, hnot, eq_comm]
    · simp [find?, hk, Ne.symm hk, ih hl.2]

/-- A table is determined by its keys and what they lead to. -/
theorem ext_get? {t t' : Table α β} (hkeys : t.keys = t'.keys)
    (h : ∀ key, t.get? key = t'.get? key) : t = t' := by
  obtain ⟨l, hl⟩ := t
  obtain ⟨l', hl'⟩ := t'
  have hfind : ∀ key, find? key l = find? key l' := h
  have hfst : l.map Prod.fst = l'.map Prod.fst := hkeys
  rw [mk.injEq]
  clear h hkeys
  induction l generalizing l' with
  | nil => exact (List.map_eq_nil_iff.mp hfst.symm).symm
  | cons p l ih =>
    obtain _ | ⟨p', l'⟩ := l'
    · cases hfst
    · obtain ⟨k, v⟩ := p
      obtain ⟨k', v'⟩ := p'
      simp only [List.map_cons, List.cons.injEq] at hfst
      obtain ⟨rfl, htails⟩ := hfst
      simp only [List.map_cons, List.nodup_cons] at hl hl'
      have hvalue : v = v' := by simpa [find?] using hfind k
      have hrest : ∀ key, find? key l = find? key l' := by
        intro key
        by_cases hk : k = key
        · subst hk
          rw [find?_eq_none_iff.mpr hl.1, find?_eq_none_iff.mpr hl'.1]
        · simpa [find?, hk] using hfind key
      rw [hvalue, ih hl.2 l' hl'.2 hrest htails]

/-- An erasure brings no key and leaves the others in their order. -/
theorem keys_erase_sublist (t : Table α β) (key : α) : (t.erase key).keys.Sublist t.keys :=
  List.filter_sublist.map Prod.fst

/-- Writing to a key that has a value leaves the keys as they are. -/
theorem keys_insert_of_mem {t : Table α β} {key : α} (h : key ∈ t.keys) (value : β) :
    (t.insert key value).keys = t.keys := by
  obtain ⟨l, hl⟩ := t
  have hmem : key ∈ l.map Prod.fst := h
  show (write key value l).map Prod.fst = l.map Prod.fst
  clear h hl
  induction l with
  | nil => cases hmem
  | cons p l ih =>
    obtain ⟨k, v⟩ := p
    by_cases hk : k = key
    · simp [write, hk]
    · have hrest : key ∈ l.map Prod.fst := by simpa [Ne.symm hk] using hmem
      simp [write, hk, ih hrest]

/-- Different keys that have values are not more than the table is long. -/
theorem length_le_size {t : Table α β} {found : List α} (hnodup : found.Nodup)
    (h : ∀ k ∈ found, t.get? k ≠ none) : found.length ≤ t.size := by
  have hsub : found ⊆ t.keys := fun k hk => by
    by_contra hnot
    exact h k hk (get?_eq_none_iff.mpr hnot)
  have hlen := (List.subperm_of_subset hnodup hsub).length_le
  rwa [keys, List.length_map] at hlen

/-! ### Several keys at once -/

/-- The look-up after a list of erasures. -/
theorem get?_foldl_erase (t : Table α β) (keys : List α) (k : α) :
    (keys.foldl erase t).get? k = if k ∈ keys then none else t.get? k := by
  induction keys generalizing t with
  | nil => simp
  | cons key keys ih =>
    rw [List.foldl_cons, ih, get?_erase]
    by_cases hk : k ∈ keys
    · simp [hk]
    · by_cases hkey : key = k
      · simp [hkey]
      · simp [hk, hkey, Ne.symm hkey]

/-- The entries after a list of erasures. -/
theorem entries_foldl_erase (t : Table α β) (keys : List α) :
    (keys.foldl erase t).entries = t.entries.filter fun e => e.1 ∉ keys := by
  induction keys generalizing t with
  | nil => simp
  | cons key keys ih =>
    have herase : (t.erase key).entries = t.entries.filter fun e => e.1 ≠ key := rfl
    rw [List.foldl_cons, ih, herase, List.filter_filter]
    exact List.filter_congr fun e _ => by simp [Bool.and_comm]

/-- The look-up after a list of writings, at a key that none of them wrote. -/
theorem get?_foldl_insert_of_notMem {t : Table α β} {pairs : List (α × β)} {k : α}
    (h : k ∉ pairs.map Prod.fst) :
    (pairs.foldl (fun t e => t.insert e.1 e.2) t).get? k = t.get? k := by
  induction pairs generalizing t with
  | nil => rfl
  | cons p pairs ih =>
    simp only [List.map_cons, List.mem_cons, not_or] at h
    rw [List.foldl_cons, ih h.2, get?_insert, if_neg (Ne.symm h.1)]

/-- The look-up after a list of writings to distinct keys, at one of these keys. -/
theorem get?_foldl_insert_of_mem {t : Table α β} {pairs : List (α × β)} {k : α} {v : β}
    (hkeys : (pairs.map Prod.fst).Nodup) (h : (k, v) ∈ pairs) :
    (pairs.foldl (fun t e => t.insert e.1 e.2) t).get? k = some v := by
  induction pairs generalizing t with
  | nil => cases h
  | cons p pairs ih =>
    simp only [List.map_cons, List.nodup_cons] at hkeys
    rcases List.mem_cons.mp h with rfl | hmem
    · rw [List.foldl_cons, get?_foldl_insert_of_notMem hkeys.1, get?_insert, if_pos rfl]
    · exact ih hkeys.2 hmem

/-- After a list of writings to distinct keys, a key has the value written to it, or else the one
it had before. -/
theorem get?_foldl_insert_eq_some_iff {t : Table α β} {pairs : List (α × β)} {k : α} {v : β}
    (hkeys : (pairs.map Prod.fst).Nodup) :
    (pairs.foldl (fun t e => t.insert e.1 e.2) t).get? k = some v ↔
      (k, v) ∈ pairs ∨ k ∉ pairs.map Prod.fst ∧ t.get? k = some v := by
  by_cases hk : k ∈ pairs.map Prod.fst
  · obtain ⟨⟨k', w⟩, hmem, rfl⟩ := List.mem_map.mp hk
    rw [get?_foldl_insert_of_mem hkeys hmem]
    constructor
    · intro h
      cases h
      exact Or.inl hmem
    · rintro (hv | ⟨hnot, -⟩)
      · rw [← get?_foldl_insert_of_mem (t := t) hkeys hmem, get?_foldl_insert_of_mem hkeys hv]
      · exact absurd hk hnot
  · rw [get?_foldl_insert_of_notMem hk]
    constructor
    · exact fun h => Or.inr ⟨hk, h⟩
    · rintro (hmem | ⟨-, h⟩)
      · exact absurd (List.mem_map_of_mem hmem) hk
      · exact h

/-- Distinct new keys are written one behind the other. -/
theorem entries_foldl_insert {t : Table α β} {pairs : List (α × β)}
    (h : ((t.entries ++ pairs).map Prod.fst).Nodup) :
    (pairs.foldl (fun t e => t.insert e.1 e.2) t).entries = t.entries ++ pairs := by
  induction pairs generalizing t with
  | nil => simp
  | cons p pairs ih =>
    have hfresh : p.1 ∉ t.entries.map Prod.fst := by
      rw [List.map_append, List.map_cons] at h
      exact fun hmem => (List.nodup_append.mp h).2.2 p.1 hmem p.1 List.mem_cons_self rfl
    have hentries : (t.insert p.1 p.2).entries = t.entries ++ [p] := write_of_notMem hfresh
    rw [List.foldl_cons, ih (by simpa [hentries] using h), hentries, List.append_assoc,
      List.singleton_append]

/-! ### Other keys -/

section Rekey

variable {γ : Type} [DecidableEq γ] {f : α → γ}

omit [DecidableEq α] [DecidableEq γ] in
/-- The table under the keys that `f` makes of its own, each value with its old key. -/
def rekey (t : Table α β) (hf : Function.Injective f) : Table γ (α × β) where
  entries := t.entries.map fun e => (f e.1, e)
  distinct := by
    have hkeys : (t.entries.map fun e => (f e.1, e)).map Prod.fst =
        (t.entries.map Prod.fst).map f := by simp
    rw [hkeys]
    exact t.distinct.map hf

/-- A new key leads to what its old key led to. -/
theorem get?_rekey (t : Table α β) (hf : Function.Injective f) (key : α) :
    (t.rekey hf).get? (f key) = (t.get? key).map fun value => (key, value) := by
  refine Option.ext fun e => ?_
  rw [get?_eq_some_iff, Option.map_eq_some_iff]
  simp only [rekey, List.mem_map, Prod.mk.injEq, get?_eq_some_iff]
  constructor
  · rintro ⟨e, hmem, hkey, rfl⟩
    obtain rfl := hf hkey
    exact ⟨e.2, hmem, rfl⟩
  · rintro ⟨value, hmem, rfl⟩
    exact ⟨_, hmem, rfl, rfl⟩

/-- Every value lies under what `f` makes of the key beside it. -/
theorem eq_of_get?_rekey {t : Table α β} {hf : Function.Injective f} {key : γ} {e : α × β}
    (h : (t.rekey hf).get? key = some e) : key = f e.1 ∧ t.get? e.1 = some e.2 := by
  rw [get?_eq_some_iff] at h
  obtain ⟨e, hmem, heq⟩ := List.mem_map.mp h
  cases heq
  exact ⟨rfl, get?_eq_some_iff.mpr hmem⟩

/-- Erasing a new key erases the old one. -/
theorem erase_rekey (t : Table α β) (hf : Function.Injective f) (key : α) :
    (t.rekey hf).erase (f key) = (t.erase key).rekey hf := by
  simp only [rekey, erase, remove, mk.injEq, List.filter_map]
  congr 1
  exact List.filter_congr fun e _ => by simp [hf.eq_iff]

/-- Writing under a new key writes under the old one. -/
theorem insert_rekey (t : Table α β) (hf : Function.Injective f) (key : α) (value : β) :
    (t.rekey hf).insert (f key) (key, value) = (t.insert key value).rekey hf := by
  simp only [rekey, insert, mk.injEq]
  induction t.entries with
  | nil => rfl
  | cons p l ih =>
    by_cases hk : p.1 = key
    · simp [write, hk]
    · simp [write, hk, hf.eq_iff, ih]

end Rekey

/-! ### Sums over the values -/

/-- The sum of the weights of the values. -/
def weight (w : β → Nat) (t : Table α β) : Nat :=
  (t.values.map w).sum

omit [DecidableEq α] in
@[simp] theorem weight_empty (w : β → Nat) : (empty : Table α β).weight w = 0 := rfl

/-- A new key brings the weight of its value. -/
theorem weight_insert {t : Table α β} {key : α} (w : β → Nat) (value : β)
    (h : t.get? key = none) : (t.insert key value).weight w = t.weight w + w value := by
  simp [weight, values, insert, write_of_notMem (find?_eq_none_iff.mp h)]

/-- An erased key takes the weight of its value along. -/
theorem weight_erase {t : Table α β} {key : α} {value : β} (w : β → Nat)
    (h : t.get? key = some value) : (t.erase key).weight w + w value = t.weight w := by
  obtain ⟨l, hl⟩ := t
  have hfind : find? key l = some value := h
  show ((remove key l).map Prod.snd |>.map w).sum + w value = ((l.map Prod.snd).map w).sum
  clear h
  induction l with
  | nil => simp [find?] at hfind
  | cons p l ih =>
    obtain ⟨k, v⟩ := p
    simp only [List.map_cons, List.nodup_cons] at hl
    by_cases hk : k = key
    · subst hk
      have hrest : remove k l = l := by
        refine List.filter_eq_self.mpr fun p hp => ?_
        have hne : p.1 ≠ k := fun heq => hl.1 (heq ▸ List.mem_map_of_mem hp)
        simpa using hne
      have hvalue : v = value := by simpa [find?] using hfind
      have hhead : remove k ((k, v) :: l) = l := by
        rw [remove, List.filter_cons_of_neg (by simp)]
        exact hrest
      rw [hhead, hvalue]
      simp only [List.map_cons, List.sum_cons]
      omega
    · have hhead : remove key ((k, v) :: l) = (k, v) :: remove key l := by
        rw [remove, List.filter_cons_of_pos (by simpa using hk)]
        rfl
      have hsum := ih hl.2 (by simpa [find?, hk] using hfind)
      rw [hhead]
      simp only [List.map_cons, List.sum_cons]
      omega

end Table

end PowLedger
