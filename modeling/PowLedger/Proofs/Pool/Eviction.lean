import Mathlib.Data.List.Basic
import Mathlib.Tactic.Common
import Mathlib.Tactic.Lemma
import PowLedger.Proofs.Pool.Index

/-!
# What eviction leaves of a pool

Eviction takes transactions out one by one and strikes each of them from the index. What it leaves
can be said without following it: it is the old pool restricted to the transactions that are still
there (`Pool.Sifts`). Every list of spenders keeps those of its ids that are pooled still, in their
order, and no outpoint comes into the index. This holds of every step as long as the index is in
order, and sifting twice is sifting, so it holds of the whole (`Pool.Indexed.sifts_evictFrom`).

The number that eviction reports is found out without the index: what is counted and what is pooled
make one sum throughout (`Pool.size_evictFrom`).
-/

namespace PowLedger

namespace Pool

variable {p p' p'' : Pool} {silent : List Outpoint}

/-- The second pool is the first one restricted to some of its transactions. -/
structure Sifts (p p' : Pool) : Prop where
  arrivals : p'.arrivals = p.arrivals
  pooled : ∀ txid, p'.contains txid = true → p.contains txid = true
  /-- The spenders of an outpoint are those of before that are still pooled. -/
  named : ∀ o, p'.named o = (p.named o).filter p'.contains
  /-- No outpoint comes into the index, and those in it stay in their order. -/
  keys : p'.spenders.keys.Sublist p.spenders.keys

/-- What is sifted twice is sifted. -/
lemma Sifts.trans (h : p.Sifts p') (h' : p'.Sifts p'') : p.Sifts p'' where
  arrivals := h'.arrivals.trans h.arrivals
  pooled txid hpooled := h.pooled txid (h'.pooled txid hpooled)
  named o := by
    rw [h'.named, h.named, List.filter_filter]
    refine List.filter_congr fun txid _ => ?_
    by_cases hpooled : p''.contains txid = true
    · simp [hpooled, h'.pooled txid hpooled]
    · simp [hpooled]
  keys := h'.keys.trans h.keys

/-! ### Steps of an eviction -/

namespace IndexedBut

/-- The index names pooled transactions only. -/
lemma contains_of_mem_named (h : p.IndexedBut silent) {o : Outpoint} {txid : Bytes}
    (hmem : txid ∈ p.named o) : p.contains txid = true := by
  by_cases ho : o ∈ silent
  · rw [Pool.named, h.silence o ho] at hmem
    cases hmem
  · rw [contains_iff]
    by_contra hnot
    have hcount := List.count_pos_iff.mpr hmem
    rw [h.counts o ho, spendings_of_notMem hnot] at hcount
    exact absurd hcount (Nat.lt_irrefl 0)

/-- Where nothing is taken out, nothing is sifted out. -/
lemma sifts_self (h : p.IndexedBut silent) : p.Sifts p where
  arrivals := rfl
  pooled := fun _ => id
  named := fun _ => (List.filter_eq_self.mpr fun _ hmem => h.contains_of_mem_named hmem).symm
  keys := .refl _

/-- After a removal all other transactions are pooled. -/
lemma contains_remove (h : p.IndexedBut silent) (txid id : Bytes) :
    (p.remove txid).1.contains id = (p.contains id && id != txid) := by
  rw [Bool.eq_iff_iff, contains_iff, entries_remove h.ids, Bool.and_eq_true, contains_iff]
  simp only [List.mem_map, List.mem_filter, bne_iff_ne]
  constructor
  · rintro ⟨e, ⟨he, hne⟩, rfl⟩
    exact ⟨⟨e, he, rfl⟩, hne⟩
  · rintro ⟨⟨e, he, rfl⟩, hne⟩
    exact ⟨e, ⟨he, hne⟩, rfl⟩

end IndexedBut

/-- Striking a spender brings no outpoint into the index. -/
lemma keys_strikeSpender_sublist (txid : Bytes) (index : Table Outpoint (List Bytes))
    (sources : List Outpoint) :
    (strikeSpender txid index sources).keys.Sublist index.keys := by
  induction sources generalizing index with
  | nil => exact .refl _
  | cons s sources ih =>
    rw [strikeSpender_cons]
    refine (ih _).trans ?_
    rw [strikeSpender, List.foldl_cons, List.foldl_nil]
    cases hget : index.get? s with
    | none => exact .refl _
    | some ids =>
      have hkey : s ∈ index.keys := by
        by_contra hnot
        rw [Table.get?_eq_none_iff.mpr hnot] at hget
        cases hget
      cases hleft : ids.filter (· != txid) with
      | nil =>
        simp only [hleft]
        exact index.keys_erase_sublist s
      | cons a left =>
        simp only [hleft]
        rw [Table.keys_insert_of_mem hkey]

/-- A removal sifts the removed transaction out. -/
lemma IndexedBut.sifts_remove (h : p.IndexedBut silent) (txid : Bytes) :
    p.Sifts (p.remove txid).1 := by
  obtain ⟨sources, hstruck, hothers⟩ := spenders_remove h txid
  have hcontains := h.contains_remove txid
  exact
    { arrivals := by
        rw [Pool.remove]
        cases p.get? txid <;> rfl
      pooled := by
        intro id hid
        rw [hcontains, Bool.and_eq_true] at hid
        exact hid.1
      named := by
        intro o
        have hleft : (p.named o).filter (p.remove txid).1.contains =
            (p.named o).filter (· != txid) :=
          List.filter_congr fun id hid => by simp [hcontains, h.contains_of_mem_named hid]
        rw [hleft, Pool.named, hstruck, named_strikeSpender]
        split
        · rfl
        · next hsource =>
          -- Where the transaction does not spend, it is not named.
          refine (List.filter_eq_self.mpr fun id hid => ?_).symm
          simp only [bne_iff_ne]
          rintro rfl
          by_cases ho : o ∈ silent
          · rw [h.silence o ho] at hid
            cases hid
          · have hcount := List.count_pos_iff.mpr hid
            rw [← Pool.named, h.counts o ho, hothers o hsource] at hcount
            exact absurd hcount (Nat.lt_irrefl 0)
      keys := hstruck ▸ keys_strikeSpender_sublist txid p.spenders sources }

/-- Several removals sift the removed transactions out. -/
lemma IndexedBut.sifts_removeAll (h : p.IndexedBut silent) (count : Nat) (txids : List Bytes) :
    p.Sifts (p.removeAll count txids).1 := by
  induction txids generalizing p count with
  | nil => exact h.sifts_self
  | cons txid txids ih =>
    rw [removeAll_cons]
    exact (h.sifts_remove txid).trans (ih (h.remove txid) _)

/-- Where no outpoint is in the index, eviction takes nothing out. -/
lemma evictFrom_of_unspent {os : List Outpoint} (h : ∀ o ∈ os, p.spenders.get? o = none)
    (count : Nat) : p.evictFrom count os = (p, count) := by
  induction os with
  | nil => rfl
  | cons o os ih =>
    rw [evictFrom, h o List.mem_cons_self]
    exact ih fun o' ho' => h o' (List.mem_cons_of_mem _ ho')

/-- Eviction for an outpoint in the index takes it out of there and removes those it names. -/
lemma evictFrom_singleton_of_spent {o : Outpoint} {txids : List Bytes}
    (h : p.spenders.get? o = some txids) (count : Nat) :
    p.evictFrom count [o] =
      ({ p with spenders := p.spenders.erase o } : Pool).removeAll count txids := by
  rw [evictFrom, h]
  rfl

/-- Eviction for one outpoint sifts its spenders out. -/
lemma Indexed.sifts_evictFrom_singleton (h : p.Indexed) (count : Nat) (o : Outpoint) :
    p.Sifts (p.evictFrom count [o]).1 := by
  cases hget : p.spenders.get? o with
  | none =>
    rw [evictFrom_of_unspent (by simpa using hget)]
    exact IndexedBut.sifts_self h
  | some txids =>
    -- The index falls silent about the outpoint first, and the spenders go then.
    rw [evictFrom_singleton_of_spent hget]
    have hsilent := IndexedBut.erase h o
    have hsifts := hsilent.sifts_removeAll count txids
    obtain ⟨hentries, -⟩ := hsilent.removeAll count txids
    exact
      { arrivals := hsifts.arrivals
        pooled := hsifts.pooled
        named := by
          intro o'
          rw [hsifts.named]
          by_cases ho : o = o'
          · subst ho
            have hnamed : p.named o = txids := by rw [Pool.named, hget, Option.getD_some]
            rw [hnamed, Pool.named, Table.get?_erase, if_pos rfl]
            refine (List.filter_eq_nil_iff.mpr fun txid hmem hpooled => ?_).symm
            rw [contains_iff, hentries] at hpooled
            obtain ⟨e, he, rfl⟩ := List.mem_map.mp hpooled
            simp [hmem] at he
          · rw [Pool.named, Pool.named, Table.get?_erase, if_neg ho]
        keys := hsifts.keys.trans (p.spenders.keys_erase_sublist o) }

/-- Eviction sifts out the transactions it takes. -/
theorem Indexed.sifts_evictFrom (h : p.Indexed) (count : Nat) (os : List Outpoint) :
    p.Sifts (p.evictFrom count os).1 := by
  induction os generalizing p count with
  | nil => exact IndexedBut.sifts_self h
  | cons o os ih =>
    rw [evictFrom_cons]
    exact (h.sifts_evictFrom_singleton count o).trans (ih (h.evictFrom_singleton count o).2 _)

/-! ### The number of the evicted -/

/-- A removal takes one entry out if it says so, and none otherwise. -/
lemma size_remove (p : Pool) (txid : Bytes) :
    (p.remove txid).2.toNat + (p.remove txid).1.size = p.size := by
  rw [remove]
  cases hget : p.get? txid with
  | none => exact Nat.zero_add _
  | some e =>
    have hmem := List.mem_of_find?_eq_some hget
    have hlength := List.length_eraseP_of_mem hmem (List.find?_some hget)
    have hpos := List.length_pos_of_mem hmem
    simp only [size, hlength, Bool.toNat_true]
    omega

/-- What several removals count and what they leave was there before. -/
lemma size_removeAll (p : Pool) (count : Nat) (txids : List Bytes) :
    (p.removeAll count txids).2 + (p.removeAll count txids).1.size = count + p.size := by
  induction txids generalizing p count with
  | nil => rfl
  | cons txid txids ih =>
    have hstep := p.size_remove txid
    rw [removeAll_cons, ih]
    omega

/-- What an eviction counts and what it leaves was there before. -/
theorem size_evictFrom (p : Pool) (count : Nat) (os : List Outpoint) :
    (p.evictFrom count os).2 + (p.evictFrom count os).1.size = count + p.size := by
  induction os generalizing p count with
  | nil => rfl
  | cons o os ih =>
    rw [evictFrom_cons, ih, evictFrom]
    cases p.spenders.get? o with
    | none => rfl
    | some txids => exact size_removeAll _ count txids

end Pool

end PowLedger
