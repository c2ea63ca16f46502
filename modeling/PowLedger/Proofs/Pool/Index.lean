import Mathlib.Data.List.Count
import Mathlib.Data.List.Nodup
import Mathlib.Tactic.Common
import Mathlib.Tactic.Lemma
import PowLedger.Pool
import PowLedger.Proofs.Table

/-!
# The index of the pool

The index of a pool names, for every outpoint, the pooled transactions that spend it, each as often
as it does, and nothing else (`Pool.Indexed`). Pooling keeps this true, and so does eviction, which
works through the index and never looks at the entries: so it takes out exactly the entries that
spend one of the outpoints in question (`Pool.Indexed.evictFrom`). While it works on an outpoint the
index is silent about that one, `Pool.IndexedBut`.
-/

namespace PowLedger

namespace Pool

/-- The ids that the index holds for an outpoint. -/
def named (p : Pool) (o : Outpoint) : List Bytes :=
  (p.spenders.get? o).getD []

/-- How often the transactions of a given id among some entries spend an outpoint. -/
def spendings (es : List PoolEntry) (txid : Bytes) (o : Outpoint) : Nat :=
  ((es.filter (·.transaction.id = txid)).flatMap (·.transaction.sources)).count o

/-- The index is silent about some outpoints. For all others it names exactly the pooled
transactions that spend them, each as often as it does; and no two of these have one id. -/
structure IndexedBut (silent : List Outpoint) (p : Pool) : Prop where
  ids : (p.entries.map (·.transaction.id)).Nodup
  counts : ∀ o ∉ silent, ∀ txid, (p.named o).count txid = spendings p.entries txid o
  silence : ∀ o ∈ silent, p.spenders.get? o = none
  /-- An outpoint that nobody spends is not in the index. -/
  nonempty : ∀ o, p.spenders.get? o ≠ some []

/-- The index names for every outpoint exactly the pooled transactions that spend it. -/
abbrev Indexed (p : Pool) : Prop :=
  p.IndexedBut []

/-- The index of the empty pool is in order. -/
lemma indexed_empty : Indexed empty where
  ids := List.nodup_nil
  counts := fun _ _ _ => rfl
  silence := fun _ ho => nomatch ho
  nonempty := fun o h => by simp [empty] at h

/-! ### Spendings -/

/-- It does not matter in which order entries are counted. -/
lemma spendings_perm {es es' : List PoolEntry} (h : es.Perm es') (txid : Bytes) (o : Outpoint) :
    spendings es txid o = spendings es' txid o :=
  ((h.filter _).flatMap_right _).count_eq o

/-- One more entry spends what its transaction does. -/
lemma spendings_cons (e : PoolEntry) (es : List PoolEntry) (txid : Bytes) (o : Outpoint) :
    spendings (e :: es) txid o =
      (if e.transaction.id = txid then e.transaction.sources.count o else 0) +
        spendings es txid o := by
  by_cases hid : e.transaction.id = txid
  · simp [spendings, hid]
  · simp [spendings, hid]

/-- Of a transaction that is not pooled nothing is counted. -/
lemma spendings_of_notMem {es : List PoolEntry} {txid : Bytes}
    (h : txid ∉ es.map (·.transaction.id)) (o : Outpoint) : spendings es txid o = 0 := by
  have hnone : es.filter (·.transaction.id = txid) = [] := by
    refine List.filter_eq_nil_iff.mpr fun e he hid => h ?_
    exact List.mem_map.mpr ⟨e, he, by simpa using hid⟩
  rw [spendings, hnone, List.flatMap_nil, List.count_nil]

/-- The inputs of an entry are those counted under its id. -/
lemma spendings_eq_count {es : List PoolEntry} (hids : (es.map (·.transaction.id)).Nodup)
    {e : PoolEntry} (he : e ∈ es) (o : Outpoint) :
    spendings es e.transaction.id o = e.transaction.sources.count o := by
  induction es with
  | nil => cases he
  | cons x es ih =>
    rw [List.map_cons, List.nodup_cons] at hids
    rw [spendings_cons]
    rcases List.mem_cons.mp he with rfl | he
    · rw [if_pos rfl, spendings_of_notMem hids.1, Nat.add_zero]
    · have hne : x.transaction.id ≠ e.transaction.id := fun heq =>
        hids.1 (heq ▸ List.mem_map_of_mem he)
      rw [if_neg hne, Nat.zero_add, ih hids.2 he]

/-- Without the entries of some ids nothing is counted under these, and all else as before. -/
lemma spendings_filter (es : List PoolEntry) (gone : Bytes → Bool) (txid : Bytes) (o : Outpoint) :
    spendings (es.filter (!gone ·.transaction.id)) txid o =
      if gone txid then 0 else spendings es txid o := by
  induction es with
  | nil => simp [spendings]
  | cons e es ih =>
    rw [spendings_cons]
    by_cases hgone : gone e.transaction.id = true
    · rw [List.filter_cons_of_neg (by simpa using hgone), ih]
      by_cases hid : e.transaction.id = txid
      · simp [← hid, hgone]
      · simp [hid]
    · rw [List.filter_cons_of_pos (by simpa using hgone), spendings_cons, ih]
      by_cases hid : e.transaction.id = txid
      · simp [← hid, hgone]
      · simp [hid]

/-! ### What an index says -/

namespace IndexedBut

variable {silent : List Outpoint} {p : Pool}

/-- A transaction is named for an outpoint just when it spends it. -/
lemma mem_named_iff (h : p.IndexedBut silent) {o : Outpoint} (ho : o ∉ silent) {e : PoolEntry}
    (he : e ∈ p.entries) : e.transaction.id ∈ p.named o ↔ o ∈ e.transaction.sources := by
  rw [← List.count_pos_iff, h.counts o ho, spendings_eq_count h.ids he, List.count_pos_iff]

/-- An id leads to the one entry that has it. -/
lemma get?_eq_some_iff (h : p.IndexedBut silent) {txid : Bytes} {e : PoolEntry} :
    p.get? txid = some e ↔ e ∈ p.entries ∧ e.transaction.id = txid := by
  rw [Pool.get?]
  constructor
  · intro hfind
    exact ⟨List.mem_of_find?_eq_some hfind, by simpa using List.find?_some hfind⟩
  · rintro ⟨he, rfl⟩
    cases hfind : p.entries.find? fun x => x.transaction.id == e.transaction.id with
    | none => exact absurd (List.find?_eq_none.mp hfind e he) (by simp)
    | some x =>
      have hid : x.transaction.id = e.transaction.id := by simpa using List.find?_some hfind
      rw [List.inj_on_of_nodup_map h.ids (List.mem_of_find?_eq_some hfind) he hid]

/-- Once no entry spends the outpoints that the index is silent about, it is in order. -/
lemma indexed (h : p.IndexedBut silent)
    (hunspent : ∀ e ∈ p.entries, ∀ o ∈ silent, o ∉ e.transaction.sources) : p.Indexed where
  ids := h.ids
  counts := by
    intro o _ txid
    by_cases ho : o ∈ silent
    · have hnone : p.named o = [] := by rw [named, h.silence o ho, Option.getD_none]
      rw [hnone, List.count_nil]
      refine (List.count_eq_zero.mpr fun hmem => ?_).symm
      obtain ⟨e, he, hsource⟩ := List.mem_flatMap.mp hmem
      exact hunspent e (List.mem_of_mem_filter he) o ho hsource
    · exact h.counts o ho txid
  silence := fun _ ho => nomatch ho
  nonempty := h.nonempty

/-- An index from which an outpoint is struck out is silent about that one. -/
lemma erase (h : p.Indexed) (o : Outpoint) :
    ({ p with spenders := p.spenders.erase o } : Pool).IndexedBut [o] where
  ids := h.ids
  counts := by
    intro o' ho' txid
    have hne : o ≠ o' := fun heq => ho' (List.mem_singleton.mpr heq.symm)
    rw [named, Table.get?_erase, if_neg hne]
    exact h.counts o' List.not_mem_nil txid
  silence := by
    intro o' ho'
    rw [List.mem_singleton.mp ho', Table.get?_erase, if_pos rfl]
  nonempty := by
    intro o' hempty
    rw [Table.get?_erase] at hempty
    split at hempty
    · cases hempty
    · exact h.nonempty o' hempty

end IndexedBut

/-! ### Pooling -/

/-- A new entry is put among the others. -/
lemma rank_perm (e : PoolEntry) (es : List PoolEntry) : (rank e es).Perm (e :: es) := by
  induction es with
  | nil => exact .refl _
  | cons x es ih =>
    rw [rank]
    split
    · exact .refl _
    · exact (ih.cons x).trans (.swap e x es)

/-- A spender is named once more for each of its inputs. -/
lemma named_noteSpender (txid : Bytes) (index : Table Outpoint (List Bytes))
    (sources : List Outpoint) (o : Outpoint) :
    ((noteSpender txid index sources).get? o).getD [] =
      (index.get? o).getD [] ++ List.replicate (sources.count o) txid := by
  induction sources generalizing index with
  | nil => simp [noteSpender]
  | cons s sources ih =>
    have hstep : noteSpender txid index (s :: sources) =
        noteSpender txid (index.insert s ((index.get? s).getD [] ++ [txid])) sources := rfl
    rw [hstep, ih, Table.get?_insert]
    by_cases hs : s = o
    · subst hs
      simp [List.replicate_succ]
    · simp [hs]

/-- Naming a spender empties no list. -/
lemma noteSpender_nonempty (txid : Bytes) {index : Table Outpoint (List Bytes)}
    (h : ∀ o, index.get? o ≠ some []) (sources : List Outpoint) (o : Outpoint) :
    (noteSpender txid index sources).get? o ≠ some [] := by
  induction sources generalizing index with
  | nil => exact h o
  | cons s sources ih =>
    have hnamed : ∀ o', (index.insert s ((index.get? s).getD [] ++ [txid])).get? o' ≠ some [] := by
      intro o'
      rw [Table.get?_insert]
      split
      · simp
      · exact h o'
    exact ih hnamed

/-- A new transaction is one entry more, and the others stay. -/
lemma entries_append {p : Pool} {tx : Transaction} (fee : Amount)
    (hnew : p.contains tx.id = false) :
    (p.append tx fee).1.entries.Perm (⟨tx, fee, p.arrivals⟩ :: p.entries) := by
  rw [append, hnew]
  exact rank_perm _ p.entries

/-- Whether a transaction is pooled is seen from the ids. -/
lemma contains_iff {p : Pool} {txid : Bytes} :
    p.contains txid = true ↔ txid ∈ p.entries.map (·.transaction.id) := by
  simp [contains, get?]

/-- The index of a pool is in order after a transaction has been pooled. -/
theorem Indexed.append {p : Pool} (h : p.Indexed) (tx : Transaction) (fee : Amount) :
    (p.append tx fee).1.Indexed := by
  rw [Pool.append]
  split
  · exact h
  · next hnew =>
    rw [contains_iff] at hnew
    have hperm := rank_perm ⟨tx, fee, p.arrivals⟩ p.entries
    exact
      { ids := by
          rw [(hperm.map _).nodup_iff, List.map_cons, List.nodup_cons]
          exact ⟨hnew, h.ids⟩
        counts := by
          intro o _ txid
          rw [spendings_perm hperm, spendings_cons, named, named_noteSpender, List.count_append,
            List.count_replicate]
          have hbefore : ((p.spenders.get? o).getD []).count txid = spendings p.entries txid o :=
            h.counts o List.not_mem_nil txid
          rw [hbefore, Nat.add_comm]
          by_cases hid : tx.id = txid <;> simp [hid]
        silence := fun _ ho => nomatch ho
        nonempty := noteSpender_nonempty tx.id h.nonempty tx.sources }

/-! ### Removal -/

/-- One outpoint is struck before the others. -/
lemma strikeSpender_cons (txid : Bytes) (index : Table Outpoint (List Bytes)) (s : Outpoint)
    (sources : List Outpoint) : strikeSpender txid index (s :: sources) =
      strikeSpender txid (strikeSpender txid index [s]) sources := rfl

/-- Striking a spender at one outpoint takes its id off the list there, and the list out of the
index if nothing is left of it. -/
lemma get?_strikeSpender_singleton (txid : Bytes) (index : Table Outpoint (List Bytes))
    (s o : Outpoint) : (strikeSpender txid index [s]).get? o =
      if s = o then ((index.get? o).map fun ids => ids.filter (· != txid)).filter (!·.isEmpty)
      else index.get? o := by
  rw [strikeSpender, List.foldl_cons, List.foldl_nil]
  by_cases hs : s = o
  · subst hs
    rw [if_pos rfl]
    cases hget : index.get? s with
    | none => simp [hget]
    | some ids =>
      cases hleft : ids.filter (· != txid) with
      | nil => simp [hleft, Table.get?_erase, Option.filter_some]
      | cons a left => simp [hleft, Table.get?_insert, Option.filter_some]
  · rw [if_neg hs]
    cases hget : index.get? s with
    | none => rfl
    | some ids =>
      cases hleft : ids.filter (· != txid) with
      | nil => simp [hleft, Table.get?_erase, hs]
      | cons a left => simp [hleft, Table.get?_insert, hs]

/-- A list that is out of the index when empty reads the same. -/
lemma getD_filter_isEmpty (ids : Option (List Bytes)) :
    (ids.filter (!·.isEmpty)).getD [] = ids.getD [] := by
  cases ids with
  | none => rfl
  | some ids => cases ids <;> simp [Option.filter_some]

/-- A struck spender is named no more for any of the outpoints, and all else is as before. -/
lemma named_strikeSpender (txid : Bytes) (index : Table Outpoint (List Bytes))
    (sources : List Outpoint) (o : Outpoint) :
    ((strikeSpender txid index sources).get? o).getD [] =
      if o ∈ sources then ((index.get? o).getD []).filter (· != txid)
      else (index.get? o).getD [] := by
  induction sources generalizing index with
  | nil => simp [strikeSpender]
  | cons s sources ih =>
    rw [strikeSpender_cons, ih, get?_strikeSpender_singleton]
    by_cases hs : s = o
    · subst hs
      have hstruck : ((index.get? s).map fun ids => ids.filter (· != txid)).getD [] =
          ((index.get? s).getD []).filter (· != txid) := by
        cases index.get? s <;> simp
      rw [if_pos rfl, getD_filter_isEmpty, hstruck, List.filter_filter]
      simp
    · simp [hs, Ne.symm hs]

/-- Striking a spender leaves no empty list, and brings no outpoint into the index. -/
lemma strikeSpender_nonempty (txid : Bytes) {index : Table Outpoint (List Bytes)}
    (h : ∀ o, index.get? o ≠ some []) (sources : List Outpoint) (o : Outpoint) :
    (strikeSpender txid index sources).get? o ≠ some [] ∧
      (index.get? o = none → (strikeSpender txid index sources).get? o = none) := by
  induction sources generalizing index with
  | nil => exact ⟨h o, id⟩
  | cons s sources ih =>
    rw [strikeSpender_cons]
    have hstep : ∀ o', (strikeSpender txid index [s]).get? o' ≠ some [] := by
      intro o' hempty
      rw [get?_strikeSpender_singleton] at hempty
      split at hempty
      · simp [Option.filter_eq_some_iff] at hempty
      · exact h o' hempty
    refine ⟨(ih hstep).1, fun hnone => (ih hstep).2 ?_⟩
    rw [get?_strikeSpender_singleton, hnone]
    simp

/-- Among entries of different ids, taking out the first one of an id takes out all of them. -/
lemma eraseP_eq_filter {es : List PoolEntry} (hids : (es.map (·.transaction.id)).Nodup)
    (txid : Bytes) : es.eraseP (fun e => e.transaction.id == txid) =
      es.filter fun e => e.transaction.id != txid := by
  induction es with
  | nil => rfl
  | cons x es ih =>
    rw [List.map_cons, List.nodup_cons] at hids
    by_cases hx : x.transaction.id = txid
    · have hrest : es.filter (fun e => e.transaction.id != txid) = es := by
        refine List.filter_eq_self.mpr fun y hy => ?_
        have hne : y.transaction.id ≠ txid := fun heq =>
          hids.1 (hx ▸ heq ▸ List.mem_map_of_mem hy)
        simpa using hne
      rw [List.eraseP_cons_of_pos (by simpa using hx),
        List.filter_cons_of_neg (by simpa using hx), hrest]
    · rw [List.eraseP_cons_of_neg (by simpa using hx),
        List.filter_cons_of_pos (by simpa using hx), ih hids.2]

/-- What is taken out of the entries are those of the id. -/
lemma entries_remove {p : Pool} (hids : (p.entries.map (·.transaction.id)).Nodup) (txid : Bytes) :
    (p.remove txid).1.entries = p.entries.filter (fun e => e.transaction.id != txid) := by
  rw [remove]
  cases hget : p.get? txid with
  | none =>
    refine (List.filter_eq_self.mpr fun e he => ?_).symm
    have hne := List.find?_eq_none.mp hget e he
    simpa using hne
  | some e =>
    exact eraseP_eq_filter hids txid

/-- The index is struck where the removed transaction spends, if there is one. -/
lemma spenders_remove {p : Pool} {silent : List Outpoint} (h : p.IndexedBut silent) (txid : Bytes) :
    ∃ sources, (p.remove txid).1.spenders = strikeSpender txid p.spenders sources ∧
      ∀ o ∉ sources, spendings p.entries txid o = 0 := by
  rw [remove]
  cases hget : p.get? txid with
  | none =>
    have hnew : txid ∉ p.entries.map (·.transaction.id) := by
      rw [← contains_iff, contains, hget]
      simp
    exact ⟨[], rfl, fun o _ => spendings_of_notMem hnew o⟩
  | some e =>
    have hid : e.transaction.id = txid := by simpa using List.find?_some hget
    refine ⟨e.transaction.sources, rfl, fun o ho => ?_⟩
    rw [← hid, spendings_eq_count h.ids (List.mem_of_find?_eq_some hget)]
    exact List.count_eq_zero.mpr ho

/-- A pool without one of its transactions has its index in order as far as before. -/
lemma IndexedBut.remove {p : Pool} {silent : List Outpoint} (h : p.IndexedBut silent)
    (txid : Bytes) : (p.remove txid).1.IndexedBut silent := by
  obtain ⟨sources, hstruck, hothers⟩ := spenders_remove h txid
  exact
    { ids := by
        rw [entries_remove h.ids]
        exact h.ids.sublist (List.filter_sublist.map _)
      counts := by
        intro o ho id
        rw [entries_remove h.ids, named, hstruck, named_strikeSpender]
        have hcounts : ((p.spenders.get? o).getD []).count id = spendings p.entries id o :=
          h.counts o ho id
        have hleft := spendings_filter p.entries (· == txid) id o
        rw [show p.entries.filter (fun e => e.transaction.id != txid) =
          p.entries.filter (!(· == txid) ·.transaction.id) from rfl, hleft]
        by_cases hid : id = txid
        · subst hid
          split
          · have hstruck : id ∉ ((p.spenders.get? o).getD []).filter (· != id) := by simp
            simpa using List.count_eq_zero.mpr hstruck
          · next hsource => simp [hcounts, hothers o hsource]
        · split
          · rw [List.count_filter (by simpa using hid), hcounts]
            simp [hid]
          · simp [hcounts, hid]
      silence := fun o ho => hstruck ▸
        (strikeSpender_nonempty txid h.nonempty sources o).2 (h.silence o ho)
      nonempty := fun o => hstruck ▸ (strikeSpender_nonempty txid h.nonempty sources o).1 }

/-- One transaction is removed before the others. -/
lemma removeAll_cons (p : Pool) (count : Nat) (txid : Bytes) (txids : List Bytes) :
    p.removeAll count (txid :: txids) =
      (p.remove txid).1.removeAll (count + (p.remove txid).2.toNat) txids := by
  rw [removeAll]
  rcases p.remove txid with ⟨q, _ | _⟩ <;> rfl

/-- Removing several transactions leaves the entries of other ids, and the index in order as far as
before. -/
lemma IndexedBut.removeAll {p : Pool} {silent : List Outpoint} (h : p.IndexedBut silent)
    (count : Nat) (txids : List Bytes) :
    (p.removeAll count txids).1.entries = p.entries.filter (·.transaction.id ∉ txids) ∧
      (p.removeAll count txids).1.IndexedBut silent := by
  induction txids generalizing p count with
  | nil => exact ⟨by simp [Pool.removeAll], h⟩
  | cons txid txids ih =>
    obtain ⟨hentries, hindexed⟩ := ih (h.remove txid) (count + (p.remove txid).2.toNat)
    rw [removeAll_cons]
    refine ⟨?_, hindexed⟩
    rw [hentries, entries_remove h.ids, List.filter_filter]
    refine List.filter_congr fun e _ => ?_
    rw [Bool.and_comm]
    simp [bne, beq_eq_decide]

/-! ### Eviction -/

/-- Eviction for one outpoint takes out the entries that spend it. -/
lemma Indexed.evictFrom_singleton {p : Pool} (h : p.Indexed) (count : Nat) (o : Outpoint) :
    (p.evictFrom count [o]).1.entries = p.entries.filter (o ∉ ·.transaction.sources) ∧
      (p.evictFrom count [o]).1.Indexed := by
  have hnamed : ∀ e ∈ p.entries, e.transaction.id ∈ p.named o ↔ o ∈ e.transaction.sources :=
    fun e he => h.mem_named_iff List.not_mem_nil he
  rw [evictFrom]
  cases hget : p.spenders.get? o with
  | none =>
    refine ⟨(List.filter_eq_self.mpr fun e he => ?_).symm, h⟩
    have hnone : p.named o = [] := by rw [named, hget, Option.getD_none]
    have hunnamed := hnamed e he
    rw [hnone] at hunnamed
    simpa using hunnamed
  | some txids =>
    have hsome : p.named o = txids := by rw [named, hget, Option.getD_some]
    rw [hsome] at hnamed
    obtain ⟨hentries, hindexed⟩ := (IndexedBut.erase h o).removeAll count txids
    have hkept : p.entries.filter (·.transaction.id ∉ txids) =
        p.entries.filter (o ∉ ·.transaction.sources) :=
      List.filter_congr fun e he => by simp [hnamed e he]
    rw [hkept] at hentries
    refine ⟨hentries, hindexed.indexed fun e he o' ho' => ?_⟩
    rw [hentries] at he
    rw [List.mem_singleton.mp ho']
    simpa using (List.mem_filter.mp he).2

/-- One outpoint is worked on before the others. -/
lemma evictFrom_cons (p : Pool) (count : Nat) (o : Outpoint) (os : List Outpoint) :
    p.evictFrom count (o :: os) =
      (p.evictFrom count [o]).1.evictFrom (p.evictFrom count [o]).2 os := by
  rw [evictFrom, evictFrom]
  cases p.spenders.get? o <;> rfl

/-- Eviction takes out exactly the entries that spend one of the outpoints, and leaves the index in
order. -/
theorem Indexed.evictFrom {p : Pool} (h : p.Indexed) (count : Nat) (os : List Outpoint) :
    (p.evictFrom count os).1.entries =
        p.entries.filter (fun e => ∀ o ∈ os, o ∉ e.transaction.sources) ∧
      (p.evictFrom count os).1.Indexed := by
  induction os generalizing p count with
  | nil => exact ⟨by simp [Pool.evictFrom], h⟩
  | cons o os ih =>
    obtain ⟨hfirst, hindexed⟩ := h.evictFrom_singleton count o
    obtain ⟨hrest, hindexed'⟩ := ih hindexed (p.evictFrom count [o]).2
    rw [evictFrom_cons]
    refine ⟨?_, hindexed'⟩
    rw [hrest, hfirst, List.filter_filter]
    refine List.filter_congr fun e _ => ?_
    rw [Bool.and_comm]
    simp

end Pool

end PowLedger
