import Mathlib.Algebra.BigOperators.Group.List.Basic
import Mathlib.Data.List.Count
import Mathlib.Data.List.Nodup
import Mathlib.Data.List.Perm.Basic
import Mathlib.Tactic.Common
import Mathlib.Tactic.Lemma
import PowLedger.Proofs.Pool.Eviction
import PowLedger.Proofs.Pool.Ranking
import PowLedger.Proofs.Transaction.Outpoint

/-!
# The pool as a queue

A pool keeps its transactions by rank and an index beside them, both of which change in small steps.
What it does can be said of a plain queue (`Queue`): a new transaction goes to the end, and of a
confirmed block one looks at every transaction and lets those go that it spoils. After any history
the pool mirrors the queue, `Pool.pool_mirrors_queue`: its entries are the queue sorted by falling
fee, equal fees in the order of their arrival, and its index names the spenders of an outpoint in
that order too, each as often as it spends it.
-/

namespace PowLedger

/-- Two transactions spend an outpoint both. -/
def Transaction.Conflicts (t u : Transaction) : Prop :=
  ∃ o ∈ t.sources, o ∈ u.sources

instance (t u : Transaction) : Decidable (t.Conflicts u) :=
  inferInstanceAs (Decidable (∃ o ∈ t.sources, o ∈ u.sources))

namespace PoolEntry

/-- The entry spends an outpoint that a transaction of the block spends too. -/
def SpoiledBy (e : PoolEntry) (b : Block) : Prop :=
  ∃ tx ∈ b.transactions, tx.Conflicts e.transaction

instance (e : PoolEntry) (b : Block) : Decidable (e.SpoiledBy b) :=
  inferInstanceAs (Decidable (∃ tx ∈ b.transactions, tx.Conflicts e.transaction))

end PoolEntry

/-! ### Queues -/

/-- What happens to a pool. -/
inductive PoolStep where
  /-- A transaction is brought with its fee. -/
  | offer (tx : Transaction) (fee : Amount)
  /-- A block is confirmed. -/
  | confirm (b : Block)

/-- The transactions that wait for a block, in the order of their arrival. -/
structure Queue where
  waiting : List PoolEntry
  /-- The number of transactions that ever arrived. -/
  arrivals : Nat

namespace Queue

/-- A new transaction goes to the end, unless its id waits already; a confirmed block takes along
all that it spoils. -/
def take (q : Queue) : PoolStep → Queue
  | .offer tx fee =>
    if tx.id ∈ q.waiting.map (·.transaction.id) then q
    else ⟨q.waiting ++ [⟨tx, fee, q.arrivals⟩], q.arrivals + 1⟩
  | .confirm b => { q with waiting := q.waiting.filter (¬·.SpoiledBy b) }

/-- The queue after a history that begins with nobody waiting. -/
def after (steps : List PoolStep) : Queue :=
  steps.foldl take ⟨[], 0⟩

/-- The ids of those that wait and spend an outpoint, each as often as it does. -/
def spendersOf (q : Queue) (o : Outpoint) : List Bytes :=
  q.waiting.flatMap fun e => List.replicate (e.transaction.sources.count o) e.transaction.id

/-- Those that wait came one after the other. -/
structure InOrder (q : Queue) : Prop where
  earlier : q.waiting.Pairwise (·.arrival < ·.arrival)
  arrived : ∀ e ∈ q.waiting, e.arrival < q.arrivals

/-- What is taken keeps the queue in order. -/
lemma InOrder.take {q : Queue} (h : q.InOrder) (step : PoolStep) : (q.take step).InOrder := by
  cases step with
  | offer tx fee =>
    rw [Queue.take]
    split
    · exact h
    · constructor
      · refine List.pairwise_append.mpr ⟨h.earlier, List.pairwise_singleton _ _, ?_⟩
        intro e he f hf
        rw [List.mem_singleton.mp hf]
        exact h.arrived e he
      · intro e he
        rcases List.mem_append.mp he with hold | hnew
        · exact Nat.lt_succ_of_lt (h.arrived e hold)
        · rw [List.mem_singleton.mp hnew]
          exact Nat.lt_succ_self _
  | confirm b =>
    exact ⟨h.earlier.sublist List.filter_sublist,
      fun e he => h.arrived e (List.mem_of_mem_filter he)⟩

/-- A queue is in order at all times. -/
lemma inOrder_after (steps : List PoolStep) : (after steps).InOrder := by
  have hfrom : ∀ q : Queue, q.InOrder → (steps.foldl Queue.take q).InOrder := by
    induction steps with
    | nil => exact fun _ h => h
    | cons step steps ih => exact fun q h => ih (q.take step) (h.take step)
  exact hfrom _ ⟨List.Pairwise.nil, fun _ he => nomatch he⟩

/-- A spender is named as often as the outpoint is spent. -/
lemma length_spendersOf (q : Queue) (o : Outpoint) :
    (q.spendersOf o).length = (q.waiting.flatMap (·.transaction.sources)).count o := by
  rw [spendersOf, List.length_flatMap, List.count_flatMap]
  simp [Function.comp_def]

/-- Of spenders that are told by their ids those of the remaining entries remain. -/
lemma filter_spendersOf (q : Queue) {keep : PoolEntry → Bool} {pooled : Bytes → Bool}
    (h : ∀ e ∈ q.waiting, pooled e.transaction.id = keep e) (o : Outpoint) :
    (q.spendersOf o).filter pooled =
      { q with waiting := q.waiting.filter keep }.spendersOf o := by
  obtain ⟨waiting, arrivals⟩ := q
  simp only [spendersOf] at h ⊢
  induction waiting with
  | nil => rfl
  | cons e es ih =>
    rw [List.flatMap_cons, List.filter_append, ih fun x hx => h x (List.mem_cons_of_mem _ hx),
      List.filter_replicate, h e List.mem_cons_self]
    cases hkeep : keep e <;> simp [hkeep]

end Queue

/-! ### A pool beside its queue -/

namespace Pool

/-- What happens changes the pool. -/
def take (p : Pool) : PoolStep → Pool
  | .offer tx fee => (p.append tx fee).1
  | .confirm b => (p.evict b).1

/-- The pool after a history that begins with the empty one. -/
def after (steps : List PoolStep) : Pool :=
  steps.foldl take empty

/-- The entries are the queue by rank, and the index is in order and names the spenders as they
stand in the queue. -/
structure Follows (p : Pool) (q : Queue) : Prop where
  indexed : p.Indexed
  ranked : Ranked q.waiting p.entries
  arrivals : p.arrivals = q.arrivals
  named : ∀ o, p.named o = q.spendersOf o

namespace Follows

variable {p p' : Pool} {q : Queue}

/-- The pool holds the transactions of the queue. -/
lemma contains_iff (h : p.Follows q) {txid : Bytes} :
    p.contains txid = true ↔ txid ∈ q.waiting.map (·.transaction.id) := by
  rw [Pool.contains_iff]
  simp [h.ranked.mem_iff]

/-- What is offered is taken by the pool as it is by the queue. -/
lemma offer (h : p.Follows q) (tx : Transaction) (fee : Amount) :
    (p.append tx fee).1.Follows (q.take (.offer tx fee)) := by
  have hindexed := h.indexed.append tx fee
  rw [Queue.take]
  rw [Pool.append] at hindexed ⊢
  by_cases hpooled : p.contains tx.id = true
  · rw [if_pos hpooled, if_pos (h.contains_iff.mp hpooled)]
    exact h
  · rw [if_neg hpooled, if_neg (hpooled ∘ h.contains_iff.mpr)]
    rw [if_neg hpooled] at hindexed
    exact
      { indexed := hindexed
        ranked := h.arrivals ▸ h.ranked.rank _
        arrivals := by rw [h.arrivals]
        named := by
          intro o
          have hnamed : (p.spenders.get? o).getD [] = q.spendersOf o := h.named o
          rw [Pool.named, named_noteSpender, hnamed]
          simp [Queue.spendersOf] }

/-- What a block does not spoil is what spends nothing that it spends. -/
lemma unspoiled_eq (b : Block) (es : List PoolEntry) : es.filter (¬·.SpoiledBy b) =
    es.filter fun e => ∀ o ∈ b.transactions.flatMap Transaction.sources,
      o ∉ e.transaction.sources := by
  refine List.filter_congr fun e _ => ?_
  simp only [PoolEntry.SpoiledBy, Transaction.Conflicts, List.mem_flatMap]
  grind

/-- The entries that stay when a block is confirmed. -/
lemma entries_evict (h : p.Follows q) (b : Block) :
    (p.evict b).1.entries = p.entries.filter (¬·.SpoiledBy b) :=
  (h.indexed.evictFrom 0 _).1.trans (unspoiled_eq b p.entries).symm

/-- A confirmed block is taken by the pool as it is by the queue. -/
lemma confirm (h : p.Follows q) (b : Block) :
    (p.evict b).1.Follows (q.take (.confirm b)) where
  indexed := (h.indexed.evictFrom 0 _).2
  ranked := h.entries_evict b ▸ h.ranked.filter _
  arrivals := (h.indexed.sifts_evictFrom 0 _).arrivals.trans h.arrivals
  named o := by
    have hsifts : p.Sifts (p.evict b).1 := h.indexed.sifts_evictFrom 0 _
    rw [hsifts.named, h.named]
    refine q.filter_spendersOf (fun e he => ?_) o
    rw [← h.ranked.mem_iff] at he
    rw [Bool.eq_iff_iff, Pool.contains_iff, h.entries_evict]
    constructor
    · intro hmem
      obtain ⟨e', he', hid⟩ := List.mem_map.mp hmem
      obtain ⟨he', hkept⟩ := List.mem_filter.mp he'
      rwa [List.inj_on_of_nodup_map h.indexed.ids he' he hid] at hkept
    · exact fun hkept => List.mem_map_of_mem (List.mem_filter.mpr ⟨he, hkept⟩)

/-- The pool follows the queue whatever happens. -/
lemma take (h : p.Follows q) (step : PoolStep) : (p.take step).Follows (q.take step) := by
  cases step with
  | offer tx fee => exact h.offer tx fee
  | confirm b => exact h.confirm b

/-- The index leads from an outpoint to its spenders in the queue, if it has any. -/
lemma get?_spenders (h : p.Follows q) (o : Outpoint) :
    p.spenders.get? o = if q.spendersOf o = [] then none else some (q.spendersOf o) := by
  have hnamed := h.named o
  have hnonempty := h.indexed.nonempty o
  rw [Pool.named] at hnamed
  rw [← hnamed]
  cases hget : p.spenders.get? o with
  | none => rfl
  | some ids =>
    rw [hget] at hnonempty
    have hids : ids ≠ [] := fun heq => hnonempty (congrArg some heq)
    rw [Option.getD_some, if_neg hids]

/-- Two pools that follow one queue are one, if their indexes keep the order of one list of keys. -/
lemma unique (h : p.Follows q) (h' : p'.Follows q) {keys : List Outpoint} (hnodup : keys.Nodup)
    (hkeys : p.spenders.keys.Sublist keys) (hkeys' : p'.spenders.keys.Sublist keys) : p = p' := by
  have hget : ∀ o, p.spenders.get? o = p'.spenders.get? o := fun o => by
    rw [h.get?_spenders, h'.get?_spenders]
  have hperm : p.spenders.keys.Perm p'.spenders.keys := by
    refine (List.perm_ext_iff_of_nodup p.spenders.distinct p'.spenders.distinct).mpr fun o => ?_
    rw [← not_iff_not]
    exact Table.get?_eq_none_iff.symm.trans (hget o ▸ Table.get?_eq_none_iff)
  have hspenders : p.spenders = p'.spenders :=
    Table.ext_get? ((hnodup.perm_iff_eq_of_sublist hkeys hkeys').mp hperm) hget
  have hentries := h.ranked.unique h'.ranked
  have harrivals := h.arrivals.trans h'.arrivals.symm
  obtain ⟨entries, spenders, arrivals⟩ := p
  obtain ⟨entries', spenders', arrivals'⟩ := p'
  exact mk.injEq .. ▸ ⟨hentries, hspenders, harrivals⟩

/-- The number kept under the text of an outpoint, and under any other text. -/
lemma spenderCount_eq (h : p.Follows q) (text : String) :
    p.spenderCount text =
      (q.waiting.flatMap (·.transaction.sources)).countP (·.text = text) := by
  rw [spenderCount]
  cases hfind : p.spenders.entries.find? fun e => e.1.text == text with
  | none =>
    refine (List.countP_eq_zero.mpr fun o ho htext => ?_).symm
    have hspent : q.spendersOf o ≠ [] := by
      rw [← List.length_pos_iff_ne_nil, q.length_spendersOf]
      exact List.count_pos_iff.mpr ho
    have hget := h.get?_spenders o
    rw [if_neg hspent, Table.get?_eq_some_iff] at hget
    exact List.find?_eq_none.mp hfind _ hget (by simpa using htext)
  | some e =>
    obtain ⟨o, ids⟩ := e
    have htext : o.text = text := by simpa using List.find?_some hfind
    have hget := Table.get?_eq_some_iff.mpr (List.mem_of_find?_eq_some hfind)
    rw [h.get?_spenders] at hget
    have hids : ids = q.spendersOf o := by
      split at hget
      · cases hget
      · exact (Option.some.inj hget).symm
    show ids.length = _
    rw [hids, q.length_spendersOf, List.count, ← htext]
    refine List.countP_congr fun o' _ => ?_
    simp [Outpoint.text_injective.eq_iff]

end Follows

/-- After any history the pool follows the queue. -/
lemma follows_after (steps : List PoolStep) : (after steps).Follows (Queue.after steps) := by
  have hfrom : ∀ (p : Pool) (q : Queue), p.Follows q →
      (steps.foldl take p).Follows (steps.foldl Queue.take q) := by
    induction steps with
    | nil => exact fun _ _ h => h
    | cons step steps ih => exact fun p q h => ih _ _ (h.take step)
  exact hfrom _ _ ⟨indexed_empty, ⟨List.Pairwise.nil, fun _ => rfl⟩, rfl, fun _ => rfl⟩

/-- The pool shows the queue in its entries, in its index and in its answers. -/
structure Mirrors (p : Pool) (q : Queue) : Prop where
  /-- No two entries have one id. -/
  ids : (p.entries.map (·.transaction.id)).Nodup
  /-- The entries are the queue by falling fee, equal fees in the order of their arrival. -/
  entries : p.entries = q.waiting.mergeSort fun a b => b.fee ≤ a.fee
  ranked : p.entries.Pairwise PoolEntry.Outranks
  /-- The index leads to the spenders of an outpoint, and has no outpoint without spenders. -/
  spenders : ∀ o,
    p.spenders.get? o = if q.spendersOf o = [] then none else some (q.spendersOf o)
  /-- The spenders are counted under the text of their outpoint. -/
  spenderCount : ∀ text, p.spenderCount text =
    (q.waiting.flatMap (·.transaction.sources)).countP (·.text = text)
  contains : ∀ txid, p.contains txid = true ↔ ∃ e ∈ q.waiting, e.transaction.id = txid
  get? : ∀ txid e, p.get? txid = some e ↔ e ∈ q.waiting ∧ e.transaction.id = txid
  size : p.size = q.waiting.length

/-- A pool that follows a queue in order shows it. -/
lemma Follows.mirrors {p : Pool} {q : Queue} (h : p.Follows q) (horder : q.InOrder) :
    p.Mirrors q where
  ids := h.indexed.ids
  entries := h.ranked.eq_mergeSort
  ranked := h.ranked.outranks horder.earlier
  spenders := h.get?_spenders
  spenderCount := h.spenderCount_eq
  contains txid := by rw [h.contains_iff, List.mem_map]
  get? txid e := by rw [h.indexed.get?_eq_some_iff, h.ranked.mem_iff]
  size := by rw [size, h.ranked.eq_mergeSort, List.length_mergeSort]

/-- After any history the pool shows the queue. What waits already is not taken again, and changes
nothing. If those that wait pay different fees, the pool lists them in one order, in whichever order
they came. -/
theorem pool_mirrors_queue (steps : List PoolStep) :
    (after steps).Mirrors (Queue.after steps) ∧
    (∀ tx fee, tx.id ∈ (Queue.after steps).waiting.map (·.transaction.id) →
      (after steps).append tx fee = (after steps, false)) ∧
    ∀ steps', ((Queue.after steps').waiting.map PoolEntry.offer).Perm
        ((Queue.after steps).waiting.map PoolEntry.offer) →
      ((Queue.after steps).waiting.map PoolEntry.fee).Nodup →
      (after steps').entries.map PoolEntry.offer = (after steps).entries.map PoolEntry.offer := by
  have hfollows := follows_after steps
  refine ⟨hfollows.mirrors (Queue.inOrder_after steps), fun tx fee hwaits => ?_,
    fun steps' hperm hfees => ?_⟩
  · rw [append, if_pos (hfollows.contains_iff.mpr hwaits)]
  · exact (follows_after steps').ranked.offers_eq hfollows.ranked hperm hfees

end Pool

namespace Sample

/-- A transaction that spends the first output of some others. -/
def spender (id : UInt8) (sources : List UInt8) : Transaction :=
  ⟨[id], sources.map fun source => .unsigned ⟨[source], 0⟩, [], []⟩

/-- A block with one transaction. -/
def confirming (tx : Transaction) : Block :=
  ⟨⟨1, "", [], 1, 0, 0, 0⟩, [tx], ""⟩

/-- Three rivals for one output. The first spends it twice and comes twice; a fourth transaction is
spoiled by a block. -/
def rivals : List PoolStep :=
  [.offer (spender 1 [7, 7, 8]) 5, .offer (spender 2 [9]) 40, .offer (spender 3 [7]) 20,
    .offer (spender 1 [6]) 50, .confirm (confirming (spender 5 [9])), .offer (spender 4 [6, 7]) 10]

/-- The rivals in another order, and nobody else. -/
def rivalsAlone : List PoolStep :=
  [.offer (spender 3 [7]) 20, .offer (spender 4 [6, 7]) 10, .offer (spender 1 [7, 7, 8]) 5]

end Sample

namespace Pool

open Sample in
/-- The rivals are pooled in one order, whichever way they come, and the index names them at the
output that they fight for. -/
theorem pool_mirrors_queue_of_rivals :
    (after rivals).entries.map PoolEntry.offer =
        [(spender 3 [7], 20), (spender 4 [6, 7], 10), (spender 1 [7, 7, 8], 5)] ∧
      (after rivalsAlone).entries.map PoolEntry.offer = (after rivals).entries.map PoolEntry.offer ∧
      (after rivals).spenders.get? ⟨[7], 0⟩ = some [[1], [1], [3], [4]] ∧
      (after rivals).append (spender 4 []) 60 = (after rivals, false) := by
  obtain ⟨hmirrors, hagain, horder⟩ := pool_mirrors_queue rivals
  refine ⟨by decide +kernel, horder rivalsAlone (by decide +kernel) (by decide +kernel), ?_,
    hagain _ _ (by decide +kernel)⟩
  rw [hmirrors.spenders]
  decide +kernel

end Pool

end PowLedger
