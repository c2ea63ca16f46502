import Mathlib.Data.List.Basic
import Mathlib.Tactic.Common
import Mathlib.Tactic.Lemma
import PowLedger.Proofs.Pool.Queue

/-!
# Confirmed blocks and the pool

When a block is confirmed the pool evicts by its index. Seen from the entries it is a look at each
of them: those that the block spoils go, the others stay as they are (`Pool.Evicts`). So a block
that is confirmed again finds nothing to evict, and two blocks may be confirmed in either order,
`Pool.eviction_exact`. The pools that come of the two orders are one, down to the order in which
their indexes keep the outpoints: both indexes are what is left of the same index.
-/

namespace PowLedger

/-- Nobody who waits on after a block spends what the block has spent. -/
lemma Queue.spendersOf_take_confirm (q : Queue) {b : Block} {tx : Transaction}
    (htx : tx ∈ b.transactions) {o : Outpoint} (ho : o ∈ tx.sources) :
    (q.take (.confirm b)).spendersOf o = [] := by
  rw [← List.length_eq_zero_iff, Queue.length_spendersOf, List.count_eq_zero]
  intro hmem
  obtain ⟨e, he, hsource⟩ := List.mem_flatMap.mp hmem
  have hkept : ¬e.SpoiledBy b := by simpa using (List.mem_filter.mp he).2
  exact hkept ⟨tx, htx, o, ho, hsource⟩

namespace Pool

variable {p : Pool} {q : Queue}

/-- What is counted as evicted and what is left was there before. -/
lemma size_evict (p : Pool) (b : Block) : (p.evict b).2 + (p.evict b).1.size = p.size :=
  (p.size_evictFrom 0 _).trans (Nat.zero_add _)

/-- The pool `p'` is what the block leaves of `p`, and `number` are evicted. -/
structure Evicts (p : Pool) (b : Block) (p' : Pool) (number : Nat) : Prop where
  /-- The entries that the block does not spoil stay, with their fees and in their order. -/
  kept : p'.entries = p.entries.filter (¬·.SpoiledBy b)
  /-- The others are evicted. -/
  number : number = (p.entries.filter (·.SpoiledBy b)).length
  /-- Nobody in the pool spends any more what the block has spent. -/
  freed : ∀ tx ∈ b.transactions, ∀ o ∈ tx.sources, p'.spenderCount o.text = 0
  /-- The same block evicts nobody the second time. -/
  again : p'.evict b = (p', 0)

/-- A pool that follows a queue evicts what the block spoils. -/
lemma Follows.evicts (h : p.Follows q) (b : Block) :
    p.Evicts b (p.evict b).1 (p.evict b).2 where
  kept := h.entries_evict b
  number := by
    have hsum := p.size_evict b
    have hparts := List.length_eq_length_filter_add (l := p.entries) (·.SpoiledBy b)
    rw [size, size, h.entries_evict b] at hsum
    simp only [decide_not] at hsum
    omega
  freed tx htx o ho := by
    rw [(h.confirm b).spenderCount_eq]
    refine List.countP_eq_zero.mpr fun o' ho' htext => ?_
    obtain rfl : o' = o := Outpoint.text_injective (by simpa using htext)
    have hnone := q.spendersOf_take_confirm htx ho
    rw [← List.length_eq_zero_iff, Queue.length_spendersOf, List.count_eq_zero] at hnone
    exact hnone ho'
  again := by
    refine evictFrom_of_unspent (fun o ho => ?_) 0
    obtain ⟨tx, htx, ho⟩ := List.mem_flatMap.mp ho
    rw [(h.confirm b).get?_spenders, if_pos (q.spendersOf_take_confirm htx ho)]

/-- The order in which two blocks are confirmed makes no difference. -/
lemma Follows.evict_comm (h : p.Follows q) (b c : Block) :
    ((p.evict b).1.evict c).1 = ((p.evict c).1.evict b).1 := by
  have hsifts : ∀ b c, p.Sifts ((p.evict b).1.evict c).1 := fun b c =>
    (h.indexed.sifts_evictFrom 0 _).trans ((h.confirm b).indexed.sifts_evictFrom 0 _)
  have hqueue : (q.take (.confirm b)).take (.confirm c) =
      (q.take (.confirm c)).take (.confirm b) := by
    simp only [Queue.take, List.filter_comm]
  have hbc := (h.confirm b).confirm c
  rw [hqueue] at hbc
  exact hbc.unique ((h.confirm c).confirm b) p.spenders.distinct (hsifts b c).keys
    (hsifts c b).keys

/-- A block that is confirmed evicts from a pool exactly what spends an outpoint that it spends too,
and nobody when it comes again. Two blocks leave the same pool in either order, and evict as many
together. -/
theorem eviction_exact (steps : List PoolStep) (b c : Block) :
    let p := after steps
    p.Evicts b (p.evict b).1 (p.evict b).2 ∧
    ((p.evict b).1.evict c).1 = ((p.evict c).1.evict b).1 ∧
    (p.evict b).2 + ((p.evict b).1.evict c).2 = (p.evict c).2 + ((p.evict c).1.evict b).2 := by
  intro p
  have hfollows : p.Follows (Queue.after steps) := follows_after steps
  have hcomm := hfollows.evict_comm b c
  refine ⟨hfollows.evicts b, hcomm, ?_⟩
  have hb := p.size_evict b
  have hc := p.size_evict c
  have hbc := (p.evict b).1.size_evict c
  have hcb := (p.evict c).1.size_evict b
  rw [hcomm] at hbc
  omega

end Pool

end PowLedger
