import Mathlib.Algebra.GroupWithZero.Nat
import Mathlib.Data.List.Nodup
import Mathlib.Tactic.Common
import Mathlib.Tactic.Lemma
import PowLedger.Proofs.Pool.Queue

/-!
# Selecting transactions for a block

The selection goes down the ranks of the pool and takes what spends nothing consumed so far. So it
is a sublist of the ranks, and no outpoint is consumed twice by it (`Pool.nodup_sources_select`) if
none is by any one of the pooled transactions. Its fees are added with a cap.

What it takes can be said without going down the ranks (`Pool.Greedy`): the chosen transactions do
not conflict, and each one left out conflicts with a chosen one of higher rank, or as many as may be
chosen rank higher. There is one such choice, and the selection makes it, `Pool.selection_greedy`. A
transaction that is left out leaves out no other: only what is chosen counts. So the induction is
over the ranks with what is consumed by then, and takes the choice apart at its first entry
(`Pool.greedyFrom_cons_skip`, `Pool.greedyFrom_cons_take`).
-/

namespace PowLedger

namespace Pool

/-- A selection takes some of the entries, in their order. -/
lemma selectFrom_sublist (consumed : List Outpoint) (count : Nat) (es : List PoolEntry) :
    (selectFrom consumed count es).Sublist es := by
  induction es generalizing consumed count with
  | nil => cases count <;> exact .refl _
  | cons e es ih =>
    cases count with
    | zero => exact List.nil_sublist _
    | succ count =>
      rw [selectFrom]
      split
      · exact (ih consumed (count + 1)).cons e
      · exact (ih (consumed ++ e.transaction.sources) count).cons_cons e

/-- A selection spends nothing that was consumed before. -/
lemma notMem_consumed_of_mem_selectFrom {consumed : List Outpoint} {count : Nat}
    {es : List PoolEntry} {e : PoolEntry} (he : e ∈ selectFrom consumed count es) {o : Outpoint}
    (ho : o ∈ e.transaction.sources) : o ∉ consumed := by
  induction es generalizing consumed count with
  | nil => cases count <;> cases he
  | cons x es ih =>
    cases count with
    | zero => cases he
    | succ count =>
      rw [selectFrom] at he
      split at he
      · exact ih he
      · next hfree =>
        rcases List.mem_cons.mp he with rfl | he
        · intro hmem
          exact hfree (List.any_eq_true.mpr ⟨o, ho, by simpa using hmem⟩)
        · exact fun hmem => ih he (List.mem_append_left _ hmem)

/-- A selection of transactions that consume nothing twice consumes nothing twice as a whole. -/
lemma nodup_sources_selectFrom {es : List PoolEntry}
    (hes : ∀ e ∈ es, e.transaction.sources.Nodup) (consumed : List Outpoint) (count : Nat) :
    ((selectFrom consumed count es).flatMap (·.transaction.sources)).Nodup := by
  induction es generalizing consumed count with
  | nil => cases count <;> exact List.nodup_nil
  | cons e es ih =>
    have hrest := ih fun x hx => hes x (List.mem_cons_of_mem _ hx)
    cases count with
    | zero => exact List.nodup_nil
    | succ count =>
      rw [selectFrom]
      split
      · exact hrest consumed (count + 1)
      · rw [List.flatMap_cons, List.nodup_append]
        refine ⟨hes e List.mem_cons_self, hrest _ count, ?_⟩
        rintro o ho p hp rfl
        obtain ⟨x, hx, hsource⟩ := List.mem_flatMap.mp hp
        exact notMem_consumed_of_mem_selectFrom hx hsource (List.mem_append_right _ ho)

/-- What is selected is pooled. -/
lemma mem_of_mem_select {p : Pool} {count : Nat} {e : PoolEntry} (he : e ∈ p.select count) :
    e ∈ p.entries :=
  (selectFrom_sublist [] count p.entries).subset he

/-- The selected transactions consume nothing twice. -/
theorem nodup_sources_select {p : Pool} (h : ∀ e ∈ p.entries, e.transaction.sources.Nodup)
    (count : Nat) : ((p.select count).flatMap (·.transaction.sources)).Nodup :=
  nodup_sources_selectFrom h [] count

/-- Fees are added up to the greatest amount. -/
lemma toNat_fees (es : List PoolEntry) :
    (fees es).toNat = min (es.map (·.fee.toNat)).sum (UInt64.size - 1) := by
  have hfrom : ∀ acc : Amount, (es.foldl (fun acc e => Amount.addCapped acc e.fee) acc).toNat =
      min (acc.toNat + (es.map (·.fee.toNat)).sum) (UInt64.size - 1) := by
    induction es with
    | nil =>
      intro acc
      have hfit : acc.toNat < UInt64.size := acc.toNat_lt
      simp only [List.foldl_nil, List.map_nil, List.sum_nil]
      omega
    | cons e es ih =>
      intro acc
      rw [List.foldl_cons, ih, Amount.toNat_addCapped, List.map_cons, List.sum_cons]
      omega
  rw [fees, hfrom]
  simp

/-! ### The greedy choice -/

/-- Of entries given by rank up to `count` are chosen that do not conflict, and none is left out
without reason. -/
structure Greedy (count : Nat) (es chosen : List PoolEntry) : Prop where
  ordered : chosen.Sublist es
  bounded : chosen.length ≤ count
  /-- No outpoint is spent by two of the chosen. -/
  apart : chosen.Pairwise fun a b => ¬a.transaction.Conflicts b.transaction
  /-- An entry left out conflicts with a chosen one of higher rank, or comes behind a full choice. -/
  reason : ∀ e ∈ es, e ∉ chosen →
    (∃ s ∈ chosen, s.Outranks e ∧ s.transaction.Conflicts e.transaction) ∨
      count ≤ (chosen.filter (·.Outranks e)).length

/-- A greedy choice among the entries that spend nothing consumed before. -/
structure GreedyFrom (consumed : List Outpoint) (count : Nat) (es chosen : List PoolEntry) :
    Prop where
  ordered : chosen.Sublist es
  bounded : chosen.length ≤ count
  apart : chosen.Pairwise fun a b => ¬a.transaction.Conflicts b.transaction
  free : ∀ e ∈ chosen, ∀ o ∈ e.transaction.sources, o ∉ consumed
  reason : ∀ e ∈ es, e ∉ chosen → (∃ o ∈ e.transaction.sources, o ∈ consumed) ∨
    (∃ s ∈ chosen, s.Outranks e ∧ s.transaction.Conflicts e.transaction) ∨
      count ≤ (chosen.filter (·.Outranks e)).length

/-- A greedy choice is one before which nothing is consumed. -/
lemma greedy_iff_greedyFrom {count : Nat} {es chosen : List PoolEntry} :
    Greedy count es chosen ↔ GreedyFrom [] count es chosen := by
  constructor
  · rintro ⟨hordered, hbounded, hapart, hreason⟩
    exact ⟨hordered, hbounded, hapart, fun _ _ _ _ => List.not_mem_nil,
      fun e he hnot => Or.inr (hreason e he hnot)⟩
  · rintro ⟨hordered, hbounded, hapart, -, hreason⟩
    refine ⟨hordered, hbounded, hapart, fun e he hnot => (hreason e he hnot).resolve_left ?_⟩
    rintro ⟨o, -, ho⟩
    exact List.not_mem_nil ho

/-- No entry outranks itself. -/
lemma not_outranks_self (e : PoolEntry) : ¬e.Outranks e := by
  rintro (hfee | ⟨-, harrival⟩)
  · exact UInt64.lt_irrefl _ hfee
  · exact Nat.lt_irrefl _ harrival

/-- Of two entries one at most outranks the other. -/
lemma not_outranks_of_outranks {e f : PoolEntry} (h : e.Outranks f) : ¬f.Outranks e := by
  rintro (hfee | ⟨hsame, harrival⟩)
  · rcases h with hfee' | ⟨hsame, -⟩
    · exact UInt64.lt_irrefl _ (UInt64.lt_trans hfee hfee')
    · exact UInt64.lt_irrefl _ (hsame ▸ hfee)
  · rcases h with hfee | ⟨-, harrival'⟩
    · exact UInt64.lt_irrefl _ (hsame ▸ hfee)
    · exact Nat.lt_asymm harrival harrival'

variable {consumed : List Outpoint} {count : Nat} {e : PoolEntry} {es chosen : List PoolEntry}

/-- An entry that spends what is consumed is not chosen, and no reason for the others. -/
lemma greedyFrom_cons_skip (hspent : ∃ o ∈ e.transaction.sources, o ∈ consumed) :
    GreedyFrom consumed count (e :: es) chosen ↔ GreedyFrom consumed count es chosen := by
  constructor
  · intro h
    refine ⟨?_, h.bounded, h.apart, h.free, fun f hf => h.reason f (List.mem_cons_of_mem _ hf)⟩
    rcases List.sublist_cons_iff.mp h.ordered with hes | ⟨rest, rfl, -⟩
    · exact hes
    · obtain ⟨o, ho, hconsumed⟩ := hspent
      exact absurd hconsumed (h.free e List.mem_cons_self o ho)
  · intro h
    refine ⟨h.ordered.cons e, h.bounded, h.apart, h.free, fun f hf hnot => ?_⟩
    rcases List.mem_cons.mp hf with rfl | hf
    · exact Or.inl hspent
    · exact h.reason f hf hnot

/-- The entry of highest rank is chosen, if it spends nothing consumed and one may be chosen; the
others are chosen as if what it spends were consumed. -/
lemma greedyFrom_cons_take (hfree : ¬∃ o ∈ e.transaction.sources, o ∈ consumed)
    (hfirst : ∀ f ∈ es, e.Outranks f) :
    GreedyFrom consumed (count + 1) (e :: es) chosen ↔
      ∃ rest, chosen = e :: rest ∧
        GreedyFrom (consumed ++ e.transaction.sources) count es rest := by
  constructor
  · intro h
    have hunranked : ∀ s ∈ chosen, ¬s.Outranks e := by
      intro s hs
      rcases List.mem_cons.mp (h.ordered.subset hs) with rfl | hs
      · exact not_outranks_self s
      · exact not_outranks_of_outranks (hfirst s hs)
    -- There is no reason to leave the entry out, for nothing outranks it.
    have hmem : e ∈ chosen := by
      by_contra hnot
      rcases h.reason e List.mem_cons_self hnot with hspent | ⟨s, hs, hranked, -⟩ | hfull
      · exact hfree hspent
      · exact hunranked s hs hranked
      · rw [List.filter_eq_nil_iff.mpr (by simpa using hunranked)] at hfull
        exact Nat.not_succ_le_zero _ hfull
    rcases List.sublist_cons_iff.mp h.ordered with hes | ⟨rest, rfl, hes⟩
    · exact absurd (hfirst e (hes.subset hmem)) (not_outranks_self e)
    · obtain ⟨hapart, hrest⟩ := List.pairwise_cons.mp h.apart
      refine ⟨rest, rfl, hes, Nat.le_of_succ_le_succ h.bounded, hrest, fun f hf o ho => ?_,
        fun f hf hnot => ?_⟩
      · rw [List.mem_append, not_or]
        exact ⟨h.free f (List.mem_cons_of_mem _ hf) o ho, fun hsource =>
          hapart f hf ⟨o, hsource, ho⟩⟩
      · have hne : f ∉ e :: rest := by
          rw [List.mem_cons, not_or]
          exact ⟨fun heq => not_outranks_self e (heq ▸ hfirst f hf), hnot⟩
        rcases h.reason f (List.mem_cons_of_mem _ hf) hne with ⟨o, ho, hspent⟩ |
          ⟨s, hs, hranked, o, hsource, ho⟩ | hfull
        · exact Or.inl ⟨o, ho, List.mem_append_left _ hspent⟩
        · rcases List.mem_cons.mp hs with rfl | hs
          · exact Or.inl ⟨o, ho, List.mem_append_right _ hsource⟩
          · exact Or.inr (Or.inl ⟨s, hs, hranked, o, hsource, ho⟩)
        · rw [List.filter_cons_of_pos (by simpa using hfirst f hf)] at hfull
          exact Or.inr (Or.inr (Nat.le_of_succ_le_succ hfull))
  · rintro ⟨rest, rfl, h⟩
    refine ⟨h.ordered.cons_cons e, Nat.succ_le_succ h.bounded,
      List.pairwise_cons.mpr ⟨?_, h.apart⟩, fun f hf o ho hspent => ?_, fun f hf hnot => ?_⟩
    · rintro f hf ⟨o, hsource, ho⟩
      exact h.free f hf o ho (List.mem_append_right _ hsource)
    · rcases List.mem_cons.mp hf with rfl | hf
      · exact hfree ⟨o, ho, hspent⟩
      · exact h.free f hf o ho (List.mem_append_left _ hspent)
    · rw [List.mem_cons, not_or] at hnot
      have hf := (List.mem_cons.mp hf).resolve_left hnot.1
      have hranked := hfirst f hf
      rcases h.reason f hf hnot.2 with ⟨o, ho, hspent⟩ | ⟨s, hs, hconflict⟩ | hfull
      · rcases List.mem_append.mp hspent with hspent | hsource
        · exact Or.inl ⟨o, ho, hspent⟩
        · exact Or.inr (Or.inl ⟨e, List.mem_cons_self, hranked, o, hsource, ho⟩)
      · exact Or.inr (Or.inl ⟨s, List.mem_cons_of_mem _ hs, hconflict⟩)
      · rw [List.filter_cons_of_pos (by simpa using hranked)]
        exact Or.inr (Or.inr (Nat.succ_le_succ hfull))

/-- Going down the ranks makes the greedy choice and no other. -/
lemma greedyFrom_iff (h : es.Pairwise PoolEntry.Outranks) :
    GreedyFrom consumed count es chosen ↔ chosen = selectFrom consumed count es := by
  induction es generalizing consumed count chosen with
  | nil =>
    have hnil : selectFrom consumed count [] = [] := by cases count <;> rfl
    rw [hnil]
    constructor
    · exact fun h => List.sublist_nil.mp h.ordered
    · rintro rfl
      exact ⟨.refl _, Nat.zero_le _, .nil, fun _ he _ _ => (nomatch he),
        fun _ he _ => nomatch he⟩
  | cons e es ih =>
    obtain ⟨hfirst, hes⟩ := List.pairwise_cons.mp h
    cases count with
    | zero =>
      constructor
      · exact fun h => List.length_eq_zero_iff.mp (Nat.le_zero.mp h.bounded)
      · rintro rfl
        exact ⟨List.nil_sublist _, Nat.zero_le _, .nil, fun _ he _ _ => (nomatch he),
          fun _ _ _ => Or.inr (Or.inr (Nat.zero_le _))⟩
    | succ count =>
      rw [selectFrom]
      split
      · next hspent =>
        rw [greedyFrom_cons_skip (by simpa using hspent), ih hes]
      · next hfree =>
        rw [greedyFrom_cons_take (by simpa using hfree) hfirst]
        simp only [ih hes]
        constructor
        · rintro ⟨rest, rfl, rfl⟩
          rfl
        · rintro rfl
          exact ⟨_, rfl, rfl⟩

/-- In every pool the entries stand by rank, by falling fee and then by arrival, and the selection
is the one greedy choice among them. The fees are added up to the greatest amount. The pool is read
only: a selection is a function of it, and takes nothing out. -/
theorem selection_greedy (steps : List PoolStep) (count : Nat) :
    let p := after steps
    p.entries.Pairwise PoolEntry.Outranks ∧
    (∀ chosen, Greedy count p.entries chosen ↔ chosen = p.select count) ∧
    (fees (p.select count)).toNat =
      min (2 ^ 64 - 1) ((p.select count).map (·.fee.toNat)).sum := by
  intro p
  have hranked : p.entries.Pairwise PoolEntry.Outranks :=
    (follows_after steps).ranked.outranks (Queue.inOrder_after steps).earlier
  refine ⟨hranked, fun chosen => ?_, ?_⟩
  · rw [greedy_iff_greedyFrom, greedyFrom_iff hranked, select]
  · rw [toNat_fees, Nat.min_comm]
    rfl

end Pool

end PowLedger
