import Mathlib.Data.List.Basic
import Mathlib.Data.List.Nodup
import Mathlib.Data.List.Perm.Basic
import Mathlib.Tactic.Common
import Mathlib.Tactic.Lemma
import PowLedger.Proofs.Node.Integrity
import PowLedger.Proofs.Transaction.Outpoint
import PowLedger.Proofs.Utxo.Application

/-!
# Confirmation is exact

A block is confirmed by the set of unspent outputs in two passes over all of its transactions. What
they do together is what the transactions do one after the other (`UtxoSet.confirm`): no output that
the block makes is consumed by it, and a live output whose place is taken again is consumed by then.
So the set keeps what it had, in its order and without what is spent, and the new outputs come
behind (`UtxoSet.entries_apply`).

The text of an outpoint tells the outpoint (`Outpoint.text_injective`), so the set may as well be
kept under texts, each output with its outpoint beside it (`UtxoSet.shelved`).
-/

namespace PowLedger

namespace UtxoSet

/-! ### One transaction after the other -/

/-- The set after a confirmed transaction: without what it consumes, and with what it makes. -/
def confirm (s : UtxoSet) (tx : Transaction) : UtxoSet :=
  (s.without tx.sources).withCreated tx.created

/-- What covers transactions covers the first of them, and the others behind these. -/
lemma covers_append {s : UtxoSet} {spent : List Outpoint} {front back : List Transaction} :
    s.Covers spent (front ++ back) ↔ s.Covers spent front ∧
      s.Covers ((front.flatMap Transaction.sources).reverse ++ spent) back := by
  induction front generalizing spent with
  | nil => simp [Covers]
  | cons tx front ih =>
    rw [List.cons_append, Covers, Covers, ih, and_assoc, List.flatMap_cons, List.reverse_append,
      List.append_assoc]

/-- Transactions are covered if each live output in whose place one of them creates an output is
consumed by that transaction, or before. -/
lemma covers_iff {s : UtxoSet} {spent : List Outpoint} {txs : List Transaction} :
    s.Covers spent txs ↔ ∀ front tx back, txs = front ++ tx :: back →
      ∀ o ∈ tx.created.map Prod.fst, s.isLive o = true →
        o ∈ (front ++ [tx]).flatMap Transaction.sources ∨ o ∈ spent := by
  constructor
  · rintro h front tx back rfl o ho hlive
    have hmem := (covers_append.mp h).2.1 o ho hlive
    simp only [List.mem_append, List.mem_reverse, List.flatMap_append, List.flatMap_singleton]
      at hmem ⊢
    tauto
  · intro h
    induction txs generalizing spent with
    | nil => trivial
    | cons tx txs ih =>
      refine ⟨fun o ho hlive => ?_, ih ?_⟩
      · simpa using h [] tx txs rfl o ho hlive
      · rintro front next back rfl o ho hlive
        have hmem := h (tx :: front) next back rfl o ho hlive
        simp only [List.cons_append, List.flatMap_cons, List.mem_append, List.mem_reverse]
          at hmem ⊢
        tauto

/-- The old outputs that some transactions leave have other places than the outputs they make. -/
lemma Takes.nodup_kept {s : UtxoSet} {b : Block} (h : s.Takes b) {front back : List Transaction}
    (hsplit : b.transactions = front ++ back) :
    (((s.entries.filter fun e => e.1 ∉ front.flatMap Transaction.sources) ++
      front.flatMap Transaction.created).map Prod.fst).Nodup := by
  have hcreated := h.createdOnce
  rw [Block.created, hsplit, List.flatMap_append, List.map_append] at hcreated
  have hcovers := h.covers
  rw [hsplit, covers_append] at hcovers
  rw [List.map_append, List.nodup_append]
  refine ⟨s.table.distinct.sublist (List.filter_sublist.map Prod.fst),
    (List.nodup_append.mp hcreated).1, ?_⟩
  rintro o hold _ hnew rfl
  obtain ⟨e, hkept, rfl⟩ := List.mem_map.mp hold
  obtain ⟨hentry, hunspent⟩ := List.mem_filter.mp hkept
  have hlive : s.isLive e.1 = true :=
    Table.contains_iff.mpr ⟨e.2, Table.get?_eq_some_iff.mpr hentry⟩
  rcases hcovers.1.mem_spent hnew hlive with hspent | hnone
  · simp [hspent] at hunspent
  · exact List.not_mem_nil hnone

/-- No transaction consumes an output that was made before it in the block. -/
lemma Takes.created_unspent {s : UtxoSet} {b : Block} (h : s.Takes b)
    {front back : List Transaction} (hsplit : b.transactions = front ++ back) {o : Outpoint}
    (ho : o ∈ (front.flatMap Transaction.created).map Prod.fst) :
    o ∉ back.flatMap Transaction.sources := by
  intro hlater
  have hlive := h.live o (by
    rw [Block.spent, hsplit, List.flatMap_append]
    exact List.mem_append_right _ hlater)
  have honce := h.spentOnce
  rw [Block.spent, hsplit, List.flatMap_append, List.nodup_append] at honce
  have hcovers := h.covers
  rw [hsplit, covers_append] at hcovers
  rcases hcovers.1.mem_spent ho hlive with hearlier | hnone
  · exact honce.2.2 o hearlier o hlater rfl
  · exact List.not_mem_nil hnone

/-- The entries of a set after some outputs were taken out and others put at free places. -/
lemma entries_withCreated_without {s : UtxoSet} {os : List Outpoint}
    {created : List (Outpoint × TxOutput)}
    (h : (((s.entries.filter fun e => e.1 ∉ os) ++ created).map Prod.fst).Nodup) :
    ((s.without os).withCreated created).entries =
      (s.entries.filter fun e => e.1 ∉ os) ++ created := by
  have hwithout : (s.without os).table.entries = s.entries.filter fun e => e.1 ∉ os :=
    Table.entries_foldl_erase s.table os
  rw [← hwithout] at h ⊢
  exact Table.entries_foldl_insert h

/-- After the first transactions of a block, confirmed one after the other, the set has what they
left of the old outputs, and behind these the new ones. -/
lemma Takes.entries_foldl_confirm {s : UtxoSet} {b : Block} (h : s.Takes b)
    {front back : List Transaction} (hsplit : b.transactions = front ++ back) :
    (front.foldl confirm s).entries =
      (s.entries.filter fun e => e.1 ∉ front.flatMap Transaction.sources) ++
        front.flatMap Transaction.created := by
  induction front using List.reverseRecOn generalizing back with
  | nil => simp
  | append_singleton front tx ih =>
    rw [List.append_assoc] at hsplit
    have hbefore := ih hsplit
    -- What was made before stays, and the old outputs lose what this transaction consumes.
    have hkept : (front.foldl confirm s).entries.filter (fun e => e.1 ∉ tx.sources) =
        (s.entries.filter fun e => e.1 ∉ (front ++ [tx]).flatMap Transaction.sources) ++
          front.flatMap Transaction.created := by
      rw [hbefore, List.filter_append, List.filter_filter]
      congr 1
      · exact List.filter_congr fun e _ => by simp [Bool.and_comm]
      · refine List.filter_eq_self.mpr fun e he => ?_
        have hunspent := h.created_unspent hsplit (List.mem_map_of_mem he)
        simp only [List.singleton_append, List.flatMap_cons, List.mem_append, not_or] at hunspent
        simpa using hunspent.1
    have hnodup := h.nodup_kept (hsplit.trans (List.append_assoc front [tx] back).symm)
    rw [List.flatMap_append (f := Transaction.created), List.flatMap_singleton, ← List.append_assoc,
      ← hkept] at hnodup
    rw [List.foldl_concat, confirm, entries_withCreated_without hnodup, hkept, List.append_assoc,
      List.flatMap_append (f := Transaction.created), List.flatMap_singleton]

/-- Sets with the same entries are the same. -/
lemma eq_of_entries_eq {s t : UtxoSet} (h : s.entries = t.entries) : s = t := by
  obtain ⟨⟨entries, hs⟩⟩ := s
  obtain ⟨⟨entries', ht⟩⟩ := t
  obtain rfl : entries = entries' := h
  rfl

/-- After a block the set has its old outputs, in their order and without the spent ones, and behind
these the created ones. -/
theorem entries_apply {s s' : UtxoSet} {b : Block} (h : s.apply b = .ok s') :
    s'.entries = (s.entries.filter fun e => e.1 ∉ b.spent) ++ b.created := by
  obtain ⟨htakes, rfl⟩ := apply_eq_ok_iff.mp h
  have hnodup := htakes.nodup_kept (List.append_nil b.transactions).symm
  have hspent : (s.entries.filter fun e => e.1 ∉ b.spent.reverse) =
      s.entries.filter fun e => e.1 ∉ b.spent := List.filter_congr fun e _ => by simp
  rw [entries_withCreated_without (by rw [hspent]; exact hnodup), hspent]

/-- The two passes over a block do what its transactions do one after the other. -/
theorem foldl_confirm_of_apply {s s' : UtxoSet} {b : Block} (h : s.apply b = .ok s') :
    b.transactions.foldl confirm s = s' := by
  have htakes := (apply_eq_ok_iff.mp h).1
  refine eq_of_entries_eq ?_
  rw [htakes.entries_foldl_confirm (List.append_nil b.transactions).symm, entries_apply h]
  rfl

/-! ### Size -/

/-- Taking out distinct live outputs leaves so many fewer. -/
lemma length_kept {s : UtxoSet} {os : List Outpoint} (hnodup : os.Nodup)
    (hlive : ∀ o ∈ os, s.isLive o = true) :
    (s.entries.filter fun e => e.1 ∉ os).length + os.length = s.size := by
  have hperm : ((s.entries.filter fun e => e.1 ∈ os).map Prod.fst).Perm os := by
    have hkeys := s.table.distinct.sublist
      ((List.filter_sublist (p := fun e : Outpoint × TxOutput => e.1 ∈ os)).map Prod.fst)
    refine (List.perm_ext_iff_of_nodup hkeys hnodup).mpr fun o => ⟨fun ho => ?_, fun ho => ?_⟩
    · obtain ⟨e, he, rfl⟩ := List.mem_map.mp ho
      exact of_decide_eq_true (List.mem_filter.mp he).2
    · obtain ⟨out, hout⟩ := Table.contains_iff.mp (hlive o ho)
      have hentry := Table.get?_eq_some_iff.mp hout
      exact List.mem_map_of_mem (f := Prod.fst)
        (List.mem_filter.mpr ⟨hentry, decide_eq_true ho⟩)
  have hspent : (s.entries.filter fun e => e.1 ∈ os).length = os.length := by
    rw [← hperm.length_eq, List.length_map]
  have hsplit := List.length_eq_length_filter_add (l := s.entries) fun e => decide (e.1 ∈ os)
  simp only [← decide_not, hspent] at hsplit
  show _ = s.entries.length
  omega

/-- A block changes the number of outputs by those it creates and those it spends. -/
theorem size_apply {s s' : UtxoSet} {b : Block} (h : s.apply b = .ok s') :
    s'.size + b.spent.length = s.size + b.created.length := by
  have htakes := (apply_eq_ok_iff.mp h).1
  have hkept := length_kept htakes.spentOnce htakes.live
  have hsize : s'.size = _ := congrArg List.length (entries_apply h)
  rw [List.length_append] at hsize
  omega

/-! ### Under texts -/

/-- The outputs under the texts of their outpoints, each with its outpoint. -/
def shelved (s : UtxoSet) : Table String (Outpoint × TxOutput) :=
  s.table.rekey Outpoint.text_injective

/-- Taking outputs out takes their texts out. -/
lemma shelved_without (s : UtxoSet) (os : List Outpoint) :
    (s.without os).shelved = (os.map Outpoint.text).foldl Table.erase s.shelved := by
  induction os generalizing s with
  | nil => rfl
  | cons o os ih =>
    rw [List.map_cons, List.foldl_cons, shelved, shelved, Table.erase_rekey]
    exact ih ⟨s.table.erase o⟩

/-- Putting outputs in puts them under their texts. -/
lemma shelved_withCreated (s : UtxoSet) (created : List (Outpoint × TxOutput)) :
    (s.withCreated created).shelved =
      created.foldl (fun t e => t.insert e.1.text e) s.shelved := by
  induction created generalizing s with
  | nil => rfl
  | cons e created ih =>
    rw [List.foldl_cons, shelved, shelved, Table.insert_rekey]
    exact ih ⟨s.table.insert e.1 e.2⟩

/-- What an outpoint leads to is found under its text. -/
theorem get?_shelved (s : UtxoSet) (o : Outpoint) :
    s.shelved.get? o.text = (s.get? o).map fun out => (o, out) :=
  Table.get?_rekey s.table Outpoint.text_injective o

/-- Under texts, a block takes out the texts of what it spends, and puts what it creates under
theirs. -/
theorem shelved_apply {s s' : UtxoSet} {b : Block} (h : s.apply b = .ok s') :
    s'.shelved = b.created.foldl (fun t e => t.insert e.1.text e)
      ((b.spent.reverse.map Outpoint.text).foldl Table.erase s.shelved) := by
  obtain ⟨-, rfl⟩ := apply_eq_ok_iff.mp h
  rw [shelved_withCreated, shelved_without]

/-! ### Exact and atomic -/

/-- What a set is after a block. -/
structure Confirmed (s : UtxoSet) (b : Block) (s' : UtxoSet) : Prop where
  /-- An outpoint leads to what the block created there, or else to what was there before and is
  not spent. -/
  get? : ∀ o out, s'.get? o = some out ↔
    (o, out) ∈ b.created ∨ s.get? o = some out ∧ o ∉ b.spent
  /-- What is left of the old outputs stays in its order, and the created ones come behind. -/
  entries : s'.entries = (s.entries.filter fun e => e.1 ∉ b.spent) ++ b.created
  /-- The transactions do the same one after the other. -/
  oneByOne : b.transactions.foldl confirm s = s'
  /-- Under texts the same is done with the texts. -/
  shelved : s'.shelved = b.created.foldl (fun t e => t.insert e.1.text e)
    ((b.spent.reverse.map Outpoint.text).foldl Table.erase s.shelved)
  /-- Every output lies under the text of its own outpoint. -/
  ownText : ∀ key e, s'.shelved.get? key = some e → key = e.1.text ∧ s'.get? e.1 = some e.2
  /-- The number of outputs changes by those created and those spent. -/
  size : s'.size + b.spent.length = s.size + b.created.length

/-- A set takes a block exactly if the block spends distinct live outputs, creates distinct ones,
and puts one in the place of a live output only by the transaction that consumes this output, or
behind it. The set is then the one that the block makes of it, and otherwise it stays as it is in
the node that keeps it. Texts keep outpoints apart and lead to what the outpoints lead to. -/
theorem apply_exact {σ ω : Type} [Storage σ] [Observer ω] (s : UtxoSet) (b : Block) :
    ((∃ s', s.apply b = .ok s') ↔
      b.spent.Nodup ∧ (∀ o ∈ b.spent, s.isLive o = true) ∧ (b.created.map Prod.fst).Nodup ∧
        ∀ front tx back, b.transactions = front ++ tx :: back →
          ∀ o ∈ tx.created.map Prod.fst, s.isLive o = true →
            o ∈ (front ++ [tx]).flatMap Transaction.sources) ∧
    (∀ s', s.apply b = .ok s' → s.Confirmed b s') ∧
    (∀ fault, s.apply b = .error fault → ∀ n : Node σ ω, n.utxos = s →
      n.deliver (.blockAdded b) .utxoSet = (n, .failed fault)) ∧
    Function.Injective Outpoint.text ∧
    ∀ o, s.shelved.get? o.text = (s.get? o).map fun out => (o, out) := by
  refine ⟨⟨?_, ?_⟩, ?_, ?_, Outpoint.text_injective, s.get?_shelved⟩
  · rintro ⟨s', h⟩
    have htakes := (apply_eq_ok_iff.mp h).1
    refine ⟨htakes.spentOnce, htakes.live, htakes.createdOnce, ?_⟩
    intro front tx back hsplit o ho hlive
    exact (covers_iff.mp htakes.covers front tx back hsplit o ho hlive).resolve_right
      List.not_mem_nil
  · rintro ⟨hspent, hlive, hcreated, hcovers⟩
    have hcov : s.Covers [] b.transactions := covers_iff.mpr
      fun front tx back hsplit o ho hl => Or.inl (hcovers front tx back hsplit o ho hl)
    exact ⟨_, apply_eq_ok_iff.mpr ⟨⟨hlive, hspent, hcreated, hcov⟩, rfl⟩⟩
  · intro s' h
    exact {
      get? := fun _ _ => get?_apply h
      entries := entries_apply h
      oneByOne := foldl_confirm_of_apply h
      shelved := shelved_apply h
      ownText := fun _ _ => Table.eq_of_get?_rekey
      size := size_apply h }
  · rintro fault h n rfl
    rw [Node.deliver, h]

end UtxoSet

namespace Sample

/-- A set with one output. -/
def single : UtxoSet := ⟨Table.empty.insert ⟨[1], 0⟩ ⟨50, lock⟩⟩

/-- Consumes that output, and makes one in its place and another one. -/
def renewal : Transaction := ⟨[1], [TxInput.unsigned ⟨[1], 0⟩], [⟨30, lock⟩, ⟨20, lock⟩], []⟩

/-- The output is renewed by a block that consumes it, and then there are two. A block that consumes
it twice is refused, and the node keeps its set. -/
theorem apply_exact_of_renewal :
    (∃ s', single.apply (block "" 0 [renewal]) = .ok s' ∧ s'.size = 2 ∧
      s'.get? ⟨[1], 0⟩ = some ⟨30, lock⟩ ∧ single.Confirmed (block "" 0 [renewal]) s') ∧
    ∃ fault, { node with utxos := single }.deliver (.blockAdded (block "" 0 [renewal, renewal]))
      .utxoSet = ({ node with utxos := single }, .failed fault) := by
  have honce := UtxoSet.apply_exact (σ := VolatileStore) (ω := Watcher) single
    (block "" 0 [renewal])
  have htwice := UtxoSet.apply_exact (σ := VolatileStore) (ω := Watcher) single
    (block "" 0 [renewal, renewal])
  exact ⟨⟨_, rfl, rfl, rfl, honce.2.1 _ rfl⟩, _, htwice.2.2.1 _ rfl _ rfl⟩

end Sample

end PowLedger
