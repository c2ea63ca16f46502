import Mathlib.Data.List.Induction
import Mathlib.Data.List.Nodup
import Mathlib.Tactic.Common
import Mathlib.Tactic.Lemma
import PowLedger.Proofs.Merkle.Binding
import PowLedger.Proofs.Rules.Verdict
import PowLedger.Proofs.Transaction.Identity

/-!
# Chains of accepted blocks

What a node knows of its chain is a function of the list of its blocks, oldest first: the tip
`Ledger.tip` and the unspent outputs `Ledger.utxos`. A list is `Ledger.Accepted` if the judge
accepts each block at the tip of those before it, over their unspent outputs. That a set takes every
block the judge accepts is not part of this: a set that refuses a block stays as it is, just as the
observer of a node does. The blocks may also stand on a chain that nobody has judged, of which just
the tip and the unspent outputs are known, `Ledger.AcceptedOn`.
-/

namespace PowLedger

/-- The byte strings that are hashed to judge a block: its header, its transactions without their
ids, and the pairs of nodes of its Merkle tree. -/
def Block.messages (digest : Hasher) (b : Block) : List Bytes :=
  b.header.assemble :: b.transactions.map Transaction.idBytes ++ Merkle.messages digest b.ids

/-- The set after a block; one that cannot take the block stays as it is. -/
def UtxoSet.follow (s : UtxoSet) (b : Block) : UtxoSet :=
  match s.apply b with
  | .ok t => t
  | .error _ => s

/-- The block makes an output that is there already, or one twice. -/
def UtxoSet.Repeats (s : UtxoSet) (b : Block) : Prop :=
  (∃ o ∈ b.created.map Prod.fst, s.isLive o = true) ∨ ¬(b.created.map Prod.fst).Nodup

/-- A set that takes a block follows it. -/
lemma UtxoSet.follow_of_apply {s t : UtxoSet} {b : Block} (h : s.apply b = .ok t) :
    s.follow b = t := by
  rw [follow, h]

namespace Ledger

/-! ### What a list of blocks comes to -/

/-- The tip above the blocks. -/
def tip (blocks : List Block) : Tip :=
  ⟨(blocks.getLast?.map Block.hash).getD "", blocks.length⟩

/-- The unspent outputs after the blocks. -/
def utxos (blocks : List Block) : UtxoSet :=
  blocks.foldl UtxoSet.follow UtxoSet.empty

/-- The transactions of the blocks, in order. -/
def transactions (blocks : List Block) : List Transaction :=
  blocks.flatMap Block.transactions

/-- The outpoints that the blocks consume, in order. -/
def spent (blocks : List Block) : List Outpoint :=
  blocks.flatMap Block.spent

/-- The outputs that the blocks make, with their outpoints, in order. -/
def created (blocks : List Block) : List (Outpoint × TxOutput) :=
  blocks.flatMap Block.created

/-- The byte strings that are hashed to judge the blocks. -/
def messages (digest : Hasher) (blocks : List Block) : List Bytes :=
  blocks.flatMap (Block.messages digest)

lemma tip_append (blocks : List Block) (b : Block) :
    tip (blocks ++ [b]) = ⟨b.hash, blocks.length + 1⟩ := by
  simp [tip]

lemma utxos_append (blocks : List Block) (b : Block) :
    utxos (blocks ++ [b]) = (utxos blocks).follow b := by
  simp [utxos]

lemma transactions_append (blocks : List Block) (b : Block) :
    transactions (blocks ++ [b]) = transactions blocks ++ b.transactions := by
  simp [transactions]

lemma spent_append (blocks : List Block) (b : Block) :
    spent (blocks ++ [b]) = spent blocks ++ b.spent := by
  simp [spent]

lemma created_append (blocks : List Block) (b : Block) :
    created (blocks ++ [b]) = created blocks ++ b.created := by
  simp [created]

/-- The blocks make what their transactions make. -/
lemma created_eq (blocks : List Block) :
    created blocks = (transactions blocks).flatMap Transaction.created := by
  rw [created, transactions, List.flatMap_assoc]
  rfl

/-- What some of the blocks hash is hashed by all of them. -/
lemma messages_mono {digest : Hasher} {fewer blocks : List Block} (h : fewer ⊆ blocks) :
    messages digest fewer ⊆ messages digest blocks := by
  intro m hm
  obtain ⟨b, hb, hmb⟩ := List.mem_flatMap.mp hm
  exact List.mem_flatMap.mpr ⟨b, h hb, hmb⟩

/-- What a block hashes is hashed by the blocks it is among. -/
lemma block_messages_subset {digest : Hasher} {blocks : List Block} {b : Block} (hb : b ∈ blocks) :
    b.messages digest ⊆ messages digest blocks :=
  fun _ hm => List.mem_flatMap.mpr ⟨b, hb, hm⟩

/-- The bytes behind the id of a transaction are hashed by the blocks it is in. -/
lemma idBytes_mem_messages {digest : Hasher} {blocks : List Block} {tx : Transaction}
    (h : tx ∈ transactions blocks) : tx.idBytes ∈ messages digest blocks := by
  obtain ⟨b, hb, htx⟩ := List.mem_flatMap.mp h
  refine block_messages_subset hb ?_
  exact List.mem_append_left _ (List.mem_cons_of_mem _ (List.mem_map_of_mem htx))

/-! ### Accepted lists -/

/-- Each block was accepted by the judge when those before it were the chain. -/
inductive Accepted (j : Judge) : List Block → Prop
  | nil : Accepted j []
  | snoc {blocks : List Block} {b : Block} {fees : Amount} : Accepted j blocks →
      j.checkBlock b (tip blocks) (utxos blocks) = .ok fees → Accepted j (blocks ++ [b])

variable {j : Judge} {blocks : List Block}

/-- The last of several accepted blocks, and those before it. -/
lemma Accepted.last {b : Block} (h : Accepted j (blocks ++ [b])) :
    Accepted j blocks ∧ ∃ fees, j.checkBlock b (tip blocks) (utxos blocks) = .ok fees := by
  generalize hlist : blocks ++ [b] = list at h
  cases h with
  | nil => simp at hlist
  | snoc hbefore hok =>
    obtain ⟨rfl, hb⟩ := List.append_inj' hlist rfl
    cases hb
    exact ⟨hbefore, _, hok⟩

/-- The first of several accepted blocks are accepted. -/
lemma Accepted.front {front back : List Block} (h : Accepted j (front ++ back)) :
    Accepted j front := by
  induction back using List.reverseRecOn with
  | nil => rwa [List.append_nil] at h
  | append_singleton back b ih =>
    rw [← List.append_assoc] at h
    exact ih h.last.1

/-- Each of several accepted blocks was accepted at the tip of those before it. -/
lemma Accepted.verdict {front back : List Block} {b : Block}
    (h : Accepted j (front ++ b :: back)) :
    ∃ fees, j.checkBlock b (tip front) (utxos front) = .ok fees := by
  have hb : Accepted j (front ++ [b] ++ back) := by simpa using h
  exact hb.front.last.2

/-- An accepted block keeps the rules over the blocks before it. -/
lemma Accepted.valid {front back : List Block} {b : Block}
    (h : Accepted j (front ++ b :: back)) :
    ∃ coinbase others, j.ValidBlock (tip front) (utxos front) b coinbase others :=
  Judge.checkBlock_isOk_iff.mp h.verdict

/-- Each of several accepted blocks keeps the rules over those before it, and its height is their
number. -/
lemma Accepted.valid_of_mem {b : Block} (h : Accepted j blocks) (hb : b ∈ blocks) :
    ∃ s coinbase others, ∃ tip : Tip, tip.height < blocks.length ∧
      j.ValidBlock tip s b coinbase others := by
  obtain ⟨front, back, rfl⟩ := List.append_of_mem hb
  obtain ⟨coinbase, others, hvalid⟩ := h.valid
  refine ⟨_, coinbase, others, _, ?_, hvalid⟩
  simp [tip]

end Ledger

/-! ### Blocks on top of any chain -/

/-- The tip above further blocks. -/
def Tip.above (t : Tip) (blocks : List Block) : Tip :=
  ⟨(blocks.getLast?.map Block.hash).getD t.hash, t.height + blocks.length⟩

lemma Tip.above_append (t : Tip) (blocks : List Block) (b : Block) :
    t.above (blocks ++ [b]) = ⟨b.hash, t.height + blocks.length + 1⟩ := by
  simp [above, Nat.add_assoc]

namespace Ledger

/-- Each block was accepted by the judge when those before it stood on a chain with this tip and
these unspent outputs. -/
inductive AcceptedOn (j : Judge) (t : Tip) (s : UtxoSet) : List Block → Prop
  | nil : AcceptedOn j t s []
  | snoc {blocks : List Block} {b : Block} {fees : Amount} : AcceptedOn j t s blocks →
      j.checkBlock b (t.above blocks) (blocks.foldl UtxoSet.follow s) = .ok fees →
      AcceptedOn j t s (blocks ++ [b])

variable {j : Judge} {t : Tip} {s : UtxoSet} {blocks : List Block}

/-- The tip of the blocks is above that of no block. -/
lemma tip_eq_above (blocks : List Block) : tip blocks = (⟨"", 0⟩ : Tip).above blocks := by
  simp [tip, Tip.above]

/-- Accepted blocks stand on no block. -/
lemma Accepted.on (h : Accepted j blocks) : AcceptedOn j ⟨"", 0⟩ UtxoSet.empty blocks := by
  induction h with
  | nil => exact .nil
  | snoc _ hok ih => exact ih.snoc (tip_eq_above _ ▸ hok)

/-- Each block keeps the rules on top of the chain and of those before it. -/
lemma AcceptedOn.valid {front back : List Block} {b : Block}
    (h : AcceptedOn j t s (front ++ b :: back)) : ∃ coinbase others,
      j.ValidBlock (t.above front) (front.foldl UtxoSet.follow s) b coinbase others := by
  generalize hlist : front ++ b :: back = list at h
  induction h generalizing back with
  | nil => simp at hlist
  | @snoc blocks c fees _ hok ih =>
    rcases List.eq_nil_or_concat back with rfl | ⟨back, d, rfl⟩
    · obtain ⟨rfl, hb⟩ := List.append_inj' hlist rfl
      cases hb
      exact Judge.checkBlock_isOk_iff.mp ⟨fees, hok⟩
    · rw [List.concat_eq_append, ← List.cons_append, ← List.append_assoc] at hlist
      exact ih (List.append_inj' hlist rfl).1

/-- Each block keeps the rules over some unspent outputs, at a height below that of the next one. -/
lemma AcceptedOn.valid_of_mem {b : Block} (h : AcceptedOn j t s blocks) (hb : b ∈ blocks) :
    ∃ s' coinbase others, ∃ tip : Tip, tip.height < t.height + blocks.length ∧
      j.ValidBlock tip s' b coinbase others := by
  obtain ⟨front, back, rfl⟩ := List.append_of_mem hb
  obtain ⟨coinbase, others, hvalid⟩ := h.valid
  refine ⟨_, coinbase, others, _, ?_, hvalid⟩
  simp [Tip.above]

end Ledger

/-! ### The transactions of a valid block -/

namespace Judge.ValidBlock

variable {j : Judge} {tip : Tip} {s : UtxoSet} {b : Block} {coinbase : Transaction}
  {others : List Transaction}

/-- Every transaction of a valid block has its computed id. -/
lemma computedId (h : j.ValidBlock tip s b coinbase others) {tx : Transaction}
    (htx : tx ∈ b.transactions) : tx.computedId j.digest = tx.id := by
  rw [h.transactions] at htx
  rcases List.mem_cons.mp htx with rfl | hother
  · exact h.coinbaseId
  · exact (h.spends tx hother).id

/-- A valid block consumes what its transactions behind the coinbase do. -/
lemma spent_eq (h : j.ValidBlock tip s b coinbase others) :
    b.spent = others.flatMap Transaction.sources := by
  have hcoinbase : coinbase.sources = [] := by rw [Transaction.sources, h.coinbaseInputs]; rfl
  rw [Block.spent, h.transactions, List.flatMap_cons, hcoinbase, List.nil_append]

/-- A valid block consumes live outputs only. -/
lemma live (h : j.ValidBlock tip s b coinbase others) : ∀ o ∈ b.spent, s.isLive o = true := by
  intro o ho
  rw [h.spent_eq] at ho
  obtain ⟨tx, htx, hsource⟩ := List.mem_flatMap.mp ho
  exact (h.spends tx htx).live o hsource

/-- A valid block consumes nothing twice. -/
lemma nodup_spent (h : j.ValidBlock tip s b coinbase others) : b.spent.Nodup :=
  h.spent_eq ▸ h.spentOnce

/-- The set of unspent outputs takes a valid block that makes no output again. -/
lemma takes (h : j.ValidBlock tip s b coinbase others) (hnew : ¬s.Repeats b) : s.Takes b := by
  rw [UtxoSet.Repeats, not_or, not_not] at hnew
  obtain ⟨hvacant, honce⟩ := hnew
  refine ⟨h.live, h.nodup_spent, honce, UtxoSet.covers_of_fresh fun o ho => ?_⟩
  exact Bool.eq_false_iff.mpr fun hlive => hvacant ⟨o, ho, hlive⟩

/-- A transaction without inputs in a valid block is the coinbase. -/
lemma eq_coinbase (h : j.ValidBlock tip s b coinbase others) {tx : Transaction}
    (htx : tx ∈ b.transactions) (hin : tx.inputs = []) : tx = coinbase := by
  rw [h.transactions] at htx
  rcases List.mem_cons.mp htx with rfl | hother
  · rfl
  · exact absurd hin (h.spends tx hother).inputs

end Judge.ValidBlock

end PowLedger
