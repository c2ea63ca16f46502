import Mathlib.Algebra.Order.Ring.Int
import Mathlib.Data.List.Induction
import Mathlib.Tactic.Common
import Mathlib.Tactic.Lemma
import PowLedger.Proofs.Ledger.Spending

/-!
# Where the money comes from

All value is minted by coinbases. A coinbase that claims less than the reward and the fees of its
block leaves the rest unclaimed, and that is lost. Everything is counted in integers here, although
the judge adds words with a cap. Main statements: the unspent outputs are never worth more than the
rewards so far (`Ledger.Accepted.totalValue_le`, whatever the digest), and they are worth the
rewards less what was left unclaimed (`Ledger.Accepted.totalValue_eq`, without collisions).
-/

namespace PowLedger

namespace Block

/-- What the coinbase of a block, its first transaction, pays out. -/
def claimed (b : Block) : Int :=
  ((b.transactions.take 1).map Transaction.outputTotal).sum

/-- What the transactions behind the coinbase leave over, input by input and output by output. -/
def fees (s : UtxoSet) (b : Block) : Int :=
  ((b.transactions.drop 1).map fun tx => (tx.inputTotal s : Int) - tx.outputTotal).sum

/-- What the coinbase could have claimed and has not. -/
def unclaimed (rewards : RewardSchedule) (s : UtxoSet) (b : Block) : Int :=
  (rewards.reward b.height).toNat + b.fees s - b.claimed

end Block

namespace Ledger

/-- The rewards of the first `n` heights. -/
def minted (rewards : RewardSchedule) (n : Nat) : Nat :=
  ((List.range n).map fun height => (rewards.reward height).toNat).sum

/-- What the coinbases of blocks over a set of unspent outputs leave unclaimed, block by block. -/
def unclaimedFrom (rewards : RewardSchedule) (s : UtxoSet) : List Block → List Int
  | [] => []
  | b :: rest => b.unclaimed rewards s :: unclaimedFrom rewards (s.follow b) rest

/-- What the coinbases of a chain leave unclaimed, block by block. -/
def unclaimed (rewards : RewardSchedule) (blocks : List Block) : List Int :=
  unclaimedFrom rewards UtxoSet.empty blocks

lemma minted_succ (rewards : RewardSchedule) (n : Nat) :
    minted rewards (n + 1) = minted rewards n + (rewards.reward n).toNat := by
  simp [minted, List.range_succ]

/-- One more block leaves one more amount unclaimed, over the outputs after those before it. -/
lemma unclaimedFrom_append (rewards : RewardSchedule) (s : UtxoSet) (blocks : List Block)
    (b : Block) : unclaimedFrom rewards s (blocks ++ [b]) =
      unclaimedFrom rewards s blocks ++ [b.unclaimed rewards (blocks.foldl UtxoSet.follow s)] := by
  induction blocks generalizing s with
  | nil => rfl
  | cons c blocks ih => rw [List.cons_append, unclaimedFrom, ih, unclaimedFrom]; rfl

lemma unclaimed_append (rewards : RewardSchedule) (blocks : List Block) (b : Block) :
    unclaimed rewards (blocks ++ [b]) =
      unclaimed rewards blocks ++ [b.unclaimed rewards (utxos blocks)] :=
  unclaimedFrom_append rewards UtxoSet.empty blocks b

end Ledger

/-! ### The value that a block moves -/

/-- The outputs of a transaction are worth its output total. -/
lemma Transaction.value_created (tx : Transaction) :
    (tx.created.map fun e => e.2.value.toNat).sum = tx.outputTotal := by
  have hvalues : tx.created.map (fun e => e.2.value.toNat) =
      (tx.outputs.map TxOutput.value).map UInt64.toNat := by
    rw [Transaction.created, List.map_map, List.map_map, ← List.zipIdx_map_fst 0 tx.outputs,
      List.map_map, List.zipIdx_map_fst]
    rfl
  rw [hvalues, Transaction.outputTotal, Amount.total_eq_sum]

/-- The outputs of transactions are worth their output totals. -/
lemma value_flatMap_created (txs : List Transaction) :
    ((txs.flatMap Transaction.created).map fun e => e.2.value.toNat).sum =
      (txs.map Transaction.outputTotal).sum := by
  induction txs with
  | nil => rfl
  | cons tx txs ih =>
    rw [List.flatMap_cons, List.map_append, List.sum_append_nat, ih, Transaction.value_created,
      List.map_cons, List.sum_cons]

/-- The outputs that transactions consume are worth their input totals. -/
lemma value_flatMap_sources (s : UtxoSet) (txs : List Transaction) :
    ((txs.flatMap Transaction.sources).map s.valueAt).sum =
      (txs.map (Transaction.inputTotal s)).sum := by
  induction txs with
  | nil => rfl
  | cons tx txs ih =>
    rw [List.flatMap_cons, List.map_append, List.sum_append_nat, ih, List.map_cons, List.sum_cons,
      Transaction.inputTotal]

/-- Fees are what inputs leave over outputs, in the sum as in every summand. -/
lemma sum_inputTotal_sub_outputTotal (s : UtxoSet) (txs : List Transaction) :
    (txs.map fun tx => (tx.inputTotal s : Int) - tx.outputTotal).sum =
      ((txs.map (Transaction.inputTotal s)).sum : Int) - (txs.map Transaction.outputTotal).sum := by
  induction txs with
  | nil => rfl
  | cons tx txs ih =>
    simp only [List.map_cons, List.sum_cons, ih]
    omega

namespace Judge.ValidBlock

variable {j : Judge} {tip : Tip} {s t : UtxoSet} {b : Block} {coinbase : Transaction}
  {others : List Transaction}

/-- A valid block claims what its coinbase pays out. -/
lemma claimed_eq (h : j.ValidBlock tip s b coinbase others) :
    b.claimed = coinbase.outputTotal := by
  simp [Block.claimed, h.transactions]

/-- The fees of a valid block are those that the judge counts: no transaction has a negative one. -/
lemma fees_eq (h : j.ValidBlock tip s b coinbase others) :
    b.fees s = Block.feeTotal s others := by
  rw [Block.fees, h.transactions, Block.feeTotal]
  have hbalanced : ∀ tx ∈ others, tx.outputTotal ≤ tx.inputTotal s :=
    fun tx htx => (h.spends tx htx).balanced
  show (others.map _).sum = _
  clear h
  induction others with
  | nil => rfl
  | cons tx others ih =>
    have hle := hbalanced tx List.mem_cons_self
    simp only [List.map_cons, List.sum_cons,
      ih fun u hu => hbalanced u (List.mem_cons_of_mem _ hu), Transaction.surplus]
    omega

/-- A valid block leaves no negative amount unclaimed. -/
lemma unclaimed_nonneg (h : j.ValidBlock tip s b coinbase others) :
    0 ≤ b.unclaimed j.rewards s := by
  have hclaim := h.claim
  rw [Block.unclaimed, h.fees_eq, h.claimed_eq]
  omega

/-- A set that takes a valid block gains the reward less what the block leaves unclaimed. -/
lemma totalValue_apply (h : j.ValidBlock tip s b coinbase others) (happly : s.apply b = .ok t) :
    (t.totalValue : Int) =
      s.totalValue + (j.rewards.reward b.height).toNat - b.unclaimed j.rewards s := by
  have hvalue := UtxoSet.totalValue_apply happly
  have hcreated : (b.created.map fun e => e.2.value.toNat).sum =
      coinbase.outputTotal + (others.map Transaction.outputTotal).sum := by
    rw [Block.created, h.transactions, value_flatMap_created, List.map_cons, List.sum_cons]
  have hspent : (b.spent.map s.valueAt).sum = (others.map (Transaction.inputTotal s)).sum := by
    rw [h.spent_eq, value_flatMap_sources]
  have hfees : b.fees s =
      ((others.map (Transaction.inputTotal s)).sum : Int) -
        (others.map Transaction.outputTotal).sum := by
    rw [Block.fees, h.transactions, ← sum_inputTotal_sub_outputTotal]
    rfl
  rw [hcreated, hspent] at hvalue
  rw [Block.unclaimed, hfees, h.claimed_eq]
  omega

end Judge.ValidBlock

/-! ### The value of a chain -/

namespace Ledger

variable {j : Judge} {blocks : List Block}

/-- The unspent outputs are never worth more than the rewards so far. -/
theorem Accepted.totalValue_le (h : Accepted j blocks) :
    (utxos blocks).totalValue ≤ minted j.rewards blocks.length := by
  induction h with
  | nil => exact Nat.le_refl 0
  | @snoc blocks b fees hbefore hok ih =>
    obtain ⟨coinbase, others, hvalid⟩ := Judge.checkBlock_isOk_iff.mp ⟨fees, hok⟩
    have hheight : b.height = blocks.length := hvalid.height
    rw [utxos_append, List.length_append, List.length_singleton, minted_succ]
    cases happly : (utxos blocks).apply b with
    | error f =>
      -- A set that refuses the block keeps its value.
      rw [UtxoSet.follow, happly]
      exact Nat.le_trans ih (Nat.le_add_right _ _)
    | ok t =>
      have hvalue := hvalid.totalValue_apply happly
      have hunclaimed := hvalid.unclaimed_nonneg
      rw [UtxoSet.follow_of_apply happly]
      rw [hheight] at hvalue
      omega

/-- No coinbase of an accepted chain leaves a negative amount unclaimed. -/
theorem Accepted.unclaimed_nonneg (h : Accepted j blocks) :
    ∀ amount ∈ unclaimed j.rewards blocks, 0 ≤ amount := by
  induction h with
  | nil => exact fun _ hmem => nomatch hmem
  | @snoc blocks b fees hbefore hok ih =>
    obtain ⟨coinbase, others, hvalid⟩ := Judge.checkBlock_isOk_iff.mp ⟨fees, hok⟩
    intro amount hmem
    rw [unclaimed_append] at hmem
    rcases List.mem_append.mp hmem with hold | hnew
    · exact ih amount hold
    · rw [List.mem_singleton.mp hnew]
      exact hvalid.unclaimed_nonneg

/-- Without collisions the unspent outputs are worth the rewards less what was left unclaimed. -/
theorem Accepted.totalValue_eq (h : Accepted j blocks)
    (hfree : CollisionFree j.digest (messages j.digest blocks)) (hfits : ∀ b ∈ blocks, b.Fits) :
    ((utxos blocks).totalValue : Int) =
      minted j.rewards blocks.length - (unclaimed j.rewards blocks).sum := by
  induction h with
  | nil => rfl
  | @snoc blocks b fees hbefore hok ih =>
    obtain ⟨coinbase, others, hvalid⟩ := Judge.checkBlock_isOk_iff.mp ⟨fees, hok⟩
    have hheight : b.height = blocks.length := hvalid.height
    have hvalue := hvalid.totalValue_apply (hbefore.apply_eq_ok hfree hfits hok)
    have hold := ih (hfree.mono (messages_mono (List.subset_append_left _ _)))
      fun c hc => hfits c (List.mem_append_left _ hc)
    rw [unclaimed_append, List.sum_append, List.sum_singleton, List.length_append,
      List.length_singleton, minted_succ]
    rw [hheight] at hvalue
    omega

end Ledger

end PowLedger
