import Mathlib.Data.List.Nodup
import Mathlib.Tactic.Common
import Mathlib.Tactic.Lemma
import PowLedger.Proofs.Rules.Spend

/-!
# What the judge accepts as a block

`Judge.ValidBlock` lists the consensus rules of a block on a tip over a set of unspent outputs, one
field for each rule. Fees, reward and coinbase are compared as natural numbers, although the judge
adds amounts with a cap. The judge accepts a block if and only if it keeps the rules
(`Judge.checkBlock_eq_ok_iff`).
-/

namespace PowLedger

namespace Block

/-- The exact sum of what a list of transactions leaves in fees. -/
def feeTotal (s : UtxoSet) (others : List Transaction) : Nat :=
  (others.map (Transaction.surplus s)).sum

end Block

namespace Judge

/-- The consensus rules of a block that consists of `coinbase` and then `others`. -/
structure ValidBlock (j : Judge) (tip : Tip) (s : UtxoSet) (b : Block) (coinbase : Transaction)
    (others : List Transaction) : Prop where
  transactions : b.transactions = coinbase :: others
  previous : b.header.previous = tip.hash
  height : b.height = tip.height
  target : b.header.target = j.target
  work : b.header.hasWork j.digest = true
  hash : b.hash = b.header.hash j.digest
  root : merkleRoot j.digest b.ids = .ok b.header.merkleRoot
  coinbaseInputs : coinbase.inputs = []
  coinbaseData : coinbase.coinbaseData = bigEndian 8 b.height
  coinbaseOutputs : coinbase.outputs ≠ []
  coinbaseId : coinbase.computedId j.digest = coinbase.id
  spends : ∀ tx ∈ others, j.ValidSpend s tx
  spentOnce : (others.flatMap Transaction.sources).Nodup
  claimFits : coinbase.outputTotal < UInt64.size
  claim : coinbase.outputTotal ≤ (j.rewards.reward b.height).toNat + Block.feeTotal s others

variable {j : Judge} {tip : Tip} {s : UtxoSet} {b : Block}

/-! ### The checks one by one -/

/-- A header passes if it links to the tip, has the target of the chain, and has work. -/
lemma checkHeader_eq_ok_iff {h : Header} :
    j.checkHeader h tip = .ok () ↔ h.previous = tip.hash ∧ h.height.toNat = tip.height ∧
      h.target = j.target ∧ h.hasWork j.digest = true := by
  simp only [checkHeader, ite_error_eq_ok_iff, ite_ok_eq_ok_iff, ne_eq, not_not]

/-- The declared hash passes if it is that of the header. -/
lemma checkHash_eq_ok_iff : j.checkHash b = .ok () ↔ b.hash = b.header.hash j.digest := by
  rw [checkHash, ite_ok_eq_ok_iff]
  exact eq_comm

/-- The root passes if there is one over the ids and it is the header's. -/
lemma checkRoot_eq_ok_iff :
    j.checkRoot b = .ok () ↔ merkleRoot j.digest b.ids = .ok b.header.merkleRoot := by
  rw [checkRoot, Block.rootMatches, Block.computedRoot]
  cases merkleRoot j.digest b.ids with
  | error f => simp [Except.map]
  | ok root =>
    by_cases hroot : root = b.header.merkleRoot
    · simp [Except.map, hroot]
    · have hne : (root == b.header.merkleRoot) = false := by simpa using hroot
      simp [Except.map, hne, hroot]

/-- The coinbase is in its place if it alone has no inputs and it states the height. -/
lemma checkCoinbasePlace_eq_ok_iff {coinbase : Transaction} {others : List Transaction} :
    checkCoinbasePlace b coinbase others = .ok () ↔ coinbase.inputs = [] ∧
      (∀ tx ∈ others, tx.inputs ≠ []) ∧ coinbase.coinbaseData = bigEndian 8 b.height := by
  have hbase : ∀ tx : Transaction, tx.isCoinbase = true ↔ tx.inputs = [] :=
    fun tx => List.isEmpty_iff
  have hnone : others.findIdx? Transaction.isCoinbase = none ↔ ∀ tx ∈ others, tx.inputs ≠ [] := by
    simp [List.findIdx?_eq_none_iff, ← hbase]
  rw [checkCoinbasePlace, ite_error_eq_ok_iff]
  simp only [Bool.not_eq_true', Bool.not_eq_false, hbase]
  refine and_congr_right fun _ => ?_
  cases hfind : others.findIdx? Transaction.isCoinbase with
  | none =>
    simp only [ite_ok_eq_ok_iff]
    exact ⟨fun hdata => ⟨hnone.mp hfind, hdata⟩, fun h => h.2⟩
  | some i =>
    have hsome : ¬∀ tx ∈ others, tx.inputs ≠ [] := fun h => by simp [hnone.mpr h] at hfind
    simp [hsome]

/-- Transactions are disjoint if they consume no outpoint twice. -/
lemma checkDisjoint_eq_ok_iff {others : List Transaction} :
    checkDisjoint others = .ok () ↔ (others.flatMap Transaction.sources).Nodup := by
  have hnone : firstRepeated [] (others.flatMap Transaction.sources) = none ↔
      (others.flatMap Transaction.sources).Nodup := by simp [firstRepeated_eq_none_iff]
  rw [checkDisjoint]
  cases hrep : firstRepeated [] (others.flatMap Transaction.sources) with
  | none => simp [hnone.mp hrep]
  | some o =>
    have hdup : ¬(others.flatMap Transaction.sources).Nodup := by
      intro h
      simp [hnone.mpr h] at hrep
    simp [hdup]

/-- Transactions pass if each is valid; their fees are added up to the greatest amount. -/
lemma checkTransactions_eq_ok_iff {acc fees : Amount} {others : List Transaction} :
    j.checkTransactions s acc others = .ok fees ↔ (∀ tx ∈ others, j.ValidSpend s tx) ∧
      fees.toNat = min (acc.toNat + Block.feeTotal s others) (UInt64.size - 1) := by
  induction others generalizing acc with
  | nil =>
    have hacc : acc.toNat < UInt64.size := acc.toNat_lt
    simp only [checkTransactions, Except.ok.injEq, List.not_mem_nil, false_implies, implies_true,
      true_and, Block.feeTotal, List.map_nil, List.sum_nil, Nat.add_zero]
    rw [← UInt64.toNat_inj]
    omega
  | cons tx others ih =>
    rw [checkTransactions, List.forall_mem_cons, Block.feeTotal, List.map_cons, List.sum_cons,
      ← Block.feeTotal]
    cases htx : j.checkTransaction tx s with
    | error f =>
      have hinvalid : ¬j.ValidSpend s tx := by
        intro h
        have hsmall : tx.surplus s < UInt64.size :=
          Nat.lt_of_le_of_lt (Nat.sub_le _ _) h.inputsFit
        have hok := checkTransaction_eq_ok_iff.mpr ⟨h, UInt64.toNat_ofNat_of_lt' hsmall⟩
        rw [htx] at hok
        cases hok
      simp [hinvalid]
    | ok fee =>
      obtain ⟨hvalid, hfee⟩ := checkTransaction_eq_ok_iff.mp htx
      simp only [ih, hvalid, true_and, Amount.toNat_addCapped, hfee]
      refine and_congr_right fun _ => ?_
      omega

/-- The coinbase passes if it is well formed and claims at most reward and fees; that the fees were
added with a cap makes no difference. -/
lemma checkCoinbase_eq_ok_iff {height total : Nat} {coinbase : Transaction} {fees : Amount}
    (hin : coinbase.inputs = []) (hfees : fees.toNat = min total (UInt64.size - 1)) :
    j.checkCoinbase height coinbase fees = .ok () ↔ coinbase.outputs ≠ [] ∧
      coinbase.computedId j.digest = coinbase.id ∧ coinbase.outputTotal < UInt64.size ∧
      coinbase.outputTotal ≤ (j.rewards.reward height).toNat + total := by
  have hsources : coinbase.sources.Nodup := by simp [Transaction.sources, hin]
  have hallowed := Amount.toNat_addCapped (j.rewards.reward height) fees
  simp only [checkCoinbase, bind_eq_ok_iff, Transaction.outputValue_eq_ok_iff,
    ite_error_eq_ok_iff, UInt64.not_lt, UInt64.le_iff_toNat_le]
  constructor
  · rintro ⟨⟨⟩, hshape, ⟨⟩, hid, claimed, hclaimed, hle, -⟩
    have hfit : claimed.toNat < UInt64.size := claimed.toNat_lt
    exact ⟨(checkShape_eq_ok_iff.mp hshape).1, checkId_eq_ok_iff.mp hid, by omega, by omega⟩
  · rintro ⟨hout, hid, hfit, hle⟩
    have hclaimed : (UInt64.ofNat coinbase.outputTotal).toNat = coinbase.outputTotal :=
      UInt64.toNat_ofNat_of_lt' hfit
    exact ⟨(), checkShape_eq_ok_iff.mpr ⟨hout, hsources⟩, (), checkId_eq_ok_iff.mpr hid, _,
      hclaimed, by omega, rfl⟩

/-! ### The whole block -/

/-- The judge accepts exactly the blocks that keep the rules, and it returns the sum of their fees,
or the greatest amount if the sum is none. -/
theorem checkBlock_eq_ok_iff {fees : Amount} :
    j.checkBlock b tip s = .ok fees ↔ ∃ coinbase others, j.ValidBlock tip s b coinbase others ∧
      fees.toNat = min (Block.feeTotal s others) (UInt64.size - 1) := by
  simp only [checkBlock, bind_eq_ok_iff]
  constructor
  · rintro ⟨⟨⟩, hheader, ⟨⟩, hhash, h⟩
    obtain ⟨hprev, hheight, htarget, hwork⟩ := checkHeader_eq_ok_iff.mp hheader
    cases htxs : b.transactions with
    | nil => simp [htxs] at h
    | cons coinbase others =>
      simp only [htxs, bind_eq_ok_iff] at h
      obtain ⟨⟨⟩, hroot, ⟨⟩, hplace, ⟨⟩, hdisjoint, fees', htransactions, ⟨⟩, hcoin, h⟩ := h
      cases h
      obtain ⟨hin, -, hdata⟩ := checkCoinbasePlace_eq_ok_iff.mp hplace
      obtain ⟨hspends, hfees⟩ := checkTransactions_eq_ok_iff.mp htransactions
      rw [UInt64.toNat_zero, Nat.zero_add] at hfees
      obtain ⟨hout, hid, hfit, hclaim⟩ := (checkCoinbase_eq_ok_iff hin hfees).mp hcoin
      exact ⟨coinbase, others, ⟨htxs, hprev, hheight, htarget, hwork, checkHash_eq_ok_iff.mp hhash,
        checkRoot_eq_ok_iff.mp hroot, hin, hdata, hout, hid, hspends,
        checkDisjoint_eq_ok_iff.mp hdisjoint, hfit, hclaim⟩, hfees⟩
  · rintro ⟨coinbase, others, h, hfees⟩
    have hplace : checkCoinbasePlace b coinbase others = .ok () :=
      checkCoinbasePlace_eq_ok_iff.mpr
        ⟨h.coinbaseInputs, fun tx htx => (h.spends tx htx).inputs, h.coinbaseData⟩
    have htransactions : j.checkTransactions s 0 others = .ok fees :=
      checkTransactions_eq_ok_iff.mpr ⟨h.spends, by simpa using hfees⟩
    have hcoin : j.checkCoinbase b.height coinbase fees = .ok () :=
      (checkCoinbase_eq_ok_iff h.coinbaseInputs hfees).mpr
        ⟨h.coinbaseOutputs, h.coinbaseId, h.claimFits, h.claim⟩
    refine ⟨(), checkHeader_eq_ok_iff.mpr ⟨h.previous, h.height, h.target, h.work⟩, (),
      checkHash_eq_ok_iff.mpr h.hash, ?_⟩
    simp only [h.transactions, bind_eq_ok_iff]
    exact ⟨(), checkRoot_eq_ok_iff.mpr h.root, (), hplace, (),
      checkDisjoint_eq_ok_iff.mpr h.spentOnce, fees, htransactions, (), hcoin, rfl⟩

/-- A block is accepted just when it keeps the rules. -/
theorem checkBlock_isOk_iff :
    (∃ fees, j.checkBlock b tip s = .ok fees) ↔
      ∃ coinbase others, j.ValidBlock tip s b coinbase others := by
  simp only [checkBlock_eq_ok_iff]
  constructor
  · rintro ⟨fees, coinbase, others, h, -⟩
    exact ⟨coinbase, others, h⟩
  · rintro ⟨coinbase, others, h⟩
    have hsmall : min (Block.feeTotal s others) (UInt64.size - 1) < UInt64.size := by
      have : 0 < UInt64.size := by decide
      omega
    exact ⟨UInt64.ofNat _, coinbase, others, h, UInt64.toNat_ofNat_of_lt' hsmall⟩

end Judge

end PowLedger
