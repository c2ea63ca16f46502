import Mathlib.Tactic.Common
import Mathlib.Tactic.Lemma
import PowLedger.Proofs.Node.Integrity

/-!
# One header, one body

A Merkle root alone does not determine the ids below it. A list that is made even by a repeated tail
has the root of the list itself (`Merkle.merkleRoot_evened`), and so has every floor above it, since
leaves and inner nodes are hashed alike (`Merkle.merkleRoot_rise`). The rules of a block shut both
out: a repeated tail spends twice, and an inner node is the digest of 64 bytes, which is too short
for a transaction that spends. So a header goes with at most one body, whatever the tips and the
unspent outputs that its blocks were judged over (`Judge.body_unique`).
-/

namespace PowLedger

namespace Merkle

variable {digest : Hasher}

/-- An even list is left as it is. -/
lemma evened_evened (level : List Bytes) : evened (evened level) = evened level := by
  induction level using evened.induct with
  | case1 => rfl
  | case2 a => rfl
  | case3 a b rest ih => rw [evened, evened, ih]

/-- The repeated tail changes nothing above it. -/
lemma rise_evened (level : List Bytes) : rise digest (evened level) = rise digest level := by
  rw [rise, rise, evened_evened]

/-- A repeated tail does not show in the tree. -/
lemma climb_evened (level : List Bytes) : climb digest (evened level) = climb digest level := by
  by_cases hnil : level = []
  · rw [hnil, evened]
  · rcases rise_cases digest hnil with ⟨root, hroot⟩ | hmore
    · rw [climb_of_rise_eq_singleton hroot,
        climb_of_rise_eq_singleton ((rise_evened level).trans hroot), evened_evened]
    · rw [climb_of_two_le_length_rise hmore,
        climb_of_two_le_length_rise (by rwa [rise_evened]), evened_evened, rise_evened]

/-- A list and the same list with a repeated tail have one root. -/
theorem merkleRoot_evened (leaves : List Bytes) :
    merkleRoot digest (evened leaves) = merkleRoot digest leaves := by
  have hempty : (evened leaves).isEmpty = leaves.isEmpty := by
    rcases leaves with - | ⟨a, - | ⟨b, rest⟩⟩ <;> rfl
  rw [merkleRoot, merkleRoot, MerkleTree.ofLeaves, MerkleTree.ofLeaves, hempty, climb_evened]
  split <;> rfl

/-- A list and a floor of several nodes above it have one root. -/
theorem merkleRoot_rise {leaves : List Bytes} (h : 2 ≤ (rise digest leaves).length) :
    merkleRoot digest (rise digest leaves) = merkleRoot digest leaves := by
  have hroot : merkleRoot digest leaves = .ok (climb digest leaves).2 :=
    merkleRoot_eq_ok_iff.mpr ⟨ne_nil_of_two_le_length_rise h, rfl⟩
  rw [hroot, merkleRoot_eq_ok_iff, climb_of_two_le_length_rise h]
  exact ⟨List.ne_nil_of_length_pos (by omega), rfl⟩

end Merkle

namespace Sample

/-- What is unspent after the first block of the sample chain, and one output more. -/
def richer : UtxoSet :=
  (Ledger.utxos [first]).withCreated [((coinbase 7 1).outpoint 0, ⟨1, lock⟩)]

/-- The second block, put together anew. -/
def again : Block :=
  Block.ofHeader digest second.header [coinbase 1 20, payment]

end Sample

namespace Judge

variable {j : Judge} {b c : Block} {tip tip' : Tip} {s s' : UtxoSet} {fees fees' : Amount}

/-- Blocks that were accepted, each on a tip of its own over unspent outputs of its own, have the
same transactions if they have the same header, and they are equal if they have the same hash. -/
theorem body_unique (hsized : j.primitives.Sized) (hb : j.checkBlock b tip s = .ok fees)
    (hc : j.checkBlock c tip' s' = .ok fees') (hbfits : b.Fits) (hcfits : c.Fits)
    (hfree : CollisionFree j.digest (b.messages j.digest ++ c.messages j.digest)) :
    (b.header = c.header → b.transactions = c.transactions) ∧ (b.hash = c.hash → b = c) := by
  obtain ⟨coinbase, others, hbvalid, -⟩ := checkBlock_eq_ok_iff.mp hb
  obtain ⟨coinbase', others', hcvalid, -⟩ := checkBlock_eq_ok_iff.mp hc
  have hbknown := List.subset_append_left (b.messages j.digest) (c.messages j.digest)
  have hcknown := List.subset_append_right (b.messages j.digest) (c.messages j.digest)
  constructor
  · intro hheader
    exact hbvalid.transactions_eq hcvalid hsized hfree hbknown hcknown hbfits hcfits
      (congrArg Header.merkleRoot hheader)
  · intro hhash
    exact eq_of_hash_eq hbvalid hcvalid hsized hfree hbknown hcknown hbfits hcfits hhash

open Sample in
/-- The second block of the sample chain is accepted also where another output is unspent, and what
is accepted there under its header are its own transactions. -/
theorem body_unique_of_second :
    node.judge.checkBlock second (Ledger.tip [first]) (Ledger.utxos [first]) = .ok 5 ∧
      node.judge.checkBlock again (Ledger.tip [first]) richer = .ok 5 ∧
      second.transactions = again.transactions ∧ second = again := by
  have hb : node.judge.checkBlock second (Ledger.tip [first]) (Ledger.utxos [first]) = .ok 5 := by
    decide +kernel
  have hc : node.judge.checkBlock again (Ledger.tip [first]) richer = .ok 5 := by decide +kernel
  have hfree : CollisionFree Sample.digest
      (second.messages Sample.digest ++ again.messages Sample.digest) := by decide +kernel
  obtain ⟨htransactions, hblock⟩ := body_unique sized hb hc (by decide +kernel)
    (by decide +kernel) hfree
  exact ⟨hb, hc, htransactions rfl, hblock (by decide +kernel)⟩

end Judge

end PowLedger
