import PowLedger.Fault
import PowLedger.Block

/-!
# Merkle trees

A tree over a non-empty list of leaves. The leaves are taken as they are; a parent is the digest of
its two children side by side, and a floor with an odd number of nodes repeats its last one. Even a
single leaf gets a parent, so a tree has at least one floor below the root. A proof of a leaf lists
the siblings on the way up with the side each stands on.
-/

namespace PowLedger

/-- The floors of a tree, made even, from the leaves up, and the root above them. -/
structure MerkleTree where
  floors : List (List Bytes)
  root : Bytes
  leafCount : Nat

/-- A sibling on the way from a leaf to the root. -/
structure ProofStep where
  hash : Bytes
  /-- The sibling stands on the right. -/
  isRight : Bool
  deriving DecidableEq

/-- The claim that a leaf belongs under a root, with the siblings that show it. -/
structure MerkleProof where
  leaf : Bytes
  root : Bytes
  path : List ProofStep
  index : Nat
  deriving DecidableEq

namespace Merkle

/-- A floor with its last node repeated if their number is odd. -/
def evened : List Bytes → List Bytes
  | [] => []
  | [a] => [a, a]
  | a :: b :: rest => a :: b :: evened rest

/-- The digests of neighbouring pairs. -/
def parents (digest : Hasher) : List Bytes → List Bytes
  | a :: b :: rest => digest (a ++ b) :: parents digest rest
  | _ => []

theorem length_parents_evened (digest : Hasher) (level : List Bytes) :
    (parents digest (evened level)).length = (level.length + 1) / 2 := by
  induction level using evened.induct with
  | case1 => rfl
  | case2 a => simp [evened, parents]
  | case3 a b rest ih => simp [evened, parents, ih]; omega

/-- The floors from `level` up, and the root. -/
def climb (digest : Hasher) (level : List Bytes) : List (List Bytes) × Bytes :=
  match _h : parents digest (evened level) with
  | [] => ([], [])
  | [root] => ([evened level], root)
  | a :: b :: rest =>
    let above := climb digest (a :: b :: rest)
    (evened level :: above.1, above.2)
termination_by level.length
decreasing_by
  have hlen := length_parents_evened digest level
  rw [_h] at hlen
  simp only [List.length_cons] at hlen ⊢
  omega

/-- The steps from the node at `position` of the lowest floor up to the root. -/
def path (position : Nat) : List (List Bytes) → List ProofStep
  | [] => []
  | floor :: floors =>
    let step : ProofStep :=
      if position % 2 = 0 then ⟨floor.getD (position + 1) [], true⟩
      else ⟨floor.getD (position - 1) [], false⟩
    step :: path (position / 2) floors

/-- The node above `node` and the sibling of a step. -/
def ascend (digest : Hasher) (node : Bytes) (step : ProofStep) : Bytes :=
  if step.isRight then digest (node ++ step.hash) else digest (step.hash ++ node)

end Merkle

namespace MerkleTree

/-- The tree over a list of leaves; there is none over no leaves. -/
def ofLeaves (digest : Hasher) (leaves : List Bytes) : Except Fault MerkleTree :=
  if leaves.isEmpty then .error (.validation .emptyBlock)
  else
    let above := Merkle.climb digest leaves
    .ok ⟨above.1, above.2, leaves.length⟩

/-- The proof of the leaf at `index`. -/
def proof (t : MerkleTree) (index : Nat) : Except Fault MerkleProof :=
  if index < t.leafCount then
    .ok ⟨(t.floors.headD []).getD index [], t.root, Merkle.path index t.floors, index⟩
  else .error (.notFound (.leaf index t.leafCount))

end MerkleTree

/-- The root of the tree over a list of leaves. -/
def merkleRoot (digest : Hasher) (leaves : List Bytes) : Except Fault Bytes :=
  (MerkleTree.ofLeaves digest leaves).map MerkleTree.root

/-- Whether the siblings of a proof lead from its leaf to its root. -/
def MerkleProof.verify (digest : Hasher) (p : MerkleProof) : Bool :=
  p.path.foldl (Merkle.ascend digest) p.leaf == p.root

namespace Block

/-- The root of the tree over the transaction ids. -/
def computedRoot (digest : Hasher) (b : Block) : Except Fault Bytes :=
  merkleRoot digest b.ids

/-- Whether the header's root is the one of the transactions. -/
def rootMatches (digest : Hasher) (b : Block) : Except Fault Bool :=
  (b.computedRoot digest).map (· == b.header.merkleRoot)

/-- The proof of the transaction at `index`. -/
def merkleProof (digest : Hasher) (b : Block) (index : Nat) : Except Fault MerkleProof :=
  match MerkleTree.ofLeaves digest b.ids with
  | .ok t => t.proof index
  | .error f => .error f

end Block

end PowLedger
