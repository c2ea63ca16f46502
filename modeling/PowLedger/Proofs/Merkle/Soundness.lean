import Mathlib.Tactic.Common
import Mathlib.Tactic.Lemma
import PowLedger.Proofs.Merkle.Inclusion

/-!
# What a Merkle proof shows

Whoever makes a proof is free to choose its leaf and every sibling and side of its path. All the
same, a path that leads to the root of a tree and has a step for every floor of it starts from a
leaf of the tree; and where its sides spell the position of a leaf, the proof is the one that the
tree itself gives for that position: `MerkleProof.full_depth_sound`. Leaves, digests and siblings
have to be of one size, and no two of the messages that are hashed may collide.

The argument goes down the tower. The message behind a node of the next floor is a pair of the floor
below, and as all nodes have one size, its two halves are the node that the step starts from and the
sibling, in the order of the sides (`Merkle.Comparable.start_of_ascend`). Past the end of a floor
that was made even its last node comes again; so sides that spell a position past the leaves start
from a leaf too, but from one of another position. A path that is shorter may start from an inner
node.
-/

namespace PowLedger

namespace Merkle

variable {digest : Hasher} {size : Nat} {level : List Bytes} {node : Bytes}
  {step : ProofStep} {steps : List ProofStep}

/-! ### Messages -/

/-- A node and the sibling of a step side by side. -/
def joined (node : Bytes) (step : ProofStep) : Bytes :=
  if step.isRight then node ++ step.hash else step.hash ++ node

/-- The messages that are hashed on the way up from a node. -/
def climbed (digest : Hasher) (node : Bytes) : List ProofStep → List Bytes
  | [] => []
  | step :: steps => joined node step :: climbed digest (ascend digest node step) steps

lemma ascend_eq (digest : Hasher) (node : Bytes) (step : ProofStep) :
    ascend digest node step = digest (joined node step) := by
  rw [ascend, joined]
  split <;> rfl

/-- A node and a sibling can be told from the two side by side, if the halves are known to be of
their size. -/
lemma eq_of_append_eq_joined {a b : Bytes} (ha : a.length = size) (hnode : node.length = size)
    (hstep : step.hash.length = size) (h : a ++ b = joined node step) :
    if step.isRight then a = node ∧ b = step.hash else a = step.hash ∧ b = node := by
  rw [joined] at h
  split
  · next hright =>
    rw [if_pos hright] at h
    exact List.append_inj h (ha.trans hnode.symm)
  · next hleft =>
    rw [if_neg hleft] at h
    exact List.append_inj h (ha.trans hstep.symm)

/-! ### One step down -/

/-- A step can be compared with a floor: all nodes are of one size, and neither the message of the
step nor those of the floor collide with one another. -/
structure Comparable (digest : Hasher) (size : Nat) (level : List Bytes) (node : Bytes)
    (step : ProofStep) : Prop where
  floorSize : ∀ a ∈ level, a.length = size
  nodeSize : node.length = size
  siblingSize : step.hash.length = size
  free : CollisionFree digest (joined node step :: pairs (evened level))

/-- A step that leads to a position of the next floor starts from a node of the pair below, and its
sibling is the other one. -/
lemma Comparable.start_of_ascend (h : Comparable digest size level node step) {above : Nat}
    (habove : (rise digest level)[above]? = some (ascend digest node step)) :
    let start := (if step.isRight then 0 else 1) + 2 * above
    (evened level)[start]? = some node ∧ stepFrom start (evened level) = step := by
  rw [rise_eq_map_pairs, List.getElem?_map, Option.map_eq_some_iff, ascend_eq] at habove
  obtain ⟨m, hm, hdigest⟩ := habove
  obtain rfl : m = joined node step :=
    h.free m (List.mem_cons_of_mem _ (List.mem_of_getElem? hm)) _ List.mem_cons_self hdigest
  obtain ⟨a, b, ha, hb, hhalves⟩ := getElem?_pairs_eq_some_iff.mp hm
  have hsize : a.length = size := h.floorSize a (evened_subset level (List.mem_of_getElem? ha))
  have hsides := eq_of_append_eq_joined hsize h.nodeSize h.siblingSize hhalves
  obtain ⟨hash, isRight⟩ := step
  cases isRight with
  | true =>
    obtain ⟨rfl, rfl⟩ : a = node ∧ b = hash := by simpa using hsides
    have hbeside : sibling (2 * above) = 2 * above + 1 := by rw [sibling, if_pos (by omega)]
    simp [stepFrom, hbeside, ha, hb]
  | false =>
    obtain ⟨rfl, rfl⟩ : a = hash ∧ b = node := by simpa using hsides
    have hbeside : sibling (1 + 2 * above) = 2 * above := by
      rw [sibling, if_neg (by omega)]
      omega
    rw [Nat.add_comm] at hb
    simp [stepFrom, hbeside, ha, hb]

/-- The node is on the floor, and at the position if the floor has it. -/
def Found (level : List Bytes) (position : Nat) (node : Bytes) : Prop :=
  node ∈ level ∧ (position < level.length → level[position]? = some node)

/-- If a step leads to a node that is found on the next floor, then the node that it starts from is
found on the floor below. At the position of a node the step is the tree's own. -/
lemma Comparable.found (h : Comparable digest size level node step)
    (habove : Found (rise digest level) (spelled steps) (ascend digest node step)) :
    Found level (spelled (step :: steps)) node ∧
      (spelled (step :: steps) < level.length →
        stepFrom (spelled (step :: steps)) (evened level) = step) := by
  have hown : spelled (step :: steps) < level.length →
      (evened level)[spelled (step :: steps)]? = some node ∧
        stepFrom (spelled (step :: steps)) (evened level) = step := by
    intro hlt
    refine h.start_of_ascend (habove.2 ?_)
    have hlen := length_rise digest level
    rw [spelled] at hlt
    omega
  refine ⟨⟨?_, fun hlt => ?_⟩, fun hlt => (hown hlt).2⟩
  · obtain ⟨position, hposition⟩ := List.getElem?_of_mem habove.1
    exact evened_subset level (List.mem_of_getElem? (h.start_of_ascend hposition).1)
  · have hsame := getElem?_evened (List.getElem?_eq_getElem hlt)
    rw [List.getElem?_eq_getElem hlt, ← hsame]
    exact (hown hlt).1

/-! ### Down the tower -/

/-- A path of full depth that leads to the root starts from a node of the lowest floor; if its sides
spell the position of one, it is the tree's own path from there. -/
lemma Tower.found {floors : List (List Bytes)} {root : Bytes}
    (h : Tower digest level floors root) (hsize : ∀ m, (digest m).length = size)
    (hlevel : ∀ a ∈ level, a.length = size) (hnode : node.length = size)
    (hsteps : ∀ step ∈ steps, step.hash.length = size)
    (hfree : CollisionFree digest (floors.flatMap pairs ++ climbed digest node steps))
    (hdepth : steps.length = floors.length) (hroot : steps.foldl (ascend digest) node = root) :
    Found level (spelled steps) node ∧
      (spelled steps < level.length → path (spelled steps) floors = steps) := by
  induction h generalizing node steps with
  | @top level root hrise =>
    obtain ⟨step, rfl⟩ := List.length_eq_one_iff.mp hdepth
    have hstep : Comparable digest size level node step :=
      ⟨hlevel, hnode, hsteps step List.mem_cons_self, hfree.mono (by grind [climbed])⟩
    have habove : Found (rise digest level) (spelled []) (ascend digest node step) := by
      rw [hrise, ← hroot]
      exact ⟨List.mem_singleton_self _, fun _ => rfl⟩
    obtain ⟨hfound, hown⟩ := hstep.found habove
    refine ⟨hfound, fun hlt => ?_⟩
    rw [path_cons, hown hlt, path]
  | @floor level floors root hmore htower ih =>
    obtain ⟨step, rest, rfl⟩ := List.exists_cons_of_length_eq_add_one hdepth
    have hstep : Comparable digest size level node step :=
      ⟨hlevel, hnode, hsteps step List.mem_cons_self, hfree.mono (by grind [climbed])⟩
    obtain ⟨habove, hpath⟩ := ih (size_rise hsize) (ascend_eq digest node step ▸ hsize _)
      (fun s hs => hsteps s (List.mem_cons_of_mem _ hs)) (hfree.mono (by grind [climbed]))
      (Nat.succ.inj hdepth) hroot
    obtain ⟨hfound, hown⟩ := hstep.found habove
    refine ⟨hfound, fun hlt => ?_⟩
    have hlen := length_rise digest level
    have hhalf : spelled (step :: rest) / 2 = spelled rest := by
      rw [spelled]
      split <;> omega
    rw [path_cons, hown hlt, hhalf, hpath (by omega)]

end Merkle

/-- The path of a proof has a step for every floor. -/
lemma MerkleTree.length_path_of_proof {t : MerkleTree} {index : Nat} {p : MerkleProof}
    (h : t.proof index = .ok p) : p.path.length = t.floors.length := by
  rw [proof] at h
  split at h
  · cases h
    exact Merkle.length_path index t.floors
  · cases h

namespace MerkleProof

/-- The messages that are hashed when the proof is verified. -/
def messages (digest : Hasher) (p : MerkleProof) : List Bytes :=
  Merkle.climbed digest p.leaf p.path

/-- A proof under the root of a tree that is as long as the tree's own proofs and verifies is one of
a leaf. If its sides spell the position of a leaf, it is the tree's own proof of that position, the
stated index apart. -/
theorem full_depth_sound {digest : Hasher} {size : Nat} {leaves : List Bytes} {t : MerkleTree}
    {p : MerkleProof} (hsize : ∀ m, (digest m).length = size)
    (hleaves : ∀ a ∈ leaves, a.length = size) (htree : MerkleTree.ofLeaves digest leaves = .ok t)
    (hleaf : p.leaf.length = size) (hpath : ∀ step ∈ p.path, step.hash.length = size)
    (hroot : p.root = t.root) {index : Nat} {own : MerkleProof} (hown : t.proof index = .ok own)
    (hdepth : p.path.length = own.path.length)
    (hfree : CollisionFree digest (Merkle.messages digest leaves ++ p.messages digest))
    (hverify : p.verify digest = true) :
    p.leaf ∈ leaves ∧
      (Merkle.spelled p.path < leaves.length →
        leaves[Merkle.spelled p.path]? = some p.leaf ∧
          t.proof (Merkle.spelled p.path) = .ok { p with index := Merkle.spelled p.path }) := by
  obtain ⟨hne, rfl⟩ := MerkleTree.ofLeaves_eq_ok_iff.mp htree
  have htower := Merkle.tower_climb digest hne
  have hlen : p.path.length = (Merkle.climb digest leaves).1.length :=
    hdepth.trans (MerkleTree.length_path_of_proof hown)
  obtain ⟨⟨hmem, hat⟩, hown⟩ := htower.found hsize hleaves hleaf hpath hfree hlen
    ((beq_iff_eq.mp hverify).trans hroot)
  refine ⟨hmem, fun hlt => ⟨hat hlt, ?_⟩⟩
  rw [MerkleTree.proof_eq_ok htower rfl (hat hlt), hown hlt, ← hroot]

end MerkleProof

namespace Sample

/-- A digest of one byte. -/
def checksum (message : Bytes) : Bytes :=
  [message.foldl (fun sum b => 31 * sum + b) 7]

def leaves : List Bytes := [[1], [2], [3], [4], [5]]

/-- A proof of the last leaf that states a wrong index. -/
def misnumbered : MerkleProof :=
  ⟨[5], [199], [⟨[5], true⟩, ⟨[231], true⟩, ⟨[135], false⟩], 9⟩

/-- The last leaf under the repeated node of the floor above, as if there were a leaf at 6. -/
def pastTheEnd : MerkleProof :=
  ⟨[5], [199], [⟨[5], true⟩, ⟨[231], false⟩, ⟨[135], false⟩], 6⟩

end Sample

namespace MerkleProof

open Sample in
/-- Over five leaves both proofs verify. The first one is the tree's own, and the second one, whose
sides spell a position past the leaves, is one of a leaf. -/
theorem full_depth_sound_of_five :
    misnumbered.verify checksum = true ∧ pastTheEnd.verify checksum = true ∧
      ∃ t, MerkleTree.ofLeaves checksum leaves = .ok t ∧
        t.proof 4 = .ok { misnumbered with index := 4 } ∧
        leaves.length ≤ Merkle.spelled pastTheEnd.path ∧ pastTheEnd.leaf ∈ leaves := by
  have hsize : ∀ m, (checksum m).length = 1 := fun _ => rfl
  have hleaves : ∀ a ∈ leaves, a.length = 1 := by decide
  have hne : leaves ≠ [] := by decide
  obtain ⟨t, htree, htower, hcount, -⟩ := MerkleTree.exists_tower checksum hne
  have hfirst : leaves[0]? = some [1] := rfl
  have hown := MerkleTree.proof_eq_ok htower hcount hfirst
  have hdepth : (Merkle.path 0 t.floors).length = 3 :=
    (Merkle.length_path 0 t.floors).trans htower.length_floors
  have hroot : t.root = [199] := by
    rw [(MerkleTree.ofLeaves_eq_ok_iff.mp htree).2]
    decide +kernel
  have hverifies : misnumbered.verify checksum = true := by decide
  have hverifies' : pastTheEnd.verify checksum = true := by decide
  obtain ⟨-, hat⟩ := @full_depth_sound checksum 1 leaves t misnumbered hsize hleaves htree rfl
    (by decide) hroot.symm 0 _ hown hdepth.symm (by decide +kernel) hverifies
  obtain ⟨hmem, -⟩ := @full_depth_sound checksum 1 leaves t pastTheEnd hsize hleaves htree rfl
    (by decide) hroot.symm 0 _ hown hdepth.symm (by decide +kernel) hverifies'
  exact ⟨hverifies, hverifies', t, htree, (hat (by decide)).2, by decide, hmem⟩

end MerkleProof

end PowLedger
