import Mathlib.Algebra.Ring.Nat
import Mathlib.Data.List.Chain
import Mathlib.Data.Nat.Log
import Mathlib.Tactic.Common
import Mathlib.Tactic.Lemma
import PowLedger.Proofs.Merkle.Binding

/-!
# Merkle proofs of inclusion

Every leaf of a tree has a proof, and the proof verifies: `MerkleTree.proofs_verify`. This holds of
every list of leaves but the empty one, whatever the digests are.

A tree is made floor by floor, and so is a proof. `Merkle.Tower` says how the floors stand on one
another; what a proof needs is shown along it. One step up from a node and its sibling leads to the
node above both (`Merkle.getElem?_parents_ascend`), since a floor is made even before it is paired,
and there the position is half of what it was. So the steps reach the root, and their sides spell
the position in binary, the lowest digit at the leaf (`Merkle.spelled_path`).
-/

namespace PowLedger

namespace Merkle

variable {digest : Hasher}

/-! ### One floor -/

/-- The position beside a position, in the same pair. -/
def sibling (position : Nat) : Nat :=
  if position % 2 = 0 then position + 1 else position - 1

lemma sibling_eq_or (position : Nat) :
    position = 2 * (position / 2) ∧ sibling position = 2 * (position / 2) + 1 ∨
      position = 2 * (position / 2) + 1 ∧ sibling position = 2 * (position / 2) := by
  rw [sibling]
  split <;> omega

/-- A position and the one beside it are both on a floor of whole pairs, or neither is. -/
lemma sibling_lt {length position : Nat} (heven : length % 2 = 0) (h : position < length) :
    sibling position < length := by
  rcases sibling_eq_or position with ⟨-, hsibling⟩ | ⟨-, hsibling⟩ <;> omega

/-- A floor that is made even consists of pairs. -/
lemma length_evened_mod_two (level : List Bytes) : (evened level).length % 2 = 0 := by
  induction level using evened.induct with
  | case1 => rfl
  | case2 a => rw [evened, List.length_cons, List.length_singleton]
  | case3 a b rest ih =>
    rw [evened, List.length_cons, List.length_cons, Nat.add_assoc, Nat.add_mod_right]
    exact ih

lemma lt_length_evened {level : List Bytes} {position : Nat} (h : position < level.length) :
    position < (evened level).length :=
  h.trans_le (prefix_evened level).length_le

/-- A node of a floor keeps its position when the floor is made even. -/
lemma getElem?_evened {level : List Bytes} {position : Nat} {node : Bytes}
    (h : level[position]? = some node) : (evened level)[position]? = some node := by
  obtain ⟨more, hmore⟩ := prefix_evened level
  obtain ⟨hlt, -⟩ := List.getElem?_eq_some_iff.mp h
  rw [← hmore, List.getElem?_append_left hlt, h]

/-- The pairs of a floor, by the positions of their nodes. -/
lemma getElem?_pairs_eq_some_iff {floor : List Bytes} {k : Nat} {m : Bytes} :
    (pairs floor)[k]? = some m ↔
      ∃ a b, floor[2 * k]? = some a ∧ floor[2 * k + 1]? = some b ∧ a ++ b = m := by
  induction floor using pairs.induct generalizing k with
  | case1 x y rest ih =>
    cases k with
    | zero =>
      constructor
      · intro h
        exact ⟨x, y, rfl, rfl, Option.some.inj h⟩
      · rintro ⟨a, b, ha, hb, rfl⟩
        cases ha
        cases hb
        rfl
    | succ k => exact ih
  | case2 floor hshort =>
    rcases floor with - | ⟨x, - | ⟨y, rest⟩⟩
    · simp [pairs]
    · simp [pairs]
    · exact absurd rfl (hshort x y rest)

/-- Above the two nodes of a pair stands the digest of both. -/
lemma getElem?_parents {floor : List Bytes} {k : Nat} {a b : Bytes}
    (ha : floor[2 * k]? = some a) (hb : floor[2 * k + 1]? = some b) :
    (parents digest floor)[k]? = some (digest (a ++ b)) := by
  have hpair : (pairs floor)[k]? = some (a ++ b) :=
    getElem?_pairs_eq_some_iff.mpr ⟨a, b, ha, hb, rfl⟩
  rw [parents_eq_map_pairs, List.getElem?_map, hpair, Option.map_some]

/-! ### One step -/

/-- The step up from a position of a floor. -/
def stepFrom (position : Nat) (floor : List Bytes) : ProofStep :=
  ⟨floor.getD (sibling position) [], position % 2 = 0⟩

lemma path_cons (position : Nat) (floor : List Bytes) (floors : List (List Bytes)) :
    path position (floor :: floors) = stepFrom position floor :: path (position / 2) floors := by
  rw [path, stepFrom, sibling]
  split
  · next heven => simp [heven]
  · next hodd => simp [hodd]

/-- The sibling of a step is looked up where there is one. -/
lemma getElem?_sibling {floor : List Bytes} {position : Nat} (heven : floor.length % 2 = 0)
    (h : position < floor.length) :
    floor[sibling position]? = some (stepFrom position floor).hash := by
  rw [stepFrom, List.getD_eq_getElem?_getD, List.getElem?_eq_getElem (sibling_lt heven h),
    Option.getD_some]

/-- The step up from a node leads to the node above it. -/
lemma getElem?_parents_ascend {floor : List Bytes} {position : Nat} {node : Bytes}
    (heven : floor.length % 2 = 0) (hnode : floor[position]? = some node) :
    (parents digest floor)[position / 2]? =
      some (ascend digest node (stepFrom position floor)) := by
  obtain ⟨hlt, -⟩ := List.getElem?_eq_some_iff.mp hnode
  have hbeside := getElem?_sibling heven hlt
  rcases sibling_eq_or position with ⟨hposition, hsibling⟩ | ⟨hposition, hsibling⟩
  · have hside : (stepFrom position floor).isRight = true := decide_eq_true (by omega)
    rw [hsibling] at hbeside
    rw [hposition] at hnode
    rw [ascend, if_pos hside]
    exact getElem?_parents hnode hbeside
  · have hside : ¬(stepFrom position floor).isRight = true := by
      rw [stepFrom, decide_eq_true_eq]
      omega
    rw [hsibling] at hbeside
    rw [hposition] at hnode
    rw [ascend, if_neg hside]
    exact getElem?_parents hbeside hnode

variable (digest) in
/-- The step up from a node of a floor before that is made even. -/
lemma getElem?_rise {level : List Bytes} {position : Nat} {node : Bytes}
    (hnode : level[position]? = some node) :
    (rise digest level)[position / 2]? =
      some (ascend digest node (stepFrom position (evened level))) :=
  getElem?_parents_ascend (length_evened_mod_two level) (getElem?_evened hnode)

/-! ### The sides of a path -/

/-- The number that the sides of a path spell in binary: the lowest digit comes first, and a sibling
on the right stands for 0. -/
def spelled : List ProofStep → Nat
  | [] => 0
  | step :: steps => (if step.isRight then 0 else 1) + 2 * spelled steps

lemma length_path (position : Nat) (floors : List (List Bytes)) :
    (path position floors).length = floors.length := by
  induction floors generalizing position with
  | nil => rfl
  | cons floor floors ih => rw [path_cons, List.length_cons, List.length_cons, ih]

/-- Each step of a path starts from the position halved once for every floor below. -/
lemma getElem?_path (position : Nat) (floors : List (List Bytes)) (j : Nat) :
    (path position floors)[j]? = floors[j]?.map (stepFrom (position / 2 ^ j)) := by
  induction floors generalizing position j with
  | nil => rfl
  | cons floor floors ih =>
    rw [path_cons]
    cases j with
    | zero => rw [pow_zero, Nat.div_one]; rfl
    | succ j =>
      rw [List.getElem?_cons_succ, List.getElem?_cons_succ, ih, pow_succ',
        Nat.div_div_eq_div_mul]

/-- The sides of a path spell as many digits of the position as there are floors. -/
lemma spelled_path (position : Nat) (floors : List (List Bytes)) :
    spelled (path position floors) = position % 2 ^ floors.length := by
  induction floors generalizing position with
  | nil => exact (Nat.mod_one position).symm
  | cons floor floors ih =>
    have hdigit : (if (stepFrom position floor).isRight then 0 else 1) = position % 2 := by
      rw [stepFrom]
      split
      · next heven => exact (of_decide_eq_true heven).symm
      · next hodd =>
        have hne : ¬position % 2 = 0 := fun h => hodd (decide_eq_true h)
        omega
    rw [path_cons, spelled, hdigit, ih, List.length_cons, pow_succ', Nat.mod_mul]

/-! ### Towers -/

/-- The floors stand on the lowest one, each made even and the digests of the pairs of the one
below, and the root stands on them. -/
inductive Tower (digest : Hasher) : List Bytes → List (List Bytes) → Bytes → Prop
  | top {level : List Bytes} {root : Bytes} :
      rise digest level = [root] → Tower digest level [evened level] root
  | floor {level : List Bytes} {floors : List (List Bytes)} {root : Bytes} :
      2 ≤ (rise digest level).length → Tower digest (rise digest level) floors root →
      Tower digest level (evened level :: floors) root

variable (digest) in
/-- What is built on a floor of nodes is a tower. -/
lemma tower_climb {level : List Bytes} (h : level ≠ []) :
    Tower digest level (climb digest level).1 (climb digest level).2 := by
  rcases rise_cases digest h with ⟨root, hroot⟩ | hmore
  · rw [climb_of_rise_eq_singleton hroot]
    exact .top hroot
  · have hlen := length_rise digest level
    rw [climb_of_two_le_length_rise hmore]
    exact .floor hmore (tower_climb (List.ne_nil_of_length_pos (by omega)))
termination_by level.length
decreasing_by omega

namespace Tower

variable {level : List Bytes} {floors : List (List Bytes)} {root : Bytes}

/-- The lowest floor holds the nodes that the tower stands on. -/
lemma head? (h : Tower digest level floors root) : floors.head? = some (evened level) := by
  cases h <;> rfl

/-- Every floor consists of pairs. -/
lemma even (h : Tower digest level floors root) : ∀ floor ∈ floors, floor.length % 2 = 0 := by
  induction h with
  | @top level root _ =>
    intro floor hfloor
    rw [List.mem_singleton.mp hfloor]
    exact length_evened_mod_two level
  | @floor level floors root _ _ ih =>
    intro floor hfloor
    rcases List.mem_cons.mp hfloor with rfl | hhigher
    · exact length_evened_mod_two level
    · exact ih floor hhigher

/-- A floor above another is the digests of its pairs, made even. -/
lemma isChain (h : Tower digest level floors root) :
    floors.IsChain fun lower upper => upper = evened (parents digest lower) := by
  induction h with
  | top _ => exact List.isChain_singleton _
  | floor _ htower ih =>
    rw [List.isChain_cons]
    refine ⟨fun upper hupper => ?_, ih⟩
    exact (Option.some.inj (htower.head?.symm.trans hupper)).symm

/-- The highest floor is one pair, and its digest is the root. -/
lemma getLast? (h : Tower digest level floors root) :
    floors.getLast?.map (parents digest) = some [root] := by
  induction h with
  | @top level root hroot => exact congrArg some hroot
  | @floor level floors root _ htower ih =>
    rcases floors with - | ⟨next, higher⟩
    · exact absurd htower.head? (by simp)
    · rwa [List.getLast?_cons_cons]

/-- With every floor the number of nodes is halved, up to one. -/
lemma length_floors (h : Tower digest level floors root) :
    floors.length = max 1 (Nat.clog 2 level.length) := by
  induction h with
  | @top level root hroot =>
    have hlen := length_rise digest level
    rw [hroot, List.length_singleton] at hlen
    have hfew : level.length ≤ 2 := by omega
    have hclog : Nat.clog 2 level.length ≤ 1 := Nat.clog_le_of_le_pow hfew
    rw [List.length_singleton]
    omega
  | @floor level floors root hmore _ ih =>
    have hlen := length_rise digest level
    have hclog : Nat.clog 2 level.length = Nat.clog 2 (rise digest level).length + 1 := by
      rw [Nat.clog_of_two_le (by omega) (by omega), hlen]
      rfl
    have hpos : 0 < Nat.clog 2 (rise digest level).length := Nat.clog_pos (by omega) hmore
    rw [List.length_cons, ih]
    omega

/-- The tower is high enough for its positions to be told apart. -/
lemma length_le (h : Tower digest level floors root) : level.length ≤ 2 ^ floors.length := by
  refine (Nat.le_pow_clog (by omega) _).trans (Nat.pow_le_pow_right (by omega) ?_)
  rw [h.length_floors]
  exact le_max_right _ _

/-- Halved once for every floor, a position stays on the floors. -/
lemma position_lt (h : Tower digest level floors root) {index j : Nat} {floor : List Bytes}
    (hindex : index < level.length) (hfloor : floors[j]? = some floor) :
    index / 2 ^ j < floor.length := by
  induction j generalizing level floors index with
  | zero =>
    rw [← List.head?_eq_getElem?, h.head?] at hfloor
    cases hfloor
    rw [pow_zero, Nat.div_one]
    exact lt_length_evened hindex
  | succ j ih =>
    cases h with
    | top _ => cases hfloor
    | floor _ htower =>
      have hlen := length_rise digest level
      rw [pow_succ', ← Nat.div_div_eq_div_mul]
      exact ih htower (by omega) hfloor

/-- From a node of the lowest floor the steps lead to the root. -/
lemma foldl_path (h : Tower digest level floors root) {index : Nat} {node : Bytes}
    (hnode : level[index]? = some node) :
    (path index floors).foldl (ascend digest) node = root := by
  induction h generalizing index node with
  | @top level root hroot =>
    have habove := List.mem_of_getElem? (getElem?_rise digest hnode)
    rw [hroot, List.mem_singleton] at habove
    rw [path_cons, path, List.foldl_cons, List.foldl_nil, habove]
  | @floor level floors root _ _ ih =>
    rw [path_cons, List.foldl_cons]
    exact ih (getElem?_rise digest hnode)

end Tower

end Merkle

/-! ### Trees and their proofs -/

/-- The tree has the leaves on its lowest floor, and every floor is made of the one below. -/
structure MerkleTree.Over (digest : Hasher) (leaves : List Bytes) (t : MerkleTree) : Prop where
  leafCount : t.leafCount = leaves.length
  height : t.floors.length = max 1 (Nat.clog 2 leaves.length)
  lowest : t.floors.head? = some (Merkle.evened leaves)
  /-- No node lacks its neighbour when a floor is paired. -/
  even : ∀ floor ∈ t.floors, floor.length % 2 = 0
  next : t.floors.IsChain fun lower upper => upper = Merkle.evened (Merkle.parents digest lower)
  /-- The highest floor is one pair. -/
  top : t.floors.getLast?.map (Merkle.parents digest) = some [t.root]

/-- The proof leads from the leaf at an index to the root of the tree. -/
structure MerkleProof.LeadsUp (digest : Hasher) (leaves : List Bytes) (t : MerkleTree)
    (index : Nat) (p : MerkleProof) : Prop where
  leaf : leaves[index]? = some p.leaf
  root : merkleRoot digest leaves = .ok p.root
  stated : p.index = index
  length : p.path.length = max 1 (Nat.clog 2 leaves.length)
  /-- The sides of the siblings are the binary digits of the index. -/
  sides : Merkle.spelled p.path = index
  /-- Every floor has the sibling that is taken from it. -/
  siblings : ∀ j floor, t.floors[j]? = some floor → ∃ step, p.path[j]? = some step ∧
    floor[Merkle.sibling (index / 2 ^ j)]? = some step.hash
  verifies : p.verify digest = true

namespace MerkleTree

variable {digest : Hasher} {leaves : List Bytes} {t : MerkleTree}

/-- A tree is made over every list of leaves but the empty one, by climbing. -/
lemma ofLeaves_eq_ok_iff : ofLeaves digest leaves = .ok t ↔ leaves ≠ [] ∧
    t = ⟨(Merkle.climb digest leaves).1, (Merkle.climb digest leaves).2, leaves.length⟩ := by
  rw [ofLeaves]
  by_cases h : leaves = []
  · simp [h]
  · have hne : leaves.isEmpty = false := by simpa using h
    simp [h, hne, eq_comm]

variable (digest) in
/-- Over leaves a tree is made, and it is a tower. -/
lemma exists_tower (h : leaves ≠ []) : ∃ t, ofLeaves digest leaves = .ok t ∧
    Merkle.Tower digest leaves t.floors t.root ∧ t.leafCount = leaves.length ∧
    merkleRoot digest leaves = .ok t.root :=
  ⟨_, ofLeaves_eq_ok_iff.mpr ⟨h, rfl⟩, Merkle.tower_climb digest h, rfl,
    Merkle.merkleRoot_eq_ok_iff.mpr ⟨h, rfl⟩⟩

/-- A tower over the leaves is a tree over them. -/
lemma over_of_tower (h : Merkle.Tower digest leaves t.floors t.root)
    (hcount : t.leafCount = leaves.length) : t.Over digest leaves where
  leafCount := hcount
  height := h.length_floors
  lowest := h.head?
  even := h.even
  next := h.isChain
  top := h.getLast?

/-- The proof of a leaf of a tower. -/
lemma proof_eq_ok (h : Merkle.Tower digest leaves t.floors t.root)
    (hcount : t.leafCount = leaves.length) {index : Nat} {leaf : Bytes}
    (hleaf : leaves[index]? = some leaf) :
    t.proof index = .ok ⟨leaf, t.root, Merkle.path index t.floors, index⟩ := by
  obtain ⟨hindex, -⟩ := List.getElem?_eq_some_iff.mp hleaf
  have hlowest : (t.floors.headD []).getD index [] = leaf := by
    rw [List.headD_eq_head?_getD, h.head?, Option.getD_some, List.getD_eq_getElem?_getD,
      Merkle.getElem?_evened hleaf, Option.getD_some]
  rw [proof, hcount, if_pos hindex, hlowest]

/-- In a tower over the leaves every leaf has its proof. -/
lemma exists_proof (h : Merkle.Tower digest leaves t.floors t.root)
    (hcount : t.leafCount = leaves.length) (hroot : merkleRoot digest leaves = .ok t.root)
    {index : Nat} (hindex : index < leaves.length) :
    ∃ p, t.proof index = .ok p ∧ p.LeadsUp digest leaves t index := by
  have hleaf : leaves[index]? = some leaves[index] := List.getElem?_eq_getElem hindex
  refine ⟨_, proof_eq_ok h hcount hleaf, ?_⟩
  exact
    { leaf := hleaf
      root := hroot
      stated := rfl
      length := (Merkle.length_path index t.floors).trans h.length_floors
      sides := by
        rw [Merkle.spelled_path]
        exact Nat.mod_eq_of_lt (hindex.trans_le h.length_le)
      siblings := fun j floor hfloor => by
        refine ⟨Merkle.stepFrom (index / 2 ^ j) floor, ?_, ?_⟩
        · rw [Merkle.getElem?_path, hfloor, Option.map_some]
        · exact Merkle.getElem?_sibling (h.even floor (List.mem_of_getElem? hfloor))
            (h.position_lt hindex hfloor)
      verifies := beq_iff_eq.mpr (h.foldl_path hleaf) }

/-- A list of leaves that is not empty has a tree, the leaves have proofs in it, and the proofs
verify. Past the leaves there is nothing to prove. -/
theorem proofs_verify (h : leaves ≠ []) : ∃ t, ofLeaves digest leaves = .ok t ∧
    t.Over digest leaves ∧ ∀ index,
      (index < leaves.length → ∃ p, t.proof index = .ok p ∧ p.LeadsUp digest leaves t index) ∧
      (leaves.length ≤ index →
        t.proof index = .error (.notFound (.leaf index leaves.length))) := by
  obtain ⟨t, htree, htower, hcount, hroot⟩ := exists_tower digest h
  refine ⟨t, htree, over_of_tower htower hcount, fun index => ⟨?_, fun hpast => ?_⟩⟩
  · exact exists_proof htower hcount hroot
  · rw [proof, hcount, if_neg hpast.not_gt]

/-- Five leaves of different lengths have a tree of three floors, which are made even twice. The
last leaf is proved by itself, by its pair and by the pairs before it. -/
theorem proofs_verify_of_five : [[1], [2, 3], [], [4], [5]] ≠ ([] : List Bytes) ∧
    ∃ t, ofLeaves List.reverse [[1], [2, 3], [], [4], [5]] = .ok t ∧ t.floors.length = 3 ∧
      ∃ p, t.proof 4 = .ok p ∧ p.leaf = [5] ∧ Merkle.spelled p.path = 4 ∧
        p.verify List.reverse = true := by
  have hleaves : [[1], [2, 3], [], [4], [5]] ≠ ([] : List Bytes) := by decide
  obtain ⟨t, htree, hover, hproofs⟩ := @proofs_verify List.reverse _ hleaves
  obtain ⟨p, hproof, hleads⟩ := (hproofs 4).1 (by decide)
  have hleaf : [5] = p.leaf := Option.some.inj hleads.leaf
  exact ⟨hleaves, t, htree, hover.height, p, hproof, hleaf.symm, hleads.sides, hleads.verifies⟩

end MerkleTree

/-- In a block whose root is the one of its transactions every transaction is proved under the root
of the header. -/
theorem Block.merkleProof_verifies {digest : Hasher} {b : Block} {index : Nat} {tx : Transaction}
    (hroot : b.rootMatches digest = .ok true) (htx : b.transactions[index]? = some tx) :
    ∃ p, b.merkleProof digest index = .ok p ∧ p.leaf = tx.id ∧ p.root = b.header.merkleRoot ∧
      p.index = index ∧ p.verify digest = true := by
  have hid : b.ids[index]? = some tx.id := by
    rw [ids, List.getElem?_map, htx, Option.map_some]
  obtain ⟨hindex, -⟩ := List.getElem?_eq_some_iff.mp hid
  have hne : b.ids ≠ [] := List.ne_nil_of_length_pos (by omega)
  obtain ⟨t, htree, htower, hcount, htop⟩ := MerkleTree.exists_tower digest hne
  obtain ⟨p, hproof, hleads⟩ := MerkleTree.exists_proof htower hcount htop hindex
  have hheader : t.root = b.header.merkleRoot := by
    rw [rootMatches, computedRoot, htop] at hroot
    exact beq_iff_eq.mp (Except.ok.inj hroot)
  refine ⟨p, ?_, ?_, ?_, hleads.stated, hleads.verifies⟩
  · rw [merkleProof, htree]
    exact hproof
  · exact Option.some.inj (hleads.leaf.symm.trans hid)
  · exact (Except.ok.inj (hleads.root.symm.trans htop)).trans hheader

end PowLedger
