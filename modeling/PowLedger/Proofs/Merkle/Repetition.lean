import Mathlib.Tactic.Common
import Mathlib.Tactic.Lemma
import PowLedger.Proofs.Merkle.Soundness

/-!
# Lists of leaves with one root

An odd floor repeats its last node, and the root does not tell whether it did. So there are
different lists with one root. Between trees of equally many floors this is all that a root leaves
open: of two lists with one root the shorter begins the longer, and behind it the longer has only
leaves that the shorter has already (`Merkle.root_binds_leaves`). Lists of one length, and lists
without repetition, are equal then. Leaves and digests have to be of one size, and no two of the
messages of the trees may collide.

The argument goes down both towers at once. The trees may repeat a node on different floors, and
either list may turn out to be the longer one: over `[a]` and over `[a, a]` the next floor is the
same. So what is kept on the way down is symmetric: one floor begins the other, whichever it is, and
both have the same nodes (`Merkle.Matching.of_rise`).
-/

namespace PowLedger

namespace Merkle

variable {digest : Hasher} {size : Nat} {known as bs : List Bytes}

/-- Lists match if the floors above them do. -/
lemma Matching.of_rise (has : ∀ a ∈ as, a.length = size) (hbs : ∀ b ∈ bs, b.length = size)
    (hfree : CollisionFree digest known) (haknown : pairs (evened as) ⊆ known)
    (hbknown : pairs (evened bs) ⊆ known) (h : Matching (rise digest as) (rise digest bs)) :
    Matching as bs := by
  rw [rise_eq_map_pairs, rise_eq_map_pairs] at h
  refine ⟨?_, ?_, ?_⟩
  · rcases h.front with hfront | hfront
    · exact prefix_or_of_pairs has hbs (hfree.prefix_of_map haknown hbknown hfront)
    · exact (prefix_or_of_pairs hbs has (hfree.prefix_of_map hbknown haknown hfront)).symm
  · exact subset_of_pairs has hbs (hfree.subset_of_map haknown hbknown h.subset)
  · exact subset_of_pairs hbs has (hfree.subset_of_map hbknown haknown h.superset)

lemma Tower.length_pos {floors : List (List Bytes)} {root : Bytes}
    (h : Tower digest as floors root) : 0 < floors.length := by
  rw [h.length_floors]
  exact Nat.lt_of_lt_of_le Nat.one_pos (le_max_left _ _)

/-- Towers of one height under one root stand on matching lists. -/
lemma Tower.matching {floors floors' : List (List Bytes)} {root : Bytes}
    (ha : Tower digest as floors root) (hb : Tower digest bs floors' root)
    (hsize : ∀ m, (digest m).length = size) (has : ∀ a ∈ as, a.length = size)
    (hbs : ∀ b ∈ bs, b.length = size) (hfree : CollisionFree digest known)
    (haknown : floors.flatMap pairs ⊆ known) (hbknown : floors'.flatMap pairs ⊆ known)
    (hfloors : floors.length = floors'.length) : Matching as bs := by
  induction ha generalizing bs floors' with
  | @top as root harise =>
    cases hb with
    | top hbrise =>
      refine .of_rise has hbs hfree (by simpa using haknown) (by simpa using hbknown) ?_
      rw [harise, hbrise]
      exact ⟨Or.inl List.prefix_rfl, List.Subset.refl _, List.Subset.refl _⟩
    | floor _ hbtower =>
      have hpos := hbtower.length_pos
      rw [List.length_singleton, List.length_cons] at hfloors
      omega
  | @floor as floors root _ hatower ih =>
    cases hb with
    | top _ =>
      have hpos := hatower.length_pos
      rw [List.length_singleton, List.length_cons] at hfloors
      omega
    | floor _ hbtower =>
      rw [List.flatMap_cons, List.append_subset] at haknown hbknown
      exact .of_rise has hbs hfree haknown.1 hbknown.1
        (ih hbtower (size_rise hsize) (size_rise hsize) haknown.2 hbknown.2
          (Nat.succ.inj hfloors))

/-- Over lists of leaves there are trees. If these have equally many floors and one root, then the
lists are equal, or the longer is the shorter one with some of its leaves repeated behind; and
without repetitions they are equal. -/
theorem root_binds_leaves (has : as ≠ []) (hbs : bs ≠ [])
    (hsize : ∀ m, (digest m).length = size) (hasize : ∀ a ∈ as, a.length = size)
    (hbsize : ∀ b ∈ bs, b.length = size)
    (hfree : CollisionFree digest (messages digest as ++ messages digest bs)) :
    ∃ s t, MerkleTree.ofLeaves digest as = .ok s ∧ MerkleTree.ofLeaves digest bs = .ok t ∧
      (s.floors.length = t.floors.length → s.root = t.root →
        (as.length = bs.length → as = bs) ∧
        (as.length < bs.length →
          ∃ more, more ≠ [] ∧ bs = as ++ more ∧ ∀ a ∈ more, a ∈ as) ∧
        (bs.length < as.length →
          ∃ more, more ≠ [] ∧ as = bs ++ more ∧ ∀ b ∈ more, b ∈ bs) ∧
        (as.Nodup → bs.Nodup → as = bs)) := by
  refine ⟨_, _, MerkleTree.ofLeaves_eq_ok_iff.mpr ⟨has, rfl⟩,
    MerkleTree.ofLeaves_eq_ok_iff.mpr ⟨hbs, rfl⟩, fun hfloors hroot => ?_⟩
  have hsame : (climb digest bs).2 = (climb digest as).2 := hroot.symm
  have hmatching : Matching as bs :=
    (tower_climb digest has).matching (hsame ▸ tower_climb digest hbs) hsize hasize hbsize hfree
      (List.subset_append_left _ _) (List.subset_append_right _ _) hfloors
  exact ⟨hmatching.eq_of_length, hmatching.exists_more, hmatching.symm.exists_more,
    hmatching.eq_of_nodup⟩

end Merkle

namespace Sample

/-- The five leaves with the last one twice more. -/
def moreLeaves : List Bytes := [[1], [2], [3], [4], [5], [5], [5]]

end Sample

namespace Merkle

open Sample in
/-- The tree over five leaves is made even on its two lowest floors, the tree over seven on the
lowest only. They have one root, and the two leaves more are repeated. -/
theorem root_binds_leaves_of_five : leaves ≠ [] ∧ moreLeaves ≠ [] ∧
    CollisionFree checksum (messages checksum leaves ++ messages checksum moreLeaves) ∧
    ∃ s t, MerkleTree.ofLeaves checksum leaves = .ok s ∧
      MerkleTree.ofLeaves checksum moreLeaves = .ok t ∧ s.floors.length = t.floors.length ∧
      s.root = t.root ∧
      ∃ more, more ≠ [] ∧ moreLeaves = leaves ++ more ∧ ∀ a ∈ more, a ∈ leaves := by
  have hleaves : leaves ≠ [] := by decide
  have hmoreLeaves : moreLeaves ≠ [] := by decide
  have hsize : ∀ m, (checksum m).length = 1 := fun _ => rfl
  have hfree : CollisionFree checksum
      (messages checksum leaves ++ messages checksum moreLeaves) := by decide +kernel
  obtain ⟨s, t, hs, ht, hbinds⟩ := root_binds_leaves hleaves hmoreLeaves hsize (by decide)
    (by decide) hfree
  have hfloors : s.floors.length = t.floors.length := by
    rw [(MerkleTree.ofLeaves_eq_ok_iff.mp hs).2, (MerkleTree.ofLeaves_eq_ok_iff.mp ht).2]
    decide +kernel
  have hroot : s.root = t.root := by
    rw [(MerkleTree.ofLeaves_eq_ok_iff.mp hs).2, (MerkleTree.ofLeaves_eq_ok_iff.mp ht).2]
    decide +kernel
  obtain ⟨-, hlonger, -, -⟩ := hbinds hfloors hroot
  exact ⟨hleaves, hmoreLeaves, hfree, s, t, hs, ht, hfloors, hroot, hlonger (by decide)⟩

end Merkle

end PowLedger
