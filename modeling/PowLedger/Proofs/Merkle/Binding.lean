import Mathlib.Data.List.Nodup
import Mathlib.Tactic.Common
import Mathlib.Tactic.Lemma
import PowLedger.Merkle
import PowLedger.Proofs.Collision

/-!
# What a Merkle root binds

A tree does not say where its leaves begin, and it repeats the last node of an odd floor. So one
root can stand for a list and for the same list with a repeated tail, and for a list and for a floor
above it. The first cannot happen between lists without repetition. Main statement,
`Merkle.eq_or_above`: two lists without repetition that have one root are equal, or one of them is a
floor of the tree over the other; provided that the messages of the two trees do not collide and all
nodes have 32 bytes.

The proof climbs both trees at once. A floor without repetition is determined by the one above it
(`Merkle.Legible.rise_inj`), since floors with the same pairs differ at most in a repeated tail
(`Merkle.Matching`); and the floor above it has no repetition either (`Merkle.Legible.rise`).
-/

namespace PowLedger

namespace Merkle

variable {digest : Hasher}

/-! ### Floors -/

/-- The neighbours of a floor side by side. -/
def pairs : List Bytes → List Bytes
  | a :: b :: rest => (a ++ b) :: pairs rest
  | _ => []

/-- The floor above a floor. -/
def rise (digest : Hasher) (level : List Bytes) : List Bytes :=
  parents digest (evened level)

/-- The messages that the nodes of a tree above its leaves are digests of. -/
def messages (digest : Hasher) (leaves : List Bytes) : List Bytes :=
  (climb digest leaves).1.flatMap pairs

/-- A parent is the digest of two neighbours. -/
lemma parents_eq_map_pairs (level : List Bytes) :
    parents digest level = (pairs level).map digest := by
  induction level using pairs.induct with
  | case1 a b rest ih => rw [parents, pairs, List.map_cons, ih]
  | case2 level hshort =>
    rcases level with - | ⟨a, - | ⟨b, rest⟩⟩
    · rfl
    · rfl
    · exact absurd rfl (hshort a b rest)

variable (digest) in
lemma length_rise (level : List Bytes) :
    (rise digest level).length = (level.length + 1) / 2 :=
  length_parents_evened digest level

/-- The nodes above a floor are digests of pairs of it. -/
lemma rise_eq_map_pairs (level : List Bytes) :
    rise digest level = (pairs (evened level)).map digest :=
  parents_eq_map_pairs (evened level)

/-- A floor with one node above it is the last one below the root. -/
lemma climb_of_rise_eq_singleton {level : List Bytes} {root : Bytes}
    (h : rise digest level = [root]) : climb digest level = ([evened level], root) := by
  rw [climb.eq_def]
  split
  · next hrise => exact absurd (h.symm.trans hrise) (by simp)
  · next root' hrise =>
    cases h.symm.trans hrise
    rfl
  · next a b rest hrise => exact absurd (h.symm.trans hrise) (by simp)

/-- From a floor with several nodes above it the tree goes on with these. -/
lemma climb_of_two_le_length_rise {level : List Bytes} (h : 2 ≤ (rise digest level).length) :
    climb digest level =
      (evened level :: (climb digest (rise digest level)).1,
        (climb digest (rise digest level)).2) := by
  rw [climb.eq_def]
  split
  · next hrise =>
    have hlen : (rise digest level).length = 0 := congrArg List.length hrise
    omega
  · next root hrise =>
    have hlen : (rise digest level).length = 1 := congrArg List.length hrise
    omega
  · next a b rest hrise =>
    have hrise' : rise digest level = a :: b :: rest := hrise
    rw [hrise']

variable (digest) in
/-- Whether the tree goes on above the floor next to a list that is not empty. -/
lemma rise_cases {level : List Bytes} (h : level ≠ []) :
    (∃ root, rise digest level = [root]) ∨ 2 ≤ (rise digest level).length := by
  have hpos : 0 < level.length := List.length_pos_of_ne_nil h
  have hlen := length_rise digest level
  by_cases hone : (rise digest level).length = 1
  · exact Or.inl (List.length_eq_one_iff.mp hone)
  · exact Or.inr (by omega)

/-- A list under a floor of several nodes is not empty. -/
lemma ne_nil_of_two_le_length_rise {level : List Bytes} (h : 2 ≤ (rise digest level).length) :
    level ≠ [] := by
  rintro rfl
  simp [length_rise] at h

/-- The pairs of the lowest floor are among the messages of the tree. -/
lemma pairs_subset_messages {level : List Bytes} (h : level ≠ []) :
    pairs (evened level) ⊆ messages digest level := by
  have hfloor : evened level ∈ (climb digest level).1 := by
    rcases rise_cases digest h with ⟨root, hroot⟩ | hmore
    · rw [climb_of_rise_eq_singleton hroot]
      exact List.mem_cons_self
    · rw [climb_of_two_le_length_rise hmore]
      exact List.mem_cons_self
  exact fun m hm => List.mem_flatMap.mpr ⟨_, hfloor, hm⟩

/-- The messages of the tree from the next floor on are messages of the whole tree. -/
lemma messages_rise_subset {level : List Bytes} (h : 2 ≤ (rise digest level).length) :
    messages digest (rise digest level) ⊆ messages digest level := by
  rw [messages, messages, climb_of_two_le_length_rise h, List.flatMap_cons]
  exact List.subset_append_right _ _

/-- There is a root over every list that is not empty, and over no other. -/
lemma merkleRoot_eq_ok_iff {leaves : List Bytes} {root : Bytes} :
    merkleRoot digest leaves = .ok root ↔ leaves ≠ [] ∧ (climb digest leaves).2 = root := by
  rw [merkleRoot, MerkleTree.ofLeaves]
  by_cases h : leaves = []
  · simp [h, Except.map]
  · have hne : leaves.isEmpty = false := by simpa using h
    simp [h, hne, Except.map]

/-! ### Floors that are made even -/

/-- A floor that is made even begins with the floor. -/
lemma prefix_evened (level : List Bytes) : level <+: evened level := by
  induction level using evened.induct with
  | case1 => exact List.prefix_rfl
  | case2 a => exact List.prefix_append [a] [a]
  | case3 a b rest ih =>
    rw [evened, List.prefix_cons_inj, List.prefix_cons_inj]
    exact ih

/-- A floor that is made even has no other nodes than the floor. -/
lemma evened_subset (level : List Bytes) : evened level ⊆ level := by
  induction level using evened.induct with
  | case1 => exact List.Subset.refl _
  | case2 a => simp [evened]
  | case3 a b rest ih => exact List.cons_subset_cons a (List.cons_subset_cons b ih)

variable {size : Nat} {as bs : List Bytes}

/-- The two nodes that a pair was made of. -/
def halves (size : Nat) (m : Bytes) : List Bytes :=
  [m.take size, m.drop size]

/-- The halves of the pairs are the nodes of the floor that was made even. -/
lemma flatMap_halves_pairs {level : List Bytes} (h : ∀ a ∈ level, a.length = size) :
    (pairs (evened level)).flatMap (halves size) = evened level := by
  induction level using evened.induct with
  | case1 => rfl
  | case2 a =>
    have ha : a.length = size := h a List.mem_cons_self
    rw [evened, pairs, List.flatMap_cons, halves, List.take_left' ha, List.drop_left' ha]
    rfl
  | case3 a b rest ih =>
    have ha : a.length = size := h a List.mem_cons_self
    have hrest := ih fun x hx => h x (List.mem_cons_of_mem _ (List.mem_cons_of_mem _ hx))
    rw [evened, pairs, List.flatMap_cons, hrest, halves, List.take_left' ha, List.drop_left' ha]
    rfl

/-- If the pairs of a floor begin those of another, then one of the floors begins the other, but it
need not be the first: over `[a, a]` and over `[a]` stands the same pair. -/
lemma prefix_or_of_pairs (has : ∀ a ∈ as, a.length = size) (hbs : ∀ b ∈ bs, b.length = size)
    (h : pairs (evened as) <+: pairs (evened bs)) : as <+: bs ∨ bs <+: as := by
  have hevened : evened as <+: evened bs := by
    obtain ⟨more, hmore⟩ := h
    rw [← flatMap_halves_pairs has, ← flatMap_halves_pairs hbs, ← hmore, List.flatMap_append]
    exact List.prefix_append _ _
  exact List.prefix_or_prefix_of_prefix ((prefix_evened as).trans hevened) (prefix_evened bs)

/-- A floor has no other nodes than another if it has no other pairs. -/
lemma subset_of_pairs (has : ∀ a ∈ as, a.length = size) (hbs : ∀ b ∈ bs, b.length = size)
    (h : pairs (evened as) ⊆ pairs (evened bs)) : as ⊆ bs := by
  have hevened : evened as ⊆ evened bs := by
    rw [← flatMap_halves_pairs has, ← flatMap_halves_pairs hbs]
    intro a ha
    obtain ⟨m, hm, hhalf⟩ := List.mem_flatMap.mp ha
    exact List.mem_flatMap.mpr ⟨m, h hm, hhalf⟩
  exact fun a ha => evened_subset bs (hevened ((prefix_evened as).subset ha))

/-! ### Matching lists -/

/-- One of the lists begins the other, and the same nodes occur in both. -/
structure Matching (as bs : List Bytes) : Prop where
  front : as <+: bs ∨ bs <+: as
  subset : as ⊆ bs
  superset : bs ⊆ as

/-- Matching lists of one length are equal. -/
lemma Matching.eq_of_length (h : Matching as bs) (hlen : as.length = bs.length) : as = bs := by
  rcases h.front with hfront | hfront
  · exact hfront.eq_of_length hlen
  · exact (hfront.eq_of_length hlen.symm).symm

/-- The longer of two matching lists is the shorter one with nodes of it repeated behind. -/
lemma Matching.exists_more (h : Matching as bs) (hlen : as.length < bs.length) :
    ∃ more, more ≠ [] ∧ bs = as ++ more ∧ ∀ a ∈ more, a ∈ as := by
  have hfront : as <+: bs := by
    rcases h.front with hfront | hfront
    · exact hfront
    · exact absurd hfront.length_le (Nat.not_le.mpr hlen)
  obtain ⟨more, rfl⟩ := hfront
  refine ⟨more, ?_, rfl, fun a ha => h.superset (List.mem_append_right _ ha)⟩
  rintro rfl
  simp at hlen

/-- The longer of two matching lists has a repetition. -/
lemma Matching.not_nodup_of_length_lt (h : Matching as bs) (hlen : as.length < bs.length) :
    ¬bs.Nodup := by
  intro hnodup
  obtain ⟨more, hmore, rfl, hknown⟩ := h.exists_more hlen
  obtain ⟨a, ha⟩ := List.exists_mem_of_ne_nil more hmore
  exact (List.nodup_append.mp hnodup).2.2 a (hknown a ha) a ha rfl

lemma Matching.symm (h : Matching as bs) : Matching bs as :=
  ⟨h.front.symm, h.superset, h.subset⟩

/-- Matching lists without repetition are equal. -/
lemma Matching.eq_of_nodup (h : Matching as bs) (has : as.Nodup) (hbs : bs.Nodup) : as = bs := by
  rcases Nat.lt_trichotomy as.length bs.length with hlt | hlen | hgt
  · exact absurd hbs (h.not_nodup_of_length_lt hlt)
  · exact h.eq_of_length hlen
  · exact absurd has (h.symm.not_nodup_of_length_lt hgt)

/-! ### Lists without repetition -/

/-- The nodes of a floor are different digests. -/
structure Proper (level : List Bytes) : Prop where
  nodup : level.Nodup
  size : ∀ a ∈ level, a.length = 32

/-- A proper list stays proper without its first two nodes. -/
lemma Proper.tail {a b : Bytes} {rest : List Bytes} (h : Proper (a :: b :: rest)) :
    Proper rest where
  nodup := h.nodup.of_cons.of_cons
  size x hx := h.size x (List.mem_cons_of_mem _ (List.mem_cons_of_mem _ hx))

/-- Every pair of a floor, once that is made even, stands for two nodes of it. -/
lemma mem_pairs_evened {level : List Bytes} {m : Bytes} (h : m ∈ pairs (evened level)) :
    ∃ x ∈ level, ∃ y ∈ level, m = x ++ y := by
  induction level using evened.induct with
  | case1 => cases h
  | case2 a =>
    rcases List.mem_singleton.mp h with rfl
    exact ⟨a, List.mem_singleton_self a, a, List.mem_singleton_self a, rfl⟩
  | case3 a b rest ih =>
    rcases List.mem_cons.mp h with rfl | hrest
    · exact ⟨a, by simp, b, by simp, rfl⟩
    · obtain ⟨x, hx, y, hy, rfl⟩ := ih hrest
      exact ⟨x, by simp [hx], y, by simp [hy], rfl⟩

/-- A floor without repetition has no repeated pair. -/
lemma Proper.nodup_pairs {level : List Bytes} (h : Proper level) :
    (pairs (evened level)).Nodup := by
  induction level using evened.induct with
  | case1 => exact List.nodup_nil
  | case2 a => exact List.nodup_singleton _
  | case3 a b rest ih =>
    refine List.nodup_cons.mpr ⟨fun hmem => ?_, ih h.tail⟩
    obtain ⟨x, hx, y, -, heq⟩ := mem_pairs_evened hmem
    have hsize : a.length = x.length := by
      rw [h.size a (by simp), h.size x (by simp [hx])]
    have hax : a = x := (List.append_inj heq hsize).1
    exact (List.nodup_cons.mp h.nodup).1 (List.mem_cons_of_mem _ (hax ▸ hx))

/-- A floor without repetition can be told from its pairs. -/
lemma pairs_evened_inj (ha : Proper as) (hb : Proper bs)
    (h : pairs (evened as) = pairs (evened bs)) : as = bs := by
  have hmatching : Matching as bs :=
    { front := prefix_or_of_pairs ha.size hb.size (h ▸ List.prefix_rfl)
      subset := subset_of_pairs ha.size hb.size (h ▸ List.Subset.refl _)
      superset := subset_of_pairs hb.size ha.size (h ▸ List.Subset.refl _) }
  exact hmatching.eq_of_nodup ha.nodup hb.nodup

/-! ### Climbing -/

/-- The nodes above a floor are digests. -/
lemma size_rise {size : Nat} (hsize : ∀ m, (digest m).length = size) {level : List Bytes} :
    ∀ a ∈ rise digest level, a.length = size := by
  intro a ha
  rw [rise_eq_map_pairs] at ha
  obtain ⟨m, -, rfl⟩ := List.mem_map.mp ha
  exact hsize m

/-- A list that can be read off its tree: not empty, without repetition, and the messages of the
tree are known. -/
structure Legible (digest : Hasher) (known : List Bytes) (level : List Bytes) : Prop where
  proper : Proper level
  nonempty : level ≠ []
  known : messages digest level ⊆ known

/-- The pairs of a legible list are known. -/
lemma Legible.pairs {known level : List Bytes} (h : Legible digest known level) :
    Merkle.pairs (evened level) ⊆ known :=
  fun _ hm => h.known (pairs_subset_messages h.nonempty hm)

/-- Above a legible list the next floor is legible, unless it is the root. -/
lemma Legible.rise {known level : List Bytes} (hsize : ∀ m, (digest m).length = 32)
    (hfree : CollisionFree digest known) (h : Legible digest known level)
    (hmore : 2 ≤ (Merkle.rise digest level).length) :
    Legible digest known (Merkle.rise digest level) where
  proper := by
    refine ⟨?_, size_rise hsize⟩
    rw [rise_eq_map_pairs]
    exact hfree.nodup_map h.pairs h.proper.nodup_pairs
  nonempty := List.ne_nil_of_length_pos (by omega)
  known := fun _ hm => h.known (messages_rise_subset hmore hm)

/-- A legible list is determined by the floor above it. -/
lemma Legible.rise_inj {known as bs : List Bytes} (hfree : CollisionFree digest known)
    (ha : Legible digest known as) (hb : Legible digest known bs)
    (h : Merkle.rise digest as = Merkle.rise digest bs) : as = bs := by
  rw [rise_eq_map_pairs, rise_eq_map_pairs] at h
  exact pairs_evened_inj ha.proper hb.proper (hfree.map_inj ha.pairs hb.pairs h)

/-- The first list is a floor of several nodes in the tree over the second one. -/
inductive Above (digest : Hasher) : List Bytes → List Bytes → Prop
  | next {lower : List Bytes} :
      2 ≤ (rise digest lower).length → Above digest (rise digest lower) lower
  | higher {upper lower : List Bytes} :
      Above digest upper (rise digest lower) → Above digest upper lower

/-- A floor above a list has several nodes, and so has the floor next to that list. -/
lemma Above.two_le_length {upper lower : List Bytes} (h : Above digest upper lower) :
    2 ≤ upper.length ∧ 2 ≤ (rise digest lower).length := by
  induction h with
  | next hlen => exact ⟨hlen, hlen⟩
  | @higher upper lower _ ih =>
    have hnext := length_rise digest (rise digest lower)
    exact ⟨ih.1, by omega⟩

/-- The nodes of a floor above a list are digests of two nodes of the floor below, side by side. -/
lemma Above.exists_pair {upper lower : List Bytes} (h : Above digest upper lower)
    (hsize : ∀ m, (digest m).length = 32) (hlower : ∀ a ∈ lower, a.length = 32) {a : Bytes}
    (ha : a ∈ upper) : ∃ m ∈ messages digest lower, m.length = 64 ∧ digest m = a := by
  induction h with
  | @next lower hlen =>
    rw [rise_eq_map_pairs] at ha
    obtain ⟨m, hm, rfl⟩ := List.mem_map.mp ha
    obtain ⟨x, hx, y, hy, hxy⟩ := mem_pairs_evened hm
    refine ⟨m, pairs_subset_messages (ne_nil_of_two_le_length_rise hlen) hm, ?_, rfl⟩
    rw [hxy, List.length_append, hlower x hx, hlower y hy]
  | @higher upper lower habove ih =>
    obtain ⟨m, hm, hlen, rfl⟩ := ih (size_rise hsize) ha
    exact ⟨m, messages_rise_subset (Above.higher habove).two_le_length.2 hm, hlen, rfl⟩

/-- If the next floor of one list lies above the next floor of another, then the first list lies
above the second. -/
lemma Above.of_rise {known upper lower : List Bytes} (hsize : ∀ m, (digest m).length = 32)
    (hfree : CollisionFree digest known) (hupper : Legible digest known upper)
    (hlower : Legible digest known lower)
    (h : Above digest (rise digest upper) (rise digest lower)) : Above digest upper lower := by
  generalize hup : rise digest upper = up at h
  generalize hdown : rise digest lower = down at h
  induction h generalizing lower with
  | @next down hlen =>
    subst hdown
    have hmore := (Above.higher (.next hlen)).two_le_length.2
    rw [hupper.rise_inj hfree (hlower.rise hsize hfree hmore) hup]
    exact .next hmore
  | @higher up down habove ih =>
    subst hdown
    have hmore := (Above.higher (Above.higher habove)).two_le_length.2
    exact .higher (ih (hlower.rise hsize hfree hmore) hup rfl)

/-- A list is no floor above the floor below the root of another. -/
lemma Above.not_of_rise_eq_singleton {upper lower : List Bytes} {root : Bytes}
    (hroot : rise digest lower = [root]) : ¬Above digest upper lower := by
  intro h
  have hlen := h.two_le_length.2
  simp [hroot] at hlen

/-- Legible lists that have one root are equal, or one is a floor of the tree over the other. -/
theorem eq_or_above {known as bs : List Bytes} (hsize : ∀ m, (digest m).length = 32)
    (hfree : CollisionFree digest known) (ha : Legible digest known as)
    (hb : Legible digest known bs) (hroot : (climb digest as).2 = (climb digest bs).2) :
    as = bs ∨ Above digest as bs ∨ Above digest bs as := by
  have halen := length_rise digest as
  have hblen := length_rise digest bs
  rcases rise_cases digest ha.nonempty with ⟨r, har⟩ | hamore
  · rcases rise_cases digest hb.nonempty with ⟨r', hbr⟩ | hbmore
    · -- Both lists are next to the root.
      rw [climb_of_rise_eq_singleton har, climb_of_rise_eq_singleton hbr] at hroot
      have hsame : r = r' := hroot
      exact Or.inl (ha.rise_inj hfree hb (by rw [har, hbr, hsame]))
    · -- Only the second tree goes on: compare the first list with its next floor.
      rw [climb_of_two_le_length_rise hbmore] at hroot
      rcases eq_or_above hsize hfree ha (hb.rise hsize hfree hbmore) hroot with
        heq | habove | habove
      · exact Or.inr (Or.inl (heq ▸ .next hbmore))
      · exact Or.inr (Or.inl (.higher habove))
      · exact absurd habove (Above.not_of_rise_eq_singleton har)
  · have hanext := ha.rise hsize hfree hamore
    rw [climb_of_two_le_length_rise hamore] at hroot
    rcases rise_cases digest hb.nonempty with ⟨r', hbr⟩ | hbmore
    · rcases eq_or_above hsize hfree hanext hb hroot with heq | habove | habove
      · exact Or.inr (Or.inr (heq ▸ .next hamore))
      · exact absurd habove (Above.not_of_rise_eq_singleton hbr)
      · exact Or.inr (Or.inr (.higher habove))
    · -- Both trees go on: the next floors stand to each other as the lists do.
      have hbnext := hb.rise hsize hfree hbmore
      rw [climb_of_two_le_length_rise hbmore] at hroot
      rcases eq_or_above hsize hfree hanext hbnext hroot with heq | habove | habove
      · exact Or.inl (ha.rise_inj hfree hb heq)
      · exact Or.inr (Or.inl (habove.of_rise hsize hfree ha hb))
      · exact Or.inr (Or.inr (habove.of_rise hsize hfree hb ha))
termination_by as.length + bs.length
decreasing_by all_goals omega

end Merkle

end PowLedger
