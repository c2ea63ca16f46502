import Mathlib.Data.List.Induction
import Mathlib.Data.List.Nodup
import Mathlib.Tactic.Common
import Mathlib.Tactic.Lemma
import PowLedger.Proofs.Ledger.Assembly
import PowLedger.Proofs.Ledger.Spending

/-!
# What the hash of a tip commits to

As the root has 32 bytes, the assembled bytes of a header determine all of its fields. The root then
determines the ids: a repeated tail is no valid block, and a floor of another tree is none either,
because below the coinbase of a block all transactions are longer than two digests. So valid blocks
with one hash are equal (`Judge.eq_of_hash_eq`), and down the chain so are accepted chains with one
tip (`Ledger.Accepted.eq_of_tip_eq`).
-/

namespace PowLedger

/-! ### Roots -/

namespace Merkle

/-- The root over a list that is not empty is a digest. -/
lemma length_root {digest : Hasher} (hsize : ∀ m, (digest m).length = 32) {leaves : List Bytes}
    (h : leaves ≠ []) : (climb digest leaves).2.length = 32 := by
  rcases rise_cases digest h with ⟨root, hroot⟩ | hmore
  · rw [climb_of_rise_eq_singleton hroot]
    exact size_rise hsize root (hroot ▸ List.mem_singleton_self root)
  · have hlen := length_rise digest leaves
    rw [climb_of_two_le_length_rise hmore]
    exact length_root hsize (List.ne_nil_of_length_pos (by omega))
termination_by leaves.length
decreasing_by omega

end Merkle

/-! ### Blocks -/

namespace Judge

variable {j : Judge} {tip tip' : Tip} {s s' : UtxoSet} {b c : Block}
  {coinbase coinbase' : Transaction} {others others' : List Transaction}

/-- The transactions of a valid block behind the coinbase are longer than two digests. -/
lemma ValidBlock.length_idBytes_gt (h : j.ValidBlock tip s b coinbase others)
    (hsized : j.primitives.Sized) {tx : Transaction} (htx : tx ∈ others) :
    64 < tx.idBytes.length := by
  obtain ⟨i, hi⟩ := List.exists_mem_of_ne_nil _ (h.spends tx htx).inputs
  obtain ⟨hsignature, hkey⟩ := hsized.verify _ _ _ ((h.spends tx htx).unlocked i hi).signed
  exact Transaction.length_idBytes_gt hi hsignature hkey

/-- The ids of a valid block can be read off their tree. -/
lemma ValidBlock.legible (h : j.ValidBlock tip s b coinbase others) (hsized : j.primitives.Sized)
    {known : List Bytes} (hfree : CollisionFree j.digest known)
    (hknown : b.messages j.digest ⊆ known) (hfits : b.Fits) :
    Merkle.Legible j.digest known b.ids where
  proper := by
    refine ⟨Ledger.nodup_ids_block h (hfree.mono ?_) hfits, fun a ha => ?_⟩
    · simpa [Ledger.messages] using hknown
    · obtain ⟨tx, htx, rfl⟩ := List.mem_map.mp ha
      rw [← h.computedId htx]
      exact hsized.digest _
  nonempty := by simp [Block.ids, h.transactions]
  known := fun _ hm => hknown (List.mem_append_right _ hm)

/-- The ids of a valid block are no floor above the ids of another one: only a coinbase can be as
short as two digests. -/
lemma ValidBlock.not_above (hb : j.ValidBlock tip s b coinbase others)
    (hc : j.ValidBlock tip' s' c coinbase' others') (hsized : j.primitives.Sized)
    {known : List Bytes} (hfree : CollisionFree j.digest known)
    (hbknown : b.messages j.digest ⊆ known) (hcknown : c.messages j.digest ⊆ known)
    (hcfits : c.Fits) : ¬Merkle.Above j.digest b.ids c.ids := by
  intro habove
  have hlen := habove.two_le_length.1
  obtain ⟨tx, htx⟩ : ∃ tx, tx ∈ others := by
    cases others with
    | nil => simp [Block.ids, hb.transactions] at hlen
    | cons tx others => exact ⟨tx, List.mem_cons_self⟩
  have hmem : tx ∈ b.transactions := hb.transactions ▸ List.mem_cons_of_mem _ htx
  obtain ⟨m, hm, hsize, hdigest⟩ := habove.exists_pair hsized.digest
    (hc.legible hsized hfree hcknown hcfits).proper.size (List.mem_map_of_mem hmem)
  have hbytes : m = tx.idBytes := by
    refine hfree _ (hcknown (List.mem_append_right _ hm)) _
      (hbknown (List.mem_append_left _ (List.mem_cons_of_mem _ (List.mem_map_of_mem hmem)))) ?_
    rw [hdigest, ← hb.computedId hmem]
    rfl
  have hlong := hb.length_idBytes_gt hsized htx
  rw [← hbytes] at hlong
  omega

/-- Valid blocks with one root have the same transactions. -/
lemma ValidBlock.transactions_eq (hb : j.ValidBlock tip s b coinbase others)
    (hc : j.ValidBlock tip' s' c coinbase' others') (hsized : j.primitives.Sized)
    {known : List Bytes} (hfree : CollisionFree j.digest known)
    (hbknown : b.messages j.digest ⊆ known) (hcknown : c.messages j.digest ⊆ known)
    (hbfits : b.Fits) (hcfits : c.Fits) (hroot : b.header.merkleRoot = c.header.merkleRoot) :
    b.transactions = c.transactions := by
  have hsize : ∀ m, (j.digest m).length = 32 := hsized.digest
  have hbroot := (Merkle.merkleRoot_eq_ok_iff.mp hb.root).2
  have hcroot := (Merkle.merkleRoot_eq_ok_iff.mp hc.root).2
  have hids : b.ids = c.ids := by
    rcases Merkle.eq_or_above hsize hfree (hb.legible hsized hfree hbknown hbfits)
      (hc.legible hsized hfree hcknown hcfits) (by rw [hbroot, hcroot, hroot]) with h | h | h
    · exact h
    · exact absurd h (hb.not_above hc hsized hfree hbknown hcknown hcfits)
    · exact absurd h (hc.not_above hb hsized hfree hcknown hbknown hbfits)
  refine eq_of_map_eq (fun t ht u hu hid => ?_) hids
  have htid := hb.computedId ht
  have huid := hc.computedId hu
  refine Transaction.eq_of_idBytes_eq (hbfits.eachTransaction t ht) (hcfits.eachTransaction u hu)
    htid huid (hfree _ (hbknown ?_) _ (hcknown ?_) ?_)
  · exact List.mem_append_left _ (List.mem_cons_of_mem _ (List.mem_map_of_mem ht))
  · exact List.mem_append_left _ (List.mem_cons_of_mem _ (List.mem_map_of_mem hu))
  · rw [← htid, ← huid] at hid
    exact hid

/-- Valid blocks with one hash are equal. -/
theorem eq_of_hash_eq (hb : j.ValidBlock tip s b coinbase others)
    (hc : j.ValidBlock tip' s' c coinbase' others') (hsized : j.primitives.Sized)
    {known : List Bytes} (hfree : CollisionFree j.digest known)
    (hbknown : b.messages j.digest ⊆ known) (hcknown : c.messages j.digest ⊆ known)
    (hbfits : b.Fits) (hcfits : c.Fits) (hhash : b.hash = c.hash) : b = c := by
  have hsize : ∀ m, (j.digest m).length = 32 := hsized.digest
  obtain ⟨hbne, hbroot⟩ := Merkle.merkleRoot_eq_ok_iff.mp hb.root
  obtain ⟨hcne, hcroot⟩ := Merkle.merkleRoot_eq_ok_iff.mp hc.root
  have hdigest : j.digest b.header.assemble = j.digest c.header.assemble := by
    rw [hb.hash, hc.hash] at hhash
    exact Bytes.hex_injective hhash
  have hassemble : b.header.assemble = c.header.assemble :=
    hfree _ (hbknown List.mem_cons_self) _ (hcknown List.mem_cons_self) hdigest
  have hheader : b.header = c.header := by
    refine Header.assemble_inj ?_ hassemble
    rw [← hbroot, ← hcroot, Merkle.length_root hsize hbne, Merkle.length_root hsize hcne]
  have htransactions := hb.transactions_eq hc hsized hfree hbknown hcknown hbfits hcfits
    (by rw [hheader])
  calc
    b = ⟨b.header, b.transactions, b.hash⟩ := rfl
    _ = ⟨c.header, c.transactions, c.hash⟩ := by rw [hheader, htransactions, hhash]
    _ = c := rfl

/-- Some tip and some unspent outputs let the judge accept the block. -/
def Validates (j : Judge) (b : Block) : Prop :=
  ∃ tip s coinbase others, j.ValidBlock tip s b coinbase others

/-- The hash of a valid block is not empty. -/
lemma ValidBlock.hash_ne_empty (h : j.ValidBlock tip s b coinbase others)
    (hsized : j.primitives.Sized) : b.hash ≠ "" := by
  rw [h.hash]
  refine Bytes.hex_ne_empty (List.ne_nil_of_length_pos ?_)
  have hlen : (j.digest b.header.assemble).length = 32 := hsized.digest _
  omega

end Judge

/-! ### Distinct blocks -/

/-- What it takes to tell the valid ones among these blocks apart by their hashes. -/
structure Ledger.Distinct (j : Judge) (blocks : List Block) : Prop where
  sized : j.primitives.Sized
  free : CollisionFree j.digest (Ledger.messages j.digest blocks)
  fits : ∀ b ∈ blocks, b.Fits

namespace Ledger.Distinct

variable {j : Judge} {blocks : List Block}

/-- Fewer blocks are distinct all the more. -/
lemma mono {fewer : List Block} (h : Distinct j blocks) (hsub : fewer ⊆ blocks) :
    Distinct j fewer where
  sized := h.sized
  free := h.free.mono (messages_mono hsub)
  fits := fun b hb => h.fits b (hsub hb)

/-- Valid blocks among the distinct ones are equal if their hashes are. -/
lemma eq_of_hash_eq (h : Distinct j blocks) {b c : Block} (hb : b ∈ blocks) (hc : c ∈ blocks)
    (hbvalid : j.Validates b) (hcvalid : j.Validates c) (hhash : b.hash = c.hash) : b = c := by
  obtain ⟨tip, s, coinbase, others, hbvalid⟩ := hbvalid
  obtain ⟨tip', s', coinbase', others', hcvalid⟩ := hcvalid
  exact Judge.eq_of_hash_eq hbvalid hcvalid h.sized h.free (block_messages_subset hb)
    (block_messages_subset hc) (h.fits b hb) (h.fits c hc) hhash

end Ledger.Distinct

/-! ### Chains -/

namespace Ledger

variable {j : Judge}

/-- Accepted blocks are valid. -/
lemma Accepted.validates {blocks : List Block} (h : Accepted j blocks) {b : Block}
    (hb : b ∈ blocks) : j.Validates b := by
  obtain ⟨s, coinbase, others, tip, -, hvalid⟩ := h.valid_of_mem hb
  exact ⟨tip, s, coinbase, others, hvalid⟩

/-- Only the empty chain has an empty hash at its tip. -/
lemma Accepted.tip_hash_ne_empty {blocks : List Block} (h : Accepted j blocks)
    (hsized : j.primitives.Sized) (hne : blocks ≠ []) : (tip blocks).hash ≠ "" := by
  obtain ⟨front, b, rfl⟩ := (List.eq_nil_or_concat' blocks).resolve_left hne
  obtain ⟨coinbase, others, hvalid⟩ := h.valid
  rw [tip_append]
  exact hvalid.hash_ne_empty hsized

/-- Every accepted block has the height of its place. -/
lemma Accepted.map_height {blocks : List Block} (h : Accepted j blocks) :
    blocks.map Block.height = List.range blocks.length := by
  induction blocks using List.reverseRecOn with
  | nil => rfl
  | append_singleton blocks b ih =>
    obtain ⟨coinbase, others, hvalid⟩ := h.valid
    rw [List.map_append, ih h.front, List.map_singleton, hvalid.height, List.length_append,
      List.length_singleton, List.range_succ, tip]

/-- Accepted blocks have different hashes. -/
lemma Accepted.nodup_hashes {blocks : List Block} (h : Accepted j blocks)
    (hdistinct : Distinct j blocks) : (blocks.map Block.hash).Nodup := by
  have hnodup : blocks.Nodup := .of_map Block.height (h.map_height ▸ List.nodup_range)
  exact hnodup.map_on fun b hb c hc heq =>
    hdistinct.eq_of_hash_eq hb hc (h.validates hb) (h.validates hc) heq

/-- Accepted chains with one tip are equal. -/
theorem Accepted.eq_of_tip_eq {as bs : List Block} (ha : Accepted j as) (hb : Accepted j bs)
    (hdistinct : Distinct j (as ++ bs)) (htip : (tip as).hash = (tip bs).hash) : as = bs := by
  have hsized := hdistinct.sized
  induction as using List.reverseRecOn generalizing bs with
  | nil =>
    by_contra hne
    exact hb.tip_hash_ne_empty hsized (Ne.symm hne) htip.symm
  | append_singleton as a ih =>
    rcases List.eq_nil_or_concat' bs with rfl | ⟨bs, b, rfl⟩
    · exact absurd htip (ha.tip_hash_ne_empty hsized (by simp))
    · obtain ⟨coinbase, others, havalid⟩ := ha.valid
      obtain ⟨coinbase', others', hbvalid⟩ := hb.valid
      rw [tip_append, tip_append] at htip
      have hlast : a = b := hdistinct.eq_of_hash_eq (by simp) (by simp)
        ⟨_, _, _, _, havalid⟩ ⟨_, _, _, _, hbvalid⟩ htip
      have hprevious : (tip as).hash = (tip bs).hash := by
        rw [← havalid.previous, ← hbvalid.previous, hlast]
      have hsub : as ++ bs ⊆ as ++ [a] ++ (bs ++ [b]) := by
        intro c hc
        rcases List.mem_append.mp hc with hc | hc <;> simp [hc]
      rw [hlast, ih ha.last.1 hb.last.1 (hdistinct.mono hsub) hprevious]

end Ledger

end PowLedger
