import Mathlib.Data.List.Forall2
import Mathlib.Data.List.Induction
import Mathlib.Data.List.TakeWhile
import Mathlib.Tactic.Common
import Mathlib.Tactic.Lemma
import PowLedger.Proofs.Ledger.Commitment
import PowLedger.Proofs.Ledger.Linkage
import PowLedger.Proofs.Node.Replay
import PowLedger.Proofs.Node.Run

/-!
# What a rebuild finds

A store keeps an accepted chain if the headers of the chain lead down from the last one that the
store knows, `Storage.Keeps`; any of the bodies may be missing. The walk back then finds exactly the
headers of the chain, each has the height of its place, and the replay takes the bodies up to the
first missing one. So a node that reads such a store has the chain cut there
(`Node.reconstruct?_of_keeps`, `Node.open?_of_keeps`).
-/

namespace PowLedger

/-- The header of a block under its hash. -/
def Block.entry (b : Block) : String × Header :=
  (b.hash, b.header)

namespace Ledger

variable {blocks : List Block}

/-- The headers of blocks are written one after the other. -/
lemma headers_eq_foldl (blocks : List Block) : headers blocks =
    (blocks.map Block.entry).foldl (fun t e => t.insert e.1 e.2) Table.empty := by
  rw [List.foldl_map]
  rfl

/-- The entries of blocks lie under their hashes. -/
lemma map_fst_entry (blocks : List Block) :
    (blocks.map Block.entry).map Prod.fst = blocks.map Block.hash := by
  rw [List.map_map]
  rfl

/-- The headers of blocks with different hashes are as many as the blocks. -/
lemma size_headers (h : (blocks.map Block.hash).Nodup) :
    (headers blocks).size = blocks.length := by
  rw [headers_eq_foldl, Table.size, Table.entries_foldl_insert]
  · simp [Table.empty]
  · rw [List.map_append, map_fst_entry]
    exact h

/-- The headers of blocks with different hashes are found under these. -/
lemma get?_headers_eq_some_iff (h : (blocks.map Block.hash).Nodup) {hash : String} {x : Header} :
    (headers blocks).get? hash = some x ↔ ∃ b ∈ blocks, b.hash = hash ∧ b.header = x := by
  rw [headers_eq_foldl, Table.get?_foldl_insert_eq_some_iff (map_fst_entry blocks ▸ h),
    Table.get?_empty]
  simp [Block.entry]

end Ledger

namespace Storage

variable {σ : Type} [Storage σ]

/-- Whether the store holds the body of a block. -/
def holdsBody (store : σ) (b : Block) : Bool :=
  (Storage.block store b.hash).isOk

/-- The headers of an accepted chain lead down from the last one that the store knows, and each body
of the chain is there or missing. -/
structure Keeps (store : σ) (j : Judge) (chain : List Block) : Prop where
  accepted : Ledger.Accepted j chain
  headers : ∀ b ∈ chain, Storage.header store b.hash = .ok b.header
  bodies : ∀ b ∈ chain, Storage.block store b.hash = .ok b ∨ NotFound (Storage.block store b.hash)
  start : chain = [] → NotFound (Storage.lastBlockHash store)
  last : chain ≠ [] → Storage.lastBlockHash store = .ok (Ledger.tip chain).hash
  bound : chain.length ≤ Storage.headerBound store

/-- A body that was read is held. -/
lemma holdsBody_of_ok {store : σ} {b c : Block} (h : Storage.block store b.hash = .ok c) :
    holdsBody store b = true := by
  rw [holdsBody, h]
  rfl

/-- A missing body is not held. -/
lemma holdsBody_of_notFound {store : σ} {b : Block}
    (h : NotFound (Storage.block store b.hash)) : holdsBody store b = false := by
  obtain ⟨f, hf, -⟩ := h
  rw [holdsBody, hf]
  rfl

end Storage

variable {σ : Type} [Storage σ] {store : σ} {j : Judge} {chain back : List Block}

/-! ### Headers and bodies of accepted blocks -/

namespace Ledger.Accepted

omit [Storage σ]

/-- The entry of an accepted block is that of its header. -/
lemma entry_eq (h : Ledger.Accepted j chain) {b : Block} (hb : b ∈ chain) :
    b.header.entry j.digest = b.entry := by
  obtain ⟨s, coinbase, others, tip, -, hvalid⟩ := h.valid_of_mem hb
  rw [Header.entry, Block.entry, hvalid.hash]

/-- An accepted block declares the hash of its header. -/
lemma hash_eq (h : Ledger.Accepted j chain) {b : Block} (hb : b ∈ chain) :
    b.header.hash j.digest = b.hash :=
  congrArg Prod.fst (h.entry_eq hb)

/-- The entries of accepted blocks are those of their headers. -/
lemma map_entry (h : Ledger.Accepted j chain) :
    (chain.map Block.header).map (Header.entry j.digest) = chain.map Block.entry := by
  rw [List.map_map]
  exact List.map_congr_left fun b hb => h.entry_eq hb

/-- The table of the headers of accepted blocks. -/
lemma headers_eq (h : Ledger.Accepted j chain) :
    Ledger.headers chain = Ledger.headTable j.digest (chain.map Block.header) := by
  rw [headers_eq_foldl, headTable, h.map_entry]

/-- The tip above accepted blocks is that above their headers. -/
lemma headTip_eq (h : Ledger.Accepted j chain) :
    Ledger.headTip j.digest (chain.map Block.header) = Ledger.tip chain := by
  induction chain using List.reverseRecOn with
  | nil => rfl
  | append_singleton front b =>
    have hhash : b.header.hash j.digest = b.hash := h.hash_eq (by simp)
    rw [List.map_append, List.map_singleton, Ledger.headTip_append, Ledger.tip_append, hhash,
      List.length_map]

/-- The headers of accepted blocks are linked. -/
theorem linked (h : Ledger.Accepted j chain) : Ledger.Linked j (chain.map Block.header) := by
  induction chain using List.reverseRecOn with
  | nil => exact .nil
  | append_singleton front b ih =>
    obtain ⟨coinbase, others, hvalid⟩ := h.valid
    rw [List.map_append, List.map_singleton]
    refine .snoc (ih h.front) ?_
    rw [h.front.headTip_eq]
    exact Judge.checkHeader_eq_ok_iff.mpr
      ⟨hvalid.previous, hvalid.height, hvalid.target, hvalid.work⟩

/-- The first blocks of an accepted chain are applied one after the other. -/
lemma foldlM_apply {front : List Block} (h : Ledger.Accepted j (front ++ back))
    (hdistinct : Ledger.Distinct j (front ++ back)) :
    front.foldlM UtxoSet.apply UtxoSet.empty = .ok (Ledger.utxos front) := by
  induction front using List.reverseRecOn generalizing back with
  | nil => rfl
  | append_singleton front b ih =>
    rw [List.append_assoc] at h hdistinct
    have happly := h.applied hdistinct.free hdistinct.fits
    rw [List.foldlM_append]
    exact bind_eq_ok_iff.mpr ⟨_, ih h hdistinct, bind_eq_ok_iff.mpr ⟨_, happly, rfl⟩⟩

end Ledger.Accepted

/-! ### The walk back -/

/-- From the tip of an accepted chain the walk finds the headers of the chain, newest first. -/
theorem Walk.collect_tip (h : Ledger.Accepted j chain) (hsized : j.primitives.Sized)
    (hheaders : ∀ b ∈ chain, Storage.header store b.hash = .ok b.header) (hne : chain ≠ [])
    {limit : Nat} (hlimit : chain.length ≤ limit) :
    Walk.collect store limit (some (Ledger.tip chain).hash) =
      some (.ok (chain.reverse.map Block.entry)) := by
  have hkept : ∀ x ∈ chain.map Block.header, Storage.header store (x.hash j.digest) = .ok x := by
    intro x hx
    obtain ⟨b, hb, rfl⟩ := List.mem_map.mp hx
    rw [h.hash_eq hb]
    exact hheaders b hb
  have hlen : (chain.map Block.header).length ≤ limit := by rwa [List.length_map]
  have hwalk := Walk.collect_headTip h.linked hsized.digest_ne_nil hkept (by simpa using hne) hlen
  rw [h.headTip_eq, List.map_reverse, h.map_entry] at hwalk
  rwa [List.map_reverse]

namespace Node

/-! ### The way forward -/

omit [Storage σ] in
/-- Linked headers have the heights of their places. -/
theorem checkPlaces_eq_ok {hs : List Header} (h : Ledger.Linked j hs) :
    checkPlaces 0 (hs.map (Header.entry j.digest)) = .ok () := by
  rw [checkPlaces_eq_ok_iff, List.map_map, List.length_map, ← List.range_eq_range']
  exact h.map_height

/-- The replay of an accepted chain takes the bodies up to the first missing one. -/
theorem replay_eq (h : Ledger.Accepted j chain) (hdistinct : Ledger.Distinct j chain)
    (hbodies : ∀ b ∈ chain,
      Storage.block store b.hash = .ok b ∨ NotFound (Storage.block store b.hash)) :
    replay store UtxoSet.empty (chain.map Block.entry) =
      (Ledger.utxos (chain.takeWhile (Storage.holdsBody store)),
        .ok ((chain.takeWhile (Storage.holdsBody store)).map Block.entry)) := by
  have hsplit : chain.takeWhile (Storage.holdsBody store) ++
    chain.dropWhile (Storage.holdsBody store) = chain := List.takeWhile_append_dropWhile
  refine replay_eq_ok_iff.mpr ⟨(chain.dropWhile (Storage.holdsBody store)).map Block.entry,
    chain.takeWhile (Storage.holdsBody store), ?_, ?_, fun e he => ?_, ?_⟩
  · rw [← List.map_append, hsplit]
  · refine List.forall₂_map_left_iff.mpr (List.forall₂_same.mpr fun b hb => ?_)
    refine (hbodies b ((List.takeWhile_sublist _).subset hb)).resolve_right fun hmissing => ?_
    have hheld := List.mem_takeWhile_imp hb
    rw [Storage.holdsBody_of_notFound hmissing] at hheld
    cases hheld
  · rw [List.head?_map] at he
    obtain ⟨b, hb, rfl⟩ := Option.map_eq_some_iff.mp he
    refine (hbodies b ((List.dropWhile_sublist _).subset (List.mem_of_head? hb))).resolve_left
      fun hbody => ?_
    have hlost := List.head?_dropWhile_not (Storage.holdsBody store) chain
    rw [hb] at hlost
    simp only [Storage.holdsBody_of_ok hbody] at hlost
    cases hlost
  · exact (hsplit.symm ▸ h).foldlM_apply (hsplit.symm ▸ hdistinct)

/-! ### Rebuilding -/

variable {ω : Type}

/-- The node as it is after it has read a chain from its store. -/
def restarted (n : Node σ ω) (blocks : List Block) : Node σ ω :=
  { n with
    tipHash := (Ledger.tip blocks).hash
    height := blocks.length
    headers := Ledger.headers blocks
    utxos := Ledger.utxos blocks
    status := .ready }

omit [Storage σ] in
/-- Of a chain with different hashes a node gets its tip, its height and its headers. -/
lemma withChain_entries (n : Node σ ω) {blocks : List Block}
    (h : (blocks.map Block.hash).Nodup) : n.withChain (blocks.map Block.entry) =
      { n with
        tipHash := (Ledger.tip blocks).hash
        height := blocks.length
        headers := Ledger.headers blocks } := by
  have htip : ((blocks.map Block.entry).getLast?.map Prod.fst).getD "" =
      (Ledger.tip blocks).hash := by
    rw [List.getLast?_map, Option.map_map]
    rfl
  rw [withChain, ← Ledger.headers_eq_foldl, Ledger.size_headers h, htip]

/-- A rebuild finds the chain that the store keeps, cut at the first missing body. -/
theorem rebuild?_of_keeps {n : Node σ ω} (h : Storage.Keeps n.store j chain)
    (hdistinct : Ledger.Distinct j chain) :
    n.rebuild? = some ({ n.restarted (chain.takeWhile (Storage.holdsBody n.store)) with
      status := n.status }, .ok ()) := by
  by_cases hempty : chain = []
  · subst hempty
    exact rebuild?_of_notFound (h.start rfl)
  · have hwalk : Walk.collect? n.store (Ledger.tip chain).hash =
        some (.ok (chain.reverse.map Block.entry)) :=
      Walk.collect_tip h.accepted hdistinct.sized h.headers hempty (Nat.le_succ_of_le h.bound)
    have hforward : (chain.reverse.map Block.entry).reverse = chain.map Block.entry := by
      rw [List.map_reverse, List.reverse_reverse]
    have hplaces : checkPlaces 0 (chain.map Block.entry) = .ok () := by
      rw [← h.accepted.map_entry]
      exact checkPlaces_eq_ok h.accepted.linked
    have hnodup : ((chain.takeWhile (Storage.holdsBody n.store)).map Block.hash).Nodup :=
      (h.accepted.nodup_hashes hdistinct).sublist ((List.takeWhile_sublist _).map _)
    rw [rebuild?_of_collect (h.last hempty) hwalk (by rw [hforward, hplaces]), hforward,
      replay_eq h.accepted hdistinct h.bodies, gathered, withChain_entries _ hnodup]
    rfl

/-- Reconstruction makes a node ready over the chain that its store keeps, cut at the first missing
body. -/
theorem reconstruct?_of_keeps {n : Node σ ω} (h : Storage.Keeps n.store j chain)
    (hdistinct : Ledger.Distinct j chain) :
    n.reconstruct? =
      some (n.restarted (chain.takeWhile (Storage.holdsBody n.store)), .ok ()) := by
  rw [reconstruct?, rebuild?_of_keeps (n := { n with status := .reconstructing }) h hdistinct]
  rfl

/-- A node that is opened over a store is ready over the chain that the store keeps, cut at the
first missing body. -/
theorem open?_of_keeps {primitives : Primitives} {params : ChainParams} {limits : SyncSettings}
    (h : Storage.Keeps store j chain) (hdistinct : Ledger.Distinct j chain) :
    Node.open? primitives params limits store = some (.ok ((blank primitives params limits store :
      Node σ ω).restarted (chain.takeWhile (Storage.holdsBody store)))) := by
  rw [open?, reconstruct?_of_keeps (n := blank primitives params limits store) h hdistinct]
  rfl

omit [Storage σ] in
/-- A restarted node holds the chain it has read. -/
lemma restarted_holds {n : Node σ ω} {blocks : List Block} (hwired : n.Wired)
    (haccepted : Ledger.Accepted n.judge blocks) : (n.restarted blocks).Holds blocks where
  wired := hwired
  accepted := haccepted
  tip := rfl
  headers := rfl
  utxos := rfl

end Node

end PowLedger
