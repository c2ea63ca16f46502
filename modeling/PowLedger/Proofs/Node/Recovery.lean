import Mathlib.Tactic.Common
import Mathlib.Tactic.Lemma
import PowLedger.Proofs.Node.History
import PowLedger.Proofs.Node.Integrity

/-!
# Recovery after lost bodies

The header of a block is committed before its body is written, so a crash or a failing store can
leave headers without bodies. Whatever happened to a node and its store, the node that is opened
over the store next has the live chain up to the first lost body, and nothing else
(`Node.recovery_cuts_at_lost_body`).
-/

namespace PowLedger

variable {σ ω : Type}

/-- Seen from outside the node has this chain, whose blocks come with the unspent outputs right
after them. -/
structure Node.Shows (n : Node σ ω) (chain : List (Block × UtxoSet)) : Prop where
  height : n.height = chain.length
  lastBlockHash : n.lastBlockHash = chain.getLast?.map fun e => e.1.hash
  header? : ∀ hash h, n.header? hash = some h ↔ ∃ e ∈ chain, e.1.hash = hash ∧ e.1.header = h
  utxos : n.utxos = (chain.getLast?.map Prod.snd).getD UtxoSet.empty

/-- What a node holds, it shows. -/
lemma Node.Holds.shows {n : Node σ ω} {chain : List (Block × UtxoSet)}
    (h : n.Holds (chain.map Prod.fst)) (hrecorded : Ledger.Recorded chain)
    (hdistinct : Ledger.Distinct n.judge (chain.map Prod.fst)) : n.Shows chain where
  height := by rw [h.height, List.length_map]
  lastBlockHash := by
    rw [Node.lastBlockHash, h.tipHash]
    rcases List.eq_nil_or_concat' chain with rfl | ⟨front, e, rfl⟩
    · rfl
    · rw [if_neg (h.accepted.tip_hash_ne_empty hdistinct.sized (by simp))]
      simp [Ledger.tip]
  header? := by
    intro hash x
    rw [Node.header?, h.headers,
      Ledger.get?_headers_eq_some_iff (h.accepted.nodup_hashes hdistinct)]
    simp
  utxos := by
    rw [h.utxos]
    rcases List.eq_nil_or_concat' chain with rfl | ⟨front, e, rfl⟩
    · rfl
    · rw [List.getLast?_concat, Option.map_some, Option.getD_some, hrecorded front e [] rfl]

/-- A node that stands over the store of a history as it should after a restart: it has the live
chain up to the first lost body, which is all of it if none was lost, and to read the store again
would change nothing. -/
structure History.Restored [Storage σ] (t : History σ ω) (m : Node (Faulty σ) ω) : Prop where
  store : m.store = t.node.store
  status : m.status = .ready
  shows : m.Shows t.kept
  whole : t.kept = t.live →
    m.tip = t.node.tip ∧ m.headers = t.node.headers ∧ m.utxos = t.node.utxos
  again : m.reconstruct? = some (m, .ok ())

/-- A node that has read the kept blocks is restored. -/
lemma History.Sound.restored [Storage σ] [Storage.Lawful σ] {t : History σ ω} {j : Judge}
    (h : t.Sound j) (hdistinct : Ledger.Distinct j t.known) {m : Node (Faulty σ) ω}
    (hstore : m.store = t.node.store) (hwired : m.Wired) (hjudge : m.judge = j) :
    t.Restored (m.restarted (t.kept.map Prod.fst)) := by
  let next := t.restart (m.restarted (t.kept.map Prod.fst))
  have hnext : next.Sound j := h.restart hstore hwired hjudge
  have hlive : next.live = t.kept := by
    show t.live.take (t.kept.map Prod.fst).length = t.kept
    rw [List.length_map, take_kept]
  have hkept : next.kept = t.kept := by
    rw [History.kept, hlive, History.kept]
    show (t.live.takeWhile fun e => Storage.holdsBody t.node.store e.1).takeWhile
      (fun e => Storage.holdsBody m.store e.1) = _
    rw [hstore, List.takeWhile_idem]
  have hholds : next.node.Holds (t.kept.map Prod.fst) := hlive ▸ hnext.holds
  have hsub : t.kept.map Prod.fst ⊆ t.known := by
    have hblocks : next.blocks ⊆ t.known := hnext.blocks_subset_known
    rwa [blocks, hlive] at hblocks
  exact
    { store := hstore
      status := rfl
      shows := hholds.shows (hlive ▸ hnext.recorded) (hjudge.symm ▸ hdistinct.mono hsub)
      whole := by
        intro hall
        have hblocks : t.kept.map Prod.fst = t.blocks := congrArg (List.map Prod.fst) hall
        rw [hblocks]
        exact ⟨h.holds.tip.symm, h.holds.headers.symm, h.holds.utxos.symm⟩
      again := by
        have hagain := hnext.reconstruct?_eq hdistinct
        rw [hkept] at hagain
        exact hagain }

namespace Node

variable [Storage σ] [Storage.Lawful σ] [Observer ω] {primitives : Primitives}
  {params : ChainParams} {limits : SyncSettings} {store : σ} {n : Node (Faulty σ) ω}

/-- Let a node be opened over an empty store, and let it go through acts, restarts and refusals of
the store to write. At all times it shows its live chain. A node that is opened over its store, or
that reads its store again, is ready and has the live chain up to the first block whose body the
store does not hold; if there is no such block, its tip, its headers and its unspent outputs are
those of the live node. -/
theorem recovery_cuts_at_lost_body (hsized : primitives.Sized) (hempty : Storage.IsEmpty store)
    (hopen : Node.open? primitives params limits (Faulty.sound store) = some (.ok n))
    (turns : List (Turn ω)) (hfits : ∀ b ∈ (n.history turns).known, b.Fits)
    (hfree : CollisionFree primitives.digest
      (Ledger.messages primitives.digest (n.history turns).known)) (limits' : SyncSettings) :
    let t := n.history turns
    t.node.Shows t.live ∧
    (∃ m : Node (Faulty σ) ω,
      Node.open? primitives params limits' t.node.store = some (.ok m) ∧ t.Restored m) ∧
    ∃ m, t.node.reconstruct? = some (m, .ok ()) ∧ t.Restored m := by
  intro t
  have hdistinct : Ledger.Distinct ⟨primitives, params.targetBits, params.rewards⟩ t.known :=
    ⟨hsized, hfree, hfits⟩
  have hsound : t.Sound ⟨primitives, params.targetBits, params.rewards⟩ :=
    (History.Sound.opened hempty hopen).turns turns hdistinct
  refine ⟨?_, ⟨_, hsound.open?_eq hdistinct primitives params limits', ?_⟩,
    ⟨_, hsound.reconstruct?_eq hdistinct, ?_⟩⟩
  · refine hsound.holds.shows hsound.recorded ?_
    exact hsound.judge ▸ hdistinct.mono hsound.blocks_subset_known
  · exact hsound.restored hdistinct rfl (blank_wired _ _ _ _) rfl
  · exact hsound.restored hdistinct rfl hsound.holds.wired hsound.judge

end Node

/-! ### The sample chain over a failing store -/

namespace Sample

/-- A node over a durable store that can be made to fail. -/
def faultyNode : Node (Faulty DurableStore) Watcher :=
  { Node.blank primitives params {} (Faulty.sound DurableStore.empty) with status := .ready }

lemma isEmpty_durable : Storage.IsEmpty DurableStore.empty where
  fresh := ⟨_, rfl, rfl⟩
  bodies := fun hash => ⟨.notFound (.block hash), rfl, rfl⟩

lemma open?_faultyNode : Node.open? primitives params {} (Faulty.sound DurableStore.empty) =
    some (.ok faultyNode) :=
  Node.open?_fresh ⟨_, rfl, rfl⟩

/-- Bodies are refused from the second block on. A restart cuts that block off; it is taken again,
and the third one on top of it, both without their bodies. -/
def turns : List (Turn Watcher) :=
  [.act (.block first), .failBodies (some (.database (.reported "disk full"))),
    .act (.block second), .reopen {}, .act (.block second), .act (.block third)]

lemma history_turns :
    ((faultyNode.history turns).known, (faultyNode.history turns).blocks,
      (faultyNode.history turns).kept.map Prod.fst) =
    ([first, second, second, third], [first, second, third], [first]) := by
  decide +kernel

end Sample

namespace Node

open Sample in
/-- The live chain has three blocks; a node that is opened over its store has the first one only. -/
theorem recovery_cuts_at_lost_body_of_turns :
    (faultyNode.history turns).node.height = 3 ∧ ∃ m : Node (Faulty DurableStore) Watcher,
      Node.open? Sample.primitives Sample.params {} (faultyNode.history turns).node.store =
        some (.ok m) ∧
      m.status = .ready ∧ m.height = 1 ∧ m.lastBlockHash = some first.hash ∧
      m.header? first.hash = some first.header ∧ m.header? second.hash = none := by
  obtain ⟨hknown, hblocks, hkept⟩ : (faultyNode.history turns).known = _ ∧
    (faultyNode.history turns).blocks = _ ∧ (faultyNode.history turns).kept.map Prod.fst = _ := by
    simpa only [Prod.mk.injEq] using history_turns
  have hsub : [first, second, second, third] ⊆ [first, second, third] := by simp
  obtain ⟨hshows, ⟨m, hopen, hrestored⟩, -⟩ := recovery_cuts_at_lost_body sized isEmpty_durable
    open?_faultyNode turns (by rw [hknown]; exact fun b hb => fits b (hsub hb))
    (by rw [hknown]; exact collisionFree.mono (Ledger.messages_mono hsub)) {}
  obtain ⟨⟨b, after⟩, hone, hb⟩ := List.map_eq_singleton_iff.mp hkept
  obtain rfl : b = first := hb
  have hm := hrestored.shows
  rw [hone] at hm
  have hdifferent : first.hash ≠ second.hash := by decide +kernel
  refine ⟨?_, m, hopen, hrestored.status, hm.height, hm.lastBlockHash, ?_, ?_⟩
  · rw [hshows.height, ← List.length_map Prod.fst]
    exact congrArg List.length hblocks
  · exact (hm.header? _ _).mpr ⟨_, List.mem_singleton_self _, rfl, rfl⟩
  · by_contra hsome
    obtain ⟨h, hh⟩ := Option.ne_none_iff_exists'.mp hsome
    obtain ⟨e, he, hhash, -⟩ := (hm.header? _ _).mp hh
    rw [List.mem_singleton.mp he] at hhash
    exact hdifferent hhash

end Node

end PowLedger
