import Mathlib.Tactic.Common
import Mathlib.Tactic.Lemma
import PowLedger.Network.Watcher
import PowLedger.Proofs.Ledger.Commitment
import PowLedger.Proofs.Ledger.Supply
import PowLedger.Proofs.Node.Run
import PowLedger.Store.Backend

/-!
# The integrity of a node's ledger

What holds of every node that was opened over a fresh store, whatever happened to it since: nothing
is spent twice (`Node.no_double_spend`), no money comes from nowhere (`Node.supply_conserved`), and
two nodes with one tip have one ledger (`Node.tip_commits_to_ledger`). A run is any list of acts, so
blocks and transactions may be refused, come in any order, and come from peers.

Where digests must not collide, that is asked of the byte strings that were hashed to judge the
blocks the node has taken, and of no others.
-/

namespace PowLedger

namespace Node

variable {σ ω : Type} [Storage σ] [Observer ω] {primitives : Primitives} {params : ChainParams}
  {limits : SyncSettings} {store : σ} {n : Node σ ω}

/-! ### Spending -/

/-- After every run the unspent outputs are exactly those made by the blocks taken and not consumed
by them. Every id comes once, every output is made once and consumed at most once, by a block behind
the one that made it. Every block taken was applied, and so will be the next one that the judge
accepts. -/
theorem no_double_spend (hfresh : Storage.IsFresh store)
    (hopen : Node.open? primitives params limits store = some (.ok n)) (acts : List (Act ω))
    (hfits : ∀ b ∈ (n.run acts).blocks, b.Fits)
    (hfree : CollisionFree primitives.digest
      (Ledger.messages primitives.digest (n.run acts).blocks)) :
    let r := n.run acts
    (∀ o out, r.node.utxos.get? o = some out ↔
      (o, out) ∈ Ledger.created r.blocks ∧ o ∉ Ledger.spent r.blocks) ∧
    ((Ledger.transactions r.blocks).map Transaction.id).Nodup ∧
    ((Ledger.created r.blocks).map Prod.fst).Nodup ∧
    (Ledger.spent r.blocks).Nodup ∧
    (∀ front b back, r.blocks = front ++ b :: back →
      (∀ o ∈ b.spent, o ∈ (Ledger.created front).map Prod.fst) ∧
      (Ledger.utxos front).apply b = .ok (Ledger.utxos (front ++ [b]))) ∧
    ∀ b fees, b.Fits →
      CollisionFree primitives.digest (Ledger.messages primitives.digest (r.blocks ++ [b])) →
      r.node.judge.checkBlock b r.node.tip r.node.utxos = .ok fees →
      (∃ s, r.node.utxos.apply b = .ok s) ∧
        (deliver (.blockAdded b) .utxoSet r.node).2 = .done := by
  intro r
  obtain ⟨hholds, hjudge⟩ := run_holds hfresh hopen acts
  have haccepted := hholds.accepted
  rw [hjudge] at haccepted
  have hsettled := haccepted.settled hfree hfits
  refine ⟨?_, hsettled.ids, hsettled.createdOnce, hsettled.spentOnce, ?_, ?_⟩
  · intro o out
    rw [show r.node.utxos = Ledger.utxos r.blocks from hholds.utxos]
    exact hsettled.unspent o out
  · intro front b back hsplit
    rw [show (n.run acts).blocks = front ++ b :: back from hsplit] at haccepted hfree hfits
    exact ⟨haccepted.spent_earlier hfree hfits, haccepted.applied hfree hfits⟩
  · intro b fees hb hfreeb hok
    rw [show r.node.judge = _ from hjudge, show r.node.tip = Ledger.tip r.blocks from hholds.tip,
      show r.node.utxos = Ledger.utxos r.blocks from hholds.utxos] at hok
    have hfitsb : ∀ c ∈ r.blocks ++ [b], c.Fits := by
      intro c hc
      rcases List.mem_append.mp hc with hc | hc
      · exact hfits c hc
      · exact List.mem_singleton.mp hc ▸ hb
    have happly : r.node.utxos.apply b = .ok (Ledger.utxos (r.blocks ++ [b])) := by
      rw [show r.node.utxos = Ledger.utxos r.blocks from hholds.utxos]
      exact haccepted.apply_eq_ok hfreeb hfitsb hok
    exact ⟨⟨_, happly⟩, by rw [deliver, happly]⟩

end Node

/-! ### A chain of two blocks

A small chain for the statements below to be seen at work: the first block mints fifty units, the
second one spends them with a fee of five and claims twenty of the thirty units it could. Digests
and signatures are made by arithmetic, so that they can be computed in a proof. -/

namespace Sample

/-- The digest of a message is its number to the base 257, cut to 32 bytes. -/
def digest (message : Bytes) : Bytes :=
  bigEndian 32 (message.foldl (fun n b => 257 * n + b.toNat + 1) 0)

/-- The signature of a message that a key is good for. -/
def signature (publicKey message : Bytes) : Bytes :=
  digest (publicKey ++ message) ++ digest (message ++ publicKey)

/-- The digest and the signatures of the sample chain. -/
def primitives : Primitives where
  digest := digest
  verify publicKey sig message := publicKey.length = 65 ∧ sig = signature publicKey message

lemma sized : primitives.Sized where
  digest message := by simp [primitives, digest]
  verify publicKey sig message h := by
    obtain ⟨hkey, rfl⟩ : publicKey.length = 65 ∧ sig = signature publicKey message := by
      simpa [primitives] using h
    exact ⟨by simp [signature, digest], hkey⟩

def params : ChainParams := { targetBits := 0, initialReward := 50, halvingInterval := 1 }

def key : Bytes := bigEndian 65 7

/-- The hash that the key unlocks, written out. -/
def lock : Bytes := bigEndian 20 0xdc7311582958ad6a2f359dc35576bf3a39e86e69

/-- A block on top of the one with the hash `previous`. -/
def block (previous : String) (height : UInt64) (transactions : List Transaction) : Block :=
  let root := (merkleRoot digest (transactions.map Transaction.id)).toOption.getD []
  Block.ofHeader digest ⟨1, previous, root, height, 0, 0, 0⟩ transactions

def coinbase (height : Nat) (amount : Amount) : Transaction :=
  Transaction.coinbase digest height amount lock

def first : Block := block "" 0 [coinbase 0 50]

/-- Spends an output that the key unlocks. -/
def spend (source : Outpoint) (outputs : List TxOutput) : Transaction :=
  let unsigned := Transaction.unsigned [source] outputs
  (unsigned.withProof key (signature key (unsigned.signingDigest digest))).identified digest

/-- Spends the first coinbase. -/
def payment : Transaction := spend ((coinbase 0 50).outpoint 0) [⟨30, lock⟩, ⟨15, lock⟩]

def second : Block := block first.hash 1 [coinbase 1 20, payment]

def third : Block := block second.hash 2 [coinbase 2 12]

/-- A node over a volatile store. -/
def node : Node VolatileStore Watcher :=
  { Node.blank primitives params {} VolatileStore.empty with status := .ready }

lemma open?_node :
    Node.open? primitives params {} VolatileStore.empty = some (.ok node) :=
  Node.open?_fresh ⟨_, rfl, rfl⟩

/-- The blocks come too early, in order, and twice; the payment is pooled meanwhile. -/
def acts : List (Act Watcher) :=
  [.subscribe .blocks ⟨"watcher", .panic⟩, .block second, .block first, .block first,
    .transaction payment, .block second]

-- One evaluation for all three, since most of the work is to build the blocks.
lemma evaluated : (node.run acts).blocks = [first, second] ∧
    (∀ b ∈ [first, second, third], b.Fits) ∧
    CollisionFree digest (Ledger.messages digest [first, second, third]) := by
  decide +kernel

lemma blocks_run : (node.run acts).blocks = [first, second] :=
  evaluated.1

lemma fits : ∀ b ∈ [first, second, third], b.Fits :=
  evaluated.2.1

lemma collisionFree : CollisionFree digest (Ledger.messages digest [first, second, third]) :=
  evaluated.2.2

lemma fits_run : ∀ b ∈ (node.run acts).blocks, b.Fits := by
  rw [blocks_run]
  exact fun b hb => fits b (List.mem_append_left [third] hb)

lemma collisionFree_run :
    CollisionFree digest (Ledger.messages digest (node.run acts).blocks) := by
  rw [blocks_run]
  exact collisionFree.mono (Ledger.messages_mono (List.subset_append_left [first, second] [third]))

end Sample

namespace Node

open Sample in
/-- In the sample chain the payment's outputs are there and what it spent is not, and a third block
goes through. -/
theorem no_double_spend_of_payment :
    (Sample.node.run acts).blocks = [first, second] ∧
      (Sample.node.run acts).node.utxos.get? (payment.outpoint 1) = some ⟨15, lock⟩ ∧
      (Sample.node.run acts).node.utxos.get? ((coinbase 0 50).outpoint 0) = none ∧
      (deliver (.blockAdded third) .utxoSet (Sample.node.run acts).node).2 = .done := by
  obtain ⟨hunspent, -, -, -, -, hnext⟩ :=
    no_double_spend ⟨_, rfl, rfl⟩ open?_node acts fits_run collisionFree_run
  obtain ⟨hholds, hjudge⟩ := run_holds ⟨_, rfl, rfl⟩ open?_node acts
  refine ⟨blocks_run, (hunspent _ _).mpr ?_, ?_, ?_⟩
  · rw [blocks_run]
    decide +kernel
  · by_contra hsome
    obtain ⟨out, hout⟩ := Option.ne_none_iff_exists'.mp hsome
    refine ((hunspent _ _).mp hout).2 ?_
    rw [blocks_run]
    decide +kernel
  · refine (hnext third 0 (fits third (by simp)) (by rw [blocks_run]; exact collisionFree) ?_).2
    rw [hjudge, hholds.tip, hholds.utxos, blocks_run]
    decide +kernel

variable {σ ω : Type} [Storage σ] [Observer ω] {primitives : Primitives} {params : ChainParams}
  {limits : SyncSettings} {store : σ} {n : Node σ ω}

/-! ### Supply -/

/-- After every run the unspent outputs are worth at most the rewards of the heights so far, and no
coinbase has claimed more than it could. Without collisions they are worth exactly the rewards less
what the coinbases have left unclaimed. -/
theorem supply_conserved (hfresh : Storage.IsFresh store)
    (hopen : Node.open? primitives params limits store = some (.ok n)) (acts : List (Act ω)) :
    let r := n.run acts
    r.node.utxos.totalValue ≤ Ledger.minted params.rewards r.node.height ∧
    (∀ amount ∈ Ledger.unclaimed params.rewards r.blocks, 0 ≤ amount) ∧
    ((∀ b ∈ r.blocks, b.Fits) →
      CollisionFree primitives.digest (Ledger.messages primitives.digest r.blocks) →
      (r.node.utxos.totalValue : Int) = Ledger.minted params.rewards r.node.height -
        (Ledger.unclaimed params.rewards r.blocks).sum) := by
  intro r
  obtain ⟨hholds, hjudge⟩ := run_holds hfresh hopen acts
  have haccepted := hholds.accepted
  rw [hjudge] at haccepted
  rw [show r.node.utxos = Ledger.utxos r.blocks from hholds.utxos,
    show r.node.height = r.blocks.length from hholds.height]
  exact ⟨haccepted.totalValue_le, haccepted.unclaimed_nonneg,
    fun hfits hfree => haccepted.totalValue_eq hfree hfits⟩

open Sample in
/-- The sample chain has minted fifty and twenty-five units, and ten were left unclaimed. -/
theorem supply_conserved_of_payment :
    (∀ b ∈ (Sample.node.run acts).blocks, b.Fits) ∧
      CollisionFree Sample.digest (Ledger.messages Sample.digest (Sample.node.run acts).blocks) ∧
      (Sample.node.run acts).node.utxos.totalValue = 50 + 25 - 10 := by
  obtain ⟨-, -, hvalue⟩ := supply_conserved ⟨_, rfl, rfl⟩ open?_node acts
  refine ⟨fits_run, collisionFree_run, ?_⟩
  have hexact := hvalue fits_run collisionFree_run
  rw [(run_holds ⟨_, rfl, rfl⟩ open?_node acts).1.height, blocks_run] at hexact
  have hminted : (Ledger.minted Sample.params.rewards [first, second].length : Int) -
      (Ledger.unclaimed Sample.params.rewards [first, second]).sum = 65 := by decide +kernel
  omega

/-! ### Agreement -/

/-- Two nodes with the same parameters, each after a run of its own over a store of its own, that
have one tip have the same height, the same headers, the same blocks and the same unspent
outputs. -/
theorem tip_commits_to_ledger {σ' ω' : Type} [Storage σ'] [Observer ω'] {limits' : SyncSettings}
    {store' : σ'} {n' : Node σ' ω'} (hsized : primitives.Sized)
    (hfresh : Storage.IsFresh store)
    (hopen : Node.open? primitives params limits store = some (.ok n))
    (hfresh' : Storage.IsFresh store')
    (hopen' : Node.open? primitives params limits' store' = some (.ok n'))
    (acts : List (Act ω)) (acts' : List (Act ω'))
    (hfits : ∀ b ∈ (n.run acts).blocks ++ (n'.run acts').blocks, b.Fits)
    (hfree : CollisionFree primitives.digest (Ledger.messages primitives.digest
      ((n.run acts).blocks ++ (n'.run acts').blocks)))
    (htip : (n.run acts).node.lastBlockHash = (n'.run acts').node.lastBlockHash) :
    let r := n.run acts
    let r' := n'.run acts'
    r.node.height = r'.node.height ∧ r.node.headerList = r'.node.headerList ∧
      r.blocks = r'.blocks ∧ r.node.utxos = r'.node.utxos := by
  intro r r'
  obtain ⟨hholds, hjudge⟩ := run_holds hfresh hopen acts
  obtain ⟨hholds', hjudge'⟩ := run_holds hfresh' hopen' acts'
  have haccepted := hholds.accepted
  have haccepted' := hholds'.accepted
  rw [hjudge] at haccepted
  rw [hjudge'] at haccepted'
  have hhash : (Ledger.tip r.blocks).hash = (Ledger.tip r'.blocks).hash := by
    rw [← hholds.tipHash, ← hholds'.tipHash]
    exact tipHash_eq_of_lastBlockHash_eq htip
  have hblocks : r.blocks = r'.blocks :=
    haccepted.eq_of_tip_eq haccepted' ⟨hsized, hfree, hfits⟩ hhash
  refine ⟨?_, ?_, hblocks, ?_⟩
  · rw [show r.node.height = r.blocks.length from hholds.height,
      show r'.node.height = r'.blocks.length from hholds'.height, hblocks]
  · rw [headerList, headerList, show r.node.headers = Ledger.headers r.blocks from hholds.headers,
      show r'.node.headers = Ledger.headers r'.blocks from hholds'.headers, hblocks]
  · rw [show r.node.utxos = Ledger.utxos r.blocks from hholds.utxos,
      show r'.node.utxos = Ledger.utxos r'.blocks from hholds'.utxos, hblocks]

end Node

namespace Sample

/-- A node over a durable store. -/
def durableNode : Node DurableStore Watcher :=
  { Node.blank primitives params { capacity := 4 } DurableStore.empty with status := .ready }

lemma open?_durableNode :
    Node.open? primitives params { capacity := 4 } DurableStore.empty = some (.ok durableNode) :=
  Node.open?_fresh ⟨_, rfl, rfl⟩

/-- A session that fetches the two blocks from a peer. -/
def session : List (Act Watcher) :=
  [.enter,
    .reply "peer" false (.askingBody first.header first.hash [second.header] 0)
      (.block (.ok first)),
    .reply "peer" false (.askingBody second.header second.hash [] 1) (.block (.ok second))]

lemma blocks_run_session : (durableNode.run session).blocks = [first, second] := by
  decide +kernel

end Sample

namespace Node

open Sample in
/-- The node that was brought the sample chain and the one that fetched it agree. -/
theorem tip_commits_to_ledger_of_session :
    (Sample.node.run acts).node.lastBlockHash = (durableNode.run session).node.lastBlockHash ∧
      (Sample.node.run acts).blocks = (durableNode.run session).blocks ∧
      (Sample.node.run acts).node.utxos = (durableNode.run session).node.utxos := by
  obtain ⟨hholds, -⟩ := run_holds ⟨_, rfl, rfl⟩ open?_node acts
  obtain ⟨hholds', -⟩ := run_holds ⟨_, rfl, rfl⟩ open?_durableNode session
  have htip : (Sample.node.run acts).node.lastBlockHash =
      (durableNode.run session).node.lastBlockHash := by
    rw [lastBlockHash, lastBlockHash, hholds.tipHash, hholds'.tipHash, blocks_run,
      blocks_run_session]
  have hsub : [first, second] ++ [first, second] ⊆ [first, second, third] := by
    intro b hb
    rcases List.mem_append.mp hb with hb | hb <;> exact List.mem_append_left [third] hb
  obtain ⟨-, -, hblocks, hutxos⟩ := tip_commits_to_ledger sized ⟨_, rfl, rfl⟩ open?_node
    ⟨_, rfl, rfl⟩ open?_durableNode acts session
    (by rw [blocks_run, blocks_run_session]; exact fun b hb => fits b (hsub hb))
    (by rw [blocks_run, blocks_run_session]; exact collisionFree.mono (Ledger.messages_mono hsub))
    htip
  exact ⟨htip, hblocks, hutxos⟩

end Node

end PowLedger
