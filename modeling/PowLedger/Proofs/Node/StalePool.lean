import Mathlib.Tactic.Common
import Mathlib.Tactic.Lemma
import PowLedger.Proofs.Mining.Attempt
import PowLedger.Proofs.Node.Coherence
import PowLedger.Proofs.Node.Recovery

/-!
# The pool behind a reconstruction

A block that is taken makes the pool evict what it spoils. A reconstruction does nothing of the
kind: it reads the chain from the store and leaves the pool as it is. When bodies were lost, the
chain is cut, and the pool may go on holding transactions that spend outputs of the blocks cut off.
Such a transaction is refused from then on, and so is every block that contains it.

Which transactions these are can be said exactly (`Node.reconstruct_coherent_iff`). Each pooled
transaction has been accepted once, over some unspent outputs (`History.Screened`), so over others
it is valid just when its inputs find there what they found then, `PoolEntry.Spendable`. If the
store was empty at first, those outputs were made by blocks the node has taken, and the live chain
has spent none of them (`History.Rooted`); then all that matters is whether the blocks that are left
have made them.
-/

namespace PowLedger

/-! ### What a pooled transaction needs -/

/-- Over these unspent outputs each input of the entry finds an output that its key unlocks, and the
outputs found are worth what the transaction makes and its fee. -/
structure PoolEntry.Spendable (e : PoolEntry) (s : UtxoSet) : Prop where
  owners : ∀ i ∈ e.transaction.inputs,
    ∃ out, s.get? i.source = some out ∧ lockingHash i.publicKey = out.lock
  balanced : e.transaction.inputTotal s = e.fee.toNat + e.transaction.outputTotal

/-- A transaction that was accepted once with its fee is so over other outputs just when it is
spendable there: nothing else that the judge looks at can have changed. -/
lemma Judge.checkTransaction_eq_ok_iff_spendable {j : Judge} {s₀ s : UtxoSet} {e : PoolEntry}
    (honce : j.checkTransaction e.transaction s₀ = .ok e.fee) :
    j.checkTransaction e.transaction s = .ok e.fee ↔ e.Spendable s := by
  obtain ⟨hvalid, hfee⟩ := Judge.checkTransaction_eq_ok_iff.mp honce
  have hbalanced := hvalid.balanced
  have hfits := hvalid.inputsFit
  rw [Transaction.surplus] at hfee
  rw [Judge.checkTransaction_eq_ok_iff]
  constructor
  · rintro ⟨hnow, hsurplus⟩
    have henough := hnow.balanced
    rw [Transaction.surplus] at hsurplus
    exact ⟨fun i hi => (hnow.unlocked i hi).owner, by omega⟩
  · intro h
    have hexact := h.balanced
    refine ⟨?_, by rw [Transaction.surplus]; omega⟩
    exact
      { outputs := hvalid.outputs
        inputs := hvalid.inputs
        sourcesOnce := hvalid.sourcesOnce
        id := hvalid.id
        unlocked := fun i hi => ⟨h.owners i hi, (hvalid.unlocked i hi).signed⟩
        inputsFit := by omega
        balanced := by omega }

namespace Ledger

variable {j : Judge} {blocks : List Block}

/-- Different transactions of known blocks have different ids, so no two outputs of theirs share an
outpoint. -/
lemma Distinct.output_unique (hdistinct : Distinct j blocks)
    (hvalid : ∀ b ∈ blocks, j.Validates b) {o : Outpoint} {out out' : TxOutput}
    (h : (o, out) ∈ created blocks) (h' : (o, out') ∈ created blocks) : out = out' := by
  rw [created_eq, List.mem_flatMap] at h h'
  obtain ⟨tx, htx, hmade⟩ := h
  obtain ⟨tx', htx', hmade'⟩ := h'
  have hcomputed : ∀ t ∈ transactions blocks, t.computedId j.digest = t.id := by
    intro t ht
    obtain ⟨b, hb, hmem⟩ := List.mem_flatMap.mp ht
    obtain ⟨tip, s, coinbase, others, hvalidBlock⟩ := hvalid b hb
    exact hvalidBlock.computedId hmem
  have hid : tx.id = tx'.id :=
    (Transaction.txid_of_mem_created hmade).symm.trans (Transaction.txid_of_mem_created hmade')
  have hbytes : tx.idBytes = tx'.idBytes := by
    refine hdistinct.free _ (idBytes_mem_messages htx) _ (idBytes_mem_messages htx') ?_
    have hdigests := (hcomputed tx htx).trans (hid.trans (hcomputed tx' htx').symm)
    exact hdigests
  have hfits := fits_of_mem hdistinct.fits htx
  obtain rfl : tx = tx' := Transaction.eq_of_idBytes_eq hfits (fits_of_mem hdistinct.fits htx')
    (hcomputed tx htx) (hcomputed tx' htx') hbytes
  have hsame := List.inj_on_of_nodup_map (Transaction.nodup_created hfits.outputs) hmade hmade' rfl
  exact congrArg Prod.snd hsame

end Ledger

/-! ### Where pooled transactions come from -/

namespace Node

variable {σ ω : Type} [Storage σ] [Observer ω] {n : Node σ ω}

/-- No act changes what a node judges by. -/
lemma act_judge (hwired : n.Wired) (a : Act ω) : (n.act a).judge = n.judge :=
  (hwired.grows.moves (act_moves hwired a)).judge

omit [Observer ω] in
/-- A reconstruction changes neither the pool nor the judge, and the observers stay. -/
lemma reconstruct?_pool {m : Node σ ω} {r : Except Fault Unit}
    (h : n.reconstruct? = some (m, r)) :
    m.pool = n.pool ∧ m.judge = n.judge ∧ m.bus = n.bus := by
  rcases reconstruct?_cases h with ⟨chain, utxos, -, rfl⟩ | ⟨f, utxos, -, rfl⟩ <;>
    exact ⟨rfl, rfl, rfl⟩

end Node

/-! ### The pool over a history -/

namespace History

variable {σ ω : Type} [Storage σ]

/-- The index of the pool is in order, and each pooled transaction was accepted once with its
fee. -/
structure Screened (t : History σ ω) : Prop where
  wired : t.node.Wired
  indexed : t.node.pool.Indexed
  once : ∀ e ∈ t.node.pool.entries,
    ∃ s, t.node.judge.checkTransaction e.transaction s = .ok e.fee

variable {t : History σ ω} {j : Judge}

/-- A node that was just opened has an empty pool. -/
lemma Screened.opened {primitives : Primitives} {params : ChainParams} {limits : SyncSettings}
    {store : Faulty σ} {n : Node (Faulty σ) ω}
    (hopen : Node.open? primitives params limits store = some (.ok n))
    (live : List (Block × UtxoSet)) (known : List Block) : Screened ⟨n, live, known⟩ where
  wired := Node.wired_of_open? hopen
  indexed := (Node.coherent_of_open? hopen).indexed
  once := fun e he => ⟨_, (Node.coherent_of_open? hopen).valid e he⟩

variable [Observer ω]

/-- What an act adds to a history, the node apart. -/
lemma act_eq (t : History σ ω) (a : Act ω) :
    (t.act a).node = t.node.act a ∧ (t.act a).blocks = t.blocks ++ (t.node.takes a).toList ∧
      (t.act a).known = t.known ++ (t.node.takes a).toList := by
  rw [act]
  cases t.node.takes a <;> simp [blocks]

/-- Pooled transactions stay accepted ones. -/
lemma Screened.turn (h : t.Screened) (x : Turn ω) : (t.turn x).Screened := by
  cases x with
  | act a =>
    obtain ⟨hindexed, hentries⟩ := Node.act_entries h.wired h.indexed a
    have hjudge := Node.act_judge h.wired a
    rw [History.turn]
    refine ⟨?_, ?_, ?_⟩ <;> rw [(t.act_eq a).1]
    · exact (h.wired.grows.moves (Node.act_moves h.wired a)).wired
    · exact hindexed
    · rw [hjudge]
      intro e he
      cases hentries e he with
      | stayed hmem => exact h.once e hmem
      | joined _ hok => exact ⟨_, hok⟩
  | failHeaders fault | failBodies fault => exact ⟨h.wired.of_bus_eq rfl, h.indexed, h.once⟩
  | reopen limits =>
    rw [History.turn]
    split
    · next m hopen => exact Screened.opened hopen _ _
    · exact h
  | reconstruct =>
    rw [History.turn]
    split
    · next m r hends =>
      obtain ⟨hpool, hjudge, hbus⟩ := Node.reconstruct?_pool hends
      refine ⟨h.wired.of_bus_eq hbus, ?_, ?_⟩
      · exact hpool ▸ h.indexed
      · show ∀ e ∈ m.pool.entries, ∃ s, m.judge.checkTransaction e.transaction s = .ok e.fee
        rw [hpool, hjudge]
        exact h.once
    · exact h

/-- So they do over any turns. -/
lemma Screened.turns (h : t.Screened) (xs : List (Turn ω)) :
    (xs.foldl History.turn t).Screened := by
  induction xs generalizing t with
  | nil => exact h
  | cons x xs ih => exact ih (h.turn x)

omit [Observer ω] in
/-- Over whatever store the node reads next, its pool stays, and a pooled transaction is valid
afterwards just when it is spendable. -/
lemma Screened.reconstruct (h : t.Screened) {store : Faulty σ} {m : Node (Faulty σ) ω}
    {r : Except Fault Unit}
    (hends : ({ t.node with store := store } : Node (Faulty σ) ω).reconstruct? = some (m, r)) :
    m.pool = t.node.pool ∧ ∀ e ∈ m.pool.entries,
      (m.judge.checkTransaction e.transaction m.utxos = .ok e.fee ↔ e.Spendable m.utxos) := by
  obtain ⟨hpool, hjudge, -⟩ := Node.reconstruct?_pool hends
  refine ⟨hpool, fun e he => ?_⟩
  rw [hpool] at he
  obtain ⟨s, honce⟩ := h.once e he
  exact Judge.checkTransaction_eq_ok_iff_spendable (hjudge ▸ honce)

/-! ### The outputs that the pool rests on -/

/-- The outputs that pooled transactions spend were made by known blocks, and the live chain has
spent none of them. -/
structure Rooted (t : History σ ω) : Prop where
  unspent : ∀ e ∈ t.node.pool.entries, ∀ o ∈ e.transaction.sources, o ∉ Ledger.spent t.blocks
  made : ∀ e ∈ t.node.pool.entries,
    ∃ s, t.node.judge.checkTransaction e.transaction s = .ok e.fee ∧
      ∀ o ∈ e.transaction.sources, ∀ out, s.get? o = some out → (o, out) ∈ Ledger.created t.known

omit [Storage σ] [Observer ω] in
/-- Over an empty pool there is nothing to say. -/
lemma rooted_of_pool_empty (h : t.node.pool = Pool.empty) : t.Rooted where
  unspent := fun e he => by rw [h] at he; cases he
  made := fun e he => by rw [h] at he; cases he

omit [Observer ω] in
/-- The books of the live chain are in order. -/
lemma Sound.settled (h : t.Sound j) (hdistinct : Ledger.Distinct j t.known) :
    Ledger.Settled t.blocks := by
  have hlive := hdistinct.mono h.blocks_subset_known
  have haccepted : Ledger.Accepted j t.blocks := h.judge ▸ h.holds.accepted
  exact haccepted.settled hlive.free hlive.fits

/-- An act leaves the pool rooted: what it pools is live, and what it keeps is apart from the block
it takes. -/
lemma Rooted.act (h : t.Rooted) (hscreened : t.Screened) (hsound : t.Sound j)
    (hdistinct : Ledger.Distinct j t.known) (a : Act ω) : (t.act a).Rooted := by
  obtain ⟨-, hentries⟩ := Node.act_entries hscreened.wired hscreened.indexed a
  have hjudge := Node.act_judge hscreened.wired a
  have hsettled := hsound.settled hdistinct
  obtain ⟨hnode, hblocks, hknown⟩ := t.act_eq a
  refine ⟨fun e he o ho => ?_, fun e he => ?_⟩
  · rw [hnode] at he
    rw [hblocks, Ledger.spent, List.flatMap_append, List.mem_append, not_or]
    cases hentries e he with
    | stayed hmem happart =>
      refine ⟨h.unspent e hmem o ho, fun hspent => ?_⟩
      obtain ⟨b, hb, hob⟩ := List.mem_flatMap.mp hspent
      exact happart b (Option.mem_toList.mp hb) o hob ho
    | joined hnone hok =>
      have hlive := (Judge.checkTransaction_eq_ok_iff.mp hok).1.live o ho
      rw [hsound.holds.utxos] at hlive
      rw [hnone]
      exact ⟨(hsettled.of_isLive hlive).2, by simp⟩
  · rw [hnode] at he ⊢
    rw [hjudge, hknown, Ledger.created, List.flatMap_append]
    cases hentries e he with
    | stayed hmem =>
      obtain ⟨s, honce, hmade⟩ := h.made e hmem
      exact ⟨s, honce, fun o ho out hget => List.mem_append_left _ (hmade o ho out hget)⟩
    | joined _ hok =>
      refine ⟨_, hok, fun o _ out hget => List.mem_append_left _ ?_⟩
      rw [hsound.holds.utxos] at hget
      obtain ⟨b, hb, hmem⟩ := List.mem_flatMap.mp ((hsettled.unspent o out).mp hget).1
      exact List.mem_flatMap.mpr ⟨b, hsound.blocks_subset_known hb, hmem⟩

/-- Every turn leaves the pool rooted. A restart cuts the live chain, which spends less then. -/
lemma Rooted.turn (h : t.Rooted) (hscreened : t.Screened) (hsound : t.Sound j)
    (hdistinct : Ledger.Distinct j t.known) (x : Turn ω) : (t.turn x).Rooted := by
  cases x with
  | act a => exact h.act hscreened hsound hdistinct a
  | failHeaders fault | failBodies fault => exact ⟨h.unspent, h.made⟩
  | reopen limits =>
    rw [History.turn]
    split
    · next m hopen =>
      refine rooted_of_pool_empty ?_
      obtain ⟨chain, utxos, rfl⟩ := Node.open?_cases hopen
      rfl
    · exact h
  | reconstruct =>
    rw [History.turn]
    split
    · next m r hends =>
      obtain ⟨hpool, hjudge, -⟩ := Node.reconstruct?_pool hends
      refine ⟨fun e he o ho hspent => ?_, fun e he => ?_⟩
      · obtain ⟨b, hb, hob⟩ := List.mem_flatMap.mp hspent
        exact h.unspent e (hpool ▸ he) o ho
          (List.mem_flatMap.mpr ⟨b, t.blocks_restart_subset m hb, hob⟩)
      · have hmade := h.made e (hpool ▸ he)
        rw [← hjudge] at hmade
        exact hmade
    · exact h

/-- Any turns leave the pool rooted. -/
lemma Rooted.turns [Storage.Lawful σ] (h : t.Rooted) (hscreened : t.Screened) (hsound : t.Sound j)
    (xs : List (Turn ω)) (hdistinct : Ledger.Distinct j (xs.foldl History.turn t).known) :
    (xs.foldl History.turn t).Rooted := by
  induction xs using List.reverseRecOn with
  | nil => exact h
  | append_singleton xs x ih =>
    rw [List.foldl_append] at hdistinct ⊢
    have hknown := hdistinct.mono (known_subset_turn _ x)
    exact (ih hknown).turn (hscreened.turns xs) (hsound.turns xs hknown) hknown x

omit [Observer ω] in
/-- The books of the kept blocks are in order. -/
lemma Sound.settled_kept (h : t.Sound j) (hdistinct : Ledger.Distinct j t.known) :
    Ledger.Settled (t.kept.map Prod.fst) := by
  obtain ⟨lost, hlost⟩ : t.kept.map Prod.fst <+: t.blocks := (List.takeWhile_prefix _).map _
  have haccepted : Ledger.Accepted j t.blocks := h.judge ▸ h.holds.accepted
  have hkept : Ledger.Distinct j (t.kept.map Prod.fst) :=
    hdistinct.mono fun b hb => h.blocks_subset_known (hlost ▸ List.mem_append_left lost hb)
  rw [← hlost] at haccepted
  exact haccepted.front.settled hkept.free hkept.fits

omit [Observer ω] in
/-- A pooled transaction is valid over the kept blocks just when they have made all that it
spends. -/
lemma Rooted.valid_kept_iff (h : t.Rooted) (hsound : t.Sound j)
    (hdistinct : Ledger.Distinct j t.known) {e : PoolEntry} (he : e ∈ t.node.pool.entries) :
    t.node.judge.checkTransaction e.transaction (Ledger.utxos (t.kept.map Prod.fst)) = .ok e.fee ↔
      ∀ o ∈ e.transaction.sources,
        o ∈ (Ledger.created (t.kept.map Prod.fst)).map Prod.fst := by
  have hsettled := hsound.settled_kept hdistinct
  have hsub : t.kept.map Prod.fst ⊆ t.blocks :=
    ((List.takeWhile_prefix _).map Prod.fst).subset
  constructor
  · intro hok o ho
    have hlive := (Judge.checkTransaction_eq_ok_iff.mp hok).1.live o ho
    exact (hsettled.of_isLive hlive).1
  · intro hmade
    obtain ⟨s, honce, hthen⟩ := h.made e he
    rw [← honce]
    refine Judge.checkTransaction_congr fun o ho => ?_
    -- The output made by a kept block is the one that was found when the transaction was accepted.
    obtain ⟨⟨o, out⟩, hout, rfl⟩ := List.mem_map.mp (hmade o ho)
    have hunspent : o ∉ Ledger.spent (t.kept.map Prod.fst) := by
      intro hspent
      obtain ⟨b, hb, hob⟩ := List.mem_flatMap.mp hspent
      exact h.unspent e he o ho (List.mem_flatMap.mpr ⟨b, hsub hb, hob⟩)
    have hnow := (hsettled.unspent o out).mpr ⟨hout, hunspent⟩
    obtain ⟨out', hget⟩ :=
      Table.contains_iff.mp ((Judge.checkTransaction_eq_ok_iff.mp honce).1.live o ho)
    have hknown : (o, out) ∈ Ledger.created t.known := by
      obtain ⟨b, hb, hmem⟩ := List.mem_flatMap.mp hout
      exact List.mem_flatMap.mpr ⟨b, hsound.blocks_subset_known (hsub hb), hmem⟩
    have hsame : out = out' := hdistinct.output_unique hsound.archives.valid hknown
      (hthen o ho out' hget)
    rw [hnow, hsame]
    exact hget.symm

end History

/-! ### What a reconstruction makes of the pool -/

namespace Node

variable {σ ω : Type} [Storage σ] [Observer ω]

/-- A block with a transaction that spends what is not there is refused. -/
lemma addBlock_eq_error_of_not_isLive {n : Node σ ω} {b : Block} {tx : Transaction}
    (htx : tx ∈ b.transactions) {o : Outpoint} (ho : o ∈ tx.sources)
    (hdead : ¬n.utxos.isLive o = true) : ∃ f, n.addBlock b = (n, .error f) := by
  rcases n.addBlock_cases b with hrefused | ⟨fees, store, -, hok, -, -⟩
  · exact hrefused
  · obtain ⟨coinbase, others, hvalid, -⟩ := Judge.checkBlock_eq_ok_iff.mp hok
    have hspent : o ∈ b.spent := List.mem_flatMap.mpr ⟨tx, htx, ho⟩
    exact absurd (hvalid.live o hspent) hdead

variable [Storage.Lawful σ] {primitives : Primitives} {params : ChainParams}
  {limits : SyncSettings} {store : Faulty σ} {n : Node (Faulty σ) ω}

/-- Let a node go through acts, restarts and refusals of its store to write. If it reconstructs its
chain then, over its own store or over any other, its pool stays as it is, and a pooled transaction
is valid with its fee just when each of its inputs still finds an output of its key and these
outputs are worth as much as they were.

If the store was empty at first, the reconstruction over it succeeds, and the pool is coherent with
the unspent outputs just when all that it spends was made by blocks whose bodies are left. From then
on every block with a pooled transaction that spends anything else is refused. -/
theorem reconstruct_coherent_iff
    (hopen : Node.open? primitives params limits store = some (.ok n)) (turns : List (Turn ω)) :
    let t := n.history turns
    (∀ (other : Faulty σ) (m : Node (Faulty σ) ω),
      ({ t.node with store := other } : Node (Faulty σ) ω).reconstruct? = some (m, .ok ()) →
        m.pool = t.node.pool ∧ ∀ e ∈ m.pool.entries,
          (m.judge.checkTransaction e.transaction m.utxos = .ok e.fee ↔ e.Spendable m.utxos)) ∧
    (∀ empty : σ, store = Faulty.sound empty → Storage.IsEmpty empty → primitives.Sized →
      (∀ b ∈ t.known, b.Fits) →
      CollisionFree primitives.digest (Ledger.messages primitives.digest t.known) →
      let left := (Ledger.created (t.kept.map Prod.fst)).map Prod.fst
      ∃ m, t.node.reconstruct? = some (m, .ok ()) ∧
        (m.Coherent ↔ ∀ e ∈ t.node.pool.entries, ∀ o ∈ e.transaction.sources, o ∈ left) ∧
        ∀ e ∈ t.node.pool.entries,
          (m.judge.checkTransaction e.transaction m.utxos = .ok e.fee ↔
            ∀ o ∈ e.transaction.sources, o ∈ left) ∧
          ∀ o ∈ e.transaction.sources, o ∉ left →
            ∀ b : Block, e.transaction ∈ b.transactions → ∃ f, m.addBlock b = (m, .error f)) := by
  intro t
  have hscreened : t.Screened := (History.Screened.opened hopen [] []).turns turns
  refine ⟨fun other m hends => hscreened.reconstruct hends, ?_⟩
  rintro empty rfl hempty hsized hfits hfree left
  have hdistinct : Ledger.Distinct ⟨primitives, params.targetBits, params.rewards⟩ t.known :=
    ⟨hsized, hfree, hfits⟩
  have hopened := History.Sound.opened hempty hopen
  have hsound : t.Sound ⟨primitives, params.targetBits, params.rewards⟩ :=
    hopened.turns turns hdistinct
  have hrooted : t.Rooted := by
    refine History.Rooted.turns ?_ (History.Screened.opened hopen [] []) hopened turns hdistinct
    obtain ⟨chain, utxos, rfl⟩ := Node.open?_cases hopen
    exact History.rooted_of_pool_empty rfl
  have hvalid := fun e (he : e ∈ t.node.pool.entries) => hrooted.valid_kept_iff hsound hdistinct he
  refine ⟨_, hsound.reconstruct?_eq hdistinct, ?_, fun e he => ⟨hvalid e he, ?_⟩⟩
  · constructor
    · exact fun hcoherent e he => (hvalid e he).mp (hcoherent.valid e he)
    · exact fun hmade => ⟨hscreened.indexed, fun e he => (hvalid e he).mpr (hmade e he)⟩
  · intro o ho hlost b htx
    refine addBlock_eq_error_of_not_isLive htx ho fun hlive => hlost ?_
    exact ((hsound.settled_kept hdistinct).of_isLive hlive).1

end Node

namespace Sample

/-- A second block that leaves the payment alone. -/
def spare : Block := block first.hash 1 [coinbase 1 25]

/-- Spends the coinbase of that block. -/
def advance : Transaction := spend ((coinbase 1 25).outpoint 0) [⟨20, lock⟩]

/-- The payment waits while the second block is taken without its body, and a transaction that
spends from this block joins it. -/
def losing : List (Turn Watcher) :=
  [.act (.block first), .act (.transaction payment),
    .failBodies (some (.database (.reported "disk full"))), .act (.block spare),
    .act (.transaction advance)]

lemma history_losing :
    let t := faultyNode.history losing
    (t.known, t.kept.map Prod.fst, t.node.pool.entries.map fun e => (e.transaction, e.fee)) =
      ([first, spare], [first], [(payment, 5), (advance, 5)]) := by
  decide +kernel

end Sample

namespace Node

open Sample in
/-- The body of the second block is lost. Of the two transactions in the pool the one that spends
from the first block is valid behind the reconstruction, and the other one spoils every block it is
put into. -/
theorem reconstruct_coherent_iff_of_losing :
    ∃ m : Node (Faulty DurableStore) Watcher,
      (faultyNode.history losing).node.reconstruct? = some (m, .ok ()) ∧ ¬m.Coherent ∧
      m.judge.checkTransaction payment m.utxos = .ok 5 ∧
      m.judge.checkTransaction advance m.utxos ≠ .ok 5 ∧
      ∃ f, m.addBlock (Sample.block first.hash 1 [coinbase 1 30, advance]) = (m, .error f) := by
  obtain ⟨hknown, hkept, hpool⟩ : (faultyNode.history losing).known = _ ∧
      (faultyNode.history losing).kept.map Prod.fst = _ ∧ _ := by
    simpa only [Prod.mk.injEq] using history_losing
  obtain ⟨-, hempty⟩ := reconstruct_coherent_iff open?_faultyNode losing
  obtain ⟨m, hends, hcoherent, hentries⟩ := hempty _ rfl isEmpty_durable sized
    (by rw [hknown]; decide +kernel) (by rw [hknown]; decide +kernel)
  rw [hkept] at hcoherent hentries
  have hof : ∀ tx : Transaction, (tx, (5 : Amount)) ∈ [(payment, (5 : Amount)), (advance, 5)] →
      ∃ e ∈ (faultyNode.history losing).node.pool.entries, e.transaction = tx ∧ e.fee = 5 := by
    intro tx htx
    rw [← hpool] at htx
    simpa using htx
  obtain ⟨e, he, htx, hfee⟩ := hof payment (by simp)
  obtain ⟨e', he', htx', hfee'⟩ := hof advance (by simp)
  have hlost : (coinbase 1 25).outpoint 0 ∉ (Ledger.created [first]).map Prod.fst := by
    decide +kernel
  have hsource : (coinbase 1 25).outpoint 0 ∈ advance.sources := by decide +kernel
  obtain ⟨hvalid, -⟩ := hentries e he
  obtain ⟨hstale, hspoils⟩ := hentries e' he'
  rw [htx, hfee] at hvalid
  rw [htx', hfee'] at hstale
  rw [htx'] at hspoils
  refine ⟨m, hends, fun h => hlost ?_, hvalid.mpr ?_, fun h => hlost (hstale.mp h _ hsource), ?_⟩
  · exact hcoherent.mp h e' he' _ (htx'.symm ▸ hsource)
  · decide +kernel
  · exact hspoils _ hsource hlost _ (by decide +kernel)

end Node

namespace Sample

/-- The body of the first block is lost, the payment from it waits, and a miner has come. -/
def stranding : List (Turn Watcher) :=
  [.failBodies (some (.database (.reported "disk full"))), .act (.block first), .failBodies none,
    .act (.transaction payment), .act .addWatch]

/-- The payment spends what is not there. -/
def stranded : Fault := .validation (.unknownInput ((coinbase 0 50).outpoint 0))

lemma reconstruct_stranding :
    let ends := (faultyNode.history stranding).node.reconstruct?
    (ends.map fun x => (x.2, x.1.pool.entries.map fun e => (e.transaction, e.fee))) =
      some (.ok (), [(payment, 5)]) ∧
    (ends.map fun x => (x.1.judge.checkTransaction payment x.1.utxos,
      (Mining.attempt x.1 miner false (fun _ => 7) 1).2)) =
      some (.error stranded, some (.error stranded)) := by
  decide +kernel

end Sample

namespace Node

open Sample in
/-- A reconstruction leaves a transaction in the pool whose input is gone with the first block, and
the next attempt of a miner fails on account of it. -/
theorem pool_goes_stale :
    ∃ m : Node (Faulty DurableStore) Watcher,
      (faultyNode.history stranding).node.reconstruct? = some (m, .ok ()) ∧
      (m.pool.entries.map fun e => (e.transaction, e.fee)) = [(payment, 5)] ∧
      m.judge.checkTransaction payment m.utxos = .error stranded ∧
      (Mining.attempt m miner false (fun _ => 7) 1).2 = some (.error stranded) := by
  obtain ⟨hends, hthen⟩ := reconstruct_stranding
  obtain ⟨⟨m, r⟩, hm, heq⟩ := Option.map_eq_some_iff.mp hends
  obtain ⟨rfl, hpool⟩ := Prod.mk.inj heq
  rw [hm] at hthen
  obtain ⟨hverdict, hmined⟩ := Prod.mk.inj (Option.some.inj hthen)
  exact ⟨m, hm, hpool, hverdict, hmined⟩

end Node

end PowLedger
