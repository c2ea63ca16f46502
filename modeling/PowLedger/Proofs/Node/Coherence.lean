import Mathlib.Tactic.Common
import Mathlib.Tactic.Lemma
import PowLedger.Proofs.Node.Growth
import PowLedger.Proofs.Node.Integrity
import PowLedger.Proofs.Pool.Index

/-!
# The pool and the unspent outputs

A transaction is judged when it is pooled and never again, while the unspent outputs change with
every block. All the same each pooled transaction is valid over them at all times, with the fee it
was pooled with: a block takes away only what it spends, and eviction has removed everything else
that spends it, because the index of the pool is in order, `Node.Coherent`. This needs nothing of
the store or of the blocks found there, and no digest has to be free of collisions
(`Node.pool_stays_valid`).

That a pooled transaction spends nothing that a block has consumed is another matter. The unspent
outputs refuse a block that makes an output again, `UtxoSet.Repeats`, although the judge has
accepted it; what it consumed stays there, and can be spent once more. So can an output that a later
block makes anew. Without collisions neither happens unless a body found in the store, which nobody
has judged, has left an output there that one of the blocks makes (`Sample.pool_spends_consumed`).
-/

namespace PowLedger

/-! ### Outputs through blocks -/

namespace UtxoSet

variable {s : UtxoSet} {b : Block} {o : Outpoint} {out : TxOutput}

/-- An output that a block does not spend stays. -/
lemma get?_follow_of_notMem (hget : s.get? o = some out) (ho : o ∉ b.spent) :
    (s.follow b).get? o = some out := by
  rw [follow]
  cases happly : s.apply b with
  | error f => exact hget
  | ok s' => exact (get?_apply happly).mpr (Or.inr ⟨hget, ho⟩)

/-- An output that is there after a block was there before, or the block has made it. -/
lemma isLive_of_follow (h : (s.follow b).isLive o = true) :
    s.isLive o = true ∨ o ∈ b.created.map Prod.fst := by
  rw [follow] at h
  cases happly : s.apply b with
  | error f =>
    rw [happly] at h
    exact Or.inl h
  | ok s' =>
    rw [happly] at h
    obtain ⟨out, hget⟩ := Table.contains_iff.mp h
    rcases (get?_apply happly).mp hget with hmade | ⟨hbefore, -⟩
    · exact Or.inr (List.mem_map_of_mem hmade)
    · exact Or.inl (Table.contains_iff.mpr ⟨out, hbefore⟩)

/-- An output that a block spends is there no more, if the set takes the block and the block does
not make it anew. -/
lemma mem_created_of_isLive_apply {s' : UtxoSet} (happly : s.apply b = .ok s')
    (ho : o ∈ b.spent) (h : s'.isLive o = true) : o ∈ b.created.map Prod.fst := by
  obtain ⟨out, hget⟩ := Table.contains_iff.mp h
  rcases (get?_apply happly).mp hget with hmade | ⟨-, hunspent⟩
  · exact List.mem_map_of_mem hmade
  · exact absurd ho hunspent

/-- The only blocks that keep the rules and that the set refuses are those that make an output
again. -/
lemma repeats_of_apply_error {j : Judge} {tip : Tip} {coinbase : Transaction}
    {others : List Transaction} {f : Fault} (hvalid : j.ValidBlock tip s b coinbase others)
    (herror : s.apply b = .error f) : s.Repeats b := by
  by_contra hnew
  rw [apply_eq_ok_iff.mpr ⟨hvalid.takes hnew, rfl⟩] at herror
  cases herror

/-- An output that is there after some blocks was there before, or one of them has made it. -/
lemma isLive_of_foldl_follow {blocks : List Block}
    (h : (blocks.foldl follow s).isLive o = true) :
    s.isLive o = true ∨ o ∈ (Ledger.created blocks).map Prod.fst := by
  induction blocks generalizing s with
  | nil => exact Or.inl h
  | cons b blocks ih =>
    rw [Ledger.created, List.flatMap_cons, List.map_append, List.mem_append]
    rcases ih h with hfirst | hrest
    · exact (isLive_of_follow hfirst).imp_right Or.inl
    · exact Or.inr (Or.inr hrest)

/-- An output that one of several blocks spends is there after them only if the set refused that
block, or if this or a later one has made it anew. -/
lemma refused_or_mem_created {front back : List Block} (ho : o ∈ b.spent)
    (h : ((front ++ b :: back).foldl follow s).isLive o = true) :
    (∃ f, (front.foldl follow s).apply b = .error f) ∨
      o ∈ (Ledger.created (b :: back)).map Prod.fst := by
  cases happly : (front.foldl follow s).apply b with
  | error f => exact Or.inl ⟨f, rfl⟩
  | ok s' =>
    right
    rw [List.foldl_append, List.foldl_cons, follow_of_apply happly] at h
    rw [Ledger.created, List.flatMap_cons, List.map_append, List.mem_append]
    exact (isLive_of_foldl_follow h).imp_left (mem_created_of_isLive_apply happly ho)

end UtxoSet

/-! ### Coherent nodes -/

namespace Node

variable {σ ω : Type}

/-- The index of the pool is in order, and each pooled transaction is valid over the unspent
outputs, with its fee. -/
structure Coherent (n : Node σ ω) : Prop where
  indexed : n.pool.Indexed
  valid : ∀ e ∈ n.pool.entries, n.judge.checkTransaction e.transaction n.utxos = .ok e.fee

variable {n : Node σ ω}

/-- A node with an empty pool is coherent. -/
lemma coherent_of_pool_empty (h : n.pool = Pool.empty) : n.Coherent where
  indexed := h ▸ Pool.indexed_empty
  valid := fun e he => by
    rw [h] at he
    cases he

/-- The sources of a pooled transaction are live. -/
lemma Coherent.live (h : n.Coherent) {e : PoolEntry} (he : e ∈ n.pool.entries) {o : Outpoint}
    (ho : o ∈ e.transaction.sources) : n.utxos.isLive o = true :=
  (Judge.checkTransaction_eq_ok_iff.mp (h.valid e he)).1.live o ho

/-- What a transaction spends a block leaves alone, if the block spends none of it. -/
lemma checkTransaction_follow {j : Judge} {s : UtxoSet} {b : Block} {tx : Transaction}
    {fee : Amount} (hok : j.checkTransaction tx s = .ok fee)
    (happart : ∀ o ∈ b.spent, o ∉ tx.sources) : j.checkTransaction tx (s.follow b) = .ok fee := by
  rw [← hok]
  refine Judge.checkTransaction_congr fun o ho => ?_
  have hlive := (Judge.checkTransaction_eq_ok_iff.mp hok).1.live o ho
  obtain ⟨out, hget⟩ := Table.contains_iff.mp hlive
  have hget : s.get? o = some out := hget
  rw [hget]
  exact UtxoSet.get?_follow_of_notMem hget fun hspent => happart o hspent ho

/-- The entry may be pooled after an act by which a block was taken, or none: it was pooled before
and is apart from the block, or no block was taken and the judge has just accepted it. -/
inductive Entitled (n : Node σ ω) (taken : Option Block) (e : PoolEntry) : Prop
  | stayed (hmem : e ∈ n.pool.entries)
      (happart : ∀ b ∈ taken, ∀ o ∈ b.spent, o ∉ e.transaction.sources)
  | joined (hnone : taken = none)
      (hok : n.judge.checkTransaction e.transaction n.utxos = .ok e.fee)

/-- Where no block was taken, every entry may stay. -/
lemma entitled_of_mem {e : PoolEntry} (he : e ∈ n.pool.entries) : n.Entitled none e :=
  .stayed he fun _ hb => nomatch hb

variable [Storage σ] [Observer ω]

/-- A block that is taken evicts what it spoils, and one that is refused changes nothing. -/
lemma addBlock_entries (hwired : n.Wired) (hindexed : n.pool.Indexed) (b : Block) :
    (n.addBlock b).1.pool.Indexed ∧ ∀ e ∈ (n.addBlock b).1.pool.entries,
      n.Entitled ((some b).filter fun b => (n.addBlock b).2.isOk) e := by
  rcases n.addBlock_cases b with ⟨f, hadd⟩ | ⟨fees, store, -, -, -, hadd⟩
  · have htaken : (some b).filter (fun b => (n.addBlock b).2.isOk) = none := by
      simp [hadd, Except.isOk, Except.toBool]
    rw [htaken, hadd]
    exact ⟨hindexed, fun e he => entitled_of_mem he⟩
  · have htaken : (some b).filter (fun b => (n.addBlock b).2.isOk) = some b := by
      simp [hadd, Except.isOk, Except.toBool]
    have hextended : (n.extend b store).Wired := hwired.of_bus_eq rfl
    have hevicted : ((n.extend b store).publish (.blockAdded b)).1.pool =
        (n.pool.evictFrom 0 b.spent).1 := publish_blockAdded_pool hextended b
    obtain ⟨hentries, hafter⟩ := hindexed.evictFrom 0 b.spent
    rw [htaken, hadd, hevicted]
    refine ⟨hafter, fun e he => ?_⟩
    rw [hentries, List.mem_filter, decide_eq_true_iff] at he
    refine .stayed he.1 fun c hc => ?_
    cases hc
    exact he.2

/-- A transaction joins the pool if the judge accepts it. -/
lemma addTransaction_entries (hwired : n.Wired) (hindexed : n.pool.Indexed) (tx : Transaction) :
    (n.addTransaction tx).1.pool.Indexed ∧
      ∀ e ∈ (n.addTransaction tx).1.pool.entries, n.Entitled none e := by
  rcases n.addTransaction_cases tx with ⟨f, hadd⟩ | ⟨fee, -, hnew, hok, hadd⟩
  · rw [hadd]
    exact ⟨hindexed, fun e he => entitled_of_mem he⟩
  · have happended : ((({ n with pool := (n.pool.append tx fee).1 } : Node σ ω).publish
        (.transactionAdded tx)).1).pool = (n.pool.append tx fee).1 :=
      deliverAll_guests_pool _ _ _ hwired.2
    rw [hadd, happended]
    refine ⟨hindexed.append tx fee, fun e he => ?_⟩
    rcases List.mem_cons.mp ((Pool.entries_append fee hnew).mem_iff.mp he) with rfl | hold
    · exact .joined rfl hok
    · exact entitled_of_mem hold

/-- After any act the index of the pool is in order, and all that is pooled may be. -/
lemma act_entries (hwired : n.Wired) (hindexed : n.pool.Indexed) (a : Act ω) :
    (n.act a).pool.Indexed ∧ ∀ e ∈ (n.act a).pool.entries, n.Entitled (n.takes a) e := by
  have hpool : (n.act a).pool = (n.brought a.block? a.transaction?).pool :=
    congrArg Holdings.pool (n.act_holdings a)
  rw [hpool, takes]
  cases a.block? with
  | some b => exact addBlock_entries hwired hindexed b
  | none =>
    rw [Option.filter_none]
    cases a.transaction? with
    | some tx => exact addTransaction_entries hwired hindexed tx
    | none => exact ⟨hindexed, fun e he => entitled_of_mem he⟩

/-- A coherent node is so after any act. -/
theorem Coherent.act (h : n.Coherent) (hwired : n.Wired) (a : Act ω) : (n.act a).Coherent := by
  obtain ⟨hindexed, hentries⟩ := act_entries hwired h.indexed a
  have hgrows : n.Grows (n.takes a).toList (n.act a) := hwired.grows.moves (act_moves hwired a)
  refine ⟨hindexed, ?_⟩
  rw [hgrows.judge, hgrows.utxos]
  intro e he
  cases hentries e he with
  | stayed hmem happart =>
    cases htaken : n.takes a with
    | none => exact h.valid e hmem
    | some b => exact checkTransaction_follow (h.valid e hmem) (happart b htaken)
  | joined hnone hok =>
    rw [hnone]
    exact hok

/-- A coherent node is so after any run. -/
theorem Coherent.run (h : n.Coherent) (hwired : n.Wired) (acts : List (Act ω)) :
    (n.run acts).node.Coherent := by
  induction acts using List.reverseRecOn with
  | nil => exact h
  | append_singleton acts a ih =>
    rw [run_append]
    exact ih.act (run_grows hwired acts).wired a

omit [Observer ω] in
/-- A node that could be opened judges as it was told to. -/
lemma judge_of_open? {primitives : Primitives} {params : ChainParams} {limits : SyncSettings}
    {store : σ} (hopen : open? primitives params limits store = some (.ok n)) :
    n.judge = ⟨primitives, params.targetBits, params.rewards⟩ := by
  obtain ⟨chain, utxos, rfl⟩ := open?_cases hopen
  rfl

omit [Observer ω] in
/-- A node that could be opened is coherent, its pool being empty. -/
lemma coherent_of_open? {primitives : Primitives} {params : ChainParams} {limits : SyncSettings}
    {store : σ} (hopen : open? primitives params limits store = some (.ok n)) : n.Coherent := by
  obtain ⟨chain, utxos, rfl⟩ := open?_cases hopen
  exact coherent_of_pool_empty rfl

variable {primitives : Primitives} {params : ChainParams} {limits : SyncSettings} {store : σ}

/-- After every run of a node opened over any store, each pooled transaction is accepted over the
unspent outputs with the fee it is pooled with, and this fee is exactly what its inputs leave over
its outputs. It spends something that a block of the run has consumed only if an output was made
again: the unspent outputs refused the block because it makes one that was there, or one twice, or
this block or a later one has made anew what was consumed. Without collisions neither happens unless
a block of the run makes an output that was there when the node was opened, and over a fresh store
nothing was. -/
theorem pool_stays_valid (hopen : Node.open? primitives params limits store = some (.ok n))
    (acts : List (Act ω)) :
    let r := n.run acts
    (∀ e ∈ r.node.pool.entries,
      r.node.judge.checkTransaction e.transaction r.node.utxos = .ok e.fee) ∧
    (∀ e ∈ r.node.pool.entries,
      e.fee.toNat + e.transaction.outputTotal = e.transaction.inputTotal r.node.utxos) ∧
    (∀ front b back, r.blocks = front ++ b :: back → ∀ o ∈ b.spent, ∀ e ∈ r.node.pool.entries,
      o ∈ e.transaction.sources →
        (∃ f, (front.foldl UtxoSet.follow n.utxos).apply b = .error f) ∧
            (front.foldl UtxoSet.follow n.utxos).Repeats b ∨
          o ∈ (Ledger.created (b :: back)).map Prod.fst) ∧
    ((∀ b ∈ r.blocks, b.Fits) →
      CollisionFree primitives.digest (Ledger.messages primitives.digest r.blocks) →
      (∀ o ∈ (Ledger.created r.blocks).map Prod.fst, n.utxos.isLive o = false) →
      ∀ e ∈ r.node.pool.entries, ∀ o ∈ e.transaction.sources, o ∉ Ledger.spent r.blocks) ∧
    (Storage.IsFresh store → ∀ o, n.utxos.isLive o = false) := by
  intro r
  have hwired : n.Wired := wired_of_open? hopen
  have hcoherent : r.node.Coherent := (coherent_of_open? hopen).run hwired acts
  have hutxos : r.node.utxos = r.blocks.foldl UtxoSet.follow n.utxos :=
    (run_grows hwired acts).utxos
  have haccepted : Ledger.AcceptedOn n.judge n.tip n.utxos r.blocks := run_acceptedOn hwired acts
  refine ⟨hcoherent.valid, fun e he => ?_, ?_, ?_, fun hfresh o => ?_⟩
  · obtain ⟨hvalid, hfee⟩ := Judge.checkTransaction_eq_ok_iff.mp (hcoherent.valid e he)
    have hbalanced := hvalid.balanced
    rw [hfee, Transaction.surplus]
    omega
  · intro front b back hsplit o ho e he hsource
    have hlive := hcoherent.live he hsource
    rw [hutxos, hsplit] at hlive
    rw [hsplit] at haccepted
    obtain ⟨coinbase, others, hvalid⟩ := haccepted.valid
    refine (UtxoSet.refused_or_mem_created ho hlive).imp_left fun hrefused => ?_
    obtain ⟨f, herror⟩ := hrefused
    exact ⟨⟨f, herror⟩, UtxoSet.repeats_of_apply_error hvalid herror⟩
  · intro hfits hfree hnew e he o hsource
    have hjudge : n.judge = ⟨primitives, params.targetBits, params.rewards⟩ := judge_of_open? hopen
    rw [hjudge] at haccepted
    have hlive := hcoherent.live he hsource
    rw [hutxos] at hlive
    exact ((haccepted.settledOn hfree hfits hnew).of_isLive hlive).2
  · rw [show n.utxos = Ledger.utxos [] from (holds_of_open? hfresh hopen).1.utxos]
    rfl

end Node

namespace Sample

/-- A block that no judge would accept: besides the coinbase of its own height it has those of two
later ones. -/
def sown : Block := block "" 0 [coinbase 0 50, coinbase 2 12, coinbase 3 6]

/-- A store into which this block was written all the same. -/
def planted : VolatileStore :=
  (VolatileStore.empty.persistHeader sown.hash sown.header).persistBlock sown

/-- Spends the coinbase of the height two. -/
def early : Transaction := spend ((coinbase 2 12).outpoint 0) [⟨12, lock⟩]

/-- Consumes that coinbase before its own block has come. -/
def reaping : Block := block sown.hash 1 [coinbase 1 20, early]

/-- Makes it anew. -/
def renewing : Block := block reaping.hash 2 [coinbase 2 12]

/-- Makes a coinbase that is there already. -/
def colliding : Block := block renewing.hash 3 [coinbase 3 6, payment]

/-- Two transactions are pooled behind blocks that have them. -/
def resowing : List (Act Watcher) :=
  [.block reaping, .block renewing, .transaction early, .block colliding, .transaction payment]

lemma run_resowing :
    let opened := Node.open? (ω := Watcher) primitives params {} planted
    opened.map (fun r => r.toOption.map fun n =>
      let r := n.run resowing
      (r.blocks, r.node.pool.entries.map PoolEntry.transaction)) =
      some (some ([reaping, renewing, colliding], [payment, early])) := by
  decide +kernel

/-- Over a store with an unjudged body a node takes two blocks each of which consumes an output that a
transaction in the pool spends. The first output has been made anew since; the second one has never
been taken out, because the unspent outputs refuse the block. -/
theorem pool_spends_consumed : ∃ m : Node VolatileStore Watcher,
    Node.open? primitives params {} planted = some (.ok m) ∧
      (m.run resowing).blocks = [reaping, renewing, colliding] ∧
      (∃ e ∈ (m.run resowing).node.pool.entries, ∃ o ∈ e.transaction.sources, o ∈ reaping.spent) ∧
      ∃ e ∈ (m.run resowing).node.pool.entries, ∃ o ∈ e.transaction.sources,
        o ∈ colliding.spent := by
  obtain ⟨r, hopen, hrun⟩ := Option.map_eq_some_iff.mp run_resowing
  obtain ⟨m, hok, hends⟩ := Option.map_eq_some_iff.mp hrun
  obtain rfl : r = .ok m := by
    cases r with
    | error f => cases hok
    | ok m' => exact congrArg Except.ok (Option.some.inj hok)
  obtain ⟨hblocks, hpool⟩ := Prod.mk.inj hends
  have hof : ∀ tx ∈ [payment, early], ∃ e ∈ (m.run resowing).node.pool.entries,
      e.transaction = tx := by
    rw [← hpool]
    exact fun tx htx => List.mem_map.mp htx
  obtain ⟨e, he, htx⟩ := hof early (by simp)
  obtain ⟨e', he', htx'⟩ := hof payment (by simp)
  refine ⟨m, hopen, hblocks, ⟨e, he, (coinbase 2 12).outpoint 0, ?_, ?_⟩,
    e', he', (coinbase 0 50).outpoint 0, ?_, ?_⟩
  · rw [htx]
    decide +kernel
  · decide +kernel
  · rw [htx']
    decide +kernel
  · decide +kernel

/-- The payment waits in the pool for a block. -/
def waiting : List (Act Watcher) :=
  [.transaction payment, .block first, .transaction payment, .transaction payment]

lemma blocks_run_waiting : (node.run waiting).blocks = [first] := by decide +kernel

/-- The payment is pooled with its fee. -/
lemma payment_mem_waiting : ∃ e ∈ (node.run waiting).node.pool.entries,
    e.transaction = payment ∧ e.fee = 5 := by decide +kernel

end Sample

namespace Node

open Sample in
/-- The payment that waits in the sample node is accepted with a fee of five. -/
theorem pool_stays_valid_of_waiting :
    (Sample.node.run waiting).node.judge.checkTransaction payment
        (Sample.node.run waiting).node.utxos = .ok 5 ∧
      5 + payment.outputTotal = payment.inputTotal (Sample.node.run waiting).node.utxos ∧
      ∀ o ∈ payment.sources, o ∉ Ledger.spent (Sample.node.run waiting).blocks := by
  obtain ⟨hvalid, hexact, -, hunspent, hvacant⟩ := pool_stays_valid open?_node waiting
  have hsub : [first] ⊆ [first, second, third] := by simp
  have hfits : ∀ b ∈ (Sample.node.run waiting).blocks, b.Fits := by
    rw [blocks_run_waiting]
    exact fun b hb => fits b (hsub hb)
  have hfree : CollisionFree Sample.digest
      (Ledger.messages Sample.digest (Sample.node.run waiting).blocks) := by
    rw [blocks_run_waiting]
    exact collisionFree.mono (Ledger.messages_mono hsub)
  obtain ⟨e, he, htx, hfee⟩ := payment_mem_waiting
  have hverdict := hvalid e he
  have hfive := hexact e he
  have happart := hunspent hfits hfree (fun o _ => hvacant ⟨_, rfl, rfl⟩ o) e he
  rw [htx, hfee] at hverdict
  rw [htx, hfee] at hfive
  rw [htx] at happart
  exact ⟨hverdict, hfive, happart⟩

end Node

end PowLedger
