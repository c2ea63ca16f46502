import Mathlib.Data.List.Induction
import Mathlib.Data.List.Nodup
import Mathlib.Tactic.Common
import Mathlib.Tactic.Lemma
import PowLedger.Proofs.Ledger.Chain

/-!
# Nothing is spent twice

The judge never looks whether the places of new outputs are free, while the set of unspent outputs
refuses a block that makes an output in the place of a live one. The two agree all the same, because
no id comes twice in a chain: a coinbase states the height of its block, and any other transaction
consumes an output that no earlier one can have consumed. This needs that the bytes behind the ids
do not collide, and that no block makes an output that was there before all of them: the blocks may
stand on any chain (`Ledger.AcceptedOn.settledOn`). Main statements: `Ledger.Accepted.settled`, by
which the unspent outputs are those made and not consumed, and `Ledger.Accepted.apply_eq_ok`, by
which the set takes every block that the judge accepts.
-/

namespace PowLedger

/-! ### Ids that come once -/

/-- Items with different marks have different names, if items of one name have one and the same
marks and each item has a mark. -/
lemma nodup_map_of_nodup_flatMap {α β γ : Type} {l : List α} {mark : α → List β} {name : α → γ}
    (hmarks : (l.flatMap mark).Nodup) (hmarked : ∀ a ∈ l, mark a ≠ [])
    (hname : ∀ a ∈ l, ∀ b ∈ l, name a = name b → mark a = mark b) : (l.map name).Nodup := by
  induction l with
  | nil => exact List.nodup_nil
  | cons a l ih =>
    rw [List.flatMap_cons, List.nodup_append] at hmarks
    obtain ⟨-, hrest, hapart⟩ := hmarks
    refine List.nodup_cons.mpr ⟨fun hmem => ?_, ih hrest
      (fun b hb => hmarked b (List.mem_cons_of_mem _ hb))
      fun b hb c hc => hname b (List.mem_cons_of_mem _ hb) c (List.mem_cons_of_mem _ hc)⟩
    obtain ⟨b, hb, hba⟩ := List.mem_map.mp hmem
    have heq : mark b = mark a :=
      hname b (List.mem_cons_of_mem _ hb) a List.mem_cons_self hba
    obtain ⟨m, hm⟩ := List.exists_mem_of_ne_nil _ (hmarked a List.mem_cons_self)
    exact hapart m hm m (List.mem_flatMap.mpr ⟨b, hb, heq ▸ hm⟩) rfl

/-- The outputs of a transaction lie under its id. -/
lemma Transaction.txid_of_mem_created {tx : Transaction} {o : Outpoint} {out : TxOutput}
    (h : (o, out) ∈ tx.created) : o.txid = tx.id := by
  obtain ⟨⟨out', i⟩, -, heq⟩ := List.mem_map.mp h
  cases heq
  rfl

/-- A transaction makes no output twice. -/
lemma Transaction.nodup_created {tx : Transaction} (h : Counted tx.outputs) :
    (tx.created.map Prod.fst).Nodup := by
  have hindex : tx.created.map Prod.fst = (List.range tx.outputs.length).map tx.outpoint := by
    rw [Transaction.created, List.map_map, List.range_eq_range', ← List.zipIdx_map_snd 0 tx.outputs,
      List.map_map]
    rfl
  rw [hindex]
  refine List.Nodup.map_on (fun m hm n hn heq => ?_) List.nodup_range
  have hword : UInt64.ofNat m = UInt64.ofNat n := congrArg Outpoint.index heq
  have hm' : m < UInt64.size := Nat.lt_trans (List.mem_range.mp hm) h
  have hn' : n < UInt64.size := Nat.lt_trans (List.mem_range.mp hn) h
  rw [← UInt64.toNat_ofNat_of_lt' hm', ← UInt64.toNat_ofNat_of_lt' hn', hword]

/-- Transactions with different ids make no output twice. -/
lemma nodup_created_of_nodup_ids {txs : List Transaction}
    (hids : (txs.map Transaction.id).Nodup) (hfits : ∀ tx ∈ txs, tx.Fits) :
    ((txs.flatMap Transaction.created).map Prod.fst).Nodup := by
  induction txs with
  | nil => exact List.nodup_nil
  | cons tx txs ih =>
    rw [List.map_cons, List.nodup_cons] at hids
    rw [List.flatMap_cons, List.map_append, List.nodup_append]
    refine ⟨Transaction.nodup_created (hfits tx List.mem_cons_self).outputs,
      ih hids.2 fun u hu => hfits u (List.mem_cons_of_mem _ hu), ?_⟩
    rintro o ho p hp rfl
    obtain ⟨⟨o, out⟩, hout, rfl⟩ := List.mem_map.mp ho
    obtain ⟨⟨o', out'⟩, hout', hsame⟩ := List.mem_map.mp hp
    obtain ⟨u, hu, hcreated⟩ := List.mem_flatMap.mp hout'
    have hid : u.id = tx.id := by
      rw [← Transaction.txid_of_mem_created hcreated, ← Transaction.txid_of_mem_created hout]
      exact congrArg Outpoint.txid hsame
    exact hids.1 (hid ▸ List.mem_map_of_mem hu)

namespace Ledger

/-! ### The invariant -/

/-- The books of blocks on top of a chain with these unspent outputs are in order. -/
structure SettledOn (s : UtxoSet) (blocks : List Block) : Prop where
  /-- Every id comes once. -/
  ids : ((transactions blocks).map Transaction.id).Nodup
  /-- Every output is made once. -/
  createdOnce : ((created blocks).map Prod.fst).Nodup
  /-- Every output is consumed at most once. -/
  spentOnce : (spent blocks).Nodup
  /-- Only what was there or was made is consumed. -/
  spentKnown : ∀ o ∈ spent blocks, s.isLive o = true ∨ o ∈ (created blocks).map Prod.fst
  /-- The unspent outputs are those made or there at first, and not consumed. -/
  unspent : ∀ o out, (blocks.foldl UtxoSet.follow s).get? o = some out ↔
    ((o, out) ∈ created blocks ∨ s.get? o = some out) ∧ o ∉ spent blocks

/-- The books of a chain are in order. -/
structure Settled (blocks : List Block) : Prop where
  /-- Every id comes once. -/
  ids : ((transactions blocks).map Transaction.id).Nodup
  /-- Every output is made once. -/
  createdOnce : ((created blocks).map Prod.fst).Nodup
  /-- Every output is consumed at most once. -/
  spentOnce : (spent blocks).Nodup
  /-- Only what was made is consumed. -/
  spentCreated : ∀ o ∈ spent blocks, o ∈ (created blocks).map Prod.fst
  /-- The unspent outputs are those made and not consumed. -/
  unspent : ∀ o out, (utxos blocks).get? o = some out ↔
    (o, out) ∈ created blocks ∧ o ∉ spent blocks

/-- On top of no block the books are in order if nothing was there at first. -/
lemma SettledOn.settled {blocks : List Block} (h : SettledOn UtxoSet.empty blocks) :
    Settled blocks where
  ids := h.ids
  createdOnce := h.createdOnce
  spentOnce := h.spentOnce
  spentCreated := fun o ho => (h.spentKnown o ho).resolve_left Bool.false_ne_true
  unspent := fun o out => by
    rw [utxos, h.unspent]
    simp [UtxoSet.get?, UtxoSet.empty]

variable {j : Judge} {t : Tip} {s : UtxoSet} {blocks : List Block} {b : Block}
  {coinbase : Transaction} {others : List Transaction}

/-- A live outpoint was made and not consumed. -/
lemma Settled.of_isLive (h : Settled blocks) {o : Outpoint}
    (hlive : (utxos blocks).isLive o = true) :
    o ∈ (created blocks).map Prod.fst ∧ o ∉ spent blocks := by
  obtain ⟨out, hout⟩ := Table.contains_iff.mp hlive
  obtain ⟨hmade, hunspent⟩ := (h.unspent o out).mp hout
  exact ⟨List.mem_map_of_mem hmade, hunspent⟩

/-- An outpoint that is live above the blocks was there or was made, and is not consumed. -/
lemma SettledOn.of_isLive (h : SettledOn s blocks) {o : Outpoint}
    (hlive : (blocks.foldl UtxoSet.follow s).isLive o = true) :
    (s.isLive o = true ∨ o ∈ (created blocks).map Prod.fst) ∧ o ∉ spent blocks := by
  obtain ⟨out, hout⟩ := Table.contains_iff.mp hlive
  obtain ⟨hmade | hthere, hunspent⟩ := (h.unspent o out).mp hout
  · exact ⟨Or.inr (List.mem_map_of_mem hmade), hunspent⟩
  · exact ⟨Or.inl (Table.contains_iff.mpr ⟨out, hthere⟩), hunspent⟩

/-- Without blocks the books are in order. -/
lemma settledOn_nil : SettledOn s [] where
  ids := List.nodup_nil
  createdOnce := List.nodup_nil
  spentOnce := List.nodup_nil
  spentKnown := fun _ h => nomatch h
  unspent := fun o out => by simp [created, spent]

/-- The transactions of blocks that fit do so too. -/
lemma fits_of_mem (hfits : ∀ b ∈ blocks, b.Fits) {tx : Transaction}
    (htx : tx ∈ transactions blocks) : tx.Fits := by
  obtain ⟨b, hb, hmem⟩ := List.mem_flatMap.mp htx
  exact (hfits b hb).eachTransaction tx hmem

/-- Transactions with one id have the same inputs and the same data. -/
lemma inputs_eq_of_id_eq {t u : Transaction}
    (hfree : CollisionFree j.digest (messages j.digest blocks)) (hfits : ∀ b ∈ blocks, b.Fits)
    (ht : t ∈ transactions blocks) (hu : u ∈ transactions blocks)
    (htid : t.computedId j.digest = t.id) (huid : u.computedId j.digest = u.id)
    (h : t.id = u.id) : t.inputs = u.inputs ∧ t.coinbaseData = u.coinbaseData := by
  refine Transaction.inputs_eq_of_idBytes_eq (fits_of_mem hfits ht) (fits_of_mem hfits hu) ?_
  refine hfree _ (idBytes_mem_messages ht) _ (idBytes_mem_messages hu) ?_
  rw [← htid, ← huid] at h
  exact h

/-! ### One more block -/

/-- The ids of a valid block come once in it. -/
lemma nodup_ids_block {tip : Tip} {s : UtxoSet}
    (hvalid : j.ValidBlock tip s b coinbase others)
    (hfree : CollisionFree j.digest (messages j.digest [b])) (hfits : b.Fits) : b.ids.Nodup := by
  have hmem : ∀ tx ∈ b.transactions, tx ∈ transactions [b] := by simp [transactions]
  have hsame : ∀ t ∈ b.transactions, ∀ u ∈ b.transactions, t.id = u.id → t.inputs = u.inputs :=
    fun t ht u hu h => (inputs_eq_of_id_eq hfree (by simpa using hfits) (hmem t ht) (hmem u hu)
      (hvalid.computedId ht) (hvalid.computedId hu) h).1
  rw [hvalid.transactions] at hsame
  have hothers : (others.map Transaction.id).Nodup := by
    refine nodup_map_of_nodup_flatMap hvalid.spentOnce (fun tx htx hnone => ?_)
      fun t ht u hu h => ?_
    · exact (hvalid.spends tx htx).inputs (List.map_eq_nil_iff.mp hnone)
    · rw [Transaction.sources, Transaction.sources,
        hsame t (List.mem_cons_of_mem _ ht) u (List.mem_cons_of_mem _ hu) h]
  rw [Block.ids, hvalid.transactions, List.map_cons, List.nodup_cons]
  refine ⟨fun hcoinbase => ?_, hothers⟩
  obtain ⟨tx, htx, hid⟩ := List.mem_map.mp hcoinbase
  have hin := hsame tx (List.mem_cons_of_mem _ htx) coinbase List.mem_cons_self hid
  exact (hvalid.spends tx htx).inputs (hin.trans hvalid.coinbaseInputs)

/-- The ids of a valid block are new to the blocks that it goes on top of. -/
lemma ids_fresh (haccepted : AcceptedOn j t s blocks) (hsettled : SettledOn s blocks)
    (hvalid : j.ValidBlock (t.above blocks) (blocks.foldl UtxoSet.follow s) b coinbase others)
    (hfree : CollisionFree j.digest (messages j.digest (blocks ++ [b])))
    (hfits : ∀ c ∈ blocks ++ [b], c.Fits) {tx u : Transaction} (htx : tx ∈ b.transactions)
    (hu : u ∈ transactions blocks) : tx.id ≠ u.id := by
  intro hid
  obtain ⟨c, hc, huc⟩ := List.mem_flatMap.mp hu
  obtain ⟨s', coinbase', others', tip', hbelow, hearlier⟩ := haccepted.valid_of_mem hc
  obtain ⟨hinputs, hdata⟩ := inputs_eq_of_id_eq hfree hfits
    (by rw [transactions_append]; exact List.mem_append_right _ htx)
    (by rw [transactions_append]; exact List.mem_append_left _ hu)
    (hvalid.computedId htx) (hearlier.computedId huc) hid
  by_cases hin : tx.inputs = []
  · -- Two coinbases state the heights of their blocks.
    rw [hvalid.eq_coinbase htx hin, hearlier.eq_coinbase huc (hinputs ▸ hin), hvalid.coinbaseData,
      hearlier.coinbaseData] at hdata
    have hheight : b.height = c.height := congrArg UInt64.toNat (bigEndian_word64_inj hdata)
    rw [hvalid.height, hearlier.height] at hheight
    exact absurd hheight (Nat.ne_of_gt hbelow)
  · -- The earlier transaction has consumed what this one consumes.
    obtain ⟨i, hi⟩ := List.exists_mem_of_ne_nil _ hin
    have hsource : i.source ∈ b.spent :=
      List.mem_flatMap.mpr ⟨tx, htx, List.mem_map_of_mem hi⟩
    have hgone : i.source ∈ spent blocks := List.mem_flatMap.mpr
      ⟨c, hc, List.mem_flatMap.mpr ⟨u, huc, List.mem_map_of_mem (hinputs ▸ hi)⟩⟩
    exact (hsettled.of_isLive (hvalid.live _ hsource)).2 hgone

namespace SettledOn

/-- With a valid block every id still comes once. -/
lemma nodup_ids_append (haccepted : AcceptedOn j t s blocks) (hsettled : SettledOn s blocks)
    (hvalid : j.ValidBlock (t.above blocks) (blocks.foldl UtxoSet.follow s) b coinbase others)
    (hfree : CollisionFree j.digest (messages j.digest (blocks ++ [b])))
    (hfits : ∀ c ∈ blocks ++ [b], c.Fits) :
    ((transactions (blocks ++ [b])).map Transaction.id).Nodup := by
  have hfreeb : CollisionFree j.digest (messages j.digest [b]) :=
    hfree.mono (messages_mono (List.subset_append_right _ _))
  rw [transactions_append, List.map_append, List.nodup_append]
  refine ⟨hsettled.ids, nodup_ids_block hvalid hfreeb (hfits b (by simp)), ?_⟩
  rintro x hx y hy rfl
  obtain ⟨u, hu, rfl⟩ := List.mem_map.mp hx
  obtain ⟨tx, htx, hid⟩ := List.mem_map.mp hy
  exact ids_fresh haccepted hsettled hvalid hfree hfits htx hu hid

/-- What a block makes was neither there at first nor made below it, if no output is made again. -/
lemma not_known_of_created (hcreated : ((created (blocks ++ [b])).map Prod.fst).Nodup)
    (hnew : ∀ o ∈ (created (blocks ++ [b])).map Prod.fst, s.isLive o = false) {o : Outpoint}
    (ho : o ∈ b.created.map Prod.fst) :
    ¬(s.isLive o = true ∨ o ∈ (created blocks).map Prod.fst) := by
  rw [created_append, List.map_append] at hcreated hnew
  rintro (hthere | hmade)
  · exact Bool.eq_false_iff.mp (hnew o (List.mem_append_right _ ho)) hthere
  · exact (List.nodup_append.mp hcreated).2.2 o hmade o ho rfl

/-- The set of unspent outputs takes a valid block that makes no output again. -/
lemma apply_append (hsettled : SettledOn s blocks)
    (hvalid : j.ValidBlock (t.above blocks) (blocks.foldl UtxoSet.follow s) b coinbase others)
    (hcreated : ((created (blocks ++ [b])).map Prod.fst).Nodup)
    (hnew : ∀ o ∈ (created (blocks ++ [b])).map Prod.fst, s.isLive o = false) :
    (blocks.foldl UtxoSet.follow s).apply b = .ok ((blocks ++ [b]).foldl UtxoSet.follow s) := by
  have hfirst : ¬(blocks.foldl UtxoSet.follow s).Repeats b := by
    rintro (⟨o, ho, hlive⟩ | htwice)
    · exact not_known_of_created hcreated hnew ho (hsettled.of_isLive hlive).1
    · rw [created_append, List.map_append] at hcreated
      exact htwice (List.nodup_append.mp hcreated).2.1
  have hok := UtxoSet.apply_eq_ok_iff.mpr ⟨hvalid.takes hfirst, rfl⟩
  rw [List.foldl_concat, UtxoSet.follow_of_apply hok]
  exact hok

/-- What is unspent behind a valid block was made or there at first, and is not consumed. -/
lemma unspent_append (hsettled : SettledOn s blocks)
    (hvalid : j.ValidBlock (t.above blocks) (blocks.foldl UtxoSet.follow s) b coinbase others)
    (hcreated : ((created (blocks ++ [b])).map Prod.fst).Nodup)
    (hnew : ∀ o ∈ (created (blocks ++ [b])).map Prod.fst, s.isLive o = false)
    (o : Outpoint) (out : TxOutput) :
    ((blocks ++ [b]).foldl UtxoSet.follow s).get? o = some out ↔
      ((o, out) ∈ created (blocks ++ [b]) ∨ s.get? o = some out) ∧ o ∉ spent (blocks ++ [b]) := by
  rw [UtxoSet.get?_apply (hsettled.apply_append hvalid hcreated hnew), hsettled.unspent,
    created_append, spent_append, List.mem_append, List.mem_append, not_or]
  constructor
  · rintro (hmade | ⟨⟨hold | hthere, hunspent⟩, hkept⟩)
    · have hunknown := not_known_of_created hcreated hnew (List.mem_map_of_mem hmade)
      exact ⟨Or.inl (Or.inr hmade), fun ho => hunknown (hsettled.spentKnown o ho),
        fun ho => hunknown (hsettled.of_isLive (hvalid.live o ho)).1⟩
    · exact ⟨Or.inl (Or.inl hold), hunspent, hkept⟩
    · exact ⟨Or.inr hthere, hunspent, hkept⟩
  · rintro ⟨(hold | hmade) | hthere, hunspent, hkept⟩
    · exact Or.inr ⟨⟨Or.inl hold, hunspent⟩, hkept⟩
    · exact Or.inl hmade
    · exact Or.inr ⟨⟨Or.inr hthere, hunspent⟩, hkept⟩

/-- If the books are in order, the set of unspent outputs takes every valid block that makes nothing
that was there at first, and they are in order afterwards. -/
lemma append (haccepted : AcceptedOn j t s blocks) (hsettled : SettledOn s blocks)
    (hvalid : j.ValidBlock (t.above blocks) (blocks.foldl UtxoSet.follow s) b coinbase others)
    (hfree : CollisionFree j.digest (messages j.digest (blocks ++ [b])))
    (hfits : ∀ c ∈ blocks ++ [b], c.Fits)
    (hnew : ∀ o ∈ (created (blocks ++ [b])).map Prod.fst, s.isLive o = false) :
    (blocks.foldl UtxoSet.follow s).apply b = .ok ((blocks ++ [b]).foldl UtxoSet.follow s) ∧
      SettledOn s (blocks ++ [b]) := by
  have hids := hsettled.nodup_ids_append haccepted hvalid hfree hfits
  have hcreated : ((created (blocks ++ [b])).map Prod.fst).Nodup := by
    rw [created_eq]
    exact nodup_created_of_nodup_ids hids fun tx htx => fits_of_mem hfits htx
  have hlast : ∀ o ∈ b.spent,
      (s.isLive o = true ∨ o ∈ (created blocks).map Prod.fst) ∧ o ∉ spent blocks :=
    fun o ho => hsettled.of_isLive (hvalid.live o ho)
  refine ⟨hsettled.apply_append hvalid hcreated hnew, hids, hcreated, ?_, ?_,
    hsettled.unspent_append hvalid hcreated hnew⟩
  · rw [spent_append, List.nodup_append]
    refine ⟨hsettled.spentOnce, hvalid.nodup_spent, ?_⟩
    rintro o ho p hp rfl
    exact (hlast o hp).2 ho
  · intro o ho
    have hknown : s.isLive o = true ∨ o ∈ (created blocks).map Prod.fst := by
      rw [spent_append] at ho
      rcases List.mem_append.mp ho with hold | hnew
      · exact hsettled.spentKnown o hold
      · exact (hlast o hnew).1
    rw [created_append, List.map_append]
    exact hknown.imp_right (List.mem_append_left _)

end SettledOn

/-! ### The whole chain -/

/-- The books are in order of all blocks that make nothing that was there at first. -/
theorem AcceptedOn.settledOn (h : AcceptedOn j t s blocks)
    (hfree : CollisionFree j.digest (messages j.digest blocks)) (hfits : ∀ b ∈ blocks, b.Fits)
    (hnew : ∀ o ∈ (created blocks).map Prod.fst, s.isLive o = false) : SettledOn s blocks := by
  induction h with
  | nil => exact settledOn_nil
  | @snoc blocks b fees hbefore hok ih =>
    obtain ⟨coinbase, others, hvalid⟩ := Judge.checkBlock_isOk_iff.mp ⟨fees, hok⟩
    have hsettled := ih (hfree.mono (messages_mono (List.subset_append_left _ _)))
      (fun c hc => hfits c (List.mem_append_left _ hc)) fun o ho => hnew o (by
        rw [created_append, List.map_append]
        exact List.mem_append_left _ ho)
    exact (hsettled.append hbefore hvalid hfree hfits hnew).2

/-- The books of every accepted chain are in order. -/
theorem Accepted.settled (h : Accepted j blocks)
    (hfree : CollisionFree j.digest (messages j.digest blocks)) (hfits : ∀ b ∈ blocks, b.Fits) :
    Settled blocks :=
  (h.on.settledOn hfree hfits fun _ _ => rfl).settled

/-- The set of unspent outputs takes every block that the judge accepts. -/
theorem Accepted.apply_eq_ok (h : Accepted j blocks)
    (hfree : CollisionFree j.digest (messages j.digest (blocks ++ [b])))
    (hfits : ∀ c ∈ blocks ++ [b], c.Fits) {fees : Amount}
    (hok : j.checkBlock b (tip blocks) (utxos blocks) = .ok fees) :
    (utxos blocks).apply b = .ok (utxos (blocks ++ [b])) := by
  obtain ⟨coinbase, others, hvalid⟩ := Judge.checkBlock_isOk_iff.mp ⟨fees, hok⟩
  rw [tip_eq_above] at hvalid
  have hsettled := h.on.settledOn (hfree.mono (messages_mono (List.subset_append_left _ _)))
    (fun c hc => hfits c (List.mem_append_left _ hc)) fun _ _ => rfl
  exact (hsettled.append h.on hvalid hfree hfits fun _ _ => rfl).1

/-- Every block of an accepted chain was taken by the set of unspent outputs of those before it. -/
theorem Accepted.applied {front back : List Block} (h : Accepted j (front ++ b :: back))
    (hfree : CollisionFree j.digest (messages j.digest (front ++ b :: back)))
    (hfits : ∀ c ∈ front ++ b :: back, c.Fits) :
    (utxos front).apply b = .ok (utxos (front ++ [b])) := by
  have hfirst : front ++ [b] ⊆ front ++ b :: back := by
    intro c hc
    rcases List.mem_append.mp hc with hc | hc <;> simp_all
  obtain ⟨fees, hok⟩ := h.verdict
  exact h.front.apply_eq_ok (hfree.mono (messages_mono hfirst)) (fun c hc => hfits c (hfirst hc))
    hok

/-- A block consumes only what blocks before it have made. -/
theorem Accepted.spent_earlier {front back : List Block} (h : Accepted j (front ++ b :: back))
    (hfree : CollisionFree j.digest (messages j.digest (front ++ b :: back)))
    (hfits : ∀ c ∈ front ++ b :: back, c.Fits) :
    ∀ o ∈ b.spent, o ∈ (created front).map Prod.fst := by
  obtain ⟨coinbase, others, hvalid⟩ := h.valid
  have hsettled := h.front.settled (hfree.mono (messages_mono (List.subset_append_left _ _)))
    fun c hc => hfits c (List.mem_append_left _ hc)
  exact fun o ho => (hsettled.of_isLive (hvalid.live o ho)).1

end Ledger

end PowLedger
