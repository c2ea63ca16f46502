import Mathlib.Data.List.Induction
import Mathlib.Tactic.Common
import Mathlib.Tactic.Lemma
import PowLedger.Proofs.Node.Frame
import PowLedger.Proofs.Node.Recovery
import PowLedger.Proofs.Store.Law

/-!
# One chain in four places

A node knows its chain by the hash of its tip, by its height, by the table of its headers and by its
store. Each of these is written by admission and again by reconstruction. They agree at all times if
the store starts fresh and refuses no body, if no digest is empty, and if the headers of the blocks
taken do not collide: there is one list of linked headers that all of them describe, `Node.Stands`.
Nothing is asked of the transactions. A set of unspent outputs may refuse a block that the judge has
accepted; then a reconstruction fails, and leaves the chain as it was. What this comes to for
someone who asks the node is `Node.Linkage`.
-/

namespace PowLedger

/-! ### Changes -/

/-- Something that happens to a node: an act, or the node reads its store again. -/
inductive Change (ω : Type) where
  | act (a : Act ω)
  | reconstruct

section Change

variable {σ ω : Type} [Storage σ] [Observer ω]

/-- The trace after a change. -/
def Trace.change (t : Trace σ ω) : Change ω → Trace σ ω
  | .act a => t.act a
  | .reconstruct =>
    match t.node.reconstruct? with
    | some (node, _) => ⟨node, t.blocks⟩
    | none => t

/-- What a node comes to by changes, and the blocks that it takes on the way. -/
def Node.changes (n : Node σ ω) (changes : List (Change ω)) : Trace σ ω :=
  changes.foldl Trace.change ⟨n, []⟩

end Change

/-! ### Stores that back a chain -/

namespace Storage

variable {σ : Type} [Storage σ] {store store' : σ} {digest : Hasher} {hs : List Header}

/-- The store has these headers under their hashes and a body for each of them, and it leads to the
last one. -/
structure Backs (store : σ) (digest : Hasher) (hs : List Header) : Prop where
  headers : ∀ h ∈ hs, Storage.header store (h.hash digest) = .ok h
  bodies : ∀ h ∈ hs, ∃ b, Storage.block store (h.hash digest) = .ok b
  start : hs = [] → NotFound (Storage.lastBlockHash store)
  last : hs ≠ [] → Storage.lastBlockHash store = .ok (Ledger.headTip digest hs).hash

/-- The walk back through a store that backs linked headers finds them, newest first. -/
lemma Backs.collect? [Storage.Lawful σ] {j : Judge} (h : Backs store j.digest hs)
    (hlinked : Ledger.Linked j hs) (hdigest : ∀ m, j.digest m ≠ [])
    (hnodup : (hs.map (Header.hash j.digest)).Nodup) (hne : hs ≠ []) :
    Walk.collect? store (Ledger.headTip j.digest hs).hash =
      some (.ok (hs.map (Header.entry j.digest)).reverse) := by
  have hbound : hs.length ≤ Storage.headerBound store := by
    rw [← List.length_map (Header.hash j.digest)]
    refine Storage.Lawful.length_le_headerBound hnodup fun k hk => ?_
    obtain ⟨x, hx, rfl⟩ := List.mem_map.mp hk
    exact ⟨x, h.headers x hx⟩
  rw [← List.map_reverse]
  exact Walk.collect_headTip hlinked hdigest h.headers hne (Nat.le_succ_of_le hbound)

/-- A store that refuses no body backs one more header once it has been handed the block. -/
lemma Backs.take [Storage.Reliable σ] (h : Backs store digest hs) {b : Block}
    (hhash : b.hash = b.header.hash digest) (hfits : b.Fits)
    (hnodup : ((hs ++ [b.header]).map (Header.hash digest)).Nodup)
    (hpersist : Storage.persistHeader store b.hash b.header = .ok store') :
    Backs (Storage.handBlock store' b) digest (hs ++ [b.header]) := by
  obtain ⟨handed, hhanded⟩ := Storage.Reliable.persistBlock_ok store' b
  have hhand : Storage.handBlock store' b = handed := by rw [Storage.handBlock, hhanded]
  have hname : ∀ x : Header, EntryName (x.hash digest) := fun x => entryName_hex _
  have hnew : ∀ x ∈ hs, x.hash digest ≠ b.hash := by
    rw [List.map_append, List.nodup_append] at hnodup
    intro x hx
    rw [hhash]
    exact hnodup.2.2 _ (List.mem_map_of_mem hx) _ (List.mem_singleton_self _)
  rw [hhand]
  refine ⟨fun x hx => ?_, fun x hx => ?_, fun hempty => ?_, fun _ => ?_⟩
  · rw [Storage.Lawful.header_persistBlock _ hhanded]
    rcases List.mem_append.mp hx with hx | hx
    · rw [Storage.Lawful.header_persistHeader_of_ne hpersist (hname x) (hnew x hx)]
      exact h.headers x hx
    · rw [List.mem_singleton.mp hx, ← hhash]
      exact Storage.Lawful.header_persistHeader hpersist (hhash ▸ hname _) hfits.header
  · rcases List.mem_append.mp hx with hx | hx
    · rw [Storage.Lawful.block_persistBlock_of_ne hhanded (hname x) (hnew x hx),
        Storage.Lawful.block_persistHeader _ hpersist]
      exact h.bodies x hx
    · rw [List.mem_singleton.mp hx, ← hhash]
      exact ⟨b, Storage.Lawful.block_persistBlock hhanded (hhash ▸ hname _) hfits⟩
  · simp at hempty
  · rw [Storage.Lawful.lastBlockHash_persistBlock hhanded,
      Storage.Lawful.lastBlockHash_persistHeader hpersist, Ledger.headTip_append, hhash]

end Storage

namespace Node

variable {σ ω : Type} [Storage σ] {n m : Node σ ω} {hs : List Header}

/-! ### The invariant -/

omit [Storage σ] in
/-- A node hashes with the digest it judges by. -/
lemma digest_of_judge {j : Judge} (h : n.judge = j) : n.digest = j.digest :=
  congrArg Judge.digest h

/-- The tip, the headers and the store of the node all describe these linked headers. -/
structure Stands (n : Node σ ω) (hs : List Header) : Prop where
  wired : n.Wired
  linked : Ledger.Linked n.judge hs
  tip : n.tip = Ledger.headTip n.digest hs
  headers : n.headers = Ledger.headTable n.digest hs
  backed : Storage.Backs n.store n.digest hs

/-- After a move a node stands on one more header, or on the same ones. -/
lemma Stands.moves [Storage.Reliable σ] {taken : Option Block} (h : n.Stands hs)
    (hmoves : n.Moves taken m) (hfits : ∀ b ∈ taken, b.Fits)
    (hfree : CollisionFree n.digest ((hs ++ taken.toList.map Block.header).map Header.assemble)) :
    m.Stands (hs ++ taken.toList.map Block.header) ∧ m.judge = n.judge := by
  cases hmoves with
  | stay hwired hledger =>
    have hjudge : m.judge = n.judge := judge_eq_of_ledger (by rw [hledger]) (by rw [hledger])
    have hdigest : m.digest = n.digest := digest_of_judge hjudge
    have htip : m.tip = n.tip := congrArg₂ Tip.mk (congrArg LedgerState.tipHash hledger)
      (congrArg LedgerState.height hledger)
    have hheaders : m.headers = n.headers := congrArg LedgerState.headers hledger
    have hstore : m.store = n.store := congrArg LedgerState.store hledger
    rw [Option.toList_none, List.map_nil, List.append_nil]
    exact ⟨⟨hwired, hjudge ▸ h.linked, by rw [htip, hdigest, h.tip],
      by rw [hheaders, hdigest, h.headers], by rw [hstore, hdigest]; exact h.backed⟩, hjudge⟩
  | @take _ b fees store hok hpersist hwired hledger =>
    have hjudge : m.judge = n.judge :=
      judge_eq_of_ledger (by rw [hledger]; rfl) (by rw [hledger]; rfl)
    have hdigest : m.digest = n.digest := digest_of_judge hjudge
    rw [Option.toList_some, List.map_singleton] at hfree ⊢
    obtain ⟨coinbase, others, hvalid⟩ := Judge.checkBlock_isOk_iff.mp ⟨fees, hok⟩
    have hhash : b.hash = b.header.hash n.digest := hvalid.hash
    have hlinked : Ledger.Linked n.judge (hs ++ [b.header]) := by
      refine .snoc h.linked ?_
      have htip : n.tip = Ledger.headTip n.judge.digest hs := h.tip
      rw [← htip]
      exact Judge.checkHeader_eq_ok_iff.mpr
        ⟨hvalid.previous, hvalid.height, hvalid.target, hvalid.work⟩
    have htip : m.tip = ⟨b.hash, n.height + 1⟩ :=
      congrArg₂ Tip.mk (congrArg LedgerState.tipHash hledger) (congrArg LedgerState.height hledger)
    have hheight : n.height = hs.length := congrArg Tip.height h.tip
    have hheaders : m.headers = n.headers.insert b.hash b.header :=
      congrArg LedgerState.headers hledger
    have hstore : m.store = Storage.handBlock store b := congrArg LedgerState.store hledger
    refine ⟨⟨hwired, hjudge ▸ hlinked, ?_, ?_, ?_⟩, hjudge⟩
    · rw [htip, hdigest, Ledger.headTip_append, hhash, hheight]
    · rw [hheaders, hdigest, Ledger.headTable_append, hhash, h.headers]
    · rw [hstore, hdigest]
      exact h.backed.take hhash (hfits b rfl) (hlinked.nodup_hashes hfree) hpersist

/-! ### Reconstruction -/

omit [Storage σ] in
/-- Of linked headers with different hashes a node gets their tip, their number and their table. -/
lemma withChain_linked (n : Node σ ω) (hnodup : (hs.map (Header.hash n.digest)).Nodup) :
    n.withChain (hs.map (Header.entry n.digest)) =
      { n with
        tipHash := (Ledger.headTip n.digest hs).hash
        height := hs.length
        headers := Ledger.headTable n.digest hs } := by
  have htip : ((hs.map (Header.entry n.digest)).getLast?.map Prod.fst).getD "" =
      (Ledger.headTip n.digest hs).hash := by
    rw [List.getLast?_map, Option.map_map]
    rfl
  have hsize : (Ledger.headTable n.digest hs).size = hs.length := by
    rw [Table.size, Ledger.entries_headTable hnodup, List.length_map]
  rw [withChain, htip, ← Ledger.headTable, hsize]

/-- A rebuild over a store that backs the node's chain finds that chain, or it fails. -/
lemma Stands.rebuild?_eq [Storage.Lawful σ] (h : n.Stands hs) (hdigest : ∀ m, n.digest m ≠ [])
    (hnodup : (hs.map (Header.hash n.digest)).Nodup) :
    ∃ utxos, n.rebuild? =
        some ({ n.withChain (hs.map (Header.entry n.digest)) with utxos := utxos }, .ok ()) ∨
      ∃ f, n.rebuild? = some ({ n with utxos := utxos }, .error f) := by
  by_cases hempty : hs = []
  · subst hempty
    exact ⟨UtxoSet.empty, Or.inl (rebuild?_of_notFound (h.backed.start rfl))⟩
  · have hwalk : Walk.collect? n.store (Ledger.headTip n.digest hs).hash =
        some (.ok (hs.map (Header.entry n.digest)).reverse) :=
      h.backed.collect? (j := n.judge) h.linked hdigest hnodup hempty
    have hplaces : checkPlaces 0 (hs.map (Header.entry n.digest)).reverse.reverse = .ok () := by
      rw [List.reverse_reverse]
      exact checkPlaces_eq_ok h.linked
    have hbodies : ∀ e ∈ hs.map (Header.entry n.digest),
        ∃ b, Storage.block n.store e.1 = .ok b := by
      intro e he
      obtain ⟨x, hx, rfl⟩ := List.mem_map.mp he
      exact h.backed.bodies x hx
    obtain ⟨utxos, hreplay⟩ := replay_of_bodies UtxoSet.empty hbodies
    rw [rebuild?_of_collect (h.backed.last hempty) hwalk hplaces, List.reverse_reverse]
    refine ⟨utxos, ?_⟩
    rcases hreplay with hall | ⟨f, hfails⟩
    · exact Or.inl (by rw [hall, gathered])
    · exact Or.inr ⟨f, by rw [hfails, gathered]⟩

/-- Reconstruction over a store that backs the node's chain ends, and leaves the node standing on
this chain, whether it fails or not. -/
theorem Stands.reconstruct [Storage.Lawful σ] (h : n.Stands hs) (hdigest : ∀ m, n.digest m ≠ [])
    (hnodup : (hs.map (Header.hash n.digest)).Nodup) :
    ∃ m r, n.reconstruct? = some (m, r) ∧ m.Stands hs ∧ m.judge = n.judge := by
  have hbegun : ({ n with status := .reconstructing } : Node σ ω).Stands hs :=
    ⟨h.wired.of_bus_eq rfl, h.linked, h.tip, h.headers, h.backed⟩
  rw [reconstruct?]
  obtain ⟨utxos, hfound | ⟨f, hfails⟩⟩ := hbegun.rebuild?_eq hdigest hnodup
  · have hchain := withChain_linked { n with status := .reconstructing } hnodup
    rw [hchain] at hfound
    rw [hfound]
    exact ⟨_, _, rfl, ⟨h.wired.of_bus_eq rfl, h.linked, rfl, rfl, h.backed⟩, rfl⟩
  · rw [hfails]
    exact ⟨_, _, rfl, ⟨h.wired.of_bus_eq rfl, h.linked, h.tip, h.headers, h.backed⟩, rfl⟩

/-! ### What the node reports -/

/-- What someone who asks the node gets to know of its chain: the height is the number of headers;
the headers by height have the heights from 0 on, lie under their own hashes, name each the one
before, and have the target of the chain and work; the last hash is that of the last header; and the
store leads to the same headers. -/
structure Linkage (n : Node σ ω) : Prop where
  height : n.height = n.headers.size
  heights : n.headerList.map (fun h => h.height.toNat) = List.range n.height
  indexed : ∀ hash h, n.header? hash = some h ↔ h ∈ n.headerList ∧ hash = h.hash n.digest
  first : ∀ h, n.headerList.head? = some h → h.previous = ""
  links : ∀ i (hi : i + 1 < n.headerList.length),
    n.headerList[i + 1].previous = n.headerList[i].hash n.digest
  target : ∀ h ∈ n.headerList, h.target = n.params.targetBits
  work : ∀ h ∈ n.headerList, h.hasWork n.digest = true
  last : n.lastBlockHash = n.headerList.getLast?.map (Header.hash n.digest)
  none : n.lastBlockHash = none ↔ n.height = 0
  stored : ∀ hash, n.lastBlockHash = some hash → Storage.lastBlockHash n.store = .ok hash ∧
    Walk.collect? n.store hash =
      some (.ok (n.headerList.map fun h => (h.hash n.digest, h)).reverse)
  unstored : n.lastBlockHash = Option.none → NotFound (Storage.lastBlockHash n.store)

omit [Storage σ] in
/-- A node on linked headers lists these by height. -/
lemma headerList_eq (hlinked : Ledger.Linked n.judge hs)
    (hheaders : n.headers = Ledger.headTable n.digest hs)
    (hnodup : (hs.map (Header.hash n.digest)).Nodup) : n.headerList = hs := by
  rw [headerList, hheaders]
  exact hlinked.mergeSort_values hnodup

/-- A node that stands on linked headers reports them. -/
theorem Stands.linkage [Storage.Lawful σ] (h : n.Stands hs) (hdigest : ∀ m, n.digest m ≠ [])
    (hnodup : (hs.map (Header.hash n.digest)).Nodup) : n.Linkage ∧ n.headerList = hs := by
  have hlist : n.headerList = hs := headerList_eq h.linked h.headers hnodup
  have htip : n.tipHash = (Ledger.headTip n.digest hs).hash := congrArg Tip.hash h.tip
  have hheight : n.height = hs.length := congrArg Tip.height h.tip
  have hverdict : ∀ x ∈ hs, x.target = n.params.targetBits ∧ x.hasWork n.digest = true := by
    intro x hx
    obtain ⟨older, newer, rfl⟩ := List.append_of_mem hx
    exact h.linked.verdict.2.2
  have hempty : n.tipHash = "" ↔ hs = [] := htip ▸ Ledger.headTip_hash_eq_empty_iff hdigest
  have hnone : n.lastBlockHash = none ↔ hs = [] := by
    rw [← hempty, lastBlockHash]
    split <;> simp_all
  refine ⟨?_, hlist⟩
  exact
    { height := by
        rw [hheight, h.headers, Table.size, Ledger.entries_headTable hnodup, List.length_map]
      heights := by rw [hlist, hheight, h.linked.map_height]
      indexed := fun hash x => by
        rw [hlist, header?, h.headers]
        exact Ledger.get?_headTable_eq_some_iff hnodup
      first := by
        rw [hlist]
        intro x hx
        obtain ⟨newer, rfl⟩ := List.head?_eq_some_iff.mp hx
        have hlinked : Ledger.Linked n.judge ([] ++ x :: newer) := h.linked
        exact hlinked.verdict.1
      links := by
        simp only [hlist]
        exact fun i hi => h.linked.previous_eq hi
      target := hlist ▸ fun x hx => (hverdict x hx).1
      work := hlist ▸ fun x hx => (hverdict x hx).2
      last := by
        rw [hlist, lastBlockHash]
        by_cases hfirst : hs = []
        · rw [if_pos (hempty.mpr hfirst), hfirst]
          rfl
        · rw [if_neg (mt hempty.mp hfirst), htip, Ledger.headTip]
          obtain ⟨x, hx⟩ := Option.isSome_iff_exists.mp (List.getLast?_isSome.mpr hfirst)
          rw [hx]
          rfl
      none := by rw [hnone, hheight, List.length_eq_zero_iff]
      stored := by
        intro hash hlast
        have hne : hs ≠ [] := fun hfirst => by
          rw [hnone.mpr hfirst] at hlast
          cases hlast
        have hhash : hash = (Ledger.headTip n.digest hs).hash := by
          rw [lastBlockHash, if_neg (mt hempty.mp hne), htip] at hlast
          exact (Option.some.inj hlast).symm
        rw [hhash, hlist]
        exact ⟨h.backed.last hne, h.backed.collect? (j := n.judge) h.linked hdigest hnodup hne⟩
      unstored := fun hlast => h.backed.start (hnone.mp hlast) }

/-! ### Runs with reconstructions -/

variable [Observer ω]

/-- Changes go on with one more. -/
lemma changes_append (n : Node σ ω) (cs : List (Change ω)) (c : Change ω) :
    n.changes (cs ++ [c]) = (n.changes cs).change c :=
  List.foldl_concat ..

/-- A node that stands on no headers stands, after any changes, on those of the blocks it has
taken. -/
theorem changes_stand [Storage.Reliable σ] (h : n.Stands []) (hdigest : ∀ m, n.digest m ≠ [])
    (cs : List (Change ω)) (hfits : ∀ b ∈ (n.changes cs).blocks, b.Fits)
    (hfree : CollisionFree n.digest
      (((n.changes cs).blocks.map Block.header).map Header.assemble)) :
    (n.changes cs).node.Stands ((n.changes cs).blocks.map Block.header) ∧
      (n.changes cs).node.judge = n.judge := by
  induction cs using List.reverseRecOn with
  | nil => exact ⟨h, rfl⟩
  | append_singleton cs c ih =>
    rw [changes_append] at hfits hfree ⊢
    have hbefore : (n.changes cs).blocks ⊆ ((n.changes cs).change c).blocks := by
      cases c with
      | act a => exact List.subset_append_left _ _
      | reconstruct =>
        rw [Trace.change]
        split <;> exact List.Subset.refl _
    obtain ⟨hstands, hjudge⟩ := ih (fun b hb => hfits b (hbefore hb))
      (hfree.mono (List.map_subset _ (List.map_subset _ hbefore)))
    generalize n.changes cs = t at hstands hjudge hfits hfree
    have hsame : t.node.digest = n.digest := digest_of_judge hjudge
    rw [← hsame] at hfree hdigest
    cases c with
    | act a =>
      have hfree' : CollisionFree t.node.digest ((t.blocks.map Block.header ++
          (t.node.takes a).toList.map Block.header).map Header.assemble) := by
        rw [← List.map_append]
        exact hfree
      obtain ⟨hact, hkept⟩ := hstands.moves (act_moves hstands.wired a)
        (fun b hb => hfits b (List.mem_append_right _ (Option.mem_toList.mpr hb))) hfree'
      rw [← List.map_append] at hact
      exact ⟨hact, hkept.trans hjudge⟩
    | reconstruct =>
      have hnodup : ((t.blocks.map Block.header).map (Header.hash t.node.digest)).Nodup := by
        refine hstands.linked.nodup_hashes (hfree.mono ?_)
        rw [Trace.change]
        split <;> exact List.Subset.refl _
      obtain ⟨m, r, hends, hagain, hkept⟩ := hstands.reconstruct hdigest hnodup
      simp only [Trace.change, hends]
      exact ⟨hagain, hkept.trans hjudge⟩

omit [Observer ω] in
/-- A node opened over a fresh store stands on no headers. -/
lemma stands_of_open? {primitives : Primitives} {params : ChainParams} {limits : SyncSettings}
    {store : σ} (hfresh : Storage.IsFresh store)
    (hopen : Node.open? primitives params limits store = some (.ok n)) :
    n.Stands [] ∧ n.judge = ⟨primitives, params.targetBits, params.rewards⟩ := by
  rw [open?_fresh hfresh] at hopen
  cases hopen
  refine ⟨⟨(blank_wired primitives params limits store).of_bus_eq rfl, .nil, rfl, rfl, ?_⟩, rfl⟩
  exact
    { headers := List.forall_mem_nil _
      bodies := List.forall_mem_nil _
      start := fun _ => hfresh
      last := fun hne => absurd rfl hne }

/-- From a fresh store on that refuses no body, through any acts and reconstructions, the headers of
the blocks taken are one chain that height, headers, last hash and store of the node all describe,
unless the assembled bytes of two of these headers collide. A reconstruction ends at any time. No
digest is empty by assumption: a header with an empty one would lie under the empty text, which is
what a first header names as the one before it. -/
theorem chain_stays_linked [Storage.Reliable σ] {primitives : Primitives} {params : ChainParams}
    {limits : SyncSettings} {store : σ} (hdigest : ∀ message, primitives.digest message ≠ [])
    (hfresh : Storage.IsFresh store)
    (hopen : Node.open? primitives params limits store = some (.ok n)) (cs : List (Change ω))
    (hfits : ∀ b ∈ (n.changes cs).blocks, b.Fits)
    (hfree : CollisionFree primitives.digest
      ((n.changes cs).blocks.map fun b => b.header.assemble)) :
    let r := n.changes cs
    r.node.Linkage ∧ r.node.headerList = r.blocks.map Block.header ∧
      r.node.judge = ⟨primitives, params.targetBits, params.rewards⟩ ∧
      r.node.reconstruct?.isSome = true := by
  intro r
  obtain ⟨hstart, hstarted⟩ := stands_of_open? hfresh hopen
  have hbegun : n.digest = primitives.digest := digest_of_judge hstarted
  have hassembled : CollisionFree n.digest ((r.blocks.map Block.header).map Header.assemble) := by
    rw [List.map_map, hbegun]
    exact hfree
  obtain ⟨hstands, hjudge⟩ := changes_stand hstart (hbegun ▸ hdigest) cs hfits hassembled
  have hsame : r.node.digest = n.digest := digest_of_judge hjudge
  have hnever : ∀ m, r.node.digest m ≠ [] := by
    rw [hsame, hbegun]
    exact hdigest
  have hnodup : ((r.blocks.map Block.header).map (Header.hash r.node.digest)).Nodup :=
    hstands.linked.nodup_hashes (hjudge ▸ hassembled)
  obtain ⟨hlinkage, hlist⟩ := hstands.linkage hnever hnodup
  obtain ⟨m, result, hends, -⟩ := hstands.reconstruct hnever hnodup
  exact ⟨hlinkage, hlist, hjudge.trans hstarted, by rw [hends]; rfl⟩

end Node

namespace Sample

/-- The node reads its store before, between and after two blocks, the second of which comes from a
peer. -/
def rereading : List (Change Watcher) :=
  [.reconstruct, .act (.block first), .act (.block first), .reconstruct, .act .enter,
    .act (.reply "peer" false (.askingBody second.header second.hash [] 0) (.block (.ok second))),
    .reconstruct]

lemma blocks_changes : (durableNode.changes rereading).blocks = [first, second] := by
  decide +kernel

end Sample

namespace Node

open Sample in
/-- The sample chain is linked in its store after the reconstructions. -/
theorem chain_stays_linked_of_rereading :
    (durableNode.changes rereading).node.headerList = [first.header, second.header] ∧
      Storage.lastBlockHash (durableNode.changes rereading).node.store = .ok second.hash ∧
      Walk.collect? (durableNode.changes rereading).node.store second.hash =
        some (.ok [(second.hash, second.header), (first.hash, first.header)]) := by
  have hsub : [first, second] ⊆ [first, second, third] := by simp
  have hfree : CollisionFree Sample.digest
      ((durableNode.changes rereading).blocks.map fun b => b.header.assemble) := by
    rw [blocks_changes]
    decide +kernel
  obtain ⟨hlinkage, hlist, hjudge, -⟩ := chain_stays_linked sized.digest_ne_nil ⟨_, rfl, rfl⟩
    open?_durableNode rereading (by rw [blocks_changes]; exact fun b hb => fits b (hsub hb)) hfree
  have hdigest : (durableNode.changes rereading).node.digest = Sample.digest :=
    digest_of_judge hjudge
  rw [blocks_changes] at hlist
  have hlast : (durableNode.changes rereading).node.lastBlockHash = some second.hash := by
    rw [hlinkage.last, hlist, hdigest]
    decide +kernel
  obtain ⟨hstored, hwalk⟩ := hlinkage.stored _ hlast
  refine ⟨hlist, hstored, ?_⟩
  rw [hwalk, hlist, hdigest]
  decide +kernel

end Node

end PowLedger
