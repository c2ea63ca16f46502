import Mathlib.Tactic.Common
import Mathlib.Tactic.Lemma
import PowLedger.Node.Reconstruction
import PowLedger.Proofs.Node.Step

/-!
# Runs of a node

A run goes through acts one after the other and keeps a record of the blocks the node takes. From a
fresh store on, a node always holds what its record comes to: its tip, its headers and its unspent
outputs are those of the recorded blocks, and these are an accepted chain (`Node.run_holds`).
-/

namespace PowLedger

/-- The headers of blocks under their hashes. -/
def Ledger.headers (blocks : List Block) : Table String Header :=
  blocks.foldl (fun t b => t.insert b.hash b.header) Table.empty

lemma Ledger.headers_append (blocks : List Block) (b : Block) :
    Ledger.headers (blocks ++ [b]) = (Ledger.headers blocks).insert b.hash b.header := by
  simp [Ledger.headers]

/-- What was looked for does not exist. -/
def NotFound {α : Type} (r : Except Fault α) : Prop :=
  ∃ f, r = .error f ∧ f.isNotFound = true

/-- A store in which no last header is found. -/
def Storage.IsFresh {σ : Type} [Storage σ] (store : σ) : Prop :=
  NotFound (Storage.lastBlockHash store)

/-- A node, and the blocks that it has taken, oldest first. -/
structure Trace (σ ω : Type) where
  node : Node σ ω
  blocks : List Block

/-- The trace after one more act. -/
def Trace.act {σ ω : Type} [Storage σ] [Observer ω] (t : Trace σ ω) (a : Act ω) : Trace σ ω :=
  ⟨t.node.act a, t.blocks ++ (t.node.takes a).toList⟩

namespace Node

variable {σ ω : Type}

/-- What a node comes to by acts, and the blocks that it takes on the way. -/
def run [Storage σ] [Observer ω] (n : Node σ ω) (acts : List (Act ω)) : Trace σ ω :=
  acts.foldl Trace.act ⟨n, []⟩

/-- The node holds the chain of these blocks, and the judge has accepted them. -/
structure Holds (n : Node σ ω) (blocks : List Block) : Prop where
  wired : n.Wired
  accepted : Ledger.Accepted n.judge blocks
  tip : n.tip = Ledger.tip blocks
  headers : n.headers = Ledger.headers blocks
  utxos : n.utxos = Ledger.utxos blocks

/-- The hash of the tip is that of the last block. -/
lemma Holds.tipHash {n : Node σ ω} {blocks : List Block} (h : n.Holds blocks) :
    n.tipHash = (Ledger.tip blocks).hash :=
  congrArg Tip.hash h.tip

/-- The height is the number of blocks. -/
lemma Holds.height {n : Node σ ω} {blocks : List Block} (h : n.Holds blocks) :
    n.height = blocks.length :=
  congrArg Tip.height h.tip

/-- Nodes that report one last hash have one tip hash. -/
lemma tipHash_eq_of_lastBlockHash_eq {σ' ω' : Type} {m : Node σ ω} {m' : Node σ' ω'}
    (h : m.lastBlockHash = m'.lastBlockHash) : m.tipHash = m'.tipHash := by
  rw [lastBlockHash, lastBlockHash] at h
  split at h <;> split at h <;> simp_all

/-- Nodes of one ledger judge alike. -/
lemma judge_eq_of_ledger {n n' : Node σ ω} (hparams : n'.ledger.params = n.ledger.params)
    (hprimitives : n'.ledger.primitives = n.ledger.primitives) : n'.judge = n.judge := by
  have hp : n'.params = n.params := hparams
  have hq : n'.primitives = n.primitives := hprimitives
  rw [judge, judge, hp, hq]

/-- A node that has not read its store has its own observers only. -/
lemma blank_wired (primitives : Primitives) (params : ChainParams) (limits : SyncSettings)
    (store : σ) : (blank primitives params limits store : Node σ ω).Wired :=
  ⟨⟨[], rfl, fun _ hs => nomatch hs⟩, fun _ hs => nomatch hs⟩

variable [Storage σ]

/-- After a move a node holds one more block, or the same ones. -/
lemma Moves.holds {n n' : Node σ ω} {taken : Option Block} (h : n.Moves taken n')
    {blocks : List Block} (hholds : n.Holds blocks) :
    n'.Holds (blocks ++ taken.toList) ∧ n'.judge = n.judge := by
  cases h with
  | stay hwired hledger =>
    have hjudge : n'.judge = n.judge := judge_eq_of_ledger (by rw [hledger]) (by rw [hledger])
    rw [Option.toList_none, List.append_nil]
    have htip : n'.tip = n.tip := by
      show (⟨n'.ledger.tipHash, n'.ledger.height⟩ : Tip) = ⟨n.ledger.tipHash, n.ledger.height⟩
      rw [hledger]
    have hheaders : n'.headers = n.headers := congrArg LedgerState.headers hledger
    have hutxos : n'.utxos = n.utxos := congrArg LedgerState.utxos hledger
    exact ⟨⟨hwired, hjudge ▸ hholds.accepted, htip.trans hholds.tip, hheaders.trans hholds.headers,
      hutxos.trans hholds.utxos⟩, hjudge⟩
  | @take _ b fees store hok hpersist hwired hledger =>
    have hjudge : n'.judge = n.judge :=
      judge_eq_of_ledger (by rw [hledger]; rfl) (by rw [hledger]; rfl)
    rw [Option.toList_some]
    rw [hholds.tip, hholds.utxos] at hok
    have htip : n'.tip = ⟨b.hash, n.height + 1⟩ := by
      show (⟨n'.ledger.tipHash, n'.ledger.height⟩ : Tip) = _
      rw [hledger]
      rfl
    have hheaders : n'.headers = n.headers.insert b.hash b.header :=
      congrArg LedgerState.headers hledger
    have hutxos : n'.utxos = n.utxos.follow b := congrArg LedgerState.utxos hledger
    refine ⟨⟨hwired, hjudge ▸ hholds.accepted.snoc hok, ?_, ?_, ?_⟩, hjudge⟩
    · rw [htip, Ledger.tip_append, hholds.height]
    · rw [hheaders, hholds.headers, Ledger.headers_append]
    · rw [hutxos, hholds.utxos, Ledger.utxos_append]

/-- A node opened over a fresh store is ready and holds no block. -/
lemma open?_fresh {primitives : Primitives} {params : ChainParams} {limits : SyncSettings}
    {store : σ} (hfresh : Storage.IsFresh store) :
    Node.open? primitives params limits store =
      some (.ok ({ blank primitives params limits store with status := .ready } : Node σ ω)) := by
  obtain ⟨f, hlast, hmissing⟩ := hfresh
  simp only [open?, reconstruct?, rebuild?, blank, hlast, hmissing, if_true, withChain,
    List.getLast?_nil, Option.map_none, Option.getD_none, List.foldl_nil]
  rfl

/-- A node opened over a fresh store holds no block and judges as it was told to. -/
lemma holds_of_open? {primitives : Primitives} {params : ChainParams} {limits : SyncSettings}
    {store : σ} {n : Node σ ω} (hfresh : Storage.IsFresh store)
    (hopen : Node.open? primitives params limits store = some (.ok n)) :
    n.Holds [] ∧ n.judge = ⟨primitives, params.targetBits, params.rewards⟩ := by
  rw [open?_fresh hfresh] at hopen
  cases hopen
  exact ⟨⟨(blank_wired primitives params limits store).of_bus_eq rfl, .nil, rfl, rfl, rfl⟩, rfl⟩

variable [Observer ω]

/-- A node that holds the blocks of its record does so after any number of acts, and judges as
before. -/
lemma holds_foldl_act {t : Trace σ ω} (h : t.node.Holds t.blocks) (acts : List (Act ω)) :
    (acts.foldl Trace.act t).node.Holds (acts.foldl Trace.act t).blocks ∧
      (acts.foldl Trace.act t).node.judge = t.node.judge := by
  induction acts generalizing t with
  | nil => exact ⟨h, rfl⟩
  | cons a acts ih =>
    obtain ⟨hholds, hjudge⟩ := (act_moves h.wired a).holds h
    obtain ⟨hholds', hjudge'⟩ := ih (t := t.act a) hholds
    exact ⟨hholds', hjudge'.trans hjudge⟩

/-- From a fresh store on, a node holds at all times exactly the blocks it has taken. -/
theorem run_holds {primitives : Primitives} {params : ChainParams} {limits : SyncSettings}
    {store : σ} {n : Node σ ω} (hfresh : Storage.IsFresh store)
    (hopen : Node.open? primitives params limits store = some (.ok n)) (acts : List (Act ω)) :
    (n.run acts).node.Holds (n.run acts).blocks ∧
      (n.run acts).node.judge = ⟨primitives, params.targetBits, params.rewards⟩ := by
  obtain ⟨hholds, hjudge⟩ := holds_of_open? hfresh hopen
  obtain ⟨hrun, hsame⟩ := holds_foldl_act (t := ⟨n, []⟩) hholds acts
  exact ⟨hrun, hsame.trans hjudge⟩

end Node

end PowLedger
