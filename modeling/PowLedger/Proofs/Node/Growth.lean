import Mathlib.Data.List.Induction
import Mathlib.Tactic.Common
import Mathlib.Tactic.Lemma
import PowLedger.Proofs.Node.Frame
import PowLedger.Proofs.Node.Run

/-!
# A node and what it grows to

`Node.Holds` says what a node is that has taken all its blocks itself. A node that was opened over a
store that is not fresh has found a part of its chain there, and nobody has judged that part. All
the same it grows by the blocks it takes and by nothing else: `Node.Grows` compares a node with what
it was before, whatever that may have been, and `Node.run_grows` says that a run grows by the blocks
of its record. These at least have been judged, on top of what was found (`Node.run_acceptedOn`).
-/

namespace PowLedger

namespace Node

variable {σ ω : Type}

/-- The second node is the first one with these blocks on top of its chain. -/
structure Grows (n : Node σ ω) (blocks : List Block) (n' : Node σ ω) : Prop where
  wired : n'.Wired
  params : n'.params = n.params
  primitives : n'.primitives = n.primitives
  tip : n'.tip = n.tip.above blocks
  headers : n'.headers = blocks.foldl (fun t b => t.insert b.hash b.header) n.headers
  utxos : n'.utxos = blocks.foldl UtxoSet.follow n.utxos

variable {n n' m : Node σ ω} {blocks : List Block}

/-- A wired node has grown by nothing since now. -/
lemma Wired.grows (h : n.Wired) : n.Grows [] n :=
  ⟨h, rfl, rfl, rfl, rfl, rfl⟩

/-- A node judges as before it grew. -/
lemma Grows.judge (h : n.Grows blocks n') : n'.judge = n.judge :=
  judge_eq_of_ledger h.params h.primitives

/-- The height has grown by the number of the blocks. -/
lemma Grows.height (h : n.Grows blocks n') : n'.height = n.height + blocks.length :=
  congrArg Tip.height h.tip

/-- The gate is no part of the growth. -/
lemma Grows.withGate (h : n.Grows blocks n') (g : Gate) :
    n.Grows blocks { n' with gate := g } :=
  ⟨h.wired.of_bus_eq rfl, h.params, h.primitives, h.tip, h.headers, h.utxos⟩

variable [Storage σ]

/-- After a move a node has grown by one more block, or by the same ones. -/
lemma Grows.moves {taken : Option Block} (h : n.Grows blocks n') (hmoves : n'.Moves taken m) :
    n.Grows (blocks ++ taken.toList) m := by
  cases hmoves with
  | stay hwired hledger =>
    rw [Option.toList_none, List.append_nil]
    have htip : m.tip = n'.tip := by
      show (⟨m.ledger.tipHash, m.ledger.height⟩ : Tip) = _
      rw [hledger]
      rfl
    exact
      { wired := hwired
        params := (congrArg LedgerState.params hledger).trans h.params
        primitives := (congrArg LedgerState.primitives hledger).trans h.primitives
        tip := htip.trans h.tip
        headers := (congrArg LedgerState.headers hledger).trans h.headers
        utxos := (congrArg LedgerState.utxos hledger).trans h.utxos }
  | @take _ b fees store hok hpersist hwired hledger =>
    rw [Option.toList_some]
    have htip : m.tip = ⟨b.hash, n'.height + 1⟩ := by
      show (⟨m.ledger.tipHash, m.ledger.height⟩ : Tip) = _
      rw [hledger]
      rfl
    have hheaders : m.headers = n'.headers.insert b.hash b.header :=
      congrArg LedgerState.headers hledger
    have hutxos : m.utxos = n'.utxos.follow b := congrArg LedgerState.utxos hledger
    exact
      { wired := hwired
        params := (congrArg LedgerState.params hledger).trans h.params
        primitives := (congrArg LedgerState.primitives hledger).trans h.primitives
        tip := by rw [htip, h.height, Tip.above_append]; rfl
        headers := by rw [hheaders, h.headers, List.foldl_append]; rfl
        utxos := by rw [hutxos, h.utxos, List.foldl_append]; rfl }

/-- If a node has grown by blocks that the judge accepts on top of its old chain, it does so by a
move too. -/
lemma Moves.acceptedOn {taken : Option Block} (hmoves : n'.Moves taken m)
    (hgrows : n.Grows blocks n')
    (haccepted : Ledger.AcceptedOn n.judge n.tip n.utxos blocks) :
    Ledger.AcceptedOn n.judge n.tip n.utxos (blocks ++ taken.toList) := by
  cases hmoves with
  | stay => simpa using haccepted
  | take hok =>
    rw [hgrows.judge, hgrows.tip, hgrows.utxos] at hok
    exact haccepted.snoc hok

/-- A node that could be opened is wired. -/
lemma wired_of_open? {primitives : Primitives} {params : ChainParams} {limits : SyncSettings}
    {store : σ} (hopen : open? primitives params limits store = some (.ok n)) : n.Wired := by
  obtain ⟨chain, utxos, rfl⟩ := open?_cases hopen
  exact (blank_wired primitives params limits store).of_bus_eq rfl

variable [Observer ω]

/-- A run goes on with one more act. -/
lemma run_append (n : Node σ ω) (acts : List (Act ω)) (a : Act ω) :
    n.run (acts ++ [a]) = (n.run acts).act a :=
  List.foldl_concat ..

/-- By a run a node grows by the blocks that it takes on the way. -/
theorem run_grows (h : n.Wired) (acts : List (Act ω)) :
    n.Grows (n.run acts).blocks (n.run acts).node := by
  induction acts using List.reverseRecOn with
  | nil => exact h.grows
  | append_singleton acts a ih =>
    rw [run_append]
    exact ih.moves (act_moves ih.wired a)

/-- The judge accepts the blocks of a run on top of the chain that the node had before. -/
theorem run_acceptedOn (h : n.Wired) (acts : List (Act ω)) :
    Ledger.AcceptedOn n.judge n.tip n.utxos (n.run acts).blocks := by
  induction acts using List.reverseRecOn with
  | nil => exact .nil
  | append_singleton acts a ih =>
    rw [run_append]
    exact (act_moves (run_grows h acts).wired a).acceptedOn (run_grows h acts) ih

/-- No run changes whether the node is admitting. -/
lemma run_admits (n : Node σ ω) (acts : List (Act ω)) :
    (n.run acts).node.status.admits = n.status.admits := by
  induction acts using List.reverseRecOn with
  | nil => rfl
  | append_singleton acts a ih =>
    rw [run_append]
    exact ((n.run acts).node.act_admits a).trans ih

end Node

end PowLedger
