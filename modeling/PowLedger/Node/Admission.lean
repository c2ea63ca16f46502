import PowLedger.Node.Basic

/-!
# Admission

A block is taken in four steps: the node must be admitting, the block must pass the judge at the
tip, its header is committed to the store, and the tip moves; then the observers are told. Nothing
is changed before the commit, and nothing can fail after it but single observers. A transaction is
taken when it is not pooled yet and passes the judge over the current outputs.
-/

namespace PowLedger

namespace Node

variable {σ ω : Type} [Storage σ] [Observer ω]

/-- The node must be admitting. -/
def checkAdmitting (n : Node σ ω) : Except Fault Unit :=
  if n.status.admits then .ok () else .error (.consistency (.notAdmitting n.status))

/-- A failure of the store while a block is committed names the block. -/
def committing (b : Block) : Fault → Fault
  | .database cause => .database (.committing b.hash b.height cause)
  | f => f

/-- The node with a block on top of its chain, its header being in `store`. -/
def extend (n : Node σ ω) (b : Block) (store : σ) : Node σ ω :=
  { n with
    store := store
    tipHash := b.hash
    height := n.height + 1
    headers := n.headers.insert b.hash b.header }

/-- Judges a block at the tip and commits its header; the node has the new tip then, but its
observers have not been told. -/
def commit (n : Node σ ω) (b : Block) : Except Fault (Node σ ω) := do
  n.checkAdmitting
  let _fees ← n.judge.checkBlock b n.tip n.utxos
  match Storage.persistHeader n.store b.hash b.header with
  | .ok store => return n.extend b store
  | .error f => .error (committing b f)

/-- Takes a block. -/
def addBlock (n : Node σ ω) (b : Block) : Node σ ω × Except Fault Unit :=
  match n.commit b with
  | .error f => (n, .error f)
  | .ok extended => ((extended.publish (.blockAdded b)).1, .ok ())

/-- Judges a transaction for the pool; it returns the fee. -/
def checkPoolable (n : Node σ ω) (tx : Transaction) : Except Fault Amount := do
  n.checkAdmitting
  if n.pool.contains tx.id then .error (.validation (.duplicateTransaction tx.id))
  n.judge.checkTransaction tx n.utxos

/-- Takes a transaction into the pool; it returns the fee. -/
def addTransaction (n : Node σ ω) (tx : Transaction) : Node σ ω × Except Fault Amount :=
  match n.checkPoolable tx with
  | .error f => (n, .error f)
  | .ok fee =>
    let pooled := { n with pool := (n.pool.append tx fee).1 }
    ((pooled.publish (.transactionAdded tx)).1, .ok fee)

end Node

end PowLedger
