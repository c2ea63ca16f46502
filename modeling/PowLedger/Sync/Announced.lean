import PowLedger.Node.Admission

/-!
# Announced headers and transactions

A peer may announce a header or the id of a transaction that it has. What the node knows already is
let be. A new header is judged at the tip, and its body is asked for; a new transaction is asked
for at once. What the peer then serves must be what was announced, and goes through admission like
anything else. Between the question and the answer the node may change.
-/

namespace PowLedger

namespace Node

variable {σ ω : Type}

/-- A header is announced: nothing to do, or the hash of the body to ask for. -/
def headerAnnounced (n : Node σ ω) (h : Header) : Except Fault (Option String) :=
  let hash := h.hash n.digest
  if (n.header? hash).isSome then .ok none
  else
    match n.judge.checkHeader h n.tip with
    | .error f => .error f
    | .ok _ => .ok (some hash)

/-- The body asked for after an announcement is served. -/
def announcedBody [Storage σ] [Observer ω] (n : Node σ ω) (peer hash : String)
    (r : Except Fault Block) : Node σ ω × Except Fault Bool :=
  match r with
  | .error f => (n, .error f)
  | .ok b =>
    if b.hash ≠ hash then (n, .error (.network (.wrongAnnouncedBody peer b.hash hash)))
    else
      match n.addBlock b with
      | (n, .ok _) => (n, .ok true)
      | (n, .error f) => (n, .error f)

/-- Whether an announced transaction has to be asked for. -/
def wantsTransaction (n : Node σ ω) (txid : Bytes) : Bool :=
  !n.pool.contains txid

/-- The transaction asked for after an announcement is served. -/
def announcedTransaction [Storage σ] [Observer ω] (n : Node σ ω) (peer : String) (txid : Bytes)
    (r : Except Fault Transaction) : Node σ ω × Except Fault Bool :=
  match r with
  | .error f => (n, .error f)
  | .ok tx =>
    if tx.id ≠ txid then (n, .error (.network (.wrongTransaction peer tx.id txid)))
    else
      match n.addTransaction tx with
      | (n, .ok _) => (n, .ok true)
      | (n, .error f) => (n, .error f)

end Node

/-- What a node tells its peers of. -/
inductive Announcement where
  | block (header : Header) (hash : String)
  | transaction (txid : Bytes)
  deriving DecidableEq

/-- The announcement of an event. -/
def Announcement.ofEvent : Event → Announcement
  | .blockAdded b => .block b.header b.hash
  | .transactionAdded tx => .transaction tx.id

end PowLedger
