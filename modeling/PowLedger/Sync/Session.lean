import PowLedger.Node.Admission
import PowLedger.Sync.Request

/-!
# Sync sessions

A session catches up with one peer. Past the gate it asks for the peer's last header, then for all
headers, and then, header by header from the local height on, judges the header at the tip of that
moment, asks for the body and adds the block. The first failure ends it; blocks added by then stay.
Between a question and its answer the node may change in any way, so a session is a machine of
stages, and each answer is one step of it. From entering until its end it holds the node in the
syncing status.
-/

namespace PowLedger

/-- How far a session is: what it waits for, or how it ended. -/
inductive Stage where
  /-- Waiting for a permit of the gate. -/
  | atGate
  /-- Waiting for the peer's last header. -/
  | askingTip
  /-- Waiting for the peer's headers; those below `floor` are not needed. -/
  | askingHeaders (floor : Nat)
  /-- Waiting for the body of `wanted`, with `rest` to follow and `added` blocks behind. -/
  | askingBody (wanted : Header) (hash : String) (rest : List Header) (added : Nat)
  /-- Over: the number of blocks added, or the fault that ended it. -/
  | ended (result : Except Fault Nat)

namespace Session

variable {σ ω : Type}

/-- The end of a session that has entered. -/
def finish (n : Node σ ω) (result : Except Fault Nat) : Node σ ω × Stage :=
  (n.leaveSync, .ended result)

/-- The first step past the gate. -/
def enter (n : Node σ ω) : Node σ ω × Stage :=
  match n.checkAdmitting with
  | .error f => (n, .ended (.error f))
  | .ok _ => (n.enterSync, .askingTip)

/-- The step on the peer's last header. A peer without blocks or with fewer than the node has
nothing to give. -/
def onTip (n : Node σ ω) : Except Fault Header → Node σ ω × Stage
  | .error f => if f.isNotFound then finish n (.ok 0) else finish n (.error f)
  | .ok tip =>
    if tip.height.toNat < n.height then finish n (.ok 0) else (n, .askingHeaders n.height)

/-- Goes on to the next header, unless the session has been called off. -/
def next (peer : String) (calledOff : Bool) (n : Node σ ω) (added : Nat) :
    List Header → Node σ ω × Stage
  | [] => finish n (.ok added)
  | h :: rest =>
    if calledOff then finish n (.error (.cancelled (.session peer added)))
    else
      match n.judge.checkHeader h n.tip with
      | .error f => finish n (.error f)
      | .ok _ => (n, .askingBody h (h.hash n.digest) rest added)

/-- The headers worth fetching, by their heights. -/
def fetchOrder (floor : Nat) (headers : List Header) : List Header :=
  (headers.mergeSort fun a b => a.height ≤ b.height).filter fun h => floor ≤ h.height.toNat

/-- The step on the peer's headers. -/
def onHeaders (peer : String) (calledOff : Bool) (floor : Nat) (n : Node σ ω) :
    Except Fault (List Header) → Node σ ω × Stage
  | .error f => finish n (.error f)
  | .ok headers => next peer calledOff n 0 (fetchOrder floor headers)

/-- The step on a body: it must be the one asked for, and the node must take it. -/
def onBody [Storage σ] [Observer ω] (peer : String) (calledOff : Bool) (wanted : Header)
    (hash : String) (rest : List Header) (added : Nat) (n : Node σ ω) :
    Except Fault Block → Node σ ω × Stage
  | .error f => finish n (.error f)
  | .ok b =>
    if b.hash ≠ hash ∨ b.header ≠ wanted then
      finish n (.error (.network (.wrongBody peer b.hash hash)))
    else
      match n.addBlock b with
      | (n, .error f) => finish n (.error f)
      | (n, .ok _) => next peer calledOff n (added + 1) rest

/-- The question that a stage waits for the answer of. -/
def request : Stage → Option Request
  | .atGate => none
  | .askingTip => some .lastHeader
  | .askingHeaders _ => some .headers
  | .askingBody _ hash _ _ => some (.block hash)
  | .ended _ => none

end Session

/-- What a peer answers. -/
inductive Reply where
  | lastHeader (r : Except Fault Header)
  | headers (r : Except Fault (List Header))
  | block (r : Except Fault Block)
  | transaction (r : Except Fault Transaction)

namespace Reply

/-- The reply to a request that fails. -/
def failure (f : Fault) : Request → Reply
  | .lastHeader => .lastHeader (.error f)
  | .headers => .headers (.error f)
  | .block _ => .block (.error f)
  | .transaction _ => .transaction (.error f)

/-- A failure of the connection names the peer and what was asked for. -/
def locate (peer : String) : Reply → Reply
  | .lastHeader r => .lastHeader (Answer.locate peer Request.lastHeader.what r)
  | .headers r => .headers (Answer.locate peer Request.headers.what r)
  | .block r => .block (Answer.locate peer (Request.block "").what r)
  | .transaction r => .transaction (Answer.locate peer (Request.transaction []).what r)

end Reply

/-- The step of a session on a reply; a reply to another question changes nothing. -/
def Session.onReply {σ ω : Type} [Storage σ] [Observer ω] (peer : String) (calledOff : Bool)
    (n : Node σ ω) (stage : Stage) (reply : Reply) : Node σ ω × Stage :=
  match stage, reply with
  | .askingTip, .lastHeader r => onTip n r
  | .askingHeaders floor, .headers r => onHeaders peer calledOff floor n r
  | .askingBody wanted hash rest added, .block r =>
    onBody peer calledOff wanted hash rest added n r
  | stage, _ => (n, stage)

end PowLedger
