import PowLedger.Sync.Session

/-!
# Peers at hand

A peer is known by what it answers. A node in the same process is such a peer: it answers from its
own chain and pool, and always at once. A scripted peer answers what it is told to: fixed headers,
and bodies and transactions by key, the first entry whose key fits. Any of its answers can be
delayed or replaced by a fault.
-/

namespace PowLedger

/-- What a peer answers to each question. -/
structure Answers where
  lastHeader : Except Fault Header
  headers : Except Fault (List Header)
  block : (hash : String) → Except Fault Block
  transaction : (txid : Bytes) → Except Fault Transaction

namespace Answers

/-- The reply to a request. -/
def reply (a : Answers) : Request → Reply
  | .lastHeader => .lastHeader a.lastHeader
  | .headers => .headers a.headers
  | .block hash => .block (a.block hash)
  | .transaction txid => .transaction (a.transaction txid)

/-- The answers of a node. -/
def ofNode {σ ω : Type} [Storage σ] (n : Node σ ω) : Answers where
  lastHeader := n.lastHeader
  headers := .ok n.headerList
  block := n.block
  transaction txid :=
    match n.pooled? txid with
    | some tx => .ok tx
    | none => .error (.notFound (.transaction txid))

end Answers

/-- A peer that follows a script. -/
structure PeerScript where
  lastHeader : Option Header
  headers : List Header
  /-- The bodies under their keys; one without key fits every hash. -/
  blocks : List (Option String × Block)
  /-- The transactions under their keys; one without key fits every id. -/
  transactions : List (Option Bytes × Transaction)
  delay : Request → Nat
  /-- The fault that a request is met with, if it is to fail. -/
  refusal : Request → Option Fault
  /-- The number of the request that calls the asking session off. -/
  callsOffOn : Option Nat
  /-- The requests so far, each with the status of the asking node. -/
  asked : List (Request × Status)

namespace PeerScript

/-- The first value whose key fits. -/
def entry? {κ α : Type} [DecidableEq κ] (key : κ) (entries : List (Option κ × α)) : Option α :=
  (entries.find? fun e => e.1.all (· = key)).map Prod.snd

/-- What the script answers where no fault is set. -/
def answers (s : PeerScript) : Answers where
  lastHeader :=
    match s.lastHeader with
    | some h => .ok h
    | none => .error (.notFound .tipHeader)
  headers := .ok s.headers
  block hash :=
    match entry? hash s.blocks with
    | some b => .ok b
    | none => .error (.notFound (.block hash))
  transaction txid :=
    match entry? txid s.transactions with
    | some tx => .ok tx
    | none => .error (.notFound (.transaction txid))

/-- The reply to a request. -/
def reply (s : PeerScript) (r : Request) : Reply :=
  match s.refusal r with
  | some f => .failure f r
  | none => s.answers.reply r

/-- The script once a node of the given status has asked. -/
def note (s : PeerScript) (r : Request) (status : Status) : PeerScript :=
  { s with asked := s.asked ++ [(r, status)] }

/-- The requests so far, as text. -/
def askedText (s : PeerScript) : List String :=
  s.asked.map fun (r, status) => s!"{r.name} {r.argument}@{status.name}"

/-- Whether the latest request is the one that calls the asking session off. -/
def callsOff (s : PeerScript) : Bool :=
  s.callsOffOn == some s.asked.length

end PeerScript

end PowLedger
