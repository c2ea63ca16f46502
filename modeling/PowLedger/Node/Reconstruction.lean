import PowLedger.Node.Basic
import PowLedger.Store.Walk

/-!
# Reconstruction

A node rebuilds its state from its store: it walks the headers back from the last committed one,
checks that every header has the height of its place, and replays the bodies forward into an empty
set of unspent outputs. Where a body is missing the chain is cut, and later syncs fetch the rest.
The pool is left as it is. If the headers of the store form a circle, the walk and with it the
reconstruction never end; that is the result `none`.
-/

namespace PowLedger

namespace Node

variable {σ ω : Type} [Storage σ]

/-- Every header has the height of its place; `position` is that of the first one. -/
def checkPlaces (position : Nat) : List (String × Header) → Except Fault Unit
  | [] => .ok ()
  | (hash, h) :: rest =>
    if h.height.toNat = position then checkPlaces (position + 1) rest
    else .error (.consistency (.misplacedHeader hash h.height.toNat position))

/-- Applies the stored bodies of headers in order up to the first missing one. The result is the
set of unspent outputs reached and the headers replayed, or the fault that stopped the replay. -/
def replay (store : σ) (utxos : UtxoSet) :
    List (String × Header) → UtxoSet × Except Fault (List (String × Header))
  | [] => (utxos, .ok [])
  | (hash, h) :: rest =>
    match Storage.block store hash with
    | .error f => (utxos, if f.isNotFound then .ok [] else .error f)
    | .ok b =>
      match utxos.apply b with
      | .error f => (utxos, .error f)
      | .ok utxos =>
        match replay store utxos rest with
        | (utxos, .ok replayed) => (utxos, .ok ((hash, h) :: replayed))
        | (utxos, .error f) => (utxos, .error f)

/-- The node with the given headers as its chain, oldest first. -/
def withChain (n : Node σ ω) (chain : List (String × Header)) : Node σ ω :=
  { n with
    tipHash := (chain.getLast?.map Prod.fst).getD ""
    height := (chain.foldl (fun t e => t.insert e.1 e.2) (Table.empty : Table String Header)).size
    headers := chain.foldl (fun t e => t.insert e.1 e.2) Table.empty }

/-- Rebuilds the chain and the unspent outputs, if the walk over the headers ends. -/
def rebuild? (n : Node σ ω) : Option (Node σ ω × Except Fault Unit) :=
  let n := { n with utxos := UtxoSet.empty }
  match Storage.lastBlockHash n.store with
  | .error f => some (if f.isNotFound then (n.withChain [], .ok ()) else (n, .error f))
  | .ok hash =>
    match Walk.collect? n.store hash with
    | none => none
    | some (.error f) => some (n, .error f)
    | some (.ok backward) =>
      let chain := backward.reverse
      match checkPlaces 0 chain with
      | .error f => some (n, .error f)
      | .ok _ =>
        match replay n.store UtxoSet.empty chain with
        | (utxos, .ok replayed) => some ({ n.withChain replayed with utxos := utxos }, .ok ())
        | (utxos, .error f) => some ({ n with utxos := utxos }, .error f)

/-- Rebuilds the state; the node is ready afterwards, or uninitialized if that failed. -/
def reconstruct? (n : Node σ ω) : Option (Node σ ω × Except Fault Unit) :=
  match rebuild? { n with status := .reconstructing } with
  | none => none
  | some (n, .ok _) => some ({ n with status := .ready }, .ok ())
  | some (n, .error f) => some ({ n with status := .uninitialized }, .error f)

/-- Opens a node over a store. -/
def open? (primitives : Primitives) (params : ChainParams) (limits : SyncSettings) (store : σ) :
    Option (Except Fault (Node σ ω)) :=
  match reconstruct? (blank primitives params limits store) with
  | none => none
  | some (n, .ok _) => some (.ok n)
  | some (_, .error f) => some (.error f)

end Node

end PowLedger
