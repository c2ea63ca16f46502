import PowLedger.Node.Admission

/-!
# Mining

A mining attempt builds a candidate on the tip: a coinbase that pays the reward and the fees, then
the transactions selected from the pool, under a header with the root over them. It sweeps the
nonces; when a sweep is exhausted it sets the time anew and sweeps again. The solved block goes
through the same admission as any other. While an attempt runs it is entered in the miner's watch,
which calls it off when the chain reaches the height it builds.

The time comes from a clock, one reading for the candidate and one for each further sweep. As a
hard target may need any number of sweeps, an attempt is followed for a given number of them, and
is undecided after that.
-/

namespace PowLedger

/-- Who mines: the number of its watch, its limits, and the lock that the coinbase pays to. -/
structure Miner where
  watch : Nat
  maxTransactions : Nat
  maxNonce : UInt64
  lock : Bytes
  deriving DecidableEq

/-- How an attempt ends. -/
inductive MineOutcome where
  | mined (b : Block)
  /-- The chain moved on, or the attempt was called off, before a block was found. -/
  | cancelled
  deriving DecidableEq

/-- How far the search for a nonce has come. -/
inductive Search where
  | solved (h : Header)
  | cancelled
  /-- Every sweep so far was exhausted. -/
  | undecided
  deriving DecidableEq

namespace Mining

variable {σ ω : Type}

/-- The transactions of a candidate on the tip of a node. -/
def transactions (n : Node σ ω) (m : Miner) : List Transaction :=
  let selected := n.pool.select m.maxTransactions
  let pay := Amount.addCapped (n.params.rewards.reward n.height) (Pool.fees selected)
  Transaction.coinbase n.digest n.height pay m.lock :: selected.map PoolEntry.transaction

/-- The header of a candidate on the tip of a node. -/
def header (n : Node σ ω) (txs : List Transaction) (time : Int64) : Except Fault Header :=
  match merkleRoot n.digest (txs.map Transaction.id) with
  | .error f => .error f
  | .ok root =>
    .ok ⟨n.params.blockVersion, n.tipHash, root, UInt64.ofNat n.height, time,
      n.params.targetBits, 0⟩

/-- The time of the next sweep: the clock's, but later than the last one. -/
def laterTime (reading last : Int64) : Int64 :=
  if reading < last + 1 then last + 1 else reading

/-- Sweeps again and again, `number` sweeps having been exhausted before. -/
def search (digest : Hasher) (maxNonce : UInt64) (calledOff : (number nonce : Nat) → Bool)
    (clock : Nat → Int64) (number : Nat) : (sweeps : Nat) → Header → Except Fault Search
  | 0, _ => .ok .undecided
  | sweeps + 1, h =>
    match sweep digest h maxNonce (calledOff number) with
    | .error f => .error f
    | .ok (.solved nonce _) => .ok (.solved { h with nonce := nonce })
    | .ok .cancelled => .ok .cancelled
    | .ok .exhausted =>
      search digest maxNonce calledOff clock (number + 1) sweeps
        { h with timestamp := laterTime (clock (number + 1)) h.timestamp }

variable [Storage σ] [Observer ω]

/-- Submits a solved block that was built at `height`. When it is refused because the chain has
moved, the attempt was in vain. -/
def submit (n : Node σ ω) (b : Block) (height : Nat) :
    Node σ ω × Except Fault MineOutcome :=
  match n.addBlock b with
  | (n, .ok _) => (n, .ok (.mined b))
  | (n, .error f) => if n.height ≠ height then (n, .ok .cancelled) else (n, .error f)

/-- An attempt entered in the watch: assembles a candidate, searches and submits. -/
def solveAndSubmit (n : Node σ ω) (m : Miner) (clock : Nat → Int64) (sweeps : Nat) :
    Node σ ω × Option (Except Fault MineOutcome) :=
  let txs := transactions n m
  let off := (n.watch m.watch).isCalledOff
  match header n txs (clock 0) with
  | .error f => (n, some (.error f))
  | .ok h =>
    match search n.digest m.maxNonce (fun _ _ => off) clock 0 sweeps h with
    | .error f => (n, some (.error f))
    | .ok .undecided => (n, none)
    | .ok .cancelled => (n, some (.ok .cancelled))
    | .ok (.solved h) =>
      let (n, r) := submit n (Block.ofHeader n.digest h txs) n.height
      (n, some r)

/-- One attempt; `calledOff` says that it is called off from the start. -/
def attempt (n : Node σ ω) (m : Miner) (calledOff : Bool) (clock : Nat → Int64) (sweeps : Nat) :
    Node σ ω × Option (Except Fault MineOutcome) :=
  if (n.watch m.watch).current.isSome then (n, some (.error (.mining .attemptRunning)))
  else
    let begun := n.updateWatch m.watch fun w => w.begin n.height calledOff
    let (n, r) := solveAndSubmit begun m clock sweeps
    (n.updateWatch m.watch Watch.finish, r)

/-- Makes attempts until `limit` blocks are found or the shutdown is requested, at most `attempts`
of them; `mined` blocks have been found before. -/
def repeatAttempts {S : Type} (attempt : S → S × Option (Except Fault MineOutcome))
    (shutdown : Bool) (limit : Option Nat) (mined : Nat) :
    (attempts : Nat) → S → S × Option (Except Fault Nat)
  | 0, state => (state, none)
  | attempts + 1, state =>
    if shutdown ∨ limit.any (· ≤ mined) then (state, some (.ok mined))
    else
      match attempt state with
      | (state, none) => (state, none)
      | (state, some (.error f)) => (state, some (.error f))
      | (state, some (.ok (.mined _))) =>
        repeatAttempts attempt shutdown limit (mined + 1) attempts state
      | (state, some (.ok .cancelled)) =>
        repeatAttempts attempt shutdown limit mined attempts state

/-- Mines on a node until `limit` blocks are found or the shutdown is requested. -/
def run (m : Miner) (shutdown : Bool) (limit : Option Nat) (clock : Nat → Int64)
    (sweeps attempts : Nat) (n : Node σ ω) : Node σ ω × Option (Except Fault Nat) :=
  repeatAttempts (fun n => attempt n m false clock sweeps) shutdown limit 0 attempts n

end Mining

end PowLedger
