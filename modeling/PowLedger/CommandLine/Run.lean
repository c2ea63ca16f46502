import PowLedger.CommandLine.Help
import PowLedger.Document.JsonText
import PowLedger.Mining.Attempt
import PowLedger.Network.Watcher
import PowLedger.Node.Reconstruction
import PowLedger.Settings.Load
import PowLedger.Store.Durable

/-!
# Running a command

A command works on the durable store of the data directory. It ends with the text it prints or with
the reason why it cannot be done, and with the store as it is then. What it takes from outside is
the clock of a miner and the seed of a new key.
-/

namespace PowLedger.CommandLine

/-- Why a command cannot be done. -/
inductive Failure where
  | fault (f : Fault)
  | badLock (f : HexFault)
  /-- The headers of the store form a circle. -/
  | endless
  /-- No block was found in as many sweeps as were made. -/
  | undecided
  /-- The seed gives no key. -/
  | badSeed
  deriving DecidableEq

/-- A failure in words. -/
def Failure.message : Failure → String
  | .fault f => f.message
  | .badLock f => f.message
  | .endless => "the stored headers form a circle"
  | .undecided => "no block was found"
  | .badSeed => "the seed gives no key"

/-- What a command takes from outside. -/
structure Supplies where
  /-- Readings of the clock, in milliseconds since the epoch. -/
  clock : Nat → Int64
  /-- Random bytes for a new key. -/
  seed : Bytes
  /-- The number of sweeps that are made for one block. -/
  sweeps : Nat

/-- A node over a durable store that nobody watches. -/
abbrev StoredNode := Node DurableStore Watcher

/-- The node over the store of a data directory. -/
def openNode (s : NodeSettings) (store : DurableStore) : Except Failure StoredNode :=
  match Node.open? Primitives.standard s.chain s.sync store with
  | some (.ok n) => .ok n
  | some (.error f) => .error (.fault f)
  | none => .error .endless

/-- The two lines that show a new key. -/
def keyText (seed : Bytes) : Except Failure String :=
  match PrivateKey.generate seed with
  | none => .error .badSeed
  | some k =>
    .ok (s!"private key (pkcs8): {k.toBytes.hex}\n" ++
      s!"public key hash:     {(lockingHash k.publicKey).hex}\n")

/-- The sum of the values of outputs, as it is shown: it goes round at the width of an amount. -/
def shownSum (outputs : List TxOutput) : String :=
  toString (Amount.sumRound (outputs.map TxOutput.value)).toNat

/-- The summary of a node. -/
def statusText (n : StoredNode) : String :=
  let tip := n.lastBlockHash.getD "-"
  s!"status:        {n.status.name}\n" ++
  s!"height:        {n.height}\n" ++
  s!"tip:           {tip}\n" ++
  s!"unspent:       {n.utxos.size} outputs\n" ++
  s!"total value:   {shownSum n.utxos.table.values}\n" ++
  s!"target bits:   {n.params.targetBits.toNat}\n"

/-- The line that says what is locked with `lock`. -/
def balanceText (n : StoredNode) (lock : Bytes) : String :=
  s!"Balance of {lock.hex}: {shownSum ((n.utxos.lockedWith lock).map Prod.snd)}\n"

/-- The headers of a node with their hashes. -/
def chainText (n : StoredNode) : String :=
  let entry (h : Header) : Document :=
    .ofFields (("hash", .ofString (h.hash n.digest)) :: h.documentFields)
  Json.render (.list (n.headerList.map entry)) ++ "\n"

/-- Mines a number of blocks onto a node. -/
def mine (s : NodeSettings) (supplies : Supplies) (blocks : Nat) (n : StoredNode) :
    StoredNode × Except Failure String :=
  match s.miner.rewardLock with
  | .error f => (n, .error (.fault f))
  | .ok lock =>
    let m : Miner :=
      ⟨n.watches.length, s.miner.maxTransactions.toNat, s.miner.maxNonce, lock⟩
    match Mining.run m false (some blocks) supplies.clock supplies.sweeps (blocks + 1)
        n.addWatch with
    | (n, some (.ok _)) => (n, .ok "")
    | (n, some (.error f)) => (n, .error (.fault f))
    | (n, none) => (n, .error .undecided)

/-- Does something with the node over a store; the store as it is then comes with the result. -/
def onNode (s : NodeSettings) (store : DurableStore)
    (act : StoredNode → StoredNode × Except Failure String) :
    DurableStore × Except Failure String :=
  match openNode s store with
  | .error f => (store, .error f)
  | .ok n => ((act n).1.store, (act n).2)

/-- Carries out a command. -/
def perform (s : NodeSettings) (supplies : Supplies) (store : DurableStore) :
    Command → DurableStore × Except Failure String
  | .keygen => (store, keyText supplies.seed)
  | .mine blocks => onNode s store (mine s supplies blocks)
  | .status => onNode s store fun n => (n, .ok (statusText n))
  | .balance text =>
    match Bytes.ofHex (Utf8.encode text) with
    | .error f => (store, .error (.badLock f))
    | .ok lock => onNode s store fun n => (n, .ok (balanceText n lock))
  | .printChain => onNode s store fun n => (n, .ok (chainText n))

/-- What a run of the program ends with. -/
structure Outcome where
  exitCode : Nat
  /-- What is printed. -/
  printed : String
  /-- What is printed to the side, for errors. -/
  complaint : String

/-- Carries out an invocation, given its settings file if it names one. -/
def execute (inv : Invocation) (file : Option (Except ConfigFault String)) (env : Environment)
    (supplies : Supplies) (store : DurableStore) : DurableStore × Outcome :=
  match NodeSettings.load file env with
  | .error f => (store, ⟨1, "", s!"Error: {f.message}\n"⟩)
  | .ok settings =>
    match perform settings supplies store inv.command with
    | (store, .ok text) => (store, ⟨0, text, ""⟩)
    | (store, .error f) => (store, ⟨1, "", s!"Error: {f.message}\n"⟩)

/-- Runs the program with its arguments; `file` gives the text of a settings file. -/
def run (args : List String) (file : String → Except ConfigFault String) (env : Environment)
    (supplies : Supplies) (store : DurableStore) : DurableStore × Outcome :=
  match read args with
  | .run inv => execute inv (inv.config.map file) env supplies store
  | .help about => (store, ⟨0, help about, ""⟩)
  | .misuse => (store, ⟨2, "", overview⟩)

end PowLedger.CommandLine
