import PowLedger.Codec.Decoder
import PowLedger.Curve.PrivateKey
import PowLedger.Node.Status
import PowLedger.Rules.Breach
import PowLedger.Text.Numeral

/-!
# Faults

Every operation that can fail fails with a fault: its kind, and within the kind the cause. A cause
that the ledger finds itself is a constructor with the data it concerns; a fault that a store or a
peer reports in words of its own keeps those words (`reported`). One function per kind gives the
words of a cause, and `Fault.message` the whole line.
-/

namespace PowLedger

/-- A pointer that a store keeps beside its entries. -/
inductive Pointer where
  | lastHeader
  | lastBlockHash
  | firstHeader
  | lastBlock
  | firstBlock
  deriving DecidableEq

/-- The name of a pointer, which is also its key in a durable store. -/
def Pointer.name : Pointer → String
  | .lastHeader => "last_header"
  | .lastBlockHash => "last_block_hash"
  | .firstHeader => "first_header"
  | .lastBlock => "last_block"
  | .firstBlock => "first_block"

/-- Something that was looked for and does not exist. -/
inductive Missing where
  | pointer (p : Pointer)
  | header (hash : String)
  | block (hash : String)
  | transaction (txid : Bytes)
  | utxo (source : Outpoint)
  | tipHeader
  | leaf (index count : Nat)
  | reported (text : String)
  deriving DecidableEq

/-- What is missing, in words. -/
def Missing.message : Missing → String
  | .pointer p => p.name
  | .header hash => s!"header {hash}"
  | .block hash => s!"block {hash}"
  | .transaction txid => s!"transaction {txid.hex}"
  | .utxo source => s!"UTXO {source.text}"
  | .tipHeader => "last header"
  | .leaf index count => s!"Transaction index {index} out of bounds ({count} leaves)"
  | .reported text => text

/-- A state that contradicts itself or the data brought to it. -/
inductive Inconsistency where
  | inputOverflow
  | outputOverflow
  | missingUtxo (source : Outpoint) (hash : String) (height : Nat)
  | occupiedUtxo (source : Outpoint) (hash : String) (height : Nat)
  | notAdmitting (status : Status)
  | misplacedHeader (hash : String) (height position : Nat)
  | reported (text : String)
  deriving DecidableEq

/-- An inconsistency in words. -/
def Inconsistency.message : Inconsistency → String
  | .inputOverflow => "Input value overflow"
  | .outputOverflow => "Output value overflow"
  | .missingUtxo source hash height =>
    s!"UTXO {source.text} not found while applying block {hash} at height {height}"
  | .occupiedUtxo source hash height =>
    s!"UTXO {source.text} already exists while applying block {hash} at height {height}"
  | .notAdmitting status => s!"chain is {status.name} and cannot admit data"
  | .misplacedHeader hash height position =>
    s!"header {hash} has height {height} but sits at position {position}"
  | .reported text => text

/-- A failure of a store. -/
inductive DatabaseFault where
  | badPointer (p : Pointer) (fault : Utf8Fault)
  | committing (hash : String) (height : Nat) (cause : DatabaseFault)
  | reported (text : String)
  deriving DecidableEq

/-- A failure of a store in words. -/
def DatabaseFault.message : DatabaseFault → String
  | .badPointer p fault => s!"Invalid {p.name} pointer: {fault.message}"
  | .committing hash height cause => s!"committing block {hash} at height {height}: {cause.message}"
  | .reported text => text

/-- Stored bytes that cannot be read. -/
inductive SerializationFault where
  | unreadable (fault : DecodeFault)
  | reported (text : String)
  deriving DecidableEq

/-- Unreadable bytes in words. -/
def SerializationFault.message : SerializationFault → String
  | .unreadable fault => s!"Deserialization failed: {fault.message}"
  | .reported text => text

/-- A peer that does not keep to the protocol, or a connection that fails. -/
inductive NetworkFault where
  | during (peer what : String) (cause : NetworkFault)
  | wrongBody (peer served wanted : String)
  | wrongAnnouncedBody (peer served wanted : String)
  | wrongTransaction (peer : String) (served wanted : Bytes)
  | relayClosed
  | reported (text : String)
  deriving DecidableEq

/-- A network failure in words. -/
def NetworkFault.message : NetworkFault → String
  | .during peer what cause => s!"peer {peer}: {what}: {cause.message}"
  | .wrongBody peer served wanted => s!"peer {peer} served block {served} for header {wanted}"
  | .wrongAnnouncedBody peer served wanted =>
    s!"peer {peer} served block {served} for announced {wanted}"
  | .wrongTransaction peer served wanted =>
    s!"peer {peer} served transaction {served.hex} for {wanted.hex}"
  | .relayClosed => "announcement relay has shut down"
  | .reported text => text

/-- A wait that took too long. -/
inductive Expiry where
  | request (peer what : String) (limit : Nat)
  | gate (limit : Nat)
  | reported (text : String)
  deriving DecidableEq

/-- An expired wait in words. -/
def Expiry.message : Expiry → String
  | .request peer what limit => s!"peer {peer} did not answer {what} within {limit}ms"
  | .gate limit => s!"sync gate not acquired within {limit}ms"
  | .reported text => text

/-- Work that was called off. -/
inductive Cancellation where
  | gate
  | request (peer what : String)
  | session (peer : String) (added : Nat)
  | reported (text : String)
  deriving DecidableEq

/-- Called-off work in words. -/
def Cancellation.message : Cancellation → String
  | .gate => "sync cancelled while waiting for the gate"
  | .request peer what => s!"{what} request to peer {peer} cancelled"
  | .session peer added => s!"sync with {peer} stopped after {added} blocks"
  | .reported text => text

/-- A key that cannot be used. -/
inductive CryptoFault where
  | badKey (fault : KeyFault)
  | reported (text : String)
  deriving DecidableEq

/-- An unusable key in words. -/
def CryptoFault.message : CryptoFault → String
  | .badKey fault => s!"Failed to create key pair from PKCS8: {fault.message}"
  | .reported text => text

/-- Settings that cannot be used. -/
inductive ConfigFault where
  | noMiningKey (variableName : String)
  | badMiningKey (text : String) (fault : HexFault)
  | badNumber (variableName text : String) (fault : NumeralFault)
  | targetTooHigh (bits limit : Nat)
  | noSyncCapacity
  | unreadable (path reason : String)
  | malformed
  | reported (text : String)
  deriving DecidableEq

/-- Unusable settings in words. -/
def ConfigFault.message : ConfigFault → String
  | .noMiningKey variableName => s!"No mining key configured (set {variableName})"
  | .badMiningKey text fault => s!"Invalid mining key {text}: {fault.message}"
  | .badNumber variableName text fault =>
    s!"Invalid {variableName} {quoted text}: {fault.message}"
  | .targetTooHigh bits limit => s!"target_bits {bits} exceeds {limit}"
  | .noSyncCapacity => "sync_capacity must be at least 1"
  | .unreadable path reason => s!"Failed to read {path}: {reason}"
  | .malformed => "the settings are malformed"
  | .reported text => text

/-- Mining that cannot go on. -/
inductive MiningFault where
  | targetTooHigh (bits limit : Nat)
  | attemptRunning
  | reported (text : String)
  deriving DecidableEq

/-- A mining failure in words. -/
def MiningFault.message : MiningFault → String
  | .targetTooHigh bits limit =>
    s!"Target of {bits} bits exceeds the {limit}-bit hash space"
  | .attemptRunning => "an attempt is already running"
  | .reported text => text

/-- Why an operation failed. -/
inductive Fault where
  | validation (rule : Breach)
  | notFound (what : Missing)
  | consistency (cause : Inconsistency)
  | database (cause : DatabaseFault)
  | serialization (cause : SerializationFault)
  | network (cause : NetworkFault)
  | timeout (cause : Expiry)
  | cancelled (cause : Cancellation)
  | crypto (cause : CryptoFault)
  | config (cause : ConfigFault)
  | io (text : String)
  | mining (cause : MiningFault)
  deriving DecidableEq

namespace Fault

/-- The name of the kind of a fault. -/
def kind : Fault → String
  | .validation rule => "Validation/" ++ rule.name
  | .notFound _ => "NotFound"
  | .consistency _ => "Consistency"
  | .database _ => "Database"
  | .serialization _ => "Serialization"
  | .network _ => "Network"
  | .timeout _ => "Timeout"
  | .cancelled _ => "Cancelled"
  | .crypto _ => "Crypto"
  | .config _ => "Config"
  | .io _ => "Io"
  | .mining _ => "Mining"

/-- A fault in words. -/
def message : Fault → String
  | .validation rule => "Validation failed: " ++ rule.message
  | .notFound what => "Not found: " ++ what.message
  | .consistency cause => "Consistency fault: " ++ cause.message
  | .database cause => "Database error: " ++ cause.message
  | .serialization cause => "Serialization error: " ++ cause.message
  | .network cause => "Network error: " ++ cause.message
  | .timeout cause => "Timed out: " ++ cause.message
  | .cancelled cause => "Cancelled: " ++ cause.message
  | .crypto cause => "Cryptographic error: " ++ cause.message
  | .config cause => "Configuration error: " ++ cause.message
  | .io text => "I/O error: " ++ text
  | .mining cause => "Mining error: " ++ cause.message

/-- Whether something was looked for and does not exist. -/
def isNotFound : Fault → Bool
  | .notFound _ => true
  | _ => false

/-- A fault of the named kind in the words of whoever reports it. -/
def ofReport (kind text : String) : Option Fault :=
  match kind with
  | "NotFound" => some (.notFound (.reported text))
  | "Consistency" => some (.consistency (.reported text))
  | "Database" => some (.database (.reported text))
  | "Serialization" => some (.serialization (.reported text))
  | "Network" => some (.network (.reported text))
  | "Timeout" => some (.timeout (.reported text))
  | "Cancelled" => some (.cancelled (.reported text))
  | "Crypto" => some (.crypto (.reported text))
  | "Config" => some (.config (.reported text))
  | "Io" => some (.io text)
  | "Mining" => some (.mining (.reported text))
  | _ => none

end Fault

end PowLedger
