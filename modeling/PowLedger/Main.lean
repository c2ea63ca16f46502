import PowLedger.CommandLine.Help
import PowLedger.CommandLine.Run
import Std.Time.DateTime.Timestamp

/-!
# The program

The outer layer of the command line: it reads files, the environment, the clock and random bytes,
keeps the store of a data directory in one file there, and prints. Everything else is decided by
`PowLedger.CommandLine`.
-/

namespace PowLedger.Main

open CommandLine

/-- The file of a data directory that holds the store. -/
def storeFile (dataDir : String) : String :=
  dataDir ++ "/ledger.store"

/-- The text of a settings file, or why there is none. -/
def readSettings (path : String) : IO (Except ConfigFault String) := do
  try
    return .ok (← IO.FS.readFile path)
  catch e =>
    match e with
    | .noFileOrDirectory .. =>
      return .error (.unreadable path "No such file or directory (os error 2)")
    | e => return .error (.unreadable path (toString e))

/-- The environment variables that override settings. -/
def readEnvironment : IO Environment := do
  return {
    dataDir := ← IO.getEnv dataDirVariable
    targetBits := ← IO.getEnv targetBitsVariable
    miningKey := ← IO.getEnv miningKeyVariable }

/-- The store of a data directory, a new one if there is none. -/
def readStore (dataDir : String) : IO DurableStore := do
  IO.FS.createDirAll dataDir
  let path := storeFile dataDir
  let found ← try some <$> IO.FS.readBinFile path catch _ => pure none
  match found with
  | none => return DurableStore.empty
  | some bytes =>
    match DurableStore.ofBytes bytes.toList with
    | .ok store => return store
    | .error f => throw (IO.userError f.message)

/-- Keeps the store of a data directory. -/
def writeStore (dataDir : String) (store : DurableStore) : IO Unit :=
  IO.FS.writeBinFile (storeFile dataDir) ⟨store.toBytes.toArray⟩

/-- The time, in milliseconds since the epoch. -/
def now : IO Int64 := do
  let t ← Std.Time.Timestamp.now
  return Int64.ofInt t.toMillisecondsSinceUnixEpoch.toInt

/-- What a command takes from outside. -/
def readSupplies : IO Supplies := do
  let start ← now
  let seed ← IO.getRandomBytes 40
  return ⟨fun reading => start + Int64.ofNat reading, seed.toList, UInt64.size⟩

/-- The settings file that a command line names, as a look-up of its text. -/
def readNamedFile (args : List String) : IO (String → Except ConfigFault String) := do
  match read args with
  | .run ⟨some path, _⟩ =>
    let found ← readSettings path
    return fun _ => found
  | _ => return fun path => .error (.unreadable path "")

/-- The data directory that a command line works on, if it gets as far as that. -/
def dataDirOf (args : List String) (file : String → Except ConfigFault String)
    (env : Environment) : Option String :=
  match read args with
  | .run inv =>
    match NodeSettings.load (inv.config.map file) env with
    | .ok s => if inv.command.usesStore then some s.dataDir else none
    | .error _ => none
  | .help _ | .misuse => none

end PowLedger.Main

/-- Runs the program with its arguments. -/
def main (args : List String) : IO UInt32 := do
  let file ← PowLedger.Main.readNamedFile args
  let env ← PowLedger.Main.readEnvironment
  let supplies ← PowLedger.Main.readSupplies
  let dataDir := PowLedger.Main.dataDirOf args file env
  let store ←
    match dataDir with
    | some dir => PowLedger.Main.readStore dir
    | none => pure PowLedger.DurableStore.empty
  let (store, outcome) := PowLedger.CommandLine.run args file env supplies store
  if let some dir := dataDir then PowLedger.Main.writeStore dir store
  IO.print outcome.printed
  IO.eprint outcome.complaint
  return UInt32.ofNat outcome.exitCode
