import PowLedger.Text.Numeral

/-!
# The command line

A command line names one command, with its own options and arguments, and may name a settings file
in front of the command or behind it. The value of an option stands behind it or behind an equals
sign; a value that begins with a hyphen needs the equals sign. Of short options that stand together
behind one hyphen the first decides. Behind two hyphens everything is an argument.
-/

namespace PowLedger.CommandLine

/-- What the program is to do. -/
inductive Command where
  | keygen
  | mine (blocks : Nat)
  | status
  | balance (lock : String)
  | printChain
  deriving DecidableEq

/-- Whether a command works on a store; a balance does so once its argument has been understood. -/
def Command.usesStore : Command → Bool
  | .keygen => false
  | .mine _ | .status | .balance _ | .printChain => true

/-- A command and the settings file it runs with. -/
structure Invocation where
  config : Option String
  command : Command
  deriving DecidableEq

/-- The name of a command on the command line. -/
inductive Topic where
  | keygen
  | mine
  | status
  | balance
  | printChain
  deriving DecidableEq

namespace Topic

/-- All commands, in the order of the overview. -/
def all : List Topic := [.keygen, .mine, .status, .balance, .printChain]

/-- How a command is written. -/
def name : Topic → String
  | .keygen => "keygen"
  | .mine => "mine"
  | .status => "status"
  | .balance => "balance"
  | .printChain => "print-chain"

/-- What a command does, in words. -/
def about : Topic → String
  | .keygen => "Generate a new ECDSA P-256 key"
  | .mine => "Mine blocks onto the local chain"
  | .status => "Rebuild chain state and print a summary"
  | .balance => "Sum the outputs locked to a public-key hash"
  | .printChain => "Print every header as JSON"

/-- The command that is written so. -/
def ofName (s : String) : Option Topic :=
  all.find? fun t => t.name == s

end Topic

/-- What help can be given about. -/
inductive Guidance where
  /-- All the commands. -/
  | overview
  /-- One command. -/
  | description (topic : Topic)
  /-- The command that gives help. -/
  | helpItself
  deriving DecidableEq

/-- What a command line comes to. -/
inductive Request where
  | run (invocation : Invocation)
  | help (about : Guidance)
  /-- The command line makes no sense. -/
  | misuse
  deriving DecidableEq

/-- What has been read behind a command. -/
structure Draft where
  config : Option String := none
  blocks : Option Nat := none
  lock : Option String := none

namespace Draft

/-- A settings file is named, not for the first time perhaps; its name must not be empty. -/
def setConfig (d : Draft) (value : String) : Option Draft :=
  if d.config.isSome ∨ value = "" then none else some { d with config := some value }

/-- A number of blocks is given, to the command that takes one. -/
def setBlocks (t : Topic) (d : Draft) (value : String) : Option Draft :=
  if t = .mine ∧ d.blocks.isNone then
    match Numeral.read UInt64.size value with
    | .ok n => some { d with blocks := some n }
    | .error _ => none
  else none

/-- An argument is given, to the command that takes one. -/
def setArgument (t : Topic) (d : Draft) (value : String) : Option Draft :=
  if t = .balance ∧ d.lock.isNone then some { d with lock := some value } else none

/-- The command that has been read. -/
def command (t : Topic) (d : Draft) : Option Command :=
  match t with
  | .keygen => some .keygen
  | .mine => some (.mine (d.blocks.getD 1))
  | .status => some .status
  | .balance => d.lock.map .balance
  | .printChain => some .printChain

end Draft

/-- An option with its value behind an equals sign. -/
def attached (option arg : String) : Option String :=
  let mark := (option ++ "=").toList
  let cs := arg.toList
  if mark.isPrefixOf cs then some (String.ofList (cs.drop mark.length)) else none

/-- Whether a word may stand behind an option as its value. -/
def isValue (s : String) : Bool :=
  s = "-" || s.toList.head? ≠ some '-'

/-- Whether a word asks for help: by its long option, or by the short one in front of others. -/
def asksForHelp (s : String) : Bool :=
  s = "--help" || "-h".toList.isPrefixOf s.toList

/-- Reads what stands behind two hyphens. -/
def readPlain (t : Topic) : Draft → List String → Option Draft
  | d, [] => some d
  | d, a :: rest =>
    match d.setArgument t a with
    | some d => readPlain t d rest
    | none => none

/-- Reads what stands behind a command; `outer` is a settings file that was named before it. -/
def readCommand (outer : Option String) (t : Topic) : Draft → List String → Request
  | d, [] => finish d
  | d, "--" :: rest =>
    match readPlain t d rest with
    | some d => finish d
    | none => .misuse
  | d, "--config" :: value :: rest =>
    if isValue value then
      match d.setConfig value with
      | some d => readCommand outer t d rest
      | none => .misuse
    else .misuse
  | d, "--blocks" :: value :: rest =>
    if isValue value then
      match d.setBlocks t value with
      | some d => readCommand outer t d rest
      | none => .misuse
    else .misuse
  | d, a :: rest =>
    if asksForHelp a then .help (.description t)
    else
      let next : Option Draft :=
        match attached "--config" a with
        | some value => d.setConfig value
        | none =>
          match attached "--blocks" a with
          | some value => d.setBlocks t value
          | none => if isValue a then d.setArgument t a else none
      match next with
      | some d => readCommand outer t d rest
      | none => .misuse
where
  /-- The invocation that has been read; a settings file behind the command counts more. -/
  finish (d : Draft) : Request :=
    match d.command t with
    | some c => .run ⟨d.config <|> outer, c⟩
    | none => .misuse

/-- Reads the command that help is asked for. -/
def readHelp : List String → Request
  | [] => .help .overview
  | [name] =>
    match Topic.ofName name with
    | some t => .help (.description t)
    | none => if name = "help" then .help .helpItself else .misuse
  | _ => .misuse

/-- Reads a command line from the left; `d` holds the settings file named so far. -/
def readFrom : Draft → List String → Request
  | _, [] => .misuse
  | d, "--config" :: value :: rest =>
    if isValue value then
      match d.setConfig value with
      | some d => readFrom d rest
      | none => .misuse
    else .misuse
  | d, a :: rest =>
    if asksForHelp a then .help .overview
    else
      match attached "--config" a with
      | some value =>
        match d.setConfig value with
        | some d => readFrom d rest
        | none => .misuse
      | none =>
        if a = "help" then readHelp rest
        else
          match Topic.ofName a with
          | some t => readCommand d.config t {} rest
          | none => .misuse

/-- Reads a command line. -/
def read (args : List String) : Request :=
  readFrom {} args

end PowLedger.CommandLine
