import PowLedger.CommandLine.Arguments

/-!
# Help

The overview of the commands, and the description of each. Giving help is a command too, with a
description of its own.
-/

namespace PowLedger.CommandLine

/-- A name and its explanation on one line, the name filled up to a width. -/
def helpLine (width : Nat) (name about : String) : String :=
  "  " ++ name ++ String.ofList (List.replicate (width - name.length) ' ') ++ "  " ++ about ++ "\n"

/-- The options that every command has. -/
def commonOptions : List (String × String) :=
  [("    --config <CONFIG>", "Path to a TOML configuration file"), ("-h, --help", "Print help")]

/-- A titled list of names and explanations. -/
def helpSection (title : String) (width : Nat) (lines : List (String × String)) : String :=
  title ++ ":\n" ++ String.join (lines.map fun (name, about) => helpLine width name about)

/-- What the command that gives help does, in words. -/
def aboutHelp : String :=
  "Print this message or the help of the given subcommand(s)"

/-- The overview of the commands. -/
def overview : String :=
  let commands := (Topic.all.map fun t => (t.name, t.about)) ++ [("help", aboutHelp)]
  "Usage: ledger-node [OPTIONS] <COMMAND>\n\n" ++ helpSection "Commands" 11 commands ++ "\n" ++
    helpSection "Options" 21 commonOptions

/-- What stands behind the name of a command. -/
def usageOf : Topic → String
  | .balance => "[OPTIONS] <PUB_KEY_HASH>"
  | .keygen | .mine | .status | .printChain => "[OPTIONS]"

/-- The arguments of a command. -/
def argumentsOf : Topic → List (String × String)
  | .balance => [("<PUB_KEY_HASH>", "Public-key hash in hex")]
  | .keygen | .mine | .status | .printChain => []

/-- The options of a command. -/
def optionsOf : Topic → List (String × String)
  | .mine => ("    --blocks <BLOCKS>", "Number of blocks to mine [default: 1]") :: commonOptions
  | .keygen | .status | .balance | .printChain => commonOptions

/-- The description of a command. -/
def description (t : Topic) : String :=
  let arguments :=
    match argumentsOf t with
    | [] => ""
    | lines => helpSection "Arguments" 14 lines ++ "\n"
  t.about ++ "\n\nUsage: ledger-node " ++ t.name ++ " " ++ usageOf t ++ "\n\n" ++ arguments ++
    helpSection "Options" 21 (optionsOf t)

/-- The description of the command that gives help. -/
def helpDescription : String :=
  aboutHelp ++ "\n\nUsage: ledger-node help [COMMAND]...\n\n" ++
    helpSection "Arguments" 12 [("[COMMAND]...", "Print help for the subcommand(s)")]

/-- The text that a request for help is answered with. -/
def help : Guidance → String
  | .overview => overview
  | .description t => description t
  | .helpItself => helpDescription

end PowLedger.CommandLine
