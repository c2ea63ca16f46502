import PowLedger.Fault
import PowLedger.Block

/-!
# Requests to peers

A peer can be asked for its last header, for all its headers, for a body and for a transaction. An
answer comes after a delay, in milliseconds. A request is given up when the answer takes longer
than the limit, and a request that can be called off also when that happens before either; of an
answer and a limit at the same moment the answer wins.
-/

namespace PowLedger

/-- A question to a peer. -/
inductive Request where
  | lastHeader
  | headers
  | block (hash : String)
  | transaction (txid : Bytes)
  deriving DecidableEq

/-- What a request asks for, in words. -/
def Request.what : Request → String
  | .lastHeader => "last header"
  | .headers => "headers"
  | .block _ => "block"
  | .transaction _ => "transaction"

/-- The name of a request. -/
def Request.name : Request → String
  | .lastHeader => "last_header"
  | .headers => "headers"
  | .block _ => "block"
  | .transaction _ => "transaction"

/-- What a request asks for by hash or id, as text. -/
def Request.argument : Request → String
  | .lastHeader | .headers => ""
  | .block hash => hash
  | .transaction txid => txid.hex

/-- A value or a fault that comes after a delay. -/
structure Answer (α : Type) where
  delay : Nat
  reply : Except Fault α

namespace Answer

variable {α : Type}

/-- A failure of the connection names the peer and what was asked for. -/
def locate (peer what : String) (r : Except Fault α) : Except Fault α :=
  match r with
  | .error (.network cause) => .error (.network (.during peer what cause))
  | r => r

/-- What a request comes to within `limit`, and the time it takes. -/
def within (peer what : String) (limit : Nat) (a : Answer α) : Except Fault α × Nat :=
  if a.delay ≤ limit then (locate peer what a.reply, a.delay)
  else (.error (.timeout (.request peer what limit)), limit)

/-- What a request comes to that is called off at `calledOff`, if ever; `alreadyOff` says that it
was called off before it began. -/
def cancellable (peer what : String) (limit : Nat) (alreadyOff : Bool) (calledOff : Option Nat)
    (a : Answer α) : Except Fault α × Nat :=
  if alreadyOff then (.error (.cancelled (.request peer what)), 0)
  else
    let (r, time) := a.within peer what limit
    match calledOff with
    | none => (r, time)
    | some t => if t < time then (.error (.cancelled (.request peer what)), t) else (r, time)

end Answer

end PowLedger
