import PowLedger.Store.Basic

/-!
# Walking headers back

A walk starts at a hash and goes from each header to the one it names, until a header that names
none or a hash without header. On a store whose headers name each other in a circle it goes on
forever: then every one of its steps finds a header, and after more steps than there are headers
some hash has come twice. `Walk.collect?` decides which it is by looking at that many steps.
-/

namespace PowLedger

namespace Walk

variable {σ : Type} [Storage σ]

/-- One step at a hash: what is found there, and the hash to go on with. -/
def step (s : σ) (hash : String) : Except Fault (String × Header) × Option String :=
  match Storage.header s hash with
  | .error f => (.error f, none)
  | .ok h => (.ok (hash, h), if h.isGenesis then none else some h.previous)

/-- The first items of the walk from a hash, at most `limit` of them. -/
def items (s : σ) : (limit : Nat) → Option String → List (Except Fault (String × Header))
  | 0, _ => []
  | _ + 1, none => []
  | limit + 1, some hash => (step s hash).1 :: items s limit (step s hash).2

/-- The headers of the walk from a hash, newest first, if it ends within `limit` steps. -/
def collect (s : σ) : (limit : Nat) → Option String →
    Option (Except Fault (List (String × Header)))
  | _, none => some (.ok [])
  | 0, some _ => none
  | limit + 1, some hash =>
    match step s hash with
    | (.error f, _) => some (.error f)
    | (.ok item, next) => (collect s limit next).map fun r => r.map (item :: ·)

/-- The headers of the walk from a hash, newest first, or nothing if it never ends. -/
def collect? (s : σ) (hash : String) : Option (Except Fault (List (String × Header))) :=
  collect s (Storage.headerBound s + 1) (some hash)

end Walk

end PowLedger
