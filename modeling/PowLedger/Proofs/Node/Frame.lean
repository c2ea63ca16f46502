import Mathlib.Tactic.Common
import Mathlib.Tactic.Lemma
import PowLedger.Node.Reconstruction
import PowLedger.Proofs.Node.Step

/-!
# What stays as it is

Most of what happens to a node touches only a part of it. Observers, whatever they are, cannot reach
the tip, the headers, the status, the gate or the sessions, which are the node's `core`. Admission
changes of the core the tip and the headers only, and it leaves the node exactly as it is when it
refuses something. A session changes no more than what it brings to admission, apart from the status
and the count of sessions, `Node.Aside`. Every act is, as far as the ledger, the pool and the
readiness to admit are concerned, the admission of the block or the transaction that it brings, or
nothing at all (`Node.act_holdings`). Reconstruction, in turn, leaves all but the chain and the
status alone (`Node.reconstruct?_cases`).
-/

namespace PowLedger

/-- What of a node no observer can touch. -/
structure NodeCore where
  params : ChainParams
  limits : SyncSettings
  primitives : Primitives
  tipHash : String
  height : Nat
  headers : Table String Header
  status : Status
  sessions : Nat
  gate : Gate

/-- What of a node only the admission of blocks and transactions touches. -/
structure Holdings (σ : Type) where
  ledger : LedgerState σ
  pool : Pool
  admits : Bool

/-- The transaction that an act brings before the judge. -/
def Act.transaction? {ω : Type} : Act ω → Option Transaction
  | .transaction tx => some tx
  | .announcedTransaction _ txid (.ok tx) => if tx.id ≠ txid then none else some tx
  | _ => none

namespace Node

variable {σ ω : Type}

/-- What of the node no observer can touch. -/
def core (n : Node σ ω) : NodeCore :=
  ⟨n.params, n.limits, n.primitives, n.tipHash, n.height, n.headers, n.status, n.sessions, n.gate⟩

/-- What of the node only admission touches. -/
def holdings (n : Node σ ω) : Holdings σ :=
  ⟨n.ledger, n.pool, n.status.admits⟩

/-- The node without its status, its sessions and its gate. -/
def bare (n : Node σ ω) : Node σ ω :=
  { n with status := .ready, sessions := 0, gate := Gate.ofCapacity 0 }

/-- The second node is the first one but for the status, the sessions and the gate, and it is
admitting just when that is. -/
structure Aside (n n' : Node σ ω) : Prop where
  bare : n'.bare = n.bare
  admits : n'.status.admits = n.status.admits

/-- Status, sessions and gate are no holdings. -/
lemma Aside.holdings {n n' : Node σ ω} (h : n.Aside n') : n'.holdings = n.holdings := by
  have hledger : n'.bare.ledger = n.bare.ledger := by rw [h.bare]
  have hpool : n'.bare.pool = n.bare.pool := by rw [h.bare]
  change n'.ledger = n.ledger at hledger
  change n'.pool = n.pool at hpool
  rw [Node.holdings, Node.holdings, hledger, hpool, h.admits]

variable [Storage σ] [Observer ω]

/-! ### Observers -/

/-- No observer touches the core. -/
lemma deliver_core (e : Event) (s : Subscriber ω) (n : Node σ ω) :
    (deliver e s n).1.core = n.core := by
  cases e with
  | blockAdded b =>
    cases s with
    | utxoSet => rw [deliver_utxoSet]; rfl
    | bodyWriter => rw [deliver_bodyWriter]; rfl
    | pool | watch miner | outside o => rfl
  | transactionAdded tx => cases s <;> rfl

/-- Telling observers does not touch the core. -/
lemma deliverAll_core (e : Event) (n : Node σ ω) (failures : Nat) (ss : List (Subscriber ω)) :
    (deliverAll (deliver e) n failures ss).1.core = n.core := by
  induction ss generalizing n failures with
  | nil => rfl
  | cons s ss ih => rw [deliverAll_cons, ih, deliver_core]

/-- Telling all subscribers does not touch the core. -/
lemma publish_core (n : Node σ ω) (e : Event) : (n.publish e).1.core = n.core :=
  deliverAll_core e n 0 _

/-- Guests do not touch the pool. -/
lemma deliverAll_guests_pool (e : Event) (n : Node σ ω) (failures : Nat)
    {guests : List (Subscriber ω)} (hguests : ∀ s ∈ guests, s.IsGuest) :
    (deliverAll (deliver e) n failures guests).1.pool = n.pool := by
  induction guests generalizing n failures with
  | nil => rfl
  | cons s guests ih =>
    have hs := hguests s List.mem_cons_self
    have hfirst : (deliver e s n).1.pool = n.pool := by
      cases s with
      | utxoSet | pool | bodyWriter => cases hs
      | watch miner | outside o => cases e <;> rfl
    rw [deliverAll_cons, ih _ _ fun t ht => hguests t (List.mem_cons_of_mem _ ht), hfirst]

/-- Once a block is published, the pool has evicted what it makes unspendable. -/
lemma publish_blockAdded_pool {n : Node σ ω} (h : n.Wired) (b : Block) :
    (n.publish (.blockAdded b)).1.pool = (n.pool.evict b).1 := by
  obtain ⟨guests, hblocks, hguests⟩ := h.1
  rw [publish_eq_followed hblocks]
  exact deliverAll_guests_pool _ _ _ hguests

/-! ### Admission -/

/-- A block is taken or refused. A refused one leaves the node as it is; one that is taken was
accepted by the judge, its header went into the store, and the observers were told. -/
theorem addBlock_cases (n : Node σ ω) (b : Block) :
    (∃ f, n.addBlock b = (n, .error f)) ∨
      ∃ fees store, n.status.admits = true ∧ n.judge.checkBlock b n.tip n.utxos = .ok fees ∧
        Storage.persistHeader n.store b.hash b.header = .ok store ∧
        n.addBlock b = (((n.extend b store).publish (.blockAdded b)).1, .ok ()) := by
  rw [addBlock]
  cases hcommit : n.commit b with
  | error f => exact Or.inl ⟨f, rfl⟩
  | ok extended =>
    obtain ⟨hadmits, fees, store, hok, hpersist, rfl⟩ := commit_eq_ok_iff.mp hcommit
    exact Or.inr ⟨fees, store, hadmits, hok, hpersist, rfl⟩

/-- A transaction is pooled or refused. A refused one leaves the node as it is; one that is pooled
was not pooled before and was accepted by the judge, and the observers were told. -/
theorem addTransaction_cases (n : Node σ ω) (tx : Transaction) :
    (∃ f, n.addTransaction tx = (n, .error f)) ∨
      ∃ fee, n.status.admits = true ∧ n.pool.contains tx.id = false ∧
        n.judge.checkTransaction tx n.utxos = .ok fee ∧
        n.addTransaction tx = ((({ n with pool := (n.pool.append tx fee).1 } : Node σ ω).publish
          (.transactionAdded tx)).1, .ok fee) := by
  rw [addTransaction]
  cases hcheck : n.checkPoolable tx with
  | error f => exact Or.inl ⟨f, rfl⟩
  | ok fee =>
    simp only [checkPoolable, bind_eq_ok_iff, error_bind, ite_error_eq_ok_iff,
      Bool.not_eq_true] at hcheck
    obtain ⟨⟨⟩, hadmitting, hnew, hok⟩ := hcheck
    exact Or.inr ⟨fee, checkAdmitting_eq_ok_iff.mp hadmitting, hnew, hok, rfl⟩

/-- A block that is taken becomes the tip and is entered among the headers, and nothing else of the
core changes. -/
lemma addBlock_core {n : Node σ ω} {b : Block} (h : (n.addBlock b).2 = .ok ()) :
    (n.addBlock b).1.core =
      { n.core with
        tipHash := b.hash
        height := n.height + 1
        headers := n.headers.insert b.hash b.header } := by
  rcases n.addBlock_cases b with ⟨f, hadd⟩ | ⟨fees, store, -, -, -, hadd⟩
  · rw [hadd] at h
    cases h
  · rw [hadd, publish_core]
    rfl

/-- No transaction changes the core. -/
lemma addTransaction_core (n : Node σ ω) (tx : Transaction) :
    (n.addTransaction tx).1.core = n.core := by
  rcases n.addTransaction_cases tx with ⟨f, hadd⟩ | ⟨fee, -, -, -, hadd⟩
  · rw [hadd]
  · rw [hadd, publish_core]
    rfl

/-- No block changes status, sessions or gate. -/
lemma addBlock_standing (n : Node σ ω) (b : Block) :
    (n.addBlock b).1.status = n.status ∧ (n.addBlock b).1.sessions = n.sessions ∧
      (n.addBlock b).1.gate = n.gate := by
  rcases n.addBlock_cases b with ⟨f, hadd⟩ | ⟨fees, store, -, -, -, hadd⟩
  · rw [hadd]
    exact ⟨rfl, rfl, rfl⟩
  · have hcore := publish_core (n.extend b store) (.blockAdded b)
    rw [hadd]
    exact ⟨congrArg NodeCore.status hcore, congrArg NodeCore.sessions hcore,
      congrArg NodeCore.gate hcore⟩

/-- No transaction changes status, sessions or gate. -/
lemma addTransaction_standing (n : Node σ ω) (tx : Transaction) :
    (n.addTransaction tx).1.status = n.status ∧ (n.addTransaction tx).1.sessions = n.sessions ∧
      (n.addTransaction tx).1.gate = n.gate := by
  have hcore := n.addTransaction_core tx
  exact ⟨congrArg NodeCore.status hcore, congrArg NodeCore.sessions hcore,
    congrArg NodeCore.gate hcore⟩

/-- A served body of the hash that was asked for is taken if the node takes the block. -/
lemma announcedBody_of_addBlock {n : Node σ ω} {b : Block} (hok : (n.addBlock b).2 = .ok ())
    (peer : String) :
    n.announcedBody peer b.hash (.ok b) = ((n.addBlock b).1, .ok true) := by
  rw [announcedBody, if_neg (not_not.mpr rfl)]
  rcases hadd : n.addBlock b with ⟨m, f | _⟩
  · rw [hadd] at hok
    cases hok
  · rfl

/-- A served body is refused and leaves the node as it is, or it has the hash that was asked for and
is taken. -/
lemma announcedBody_cases (n : Node σ ω) (peer hash : String) (r : Except Fault Block) :
    (∃ f, n.announcedBody peer hash r = (n, .error f)) ∨
      ∃ b, r = .ok b ∧ b.hash = hash ∧ (n.addBlock b).2 = .ok () ∧
        n.announcedBody peer hash r = ((n.addBlock b).1, .ok true) := by
  cases r with
  | error f => exact .inl ⟨f, rfl⟩
  | ok b =>
    by_cases hhash : b.hash = hash
    · subst hhash
      rcases n.addBlock_cases b with ⟨f, hadd⟩ | ⟨fees, store, -, -, -, hadd⟩
      · refine .inl ⟨f, ?_⟩
        rw [announcedBody, if_neg (not_not.mpr rfl), hadd]
      · have hok : (n.addBlock b).2 = .ok () := congrArg Prod.snd hadd
        exact .inr ⟨b, rfl, rfl, hok, announcedBody_of_addBlock hok peer⟩
    · exact .inl ⟨_, by rw [announcedBody, if_pos hhash]⟩

/-- The node after a block or a transaction is brought to it, if there is one. -/
def brought (n : Node σ ω) : Option Block → Option Transaction → Node σ ω
  | some b, _ => (n.addBlock b).1
  | none, some tx => (n.addTransaction tx).1
  | none, none => n

/-- Bringing something to a node changes neither status nor sessions nor gate. -/
lemma brought_standing (n : Node σ ω) (b? : Option Block) (tx? : Option Transaction) :
    (n.brought b? tx?).status = n.status ∧ (n.brought b? tx?).sessions = n.sessions ∧
      (n.brought b? tx?).gate = n.gate := by
  cases b? with
  | some b => exact n.addBlock_standing b
  | none =>
    cases tx? with
    | some tx => exact n.addTransaction_standing tx
    | none => exact ⟨rfl, rfl, rfl⟩

/-- A served body that was announced does what the block does that it brings. -/
lemma act_announcedBody (n : Node σ ω) (peer hash : String) (r : Except Fault Block) :
    n.act (.announcedBody peer hash r) =
      n.brought (Act.announcedBody peer hash r : Act ω).block? none := by
  show (n.announcedBody peer hash r).1 = _
  cases r with
  | error f => rfl
  | ok b =>
    rw [announcedBody, Act.block?]
    split
    · rfl
    · rcases hadd : n.addBlock b with ⟨m, f | _⟩ <;> rw [brought, hadd]

/-- A served transaction that was announced does what the transaction does that it brings. -/
lemma act_announcedTransaction (n : Node σ ω) (peer : String) (txid : Bytes)
    (r : Except Fault Transaction) :
    n.act (.announcedTransaction peer txid r) =
      n.brought none (Act.announcedTransaction peer txid r : Act ω).transaction? := by
  show (n.announcedTransaction peer txid r).1 = _
  cases r with
  | error f => rfl
  | ok tx =>
    rw [announcedTransaction, Act.transaction?]
    split
    · rfl
    · rcases hadd : n.addTransaction tx with ⟨m, f | _⟩ <;> rw [brought, hadd]

omit [Storage σ] [Observer ω] in
/-- Letting go of the status is aside. -/
lemma leaveSync_aside (n : Node σ ω) : n.Aside n.leaveSync where
  bare := rfl
  admits := by
    show (if n.sessions - 1 = 0 ∧ n.status = .syncing then Status.ready else n.status).admits = _
    split
    · next h => rw [h.2]; rfl
    · rfl

omit [Storage σ] [Observer ω] in
/-- Entering is aside. -/
lemma enter_aside (n : Node σ ω) : n.Aside (Session.enter n).1 := by
  rw [Session.enter]
  cases hadmitting : n.checkAdmitting with
  | error f => exact ⟨rfl, rfl⟩
  | ok _ => exact ⟨rfl, (checkAdmitting_eq_ok_iff.mp hadmitting).symm⟩

omit [Storage σ] [Observer ω] in
/-- Going on to the next header, or ending, is aside. -/
lemma next_aside (peer : String) (calledOff : Bool) (n : Node σ ω) (added : Nat)
    (headers : List Header) : n.Aside (Session.next peer calledOff n added headers).1 := by
  cases headers with
  | nil => exact n.leaveSync_aside
  | cons h rest =>
    rw [Session.next]
    split
    · exact n.leaveSync_aside
    · cases n.judge.checkHeader h n.tip with
      | error f => exact n.leaveSync_aside
      | ok _ => exact ⟨rfl, rfl⟩

omit [Storage σ] [Observer ω] in
/-- The step on the peer's last header is aside. -/
lemma onTip_aside (n : Node σ ω) (r : Except Fault Header) : n.Aside (Session.onTip n r).1 := by
  cases r with
  | error f =>
    rw [Session.onTip]
    split <;> exact n.leaveSync_aside
  | ok tip =>
    rw [Session.onTip]
    split
    · exact n.leaveSync_aside
    · exact ⟨rfl, rfl⟩

/-- A reply is aside from the admission of the block that it brings. -/
theorem onReply_aside (n : Node σ ω) (peer : String) (calledOff : Bool) (stage : Stage)
    (reply : Reply) :
    (n.brought (Act.reply peer calledOff stage reply : Act ω).block? none).Aside
      (Session.onReply peer calledOff n stage reply).1 := by
  cases stage with
  | atGate | ended result => exact ⟨rfl, rfl⟩
  | askingTip =>
    cases reply with
    | headers r | block r | transaction r => exact ⟨rfl, rfl⟩
    | lastHeader r => exact n.onTip_aside r
  | askingHeaders floor =>
    cases reply with
    | lastHeader r | block r | transaction r => exact ⟨rfl, rfl⟩
    | headers r =>
      cases r with
      | error f => exact n.leaveSync_aside
      | ok headers => exact next_aside peer calledOff n 0 _
  | askingBody wanted hash rest added =>
    cases reply with
    | lastHeader r | headers r | transaction r => exact ⟨rfl, rfl⟩
    | block r =>
      cases r with
      | error f => exact n.leaveSync_aside
      | ok b =>
        rw [Session.onReply, Session.onBody, Act.block?]
        by_cases hwrong : b.hash ≠ hash ∨ b.header ≠ wanted
        · rw [if_pos hwrong, if_pos hwrong]
          exact n.leaveSync_aside
        · rw [if_neg hwrong, if_neg hwrong, brought]
          rcases n.addBlock b with ⟨m, f | _⟩
          · exact m.leaveSync_aside
          · exact next_aside peer calledOff m (added + 1) rest

/-- What an act makes of the holdings is what the block or the transaction that it brings makes of
them. -/
theorem act_holdings (n : Node σ ω) (a : Act ω) :
    (n.act a).holdings = (n.brought a.block? a.transaction?).holdings := by
  cases a with
  | block b | transaction tx | subscribe topic observer | addWatch => rfl
  | updateWatch miner change | updateGate change => rfl
  | enter => exact n.enter_aside.holdings
  | leave => exact n.leaveSync_aside.holdings
  | reply peer calledOff stage reply => exact (n.onReply_aside peer calledOff stage reply).holdings
  | announcedBody peer hash r => exact congrArg holdings (n.act_announcedBody peer hash r)
  | announcedTransaction peer txid r =>
    exact congrArg holdings (n.act_announcedTransaction peer txid r)

/-- No act changes whether the node is admitting. -/
theorem act_admits (n : Node σ ω) (a : Act ω) : (n.act a).status.admits = n.status.admits := by
  rw [← (n.brought_standing a.block? a.transaction?).1]
  exact congrArg Holdings.admits (n.act_holdings a)

/-! ### Reconstruction -/

omit [Observer ω] in
/-- A rebuild gives the node a chain and the unspent outputs, or it fails and has changed the
unspent outputs at most. -/
lemma rebuild?_cases {n m : Node σ ω} {r : Except Fault Unit} (h : n.rebuild? = some (m, r)) :
    (∃ chain utxos, r = .ok () ∧ m = { n.withChain chain with utxos := utxos }) ∨
      ∃ f utxos, r = .error f ∧ m = { n with utxos := utxos } := by
  rw [rebuild?] at h
  cases hlast : Storage.lastBlockHash n.store with
  | error f =>
    simp only [hlast] at h
    split at h
    · cases h
      exact Or.inl ⟨[], _, rfl, rfl⟩
    · cases h
      exact Or.inr ⟨f, _, rfl, rfl⟩
  | ok hash =>
    simp only [hlast] at h
    cases hwalk : Walk.collect? n.store hash with
    | none => simp [hwalk] at h
    | some walked =>
      cases walked with
      | error f =>
        simp only [hwalk] at h
        cases h
        exact Or.inr ⟨f, _, rfl, rfl⟩
      | ok backward =>
        simp only [hwalk] at h
        cases hplaces : checkPlaces 0 backward.reverse with
        | error f =>
          simp only [hplaces] at h
          cases h
          exact Or.inr ⟨f, _, rfl, rfl⟩
        | ok _ =>
          simp only [hplaces] at h
          rcases hreplay : replay n.store UtxoSet.empty backward.reverse with ⟨utxos, f | chain⟩
          · simp only [hreplay] at h
            cases h
            exact Or.inr ⟨f, _, rfl, rfl⟩
          · simp only [hreplay] at h
            cases h
            exact Or.inl ⟨chain, _, rfl, rfl⟩

omit [Observer ω] in
/-- A rebuild touches neither status nor sessions nor gate, and not the pool. -/
lemma rebuild?_standing {n m : Node σ ω} {r : Except Fault Unit} (h : n.rebuild? = some (m, r)) :
    m.status = n.status ∧ m.sessions = n.sessions ∧ m.gate = n.gate ∧ m.pool = n.pool := by
  rcases rebuild?_cases h with ⟨chain, utxos, -, rfl⟩ | ⟨f, utxos, -, rfl⟩ <;>
    exact ⟨rfl, rfl, rfl, rfl⟩

omit [Observer ω] in
/-- Reconstruction changes the chain, the unspent outputs and the status only, and the chain not if
it fails. -/
theorem reconstruct?_cases {n m : Node σ ω} {r : Except Fault Unit}
    (h : n.reconstruct? = some (m, r)) :
    (∃ chain utxos, r = .ok () ∧
        m = { n.withChain chain with utxos := utxos, status := .ready }) ∨
      ∃ f utxos, r = .error f ∧ m = { n with utxos := utxos, status := .uninitialized } := by
  rw [reconstruct?] at h
  cases hrebuild : rebuild? { n with status := .reconstructing } with
  | none => simp [hrebuild] at h
  | some rebuilt =>
    obtain ⟨m', r'⟩ := rebuilt
    rcases rebuild?_cases hrebuild with ⟨chain, utxos, rfl, rfl⟩ | ⟨f, utxos, rfl, rfl⟩
    · simp only [hrebuild] at h
      cases h
      exact Or.inl ⟨chain, utxos, rfl, rfl⟩
    · simp only [hrebuild] at h
      cases h
      exact Or.inr ⟨f, utxos, rfl, rfl⟩

omit [Observer ω] in
/-- A node that could be opened is a new one with a chain and unspent outputs, and ready. -/
theorem open?_cases {primitives : Primitives} {params : ChainParams} {limits : SyncSettings}
    {store : σ} {n : Node σ ω} (h : open? primitives params limits store = some (.ok n)) :
    ∃ chain utxos, n = { (blank primitives params limits store).withChain chain with
      utxos := utxos, status := .ready } := by
  rw [open?] at h
  cases hreconstruct : (blank primitives params limits store : Node σ ω).reconstruct? with
  | none => simp [hreconstruct] at h
  | some reconstructed =>
    obtain ⟨m, r⟩ := reconstructed
    rcases reconstruct?_cases hreconstruct with ⟨chain, utxos, rfl, rfl⟩ | ⟨f, utxos, rfl, -⟩
    · simp only [hreconstruct] at h
      cases h
      exact ⟨chain, utxos, rfl⟩
    · simp [hreconstruct] at h

end Node

end PowLedger
