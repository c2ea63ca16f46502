import Mathlib.Tactic.Common
import Mathlib.Tactic.Lemma
import PowLedger.Proofs.Rules.Spend
import PowLedger.Proofs.Ledger.Chain
import PowLedger.Sync.Announced
import PowLedger.Sync.Session

/-!
# What one step does to a node

A node is moved by single acts: a block or a transaction is brought to it, a session makes a step on
whatever a peer replied, what a peer announced is served, observers come and miners begin and end
their attempts. Seen through its ledger, which is its store, its tip, its headers and its unspent
outputs, an act does one of two things: it leaves the ledger alone, or it puts one block on top
that the judge accepts (`Node.Moves`, `Node.act_moves`). No observer can interfere, because those
that a node brings along are told first and all others see the node from outside, `Node.Wired`.
-/

namespace PowLedger

/-! ### Acts -/

/-- Something that happens to a node. -/
inductive Act (ω : Type) where
  | block (b : Block)
  | transaction (tx : Transaction)
  /-- A session gets past the gate. -/
  | enter
  /-- A session at any stage gets any reply. -/
  | reply (peer : String) (calledOff : Bool) (stage : Stage) (reply : Reply)
  /-- A session that is called off lets go of the status. -/
  | leave
  /-- The body of an announced header is served. -/
  | announcedBody (peer hash : String) (r : Except Fault Block)
  /-- An announced transaction is served. -/
  | announcedTransaction (peer : String) (txid : Bytes) (r : Except Fault Transaction)
  | subscribe (topic : Topic) (observer : ω)
  | addWatch
  | updateWatch (miner : Nat) (change : Watch → Watch)
  | updateGate (change : Gate → Gate)

/-- The block that an act brings before the judge. -/
def Act.block? {ω : Type} : Act ω → Option Block
  | .block b => some b
  | .reply _ _ (.askingBody wanted hash _ _) (.block (.ok b)) =>
    if b.hash ≠ hash ∨ b.header ≠ wanted then none else some b
  | .announcedBody _ hash (.ok b) => if b.hash ≠ hash then none else some b
  | _ => none

namespace Node

variable {σ ω : Type}

/-- The node after an act. -/
def act [Storage σ] [Observer ω] (n : Node σ ω) : Act ω → Node σ ω
  | .block b => (n.addBlock b).1
  | .transaction tx => (n.addTransaction tx).1
  | .enter => (Session.enter n).1
  | .reply peer calledOff stage reply => (Session.onReply peer calledOff n stage reply).1
  | .leave => n.leaveSync
  | .announcedBody peer hash r => (n.announcedBody peer hash r).1
  | .announcedTransaction peer txid r => (n.announcedTransaction peer txid r).1
  | .subscribe topic observer => n.subscribe topic observer
  | .addWatch => n.addWatch
  | .updateWatch miner change => n.updateWatch miner change
  | .updateGate change => { n with gate := change n.gate }

/-- The block that a node takes by an act. -/
def takes [Storage σ] [Observer ω] (n : Node σ ω) (a : Act ω) : Option Block :=
  a.block?.filter fun b => (n.addBlock b).2.isOk

end Node

/-- Telling several observers is telling the first one and then the others. -/
lemma deliverAll_cons {ω S : Type} (deliver : ω → S → S × Reception) (state : S) (failures : Nat)
    (o : ω) (rest : List ω) : deliverAll deliver state failures (o :: rest) =
      deliverAll deliver (deliver o state).1
        (if (deliver o state).2.isDone then failures else failures + 1) rest := rfl

/-! ### The ledger of a node -/

/-- A store after the body of a block has been handed to it; it may fail to keep it. -/
def Storage.handBlock {σ : Type} [Storage σ] (store : σ) (b : Block) : σ :=
  match Storage.persistBlock store b with
  | .ok store => store
  | .error _ => store

/-- What a node knows of its chain. -/
structure LedgerState (σ : Type) where
  params : ChainParams
  primitives : Primitives
  store : σ
  tipHash : String
  height : Nat
  headers : Table String Header
  utxos : UtxoSet

/-- The state with a block on top of the chain, its header being in `store`. -/
def LedgerState.extend {σ : Type} [Storage σ] (s : LedgerState σ) (b : Block) (store : σ) :
    LedgerState σ :=
  { s with
    store := Storage.handBlock store b
    tipHash := b.hash
    height := s.height + 1
    headers := s.headers.insert b.hash b.header
    utxos := s.utxos.follow b }

/-- An observer that sees a node from outside. -/
def Subscriber.IsGuest {ω : Type} : Subscriber ω → Prop
  | .watch _ | .outside _ => True
  | _ => False

namespace Node

variable {σ ω : Type}

/-- What the node knows of its chain. -/
def ledger (n : Node σ ω) : LedgerState σ :=
  ⟨n.params, n.primitives, n.store, n.tipHash, n.height, n.headers, n.utxos⟩

/-- The node's own observers are told of blocks first, and all others are guests. -/
def Wired (n : Node σ ω) : Prop :=
  (∃ guests, n.bus.blocks = [.utxoSet, .pool, .bodyWriter] ++ guests ∧
    ∀ s ∈ guests, s.IsGuest) ∧ ∀ s ∈ n.bus.transactions, s.IsGuest

/-- What can become of a node with respect to its ledger: nothing, or one more block, accepted by
the judge and its header committed to the store. -/
inductive Moves [Storage σ] (n : Node σ ω) : Option Block → Node σ ω → Prop
  | stay {n' : Node σ ω} : n'.Wired → n'.ledger = n.ledger → Moves n none n'
  | take {n' : Node σ ω} {b : Block} {fees : Amount} {store : σ} :
      n.judge.checkBlock b n.tip n.utxos = .ok fees →
      Storage.persistHeader n.store b.hash b.header = .ok store →
      n'.Wired → n'.ledger = n.ledger.extend b store → Moves n (some b) n'

/-- A node whose bus and ledger are those of a wired one is wired. -/
lemma Wired.of_bus_eq {n n' : Node σ ω} (h : n.Wired) (hbus : n'.bus = n.bus) : n'.Wired := by
  rw [Wired, hbus]
  exact h

/-- A guest more leaves a node wired. -/
lemma Wired.subscribe {n : Node σ ω} (h : n.Wired) (topic : Topic) {s : Subscriber ω}
    (hs : s.IsGuest) : ({ n with bus := n.bus.subscribe topic s } : Node σ ω).Wired := by
  obtain ⟨⟨guests, hblocks, hguests⟩, htransactions⟩ := h
  cases topic with
  | blocks =>
    refine ⟨⟨guests ++ [s], by simp [Bus.subscribe, hblocks], fun t ht => ?_⟩, htransactions⟩
    rcases List.mem_append.mp ht with ht | ht
    · exact hguests t ht
    · exact List.mem_singleton.mp ht ▸ hs
  | transactions =>
    refine ⟨⟨guests, hblocks, hguests⟩, fun t ht => ?_⟩
    rcases List.mem_append.mp ht with ht | ht
    · exact htransactions t ht
    · exact List.mem_singleton.mp ht ▸ hs

/-- Several guests more leave a node wired. -/
lemma Wired.enlist {n : Node σ ω} (h : n.Wired) (newcomers : List (Topic × ω)) :
    ({ n with
      bus := newcomers.foldl (fun bus (topic, o) => bus.subscribe topic (.outside o)) n.bus } :
        Node σ ω).Wired := by
  induction newcomers generalizing n with
  | nil => exact h
  | cons newcomer newcomers ih =>
    exact ih (h.subscribe newcomer.1 (s := .outside newcomer.2) trivial)

/-- What comes after a move without touching the ledger belongs to the move. -/
lemma Moves.followed [Storage σ] {n n₁ n₂ : Node σ ω} {taken : Option Block} (h : n.Moves taken n₁)
    (hbus : n₂.bus = n₁.bus) (hledger : n₂.ledger = n₁.ledger) : n.Moves taken n₂ := by
  cases h with
  | stay hwired hsame => exact .stay (hwired.of_bus_eq hbus) (hledger.trans hsame)
  | take hok hpersist hwired hextend =>
    exact .take hok hpersist (hwired.of_bus_eq hbus) (hledger.trans hextend)

/-- Without a block nothing is written. -/
lemma Moves.store_eq [Storage σ] {n m : Node σ ω} (h : n.Moves none m) : m.store = n.store := by
  cases h with
  | stay hwired hledger => exact congrArg LedgerState.store hledger

/-- A session that goes on to the next header, or ends, touches neither bus nor ledger. -/
lemma next_ledger (peer : String) (calledOff : Bool) (n : Node σ ω) (added : Nat)
    (headers : List Header) :
    (Session.next peer calledOff n added headers).1.bus = n.bus ∧
      (Session.next peer calledOff n added headers).1.ledger = n.ledger := by
  cases headers with
  | nil => exact ⟨rfl, rfl⟩
  | cons h rest =>
    rw [Session.next]
    split
    · exact ⟨rfl, rfl⟩
    · split <;> exact ⟨rfl, rfl⟩

variable [Storage σ] [Observer ω]

/-! ### Telling the observers -/

/-- Telling a guest leaves the ledger alone and the node wired. -/
lemma deliver_guest {n : Node σ ω} (h : n.Wired) (e : Event) {s : Subscriber ω} (hs : s.IsGuest) :
    (deliver e s n).1.Wired ∧ (deliver e s n).1.ledger = n.ledger := by
  cases s with
  | utxoSet => cases hs
  | pool => cases hs
  | bodyWriter => cases hs
  | watch miner =>
    cases e with
    | blockAdded b => exact ⟨h.of_bus_eq rfl, rfl⟩
    | transactionAdded tx => exact ⟨h, rfl⟩
  | outside o =>
    have hbus := h.enlist (Observer.enlist o e)
    exact ⟨hbus.of_bus_eq (by cases e <;> rfl), by cases e <;> rfl⟩

/-- Telling guests leaves the ledger alone and the node wired. -/
lemma deliverAll_guests {n : Node σ ω} (h : n.Wired) (e : Event) (failures : Nat)
    {guests : List (Subscriber ω)} (hguests : ∀ s ∈ guests, s.IsGuest) :
    (deliverAll (deliver e) n failures guests).1.Wired ∧
      (deliverAll (deliver e) n failures guests).1.ledger = n.ledger := by
  induction guests generalizing n failures with
  | nil => exact ⟨h, rfl⟩
  | cons s guests ih =>
    obtain ⟨hwired, hledger⟩ := deliver_guest h e (hguests s List.mem_cons_self)
    rw [deliverAll_cons]
    obtain ⟨hwired', hledger'⟩ := ih hwired
      (if (deliver e s n).2.isDone then failures else failures + 1)
      fun t ht => hguests t (List.mem_cons_of_mem _ ht)
    exact ⟨hwired', hledger'.trans hledger⟩

/-- Telling of a transaction leaves the ledger alone. -/
lemma publish_transactionAdded {n : Node σ ω} (h : n.Wired) (tx : Transaction) :
    (n.publish (.transactionAdded tx)).1.Wired ∧
      (n.publish (.transactionAdded tx)).1.ledger = n.ledger :=
  deliverAll_guests h _ 0 h.2

/-- Told of a block, the set of unspent outputs follows it. -/
lemma deliver_utxoSet (n : Node σ ω) (b : Block) :
    (deliver (.blockAdded b) .utxoSet n).1 = { n with utxos := n.utxos.follow b } := by
  rw [deliver, UtxoSet.follow]
  cases n.utxos.apply b <;> rfl

/-- Told of a block, the writer of bodies hands it to the store. -/
lemma deliver_bodyWriter (n : Node σ ω) (b : Block) :
    (deliver (.blockAdded b) .bodyWriter n).1 =
      { n with store := Storage.handBlock n.store b } := by
  rw [deliver, Storage.handBlock]
  cases Storage.persistBlock n.store b <;> rfl

/-- The node once its own observers have been told of a block. -/
def followed (n : Node σ ω) (b : Block) : Node σ ω :=
  { n with
    utxos := n.utxos.follow b
    pool := (n.pool.evict b).1
    store := Storage.handBlock n.store b }

/-- A block is told to the node's own observers and then to its guests. The node's own observers
take it as they would if they were told alone. -/
lemma publish_eq_followed {n : Node σ ω} {guests : List (Subscriber ω)}
    (hblocks : n.bus.blocks = [.utxoSet, .pool, .bodyWriter] ++ guests) (b : Block) :
    n.publish (.blockAdded b) = deliverAll (deliver (.blockAdded b)) (n.followed b)
      (([.utxoSet, .pool, .bodyWriter] : List (Subscriber ω)).countP fun s =>
        !(deliver (.blockAdded b) s n).2.isDone) guests := by
  have hsubscribers : n.bus.subscribers (Event.blockAdded b).topic =
      .utxoSet :: .pool :: .bodyWriter :: guests := hblocks
  have hpool : ∀ m : Node σ ω, (deliver (.blockAdded b) .pool m).2 = .done := fun _ => rfl
  -- The node that the writer of bodies finds still has the store it would find alone.
  obtain ⟨m, hm⟩ : ∃ m, m =
    (deliver (.blockAdded b) .pool (deliver (.blockAdded b) .utxoSet n).1).1 := ⟨_, rfl⟩
  have htold : (deliver (.blockAdded b) .bodyWriter m).1 = n.followed b := by
    rw [hm, deliver_bodyWriter, deliver_utxoSet]
    rfl
  have hwriter : (deliver (.blockAdded b) .bodyWriter m).2 =
      (deliver (.blockAdded b) .bodyWriter n).2 := by
    have hstore : m.store = n.store := by
      rw [hm, deliver_utxoSet]
      rfl
    rw [deliver, deliver, hstore]
    cases Storage.persistBlock n.store b <;> rfl
  rw [publish, hsubscribers, deliverAll_cons, deliverAll_cons, deliverAll_cons, ← hm, htold, hpool,
    hwriter]
  refine congrArg (fun failures => deliverAll _ (n.followed b) failures guests) ?_
  simp only [List.countP_cons, List.countP_nil, hpool]
  cases (deliver (.blockAdded b) .utxoSet n).2 <;>
    cases (deliver (.blockAdded b) .bodyWriter n).2 <;> rfl

/-- Once a block is published, the set of unspent outputs has followed it and its body has been
handed to the store. -/
lemma publish_blockAdded {n : Node σ ω} (h : n.Wired) (b : Block) :
    (n.publish (.blockAdded b)).1.Wired ∧ (n.publish (.blockAdded b)).1.ledger =
      { n.ledger with store := Storage.handBlock n.store b, utxos := n.utxos.follow b } := by
  obtain ⟨guests, hblocks, hguests⟩ := h.1
  rw [publish_eq_followed hblocks]
  exact deliverAll_guests (n := n.followed b) (h.of_bus_eq rfl) _ _ hguests

/-! ### Admission -/

omit [Storage σ] [Observer ω] in
/-- A node that is ready or syncing is admitting. -/
lemma checkAdmitting_eq_ok_iff {n : Node σ ω} :
    n.checkAdmitting = .ok () ↔ n.status.admits = true :=
  ite_ok_eq_ok_iff

omit [Observer ω] in
/-- A block is committed just when the node is admitting, the judge accepts the block at the tip,
and the store takes the header; then it is on top. -/
lemma commit_eq_ok_iff {n extended : Node σ ω} {b : Block} :
    n.commit b = .ok extended ↔ n.status.admits = true ∧
      ∃ fees store, n.judge.checkBlock b n.tip n.utxos = .ok fees ∧
        Storage.persistHeader n.store b.hash b.header = .ok store ∧
        extended = n.extend b store := by
  simp only [commit, bind_eq_ok_iff]
  constructor
  · rintro ⟨⟨⟩, hadmitting, fees, hok, hkept⟩
    cases hpersist : Storage.persistHeader n.store b.hash b.header with
    | error f => simp [hpersist] at hkept
    | ok store =>
      simp only [hpersist] at hkept
      cases hkept
      exact ⟨checkAdmitting_eq_ok_iff.mp hadmitting, fees, store, hok, rfl, rfl⟩
  · rintro ⟨hadmits, fees, store, hok, hpersist, rfl⟩
    refine ⟨(), checkAdmitting_eq_ok_iff.mpr hadmits, fees, hok, ?_⟩
    rw [hpersist]
    rfl

/-- A block is refused and nothing changes, or the judge has accepted it and it is on top. -/
theorem addBlock_moves {n : Node σ ω} (h : n.Wired) (b : Block) :
    n.Moves ((some b).filter fun b => (n.addBlock b).2.isOk) (n.addBlock b).1 := by
  cases hcommit : n.commit b with
  | error f =>
    have hadd : n.addBlock b = (n, .error f) := by rw [addBlock, hcommit]
    have hnone : (some b).filter (fun b => (n.addBlock b).2.isOk) = none := by
      simp [hadd, Except.isOk, Except.toBool]
    rw [hnone, hadd]
    exact .stay h rfl
  | ok extended =>
    have hadd : n.addBlock b = ((extended.publish (.blockAdded b)).1, .ok ()) := by
      rw [addBlock, hcommit]
    have hsome : (some b).filter (fun b => (n.addBlock b).2.isOk) = some b := by
      simp [hadd, Except.isOk, Except.toBool]
    rw [hsome, hadd]
    obtain ⟨-, fees, store, hok, hpersist, rfl⟩ := commit_eq_ok_iff.mp hcommit
    obtain ⟨hwired, hledger⟩ := publish_blockAdded (n := n.extend b store) (h.of_bus_eq rfl) b
    exact .take hok hpersist hwired (hledger.trans rfl)

/-- A transaction never touches the ledger. -/
lemma addTransaction_ledger {n : Node σ ω} (h : n.Wired) (tx : Transaction) :
    (n.addTransaction tx).1.Wired ∧ (n.addTransaction tx).1.ledger = n.ledger := by
  cases hcheck : n.checkPoolable tx with
  | error f =>
    have hadd : n.addTransaction tx = (n, .error f) := by rw [addTransaction, hcheck]
    rw [hadd]
    exact ⟨h, rfl⟩
  | ok fee =>
    rw [addTransaction, hcheck]
    exact publish_transactionAdded (n := { n with pool := (n.pool.append tx fee).1 })
      (h.of_bus_eq rfl) tx

/-! ### Acts in general -/

/-- The step of a session on a body takes the body, or it leaves the ledger alone. -/
lemma onBody_moves {n : Node σ ω} (h : n.Wired) (peer : String) (calledOff : Bool)
    (wanted : Header) (hash : String) (rest : List Header) (added : Nat) (r : Except Fault Block) :
    n.Moves (n.takes (.reply peer calledOff (.askingBody wanted hash rest added) (.block r)))
      (Session.onBody peer calledOff wanted hash rest added n r).1 := by
  cases r with
  | error f => exact .stay (h.of_bus_eq rfl) rfl
  | ok b =>
    rw [Session.onBody, takes, Act.block?]
    by_cases hwrong : b.hash ≠ hash ∨ b.header ≠ wanted
    · rw [if_pos hwrong, if_pos hwrong]
      exact .stay (h.of_bus_eq rfl) rfl
    · rw [if_neg hwrong, if_neg hwrong]
      have hmoves := addBlock_moves h b
      cases hadd : n.addBlock b with
      | mk n' result =>
        rw [hadd] at hmoves
        cases result with
        | error f => exact hmoves.followed rfl rfl
        | ok _ =>
          obtain ⟨hbus, hledger⟩ := next_ledger peer calledOff n' (added + 1) rest
          exact hmoves.followed hbus hledger

/-- The step of a session on a reply takes the body it brings, or it leaves the ledger alone. -/
lemma onReply_moves {n : Node σ ω} (h : n.Wired) (peer : String) (calledOff : Bool)
    (stage : Stage) (reply : Reply) :
    n.Moves (n.takes (.reply peer calledOff stage reply))
      (Session.onReply peer calledOff n stage reply).1 := by
  cases stage with
  | atGate => exact .stay h rfl
  | ended result => exact .stay h rfl
  | askingTip =>
    cases reply with
    | lastHeader r =>
      cases r with
      | error f =>
        refine .stay (h.of_bus_eq ?_) ?_ <;>
          simp only [Session.onReply, Session.onTip] <;> split <;> rfl
      | ok tip =>
        refine .stay (h.of_bus_eq ?_) ?_ <;>
          simp only [Session.onReply, Session.onTip] <;> split <;> rfl
    | headers r => exact .stay h rfl
    | block r => exact .stay h rfl
    | transaction r => exact .stay h rfl
  | askingHeaders floor =>
    cases reply with
    | headers r =>
      cases r with
      | error f => exact .stay (h.of_bus_eq rfl) rfl
      | ok headers =>
        obtain ⟨hbus, hledger⟩ :=
          next_ledger peer calledOff n 0 (Session.fetchOrder floor headers)
        exact .stay (h.of_bus_eq hbus) hledger
    | lastHeader r => exact .stay h rfl
    | block r => exact .stay h rfl
    | transaction r => exact .stay h rfl
  | askingBody wanted hash rest added =>
    cases reply with
    | block r => exact onBody_moves h peer calledOff wanted hash rest added r
    | lastHeader r => exact .stay h rfl
    | headers r => exact .stay h rfl
    | transaction r => exact .stay h rfl

/-- A served body is taken, or the ledger stays as it is. -/
lemma announcedBody_moves {n : Node σ ω} (h : n.Wired) (peer hash : String)
    (r : Except Fault Block) :
    n.Moves (n.takes (.announcedBody peer hash r)) (n.announcedBody peer hash r).1 := by
  cases r with
  | error f => exact .stay h rfl
  | ok b =>
    rw [announcedBody, takes, Act.block?]
    by_cases hwrong : b.hash ≠ hash
    · rw [if_pos hwrong, if_pos hwrong]
      exact .stay h rfl
    · rw [if_neg hwrong, if_neg hwrong]
      have hmoves := addBlock_moves h b
      cases hadd : n.addBlock b with
      | mk n' result =>
        rw [hadd] at hmoves
        cases result with
        | error f => exact hmoves
        | ok _ => exact hmoves

/-- A served transaction leaves the ledger as it is. -/
lemma announcedTransaction_moves {n : Node σ ω} (h : n.Wired) (peer : String) (txid : Bytes)
    (r : Except Fault Transaction) :
    n.Moves none (n.announcedTransaction peer txid r).1 := by
  cases r with
  | error f => exact .stay h rfl
  | ok tx =>
    rw [announcedTransaction]
    split
    · exact .stay h rfl
    · obtain ⟨hwired, hledger⟩ := addTransaction_ledger h tx
      cases hadd : n.addTransaction tx with
      | mk n' result =>
        rw [hadd] at hwired hledger
        cases result <;> exact .stay hwired hledger

/-- Every act takes one block that the judge accepts, or it leaves the ledger alone. -/
theorem act_moves {n : Node σ ω} (h : n.Wired) (a : Act ω) : n.Moves (n.takes a) (n.act a) := by
  cases a with
  | block b => exact addBlock_moves h b
  | transaction tx =>
    obtain ⟨hwired, hledger⟩ := addTransaction_ledger h tx
    exact .stay hwired hledger
  | enter =>
    show n.Moves none (Session.enter n).1
    rw [Session.enter]
    cases n.checkAdmitting <;> exact .stay (h.of_bus_eq rfl) rfl
  | reply peer calledOff stage reply => exact onReply_moves h peer calledOff stage reply
  | leave => exact .stay (h.of_bus_eq rfl) rfl
  | announcedBody peer hash r => exact announcedBody_moves h peer hash r
  | announcedTransaction peer txid r => exact announcedTransaction_moves h peer txid r
  | subscribe topic observer => exact .stay (h.subscribe topic trivial) rfl
  | addWatch =>
    have hwired := h.subscribe .blocks (s := .watch n.watches.length) trivial
    exact .stay (hwired.of_bus_eq rfl) rfl
  | updateWatch miner change => exact .stay (h.of_bus_eq rfl) rfl
  | updateGate change => exact .stay (h.of_bus_eq rfl) rfl

end Node

end PowLedger
