import Mathlib.Tactic.Common
import Mathlib.Tactic.Lemma
import PowLedger.Proofs.Node.Coherence
import PowLedger.Proofs.Store.Law

/-!
# Admission is all or nothing

Whatever is wrong with a block or a transaction is found before anything is changed, so a refusal
leaves the node as it was, with all that it holds and all that its observers were told. Once the
header of a block is committed nothing can fail any more but single observers, and these are told
after the node's own: `Node.Took` says what has become of the node then, whoever fails, and
`Node.Pooled` says it for a transaction. That the committed header can be read back as the last one
is up to the store (`Storage.Pointed`).
-/

namespace PowLedger

/-- A store that finds its last header finds the one that was just committed, also after the body
was handed to it. -/
lemma Storage.last_handBlock {σ : Type} [Storage σ] [Storage.Pointed σ] {s t : σ} {b : Block}
    {hash : String} {h : Header} (hpersist : Storage.persistHeader s hash h = .ok t)
    (hname : EntryName hash) (hfits : h.Fits) :
    Storage.lastHeader (Storage.handBlock t b) = .ok h ∧
      Storage.lastBlockHash (Storage.handBlock t b) = .ok hash ∧
      Storage.header (Storage.handBlock t b) hash = .ok h := by
  have hlast := Storage.Pointed.lastHeader_persistHeader hpersist hname hfits
  have hhash := Storage.Lawful.lastBlockHash_persistHeader hpersist
  have hheader := Storage.Lawful.header_persistHeader hpersist hname hfits
  rw [Storage.handBlock]
  cases hbody : Storage.persistBlock t b with
  | error f => exact ⟨hlast, hhash, hheader⟩
  | ok u =>
    exact ⟨(Storage.Pointed.lastHeader_persistBlock hbody).trans hlast,
      (Storage.Lawful.lastBlockHash_persistBlock hbody).trans hhash,
      (Storage.Lawful.header_persistBlock hash hbody).trans hheader⟩

/-- The observer from outside, if it is one. -/
def Subscriber.outside? {ω : Type} : Subscriber ω → Option ω
  | .outside o => some o
  | _ => none

namespace Node

variable {σ ω : Type}

/-- The observers from outside that are told of the events of a topic, in order. -/
def audience (n : Node σ ω) (topic : Topic) : List ω :=
  (n.bus.subscribers topic).filterMap Subscriber.outside?

/-- From the first node to the second, each observer from outside was told of the event as often as
it had subscribed, and nobody was told of anything else. -/
def Tells (n m : Node σ ω) (e : Event) : Prop :=
  ∃ told, m.journal = n.journal ++ told ∧
    told.map (fun d => (d.observer, d.event)) = (n.audience e.topic).map fun o => (o, e)

/-- What has become of a node that has taken a block. -/
structure Took [Storage σ] (n m : Node σ ω) (b : Block) : Prop where
  height : m.height = n.height + 1
  tipHash : m.tipHash = b.hash
  header : m.header? b.hash = some b.header
  headers : ∀ k, k ≠ b.hash → m.header? k = n.header? k
  /-- The store has the header, and the body as far as it keeps it. -/
  stored : ∃ store, Storage.persistHeader n.store b.hash b.header = .ok store ∧
    m.store = Storage.handBlock store b
  utxos : m.utxos = n.utxos.follow b
  pool : m.pool = (n.pool.evict b).1
  /-- All that no observer can touch is otherwise as before. -/
  core : m.core = { n.core with
    tipHash := b.hash
    height := n.height + 1
    headers := n.headers.insert b.hash b.header }
  told : n.Tells m (.blockAdded b)
  /-- The header is the last one of the store and can be read back. -/
  last : ∀ [Storage.Pointed σ], b.header.Fits →
    Storage.lastHeader m.store = .ok b.header ∧ Storage.lastBlockHash m.store = .ok b.hash ∧
      Storage.header m.store b.hash = .ok b.header

/-- What has become of a node that has pooled a transaction. -/
structure Pooled (n m : Node σ ω) (tx : Transaction) (fee : Amount) : Prop where
  entries : ∃ e : PoolEntry, e.transaction = tx ∧ e.fee = fee ∧
    m.pool.entries.Perm (e :: n.pool.entries)
  /-- Tip, headers, store and unspent outputs are as before. -/
  ledger : m.ledger = n.ledger
  core : m.core = n.core
  told : n.Tells m (.transactionAdded tx)

variable [Storage σ] [Observer ω]

/-! ### What observers are told -/

/-- Only an observer from outside leaves an entry in the journal. -/
lemma deliver_journal (e : Event) (s : Subscriber ω) (n : Node σ ω) :
    ∃ told, (deliver e s n).1.journal = n.journal ++ told ∧
      told.map (fun d => (d.observer, d.event)) = s.outside?.toList.map fun o => (o, e) := by
  cases s with
  | outside o => exact ⟨[⟨o, e, n.scene⟩], by cases e <;> rfl, rfl⟩
  | utxoSet =>
    refine ⟨[], ?_, rfl⟩
    cases e with
    | blockAdded b => rw [deliver_utxoSet, List.append_nil]
    | transactionAdded tx => exact (List.append_nil _).symm
  | bodyWriter =>
    refine ⟨[], ?_, rfl⟩
    cases e with
    | blockAdded b => rw [deliver_bodyWriter, List.append_nil]
    | transactionAdded tx => exact (List.append_nil _).symm
  | pool | watch miner => exact ⟨[], by cases e <;> exact (List.append_nil _).symm, rfl⟩

/-- Each observer from outside among the subscribers leaves one entry in the journal, in order. -/
lemma deliverAll_journal (e : Event) (n : Node σ ω) (failures : Nat) (ss : List (Subscriber ω)) :
    ∃ told, (deliverAll (deliver e) n failures ss).1.journal = n.journal ++ told ∧
      told.map (fun d => (d.observer, d.event)) =
        (ss.filterMap Subscriber.outside?).map fun o => (o, e) := by
  induction ss generalizing n failures with
  | nil => exact ⟨[], (List.append_nil _).symm, rfl⟩
  | cons s ss ih =>
    obtain ⟨first, hfirst, hfirstMap⟩ := deliver_journal e s n
    obtain ⟨rest, hrest, hrestMap⟩ := ih (deliver e s n).1
      (if (deliver e s n).2.isDone then failures else failures + 1)
    refine ⟨first ++ rest, ?_, ?_⟩
    · rw [deliverAll_cons, hrest, hfirst, List.append_assoc]
    · rw [List.map_append, hfirstMap, hrestMap, ← List.map_append]
      cases hs : s.outside? <;> simp [hs]

/-- Publishing tells each observer from outside that has subscribed. -/
lemma publish_tells (n : Node σ ω) (e : Event) : n.Tells (n.publish e).1 e :=
  deliverAll_journal e n 0 _

/-! ### Blocks -/

/-- A block is taken just when the node is admitting, the judge accepts the block at the tip, and
the store takes the header. -/
lemma addBlock_eq_ok_iff {n : Node σ ω} {b : Block} :
    (n.addBlock b).2 = .ok () ↔ n.status.admits = true ∧
      (∃ fees, n.judge.checkBlock b n.tip n.utxos = .ok fees) ∧
      ∃ store, Storage.persistHeader n.store b.hash b.header = .ok store := by
  constructor
  · intro h
    rcases n.addBlock_cases b with ⟨f, hadd⟩ | ⟨fees, store, hadmits, hok, hpersist, -⟩
    · rw [hadd] at h
      cases h
    · exact ⟨hadmits, ⟨fees, hok⟩, store, hpersist⟩
  · rintro ⟨hadmits, ⟨fees, hok⟩, store, hpersist⟩
    have hcommit := commit_eq_ok_iff.mpr ⟨hadmits, fees, store, hok, hpersist, rfl⟩
    rw [addBlock, hcommit]

/-- A refused block leaves the node as it is. -/
lemma addBlock_of_error {n : Node σ ω} {b : Block} {f : Fault}
    (h : (n.addBlock b).2 = .error f) : (n.addBlock b).1 = n := by
  rcases n.addBlock_cases b with ⟨g, hadd⟩ | ⟨fees, store, -, -, -, hadd⟩
  · rw [hadd]
  · rw [hadd] at h
    cases h

/-- A node that takes a block has it on top, and its own observers have followed. -/
lemma took_of_addBlock {n : Node σ ω} {b : Block} (hwired : n.Wired)
    (h : (n.addBlock b).2 = .ok ()) : n.Took (n.addBlock b).1 b := by
  have hcore := addBlock_core h
  rcases n.addBlock_cases b with ⟨f, hadd⟩ | ⟨fees, store, -, hok, hpersist, hadd⟩
  · rw [hadd] at h
    cases h
  have hname : EntryName b.hash := by
    obtain ⟨coinbase, others, hvalid, -⟩ := Judge.checkBlock_eq_ok_iff.mp hok
    exact hvalid.hash ▸ entryName_hex _
  have hextended : (n.extend b store).Wired := hwired.of_bus_eq rfl
  have hledger := (publish_blockAdded hextended b).2
  have hpool := publish_blockAdded_pool hextended b
  have htold := publish_tells (n.extend b store) (.blockAdded b)
  rw [hadd] at hcore ⊢
  generalize ((n.extend b store).publish (.blockAdded b)).1 = m at hcore hledger hpool htold ⊢
  have hstore : m.store = Storage.handBlock store b := congrArg LedgerState.store hledger
  have hheaders : ∀ k, m.header? k = if b.hash = k then some b.header else n.header? k := by
    intro k
    have hinsert : m.headers = n.headers.insert b.hash b.header := congrArg NodeCore.headers hcore
    rw [header?, hinsert, Table.get?_insert, header?]
  exact
    { height := congrArg NodeCore.height hcore
      tipHash := congrArg NodeCore.tipHash hcore
      header := by rw [hheaders, if_pos rfl]
      headers := fun k hk => by rw [hheaders, if_neg (Ne.symm hk)]
      stored := ⟨store, hpersist, hstore⟩
      utxos := congrArg LedgerState.utxos hledger
      pool := hpool
      core := hcore
      told := htold
      last := fun hfits => hstore ▸ Storage.last_handBlock hpersist hname hfits }

/-! ### Transactions -/

/-- A transaction is pooled just when the node is admitting, no transaction of its id is pooled, and
the judge accepts it over the unspent outputs, with the fee that the judge finds. -/
lemma addTransaction_eq_ok_iff {n : Node σ ω} {tx : Transaction} {fee : Amount} :
    (n.addTransaction tx).2 = .ok fee ↔ n.status.admits = true ∧ n.pool.contains tx.id = false ∧
      n.judge.checkTransaction tx n.utxos = .ok fee := by
  constructor
  · intro h
    rcases n.addTransaction_cases tx with ⟨f, hadd⟩ | ⟨fee', hadmits, hnew, hok, hadd⟩
    · rw [hadd] at h
      cases h
    · rw [hadd] at h
      cases h
      exact ⟨hadmits, hnew, hok⟩
  · rintro ⟨hadmits, hnew, hok⟩
    have hcheck : n.checkPoolable tx = .ok fee := by
      simp only [checkPoolable, bind_eq_ok_iff, error_bind, ite_error_eq_ok_iff,
        Bool.not_eq_true]
      exact ⟨(), checkAdmitting_eq_ok_iff.mpr hadmits, hnew, hok⟩
    rw [addTransaction, hcheck]

/-- A refused transaction leaves the node as it is. -/
lemma addTransaction_of_error {n : Node σ ω} {tx : Transaction} {f : Fault}
    (h : (n.addTransaction tx).2 = .error f) : (n.addTransaction tx).1 = n := by
  rcases n.addTransaction_cases tx with ⟨g, hadd⟩ | ⟨fee, -, -, -, hadd⟩
  · rw [hadd]
  · rw [hadd] at h
    cases h

/-- A node that pools a transaction has it in the pool with its fee, and nothing else changes. -/
lemma pooled_of_addTransaction {n : Node σ ω} {tx : Transaction} {fee : Amount}
    (hwired : n.Wired) (h : (n.addTransaction tx).2 = .ok fee) :
    n.Pooled (n.addTransaction tx).1 tx fee := by
  rcases n.addTransaction_cases tx with ⟨f, hadd⟩ | ⟨fee', -, hnew, -, hadd⟩
  · rw [hadd] at h
    cases h
  rw [hadd] at h ⊢
  cases h
  let pooled : Node σ ω := { n with pool := (n.pool.append tx fee).1 }
  have hpooled : pooled.Wired := hwired.of_bus_eq rfl
  have hpool : (pooled.publish (.transactionAdded tx)).1.pool = (n.pool.append tx fee).1 :=
    deliverAll_guests_pool (.transactionAdded tx) pooled 0 hpooled.2
  have hentries : (pooled.publish (.transactionAdded tx)).1.pool.entries.Perm
      (⟨tx, fee, n.pool.arrivals⟩ :: n.pool.entries) := by
    rw [hpool]
    exact Pool.entries_append fee hnew
  exact
    { entries := ⟨_, rfl, rfl, hentries⟩
      ledger := (publish_transactionAdded hpooled tx).2
      core := publish_core pooled (.transactionAdded tx)
      told := publish_tells pooled (.transactionAdded tx) }

/-! ### Both -/

/-- A block or a transaction that is refused leaves the node exactly as it is. One that is not has
passed every check, and all that it is to change has changed, whichever observers have failed. -/
theorem admission_all_or_nothing {n : Node σ ω} (hwired : n.Wired) :
    (∀ b : Block,
      ((n.addBlock b).2 = .ok () ↔ n.status.admits = true ∧
        (∃ fees, n.judge.checkBlock b n.tip n.utxos = .ok fees) ∧
        ∃ store, Storage.persistHeader n.store b.hash b.header = .ok store) ∧
      (∀ f, (n.addBlock b).2 = .error f → (n.addBlock b).1 = n) ∧
      ((n.addBlock b).2 = .ok () → n.Took (n.addBlock b).1 b)) ∧
    ∀ tx : Transaction,
      (∀ fee, (n.addTransaction tx).2 = .ok fee ↔ n.status.admits = true ∧
        n.pool.contains tx.id = false ∧ n.judge.checkTransaction tx n.utxos = .ok fee) ∧
      (∀ f, (n.addTransaction tx).2 = .error f → (n.addTransaction tx).1 = n) ∧
      ∀ fee, (n.addTransaction tx).2 = .ok fee → n.Pooled (n.addTransaction tx).1 tx fee :=
  ⟨fun _ => ⟨addBlock_eq_ok_iff, fun _ => addBlock_of_error, took_of_addBlock hwired⟩,
    fun _ => ⟨fun _ => addTransaction_eq_ok_iff, fun _ => addTransaction_of_error,
      fun _ => pooled_of_addTransaction hwired⟩⟩

end Node

namespace Sample

/-- The sample node after the first block, with observers that panic and fail. -/
def attended : Node VolatileStore Watcher :=
  (node.run [.subscribe .blocks ⟨"watcher", .panic⟩, .subscribe .transactions ⟨"watcher", .fail⟩,
    .block first]).node

end Sample

namespace Node

open Sample in
/-- The attended node takes the second block and pools the payment, although the observers fail, and
the first block leaves it as it is the second time. -/
theorem admission_all_or_nothing_of_attended :
    (attended.addBlock second).2 = .ok () ∧ attended.Took (attended.addBlock second).1 second ∧
      (attended.addBlock first).2 = .error (.validation (.prevHashMismatch first.hash "")) ∧
      (attended.addBlock first).1 = attended ∧
      (attended.addTransaction payment).2 = .ok 5 ∧
      attended.Pooled (attended.addTransaction payment).1 payment 5 := by
  have hwired : attended.Wired := (run_grows (wired_of_open? open?_node) _).wired
  obtain ⟨hblock, htransaction⟩ := admission_all_or_nothing hwired
  obtain ⟨-, -, htook⟩ := hblock second
  obtain ⟨-, hrefused, -⟩ := hblock first
  obtain ⟨-, -, hpooled⟩ := htransaction payment
  have hsecond : (attended.addBlock second).2 = .ok () := by decide +kernel
  have hfirst : (attended.addBlock first).2 =
      .error (.validation (.prevHashMismatch first.hash "")) := by decide +kernel
  have hpayment : (attended.addTransaction payment).2 = .ok 5 := by decide +kernel
  exact ⟨hsecond, htook hsecond, hfirst, hrefused _ hfirst, hpayment, hpooled 5 hpayment⟩

end Node

end PowLedger
