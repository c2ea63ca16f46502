import Mathlib.Data.List.Forall2
import Mathlib.Data.List.Infix
import Mathlib.Tactic.Common
import Mathlib.Tactic.Lemma
import PowLedger.Proofs.Node.Admission
import PowLedger.Proofs.Node.Linkage

/-!
# What observers are told

A run commits blocks and transactions one after the other, `Node.commits`. An observer from outside
is told of each of them, as often as it is subscribed to the topic at that moment, in the order of
the commits and of nothing else; and when it is told, the node's own observers have done their part,
so it finds the outputs, the pool and the store as they are after the commit
(`Delivery.Reports`). How it takes the event is counted, and counts for nothing else: the node and
all that others are told are the same if it fails or panics. Collected for a stretch of a run this
is `Node.Informs`, and every stretch of every run has it (`Node.observers_see_commits`).
-/

namespace PowLedger

variable {σ ω : Type}

/-- The same observers, but they take events in another way. -/
abbrev Observer.taking [Observer ω] (receive : ω → Event → Reception) : Observer ω :=
  ⟨receive, Observer.enlist⟩

/-! ### Commits -/

/-- Something that a node commits: the node before it, and the event that the node publishes. -/
structure Commit (σ ω : Type) where
  node : Node σ ω
  event : Event

/-- What an observer sees of a scene apart from miners. -/
def Scene.stock (scene : Scene σ) : UtxoSet × Pool × σ :=
  (scene.utxos, scene.pool, scene.store)

/-- The delivery is of the event of a commit, and it shows the outputs, the pool and the store as
the commit leaves them: of a block, the outputs have followed it, the pool has evicted what it makes
unspendable, and its body has been handed to the store that its header was committed to. -/
structure Delivery.Reports [Storage σ] (d : Delivery σ ω) (c : Commit σ ω) : Prop where
  event : d.event = c.event
  block : ∀ b, c.event = .blockAdded b → ∃ store,
    Storage.persistHeader c.node.store b.hash b.header = .ok store ∧
      d.scene.stock =
        (c.node.utxos.follow b, (c.node.pool.evict b).1, Storage.handBlock store b)
  transaction : ∀ tx, c.event = .transactionAdded tx → ∃ fee,
    c.node.judge.checkTransaction tx c.node.utxos = .ok fee ∧
      d.scene.stock = (c.node.utxos, (c.node.pool.append tx fee).1, c.node.store)

namespace Node

/-- What can be seen of the node apart from miners. -/
def stock (n : Node σ ω) : UtxoSet × Pool × σ :=
  n.scene.stock

/-- What an observer from outside has been told, oldest first. -/
def heard [DecidableEq ω] (n : Node σ ω) (o : ω) : List (Delivery σ ω) :=
  n.journal.filter fun d => d.observer = o

/-- The observer from outside is subscribed once to each topic. -/
def ListensOnce [DecidableEq ω] (n : Node σ ω) (o : ω) : Prop :=
  ∀ topic, (n.audience topic).count o = 1

variable [Storage σ] [Observer ω]

/-- The event that a node publishes when a block or a transaction is brought to it, if it takes
it. -/
def publishes (n : Node σ ω) : Option Block → Option Transaction → Option Event
  | some b, _ => if (n.addBlock b).2.isOk then some (.blockAdded b) else none
  | none, some tx => if (n.addTransaction tx).2.isOk then some (.transactionAdded tx) else none
  | none, none => none

/-- What a node commits by a change. -/
def commit? (n : Node σ ω) : Change ω → Option (Commit σ ω)
  | .act a => (n.publishes a.block? a.transaction?).map (⟨n, ·⟩)
  | .reconstruct => none

/-- The node after a change. -/
def changed (n : Node σ ω) : Change ω → Node σ ω
  | .act a => n.act a
  | .reconstruct =>
    match n.reconstruct? with
    | some (m, _) => m
    | none => n

/-- What a node commits by changes, in order. -/
def commits (n : Node σ ω) : List (Change ω) → List (Commit σ ω)
  | [] => []
  | c :: cs => (n.commit? c).toList ++ (n.changed c).commits cs

/-- The commits of changes, each as often as the observer is subscribed to its topic when it is
made. -/
def commitsFor [DecidableEq ω] (n : Node σ ω) (cs : List (Change ω)) (o : ω) :
    List (Commit σ ω) :=
  (n.commits cs).flatMap fun c => List.replicate ((c.node.audience c.event.topic).count o) c

/-- What becomes of an observer from outside, and of the node, over a stretch of a run. -/
structure Informs [DecidableEq ω] (start : Node σ ω) (cs : List (Change ω)) (o : ω) : Prop where
  /-- The observer is told of the commits, in order, and of nothing else. -/
  told : ∃ told, (start.changes cs).node.heard o = start.heard o ++ told ∧
    List.Forall₂ Delivery.Reports told (start.commitsFor cs o)
  /-- If it is subscribed once to each topic all the time, it is told of each commit once. -/
  once : start.ListensOnce o → (start.changes cs).node.ListensOnce o →
    ∃ told, (start.changes cs).node.heard o = start.heard o ++ told ∧
      List.Forall₂ Delivery.Reports told (start.commits cs)
  /-- The node, and with it all that anybody is told, is the same however observers take it. -/
  indifferent : ∀ receive : ω → Event → Reception,
    @Node.changes σ ω _ (Observer.taking receive) start cs = start.changes cs
  /-- The failures that are counted are those of the subscribers, taken one by one. -/
  failures : ∀ m : Node σ ω, m.bus = (start.changes cs).node.bus → ∀ e,
    (m.publish e).2 =
      (m.bus.subscribers e.topic).countP fun s => !(deliver e s m).2.isDone

end Node

/-! ### One delivery after the other -/

/-- The state after telling several observers is reached by telling one after the other. -/
lemma deliverAll_fst {S : Type} (deliver : ω → S → S × Reception) (state : S) (failures : Nat)
    (os : List ω) :
    (deliverAll deliver state failures os).1 = os.foldl (fun s o => (deliver o s).1) state := by
  induction os generalizing state failures with
  | nil => rfl
  | cons o os ih => rw [deliverAll_cons, ih, List.foldl_cons]

/-- Where the way in which each observer takes the event does not depend on the state, the failures
counted are those of the observers one by one. -/
lemma deliverAll_snd {S : Type} {deliver : ω → S → S × Reception} {reception : ω → Reception}
    {os : List ω} (h : ∀ o ∈ os, ∀ s, (deliver o s).2 = reception o) (state : S)
    (failures : Nat) :
    (deliverAll deliver state failures os).2 =
      failures + os.countP fun o => !(reception o).isDone := by
  induction os generalizing state failures with
  | nil => rfl
  | cons o os ih =>
    rw [deliverAll_cons, ih (fun p hp => h p (List.mem_cons_of_mem _ hp)), List.countP_cons,
      h o List.mem_cons_self]
    cases (reception o).isDone
    · simp [Nat.add_assoc, Nat.add_comm]
    · simp

/-- A subscriber more leaves the others in their places. -/
lemma Bus.subscribers_subscribe (bus : Bus ω) (t : Topic) (s : ω) (topic : Topic) :
    bus.subscribers topic <+: (bus.subscribe t s).subscribers topic := by
  cases t <;> cases topic <;> first | exact List.prefix_rfl | exact List.prefix_append _ _

/-- Each item of a list stands in the relation to one thing, so the list does to as many copies. -/
lemma forall₂_replicate {α β : Type} {R : α → β → Prop} {l : List α} {b : β}
    (h : ∀ a ∈ l, R a b) : List.Forall₂ R l (List.replicate l.length b) := by
  induction l with
  | nil => exact .nil
  | cons a l ih =>
    exact .cons (h a List.mem_cons_self) (ih fun x hx => h x (List.mem_cons_of_mem _ hx))

namespace Node

variable [Storage σ] [Observer ω]

/-- A guest takes an event as it does anywhere. -/
lemma deliver_guest_reception (e : Event) {s : Subscriber ω} (hs : s.IsGuest) (n m : Node σ ω) :
    (deliver e s n).2 = (deliver e s m).2 := by
  cases s with
  | utxoSet | pool | bodyWriter => cases hs
  | watch miner | outside o => cases e <;> rfl

/-- The failures that a node counts are those of its subscribers one by one. Its own observers come
first and do not disturb each other, and guests disturb nobody. -/
lemma publish_failures {n : Node σ ω} (h : n.Wired) (e : Event) :
    (n.publish e).2 = (n.bus.subscribers e.topic).countP fun s => !(deliver e s n).2.isDone := by
  cases e with
  | blockAdded b =>
    obtain ⟨guests, hblocks, hguests⟩ := h.1
    have hsubscribers : n.bus.subscribers (Event.blockAdded b).topic =
        [.utxoSet, .pool, .bodyWriter] ++ guests := hblocks
    rw [publish_eq_followed hblocks, deliverAll_snd (fun s hs m =>
      deliver_guest_reception (.blockAdded b) (hguests s hs) m n), hsubscribers,
      List.countP_append]
  | transactionAdded tx =>
    have hguests : ∀ s ∈ n.bus.subscribers (Event.transactionAdded tx).topic, s.IsGuest := h.2
    rw [publish, deliverAll_snd (fun s hs m =>
      deliver_guest_reception (.transactionAdded tx) (hguests s hs) m n), Nat.zero_add]

/-- A guest from outside leaves one entry in the journal, which shows the node as it is, and no
guest changes what can be seen of it. -/
lemma deliver_guest_told (e : Event) {s : Subscriber ω} (hs : s.IsGuest) (n : Node σ ω) :
    (deliver e s n).1.stock = n.stock ∧ ∃ told, (deliver e s n).1.journal = n.journal ++ told ∧
      told.map Delivery.observer = s.outside?.toList ∧
      ∀ d ∈ told, d.event = e ∧ d.scene.stock = n.stock := by
  cases s with
  | utxoSet | pool | bodyWriter => cases hs
  | watch miner =>
    exact ⟨by cases e <;> rfl, [], by cases e <;> exact (List.append_nil _).symm, rfl, by simp⟩
  | outside o =>
    refine ⟨by cases e <;> rfl, [⟨o, e, n.scene⟩], by cases e <;> rfl, rfl, ?_⟩
    simp [stock]

/-- Each guest from outside leaves one entry in the journal, in order. -/
lemma deliverAll_guests_told (e : Event) (n : Node σ ω) (failures : Nat)
    {guests : List (Subscriber ω)} (hguests : ∀ s ∈ guests, s.IsGuest) :
    ∃ told, (deliverAll (deliver e) n failures guests).1.journal = n.journal ++ told ∧
      told.map Delivery.observer = guests.filterMap Subscriber.outside? ∧
      ∀ d ∈ told, d.event = e ∧ d.scene.stock = n.stock := by
  induction guests generalizing n failures with
  | nil => exact ⟨[], (List.append_nil _).symm, rfl, by simp⟩
  | cons s guests ih =>
    obtain ⟨hstock, first, hfirst, hfirstMap, hfirstShows⟩ :=
      deliver_guest_told e (hguests s List.mem_cons_self) n
    obtain ⟨rest, hrest, hrestMap, hrestShows⟩ := ih (deliver e s n).1
      (if (deliver e s n).2.isDone then failures else failures + 1)
      fun t ht => hguests t (List.mem_cons_of_mem _ ht)
    rw [hstock] at hrestShows
    refine ⟨first ++ rest, ?_, ?_, ?_⟩
    · rw [deliverAll_cons, hrest, hfirst, List.append_assoc]
    · rw [List.map_append, hfirstMap, hrestMap]
      cases hs : s.outside? <;> simp [hs]
    · intro d hd
      exact (List.mem_append.mp hd).elim (hfirstShows d) (hrestShows d)

/-! ### One admission -/

/-- What was told of a commit: each observer from outside that is subscribed to its topic was, in
order, and the delivery reports the commit; without a commit nobody was told of anything. -/
def Covers (told : List (Delivery σ ω)) : Option (Commit σ ω) → Prop
  | none => told = []
  | some c =>
    told.map Delivery.observer = c.node.audience c.event.topic ∧ ∀ d ∈ told, d.Reports c

/-- What is told when a block or a transaction is brought to a node. -/
lemma brought_told {n : Node σ ω} (h : n.Wired) (b? : Option Block) (tx? : Option Transaction) :
    ∃ told, (n.brought b? tx?).journal = n.journal ++ told ∧
      Covers told ((n.publishes b? tx?).map (⟨n, ·⟩)) := by
  cases b? with
  | some b =>
    rw [brought, publishes]
    rcases n.addBlock_cases b with ⟨f, hadd⟩ | ⟨fees, store, -, -, hpersist, hadd⟩
    · rw [hadd]
      exact ⟨[], (List.append_nil _).symm, rfl⟩
    · obtain ⟨guests, hblocks, hguests⟩ := h.1
      have hextended : (n.extend b store).bus.blocks = [.utxoSet, .pool, .bodyWriter] ++ guests :=
        hblocks
      have haudience : n.audience .blocks = guests.filterMap Subscriber.outside? := by
        show n.bus.blocks.filterMap Subscriber.outside? = _
        rw [hblocks]
        rfl
      rw [hadd, publish_eq_followed hextended]
      obtain ⟨told, htold, hmap, hshows⟩ := deliverAll_guests_told (.blockAdded b)
        ((n.extend b store).followed b) (([.utxoSet, .pool, .bodyWriter] :
          List (Subscriber ω)).countP fun s =>
            !(deliver (.blockAdded b) s (n.extend b store)).2.isDone) hguests
      refine ⟨told, htold, hmap.trans haudience.symm, fun d hd => ?_⟩
      obtain ⟨hevent, hstock⟩ := hshows d hd
      refine ⟨hevent, fun b' hb' => ?_, fun tx htx => by cases htx⟩
      cases hb'
      exact ⟨store, hpersist, hstock⟩
  | none =>
    cases tx? with
    | none => exact ⟨[], (List.append_nil _).symm, rfl⟩
    | some tx =>
      rw [brought, publishes]
      rcases n.addTransaction_cases tx with ⟨f, hadd⟩ | ⟨fee, -, -, hok, hadd⟩
      · rw [hadd]
        exact ⟨[], (List.append_nil _).symm, rfl⟩
      · let pooled : Node σ ω := { n with pool := (n.pool.append tx fee).1 }
        rw [hadd]
        obtain ⟨told, htold, hmap, hshows⟩ :=
          deliverAll_guests_told (.transactionAdded tx) pooled 0 h.2
        refine ⟨told, htold, hmap, fun d hd => ?_⟩
        obtain ⟨hevent, hstock⟩ := hshows d hd
        refine ⟨hevent, fun b hb => (by cases hb), fun tx' htx' => ?_⟩
        cases htx'
        exact ⟨fee, hok, hstock⟩

/-- Nobody can unsubscribe: telling an observer keeps all subscribers in their places. -/
lemma deliver_subscribers (e : Event) (s : Subscriber ω) (n : Node σ ω) (topic : Topic) :
    n.bus.subscribers topic <+: (deliver e s n).1.bus.subscribers topic := by
  have henlist : ∀ (newcomers : List (Topic × ω)) (bus : Bus (Subscriber ω)),
      bus.subscribers topic <+:
        (newcomers.foldl (fun bus x => bus.subscribe x.1 (.outside x.2)) bus).subscribers
          topic := by
    intro newcomers
    induction newcomers with
    | nil => exact fun bus => List.prefix_rfl
    | cons newcomer newcomers ih =>
      exact fun bus => (bus.subscribers_subscribe newcomer.1 _ topic).trans (ih _)
  cases s with
  | outside o => cases e <;> exact henlist _ _
  | utxoSet =>
    cases e with
    | blockAdded b => rw [deliver_utxoSet]
    | transactionAdded tx => exact List.prefix_rfl
  | bodyWriter =>
    cases e with
    | blockAdded b => rw [deliver_bodyWriter]
    | transactionAdded tx => exact List.prefix_rfl
  | pool | watch miner => cases e <;> exact List.prefix_rfl

/-- So does telling all subscribers. -/
lemma publish_subscribers (n : Node σ ω) (e : Event) (topic : Topic) :
    n.bus.subscribers topic <+: (n.publish e).1.bus.subscribers topic := by
  rw [publish, deliverAll_fst]
  generalize n.bus.subscribers e.topic = ss
  induction ss generalizing n with
  | nil => exact List.prefix_rfl
  | cons s ss ih => exact (deliver_subscribers e s n topic).trans (ih _)

/-- And so does admission. -/
lemma brought_subscribers (n : Node σ ω) (b? : Option Block) (tx? : Option Transaction)
    (topic : Topic) :
    n.bus.subscribers topic <+: (n.brought b? tx?).bus.subscribers topic := by
  cases b? with
  | some b =>
    rw [brought]
    rcases n.addBlock_cases b with ⟨f, hadd⟩ | ⟨fees, store, -, -, -, hadd⟩
    · rw [hadd]
    · rw [hadd]
      exact publish_subscribers (n.extend b store) _ topic
  | none =>
    cases tx? with
    | none => exact List.prefix_rfl
    | some tx =>
      rw [brought]
      rcases n.addTransaction_cases tx with ⟨f, hadd⟩ | ⟨fee, -, -, -, hadd⟩
      · rw [hadd]
      · rw [hadd]
        exact publish_subscribers { n with pool := (n.pool.append tx fee).1 } _ topic

/-! ### One change -/

/-- An act leaves in the journal what the block or the transaction that it brings does, and it keeps
the subscribers that are there then. -/
lemma act_brought (n : Node σ ω) (a : Act ω) :
    (n.act a).journal = (n.brought a.block? a.transaction?).journal ∧
      ∀ topic, (n.brought a.block? a.transaction?).bus.subscribers topic <+:
        (n.act a).bus.subscribers topic := by
  have haside : ∀ {m m' : Node σ ω}, m.Aside m' → m'.journal = m.journal ∧
      ∀ topic, m.bus.subscribers topic <+: m'.bus.subscribers topic := by
    intro m m' h
    have hjournal : m'.bare.journal = m.bare.journal := by rw [h.bare]
    have hbus : m'.bare.bus = m.bare.bus := by rw [h.bare]
    change m'.bus = m.bus at hbus
    exact ⟨hjournal, fun topic => hbus ▸ List.prefix_rfl⟩
  cases a with
  | block b | transaction tx => exact ⟨rfl, fun _ => List.prefix_rfl⟩
  | updateWatch miner change | updateGate change => exact ⟨rfl, fun _ => List.prefix_rfl⟩
  | subscribe topic observer =>
    exact ⟨rfl, n.bus.subscribers_subscribe topic (.outside observer)⟩
  | addWatch =>
    exact ⟨rfl, n.bus.subscribers_subscribe .blocks (.watch n.watches.length)⟩
  | enter => exact haside n.enter_aside
  | leave => exact haside n.leaveSync_aside
  | reply peer calledOff stage reply => exact haside (n.onReply_aside peer calledOff stage reply)
  | announcedBody peer hash r =>
    rw [n.act_announcedBody peer hash r]
    exact ⟨rfl, fun _ => List.prefix_rfl⟩
  | announcedTransaction peer txid r =>
    rw [n.act_announcedTransaction peer txid r]
    exact ⟨rfl, fun _ => List.prefix_rfl⟩

omit [Observer ω] in
/-- A reconstruction leaves subscribers and journal alone. -/
lemma reconstruct?_bus_journal {n m : Node σ ω} {r : Except Fault Unit}
    (h : n.reconstruct? = some (m, r)) : m.bus = n.bus ∧ m.journal = n.journal := by
  rcases reconstruct?_cases h with ⟨chain, utxos, -, rfl⟩ | ⟨f, utxos, -, rfl⟩ <;> exact ⟨rfl, rfl⟩

variable {n : Node σ ω}

/-- A change tells of what it commits. -/
lemma changed_told (h : n.Wired) (c : Change ω) :
    ∃ told, (n.changed c).journal = n.journal ++ told ∧ Covers told (n.commit? c) := by
  cases c with
  | act a =>
    obtain ⟨told, htold, hcovers⟩ := brought_told h a.block? a.transaction?
    exact ⟨told, (n.act_brought a).1.trans htold, hcovers⟩
  | reconstruct =>
    refine ⟨[], ?_, rfl⟩
    rw [List.append_nil, changed]
    split
    · next m r hends => exact (reconstruct?_bus_journal hends).2
    · rfl

/-- A change keeps the subscribers. -/
lemma changed_subscribers (n : Node σ ω) (c : Change ω) (topic : Topic) :
    n.bus.subscribers topic <+: (n.changed c).bus.subscribers topic := by
  cases c with
  | act a => exact (n.brought_subscribers _ _ topic).trans ((n.act_brought a).2 topic)
  | reconstruct =>
    rw [changed]
    split
    · next m r hends => exact (reconstruct?_bus_journal hends).1 ▸ List.prefix_rfl
    · exact List.prefix_rfl

/-- A change keeps a node wired. -/
lemma changed_wired (h : n.Wired) (c : Change ω) : (n.changed c).Wired := by
  cases c with
  | act a =>
    have hmoves := act_moves h a
    rw [changed]
    generalize n.act a = m at hmoves ⊢
    generalize n.takes a = taken at hmoves
    cases hmoves with
    | stay hwired hledger => exact hwired
    | take hok hpersist hwired hledger => exact hwired
  | reconstruct =>
    rw [changed]
    split
    · next m r hends => exact h.of_bus_eq (reconstruct?_bus_journal hends).1
    · exact h

/-! ### Runs -/

/-- The node that changes come to, whatever blocks were taken before. -/
lemma changes_node (n : Node σ ω) (cs : List (Change ω)) :
    (n.changes cs).node = cs.foldl changed n := by
  have hchange : ∀ (t : Trace σ ω) (c : Change ω), (t.change c).node = t.node.changed c := by
    intro t c
    cases c with
    | act a => rfl
    | reconstruct =>
      rw [Trace.change, changed]
      cases t.node.reconstruct? <;> rfl
  have hrun : ∀ t : Trace σ ω, (cs.foldl Trace.change t).node = cs.foldl changed t.node := by
    induction cs with
    | nil => exact fun t => rfl
    | cons c cs ih => exact fun t => (ih (t.change c)).trans (by rw [hchange]; rfl)
  exact hrun ⟨n, []⟩

lemma changes_cons_node (n : Node σ ω) (c : Change ω) (cs : List (Change ω)) :
    (n.changes (c :: cs)).node = ((n.changed c).changes cs).node := by
  rw [changes_node, changes_node, List.foldl_cons]

/-- Changes keep a node wired. -/
lemma changes_wired (h : n.Wired) (cs : List (Change ω)) : (n.changes cs).node.Wired := by
  induction cs generalizing n with
  | nil => exact h
  | cons c cs ih =>
    rw [changes_cons_node]
    exact ih (changed_wired h c)

/-- Changes keep the subscribers. -/
lemma changes_subscribers (n : Node σ ω) (cs : List (Change ω)) (topic : Topic) :
    n.bus.subscribers topic <+: (n.changes cs).node.bus.subscribers topic := by
  induction cs generalizing n with
  | nil => exact List.prefix_rfl
  | cons c cs ih =>
    rw [changes_cons_node]
    exact (n.changed_subscribers c topic).trans (ih _)

variable [DecidableEq ω]

omit [Observer ω] in
/-- Of what was told of a commit, an observer has as much as it is subscribed to the topic. -/
lemma Covers.heard {told : List (Delivery σ ω)} {c? : Option (Commit σ ω)} (h : Covers told c?)
    (o : ω) : List.Forall₂ Delivery.Reports (told.filter fun d => d.observer = o)
      (c?.toList.flatMap fun c =>
        List.replicate ((c.node.audience c.event.topic).count o) c) := by
  cases c? with
  | none =>
    cases h
    exact .nil
  | some c =>
    have hcount : (c.node.audience c.event.topic).count o =
        (told.filter fun d => d.observer = o).length := by
      rw [← h.1, List.count, List.countP_map, List.countP_eq_length_filter]
      rfl
    rw [Option.toList_some, List.flatMap_singleton, hcount]
    exact forall₂_replicate fun d hd => h.2 d (List.mem_filter.mp hd).1

/-- Over a run an observer is told of the commits, in order, and of nothing else. -/
lemma changes_heard (h : n.Wired) (cs : List (Change ω)) (o : ω) :
    ∃ told, (n.changes cs).node.heard o = n.heard o ++ told ∧
      List.Forall₂ Delivery.Reports told (n.commitsFor cs o) := by
  induction cs generalizing n with
  | nil => exact ⟨[], (List.append_nil _).symm, .nil⟩
  | cons c cs ih =>
    obtain ⟨first, hfirst, hcovers⟩ := changed_told h c
    obtain ⟨rest, hrest, hreports⟩ := ih (changed_wired h c)
    refine ⟨(first.filter fun d => d.observer = o) ++ rest, ?_, ?_⟩
    · rw [changes_cons_node, hrest, heard, hfirst, List.filter_append, List.append_assoc]
      rfl
    · rw [commitsFor, commits, List.flatMap_append]
      exact List.rel_append (hcovers.heard o) hreports

/-- An observer is subscribed at each commit at least as often as before the run and at most as
often as after it. -/
lemma count_audience_of_mem_commits {cs : List (Change ω)} {c : Commit σ ω}
    (hc : c ∈ n.commits cs) (topic : Topic) (o : ω) :
    (n.audience topic).count o ≤ (c.node.audience topic).count o ∧
      (c.node.audience topic).count o ≤ ((n.changes cs).node.audience topic).count o := by
  have hcount : ∀ {m m' : Node σ ω}, m.bus.subscribers topic <+: m'.bus.subscribers topic →
      (m.audience topic).count o ≤ (m'.audience topic).count o :=
    fun hkept => ((hkept.filterMap _).sublist).count_le o
  induction cs generalizing n with
  | nil => cases hc
  | cons change cs ih =>
    have hstep := hcount (n.changed_subscribers change topic)
    rw [changes_cons_node]
    rw [commits, List.mem_append] at hc
    rcases hc with hfirst | hrest
    · have hnode : c.node = n := by
        cases change with
        | reconstruct => cases hfirst
        | act a =>
          obtain ⟨e, -, rfl⟩ := Option.map_eq_some_iff.mp (Option.mem_toList.mp hfirst)
          rfl
      rw [hnode]
      exact ⟨le_rfl, hstep.trans (hcount (changes_subscribers _ cs topic))⟩
    · obtain ⟨hlow, hhigh⟩ := ih hrest
      exact ⟨hstep.trans hlow, hhigh⟩

/-- An observer that is subscribed once to each topic before and after a run has each commit of the
run once. -/
lemma commitsFor_of_listensOnce {cs : List (Change ω)} {o : ω} (hbefore : n.ListensOnce o)
    (hafter : (n.changes cs).node.ListensOnce o) : n.commitsFor cs o = n.commits cs := by
  have honce : ∀ c ∈ n.commits cs,
      List.replicate ((c.node.audience c.event.topic).count o) c = [c] := by
    intro c hc
    obtain ⟨hlow, hhigh⟩ := count_audience_of_mem_commits hc c.event.topic o
    rw [hbefore] at hlow
    rw [hafter] at hhigh
    rw [Nat.le_antisymm hhigh hlow, List.replicate_one]
  rw [commitsFor, List.flatMap_congr honce, List.flatMap_singleton']

end Node

/-! ### Observers that take events otherwise -/

namespace Node

variable [Storage σ] [Observer ω] (receive : ω → Event → Reception)

/-- What an observer makes of the node does not depend on how observers take events. -/
lemma deliver_taking (e : Event) (s : Subscriber ω) (n : Node σ ω) :
    (@deliver σ ω _ (Observer.taking receive) e s n).1 = (deliver e s n).1 := by
  cases s with
  | utxoSet | bodyWriter =>
    cases e with
    | transactionAdded tx => rfl
    | blockAdded b => simp only [deliver_utxoSet, deliver_bodyWriter]
  | pool | watch miner | outside o => cases e <;> rfl

/-- Nor does what publishing makes of it. -/
lemma publish_taking (n : Node σ ω) (e : Event) :
    (@publish σ ω _ (Observer.taking receive) n e).1 = (n.publish e).1 := by
  unfold publish
  simp only [deliverAll_fst, deliver_taking]

/-- Nor does admission. -/
lemma addBlock_taking (n : Node σ ω) (b : Block) :
    @addBlock σ ω _ (Observer.taking receive) n b = n.addBlock b := by
  unfold addBlock
  simp only [publish_taking]

lemma addTransaction_taking (n : Node σ ω) (tx : Transaction) :
    @addTransaction σ ω _ (Observer.taking receive) n tx = n.addTransaction tx := by
  unfold addTransaction
  simp only [publish_taking]

/-- Nor does any act. -/
lemma act_taking (n : Node σ ω) (a : Act ω) :
    @act σ ω _ (Observer.taking receive) n a = n.act a := by
  cases a with
  | block b => simp only [act, addBlock_taking]
  | transaction tx => simp only [act, addTransaction_taking]
  | announcedBody peer hash r =>
    cases r with
    | error f => rfl
    | ok b => simp only [act, announcedBody, addBlock_taking]
  | announcedTransaction peer txid r =>
    cases r with
    | error f => rfl
    | ok tx => simp only [act, announcedTransaction, addTransaction_taking]
  | reply peer calledOff stage reply =>
    cases stage with
    | atGate | ended result => rfl
    | askingTip | askingHeaders floor => cases reply <;> rfl
    | askingBody wanted hash rest added =>
      cases reply with
      | lastHeader r | headers r | transaction r => rfl
      | block r =>
        cases r with
        | error f => rfl
        | ok b => simp only [act, Session.onReply, Session.onBody, addBlock_taking]
  | enter | leave | subscribe topic observer | addWatch => rfl
  | updateWatch miner change | updateGate change => rfl

/-- Nor does a run. -/
lemma changes_taking (n : Node σ ω) (cs : List (Change ω)) :
    @Node.changes σ ω _ (Observer.taking receive) n cs = n.changes cs := by
  have hchange : @Trace.change σ ω _ (Observer.taking receive) = Trace.change := by
    funext t c
    cases c with
    | reconstruct => rfl
    | act a => simp only [Trace.change, Trace.act, takes, act_taking, addBlock_taking]
  unfold changes
  rw [hchange]

/-! ### All together -/

/-- Every stretch of every run of an opened node informs every observer from outside: it is told of
exactly the commits, in order, each with the node's own observers ahead of it, whoever fails. -/
theorem observers_see_commits [DecidableEq ω] {primitives : Primitives} {params : ChainParams}
    {limits : SyncSettings} {store : σ} {n : Node σ ω}
    (hopen : open? primitives params limits store = some (.ok n))
    (before cs : List (Change ω)) (o : ω) : (n.changes before).node.Informs cs o := by
  have hwired := changes_wired (wired_of_open? hopen) before
  have hheard := changes_heard hwired cs o
  exact
    { told := hheard
      once := fun hbefore hafter => commitsFor_of_listensOnce hbefore hafter ▸ hheard
      indifferent := fun receive => changes_taking receive _ cs
      failures := fun m hbus => publish_failures ((changes_wired hwired cs).of_bus_eq hbus) }

end Node

namespace Sample

/-- An observer that only looks on. -/
def quiet : Watcher := ⟨"quiet", .record⟩

/-- Observers that panic and fail subscribe before and after the quiet one. -/
def doors : List (Change Watcher) :=
  [.act (.subscribe .blocks ⟨"loud", .panic⟩), .act (.subscribe .blocks quiet),
    .act (.subscribe .transactions quiet), .act (.subscribe .transactions ⟨"broken", .fail⟩),
    .act (.subscribe .blocks ⟨"broken", .fail⟩)]

/-- Two blocks and a transaction that are taken, and a block that is refused. -/
def commotion : List (Change Watcher) :=
  [.act (.block first), .act (.block first), .act (.transaction payment), .reconstruct,
    .act (.block second)]

lemma commits_commotion :
    ((node.changes doors).node.commits commotion).map Commit.event =
      [.blockAdded first, .transactionAdded payment, .blockAdded second] := by
  decide +kernel

/-- All of them are still there afterwards, and two of them fail on a block. -/
lemma changes_commotion :
    let m := ((node.changes doors).node.changes commotion).node
    ((m.audience .blocks).count quiet, (m.audience .transactions).count quiet,
      (m.bus.subscribers .blocks).countP
        fun s => !(Node.deliver (.blockAdded third) s m).2.isDone) = (1, 1, 2) := by
  decide +kernel

end Sample

namespace Node

open Sample in
/-- The quiet observer is told of the two blocks and the transaction between others that fail. Two
failures are counted when a third block is published. -/
theorem observers_see_commits_of_commotion :
    ((node.changes doors).node.commits commotion).map Commit.event =
        [.blockAdded first, .transactionAdded payment, .blockAdded second] ∧
      List.Forall₂ Delivery.Reports
        (((node.changes doors).node.changes commotion).node.heard quiet)
        ((node.changes doors).node.commits commotion) ∧
      (((node.changes doors).node.changes commotion).node.publish (.blockAdded third)).2 = 2 := by
  have hinforms := observers_see_commits open?_node doors commotion quiet
  obtain ⟨hblocks, htransactions, hfail⟩ : _ ∧ _ ∧ _ := by
    simpa only [Prod.mk.injEq] using changes_commotion
  have hbefore : (node.changes doors).node.ListensOnce quiet := by
    intro topic
    cases topic <;> decide +kernel
  have hafter : ((node.changes doors).node.changes commotion).node.ListensOnce quiet := by
    intro topic
    cases topic
    · exact hblocks
    · exact htransactions
  have hsilent : (node.changes doors).node.heard quiet = [] := rfl
  obtain ⟨told, htold, hreports⟩ := hinforms.once hbefore hafter
  rw [hsilent, List.nil_append] at htold
  refine ⟨commits_commotion, htold ▸ hreports, ?_⟩
  rw [hinforms.failures _ rfl]
  exact hfail

end Node

end PowLedger
