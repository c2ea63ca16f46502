import Mathlib.Tactic.Common
import Mathlib.Tactic.Lemma
import PowLedger.Proofs.Node.Recovery
import PowLedger.Proofs.Sync.CatchUp

/-!
# Sync with an honest peer converges

A node that syncs with another node of the same rules, while nothing else happens to either of them,
ends up with the chain of that node, or it is exactly what it was. Which of these it is depends on
the two heights and on one hash, since the hash of a tip commits to all blocks below it
(`Node.isOn_iff`). Both nodes may have been through anything before, restarts included; the one that
is asked has not lost a body, while the other one may have (`Node.sync_converges`).
-/

namespace PowLedger

/-! ### Before and after a session -/

namespace Node

variable {σ ω : Type}

/-- No session is under way, and the gate has a free permit. -/
structure Idle (n : Node σ ω) : Prop where
  status : n.status = .ready
  sessions : n.sessions = 0
  gate : ∃ permits, n.gate = Gate.ofCapacity (permits + 1)

/-- The node while its first session is under way. -/
def busy (n : Node σ ω) : Node σ ω :=
  { n with gate := n.gate.ask 0 }.enterSync

/-- The node once its first session is over. -/
def released (n : Node σ ω) : Node σ ω :=
  { n.leaveSync with gate := n.gate.leave 0 }

variable {n m : Node σ ω}

/-- A session that does nothing leaves an idle node as it was. -/
lemma Idle.released_busy (h : n.Idle) : n.busy.released = n := by
  obtain ⟨permits, hgate⟩ := h.gate
  have hback : (n.gate.ask 0).leave 0 = n.gate := by
    rw [hgate]
    rfl
  have hready : n.busy.released = { n with gate := (n.gate.ask 0).leave 0, status := .ready } := by
    simp [busy, released, enterSync, leaveSync, h.sessions]
  rw [hready, hback, ← h.status]

/-- The chain is no matter of sessions. -/
lemma Holds.busy {blocks : List Block} (h : n.Holds blocks) : n.busy.Holds blocks :=
  ⟨h.wired.of_bus_eq rfl, h.accepted, h.tip, h.headers, h.utxos⟩

lemma Holds.released {blocks : List Block} (h : n.Holds blocks) : n.released.Holds blocks :=
  ⟨h.wired.of_bus_eq rfl, h.accepted, h.tip, h.headers, h.utxos⟩

/-- An idle node that runs a session alone with its peer is released when that is over. -/
lemma Idle.run {E : Type} [Storage σ] [Observer ω] {s : Surroundings E σ ω} {peer : String}
    {a : Answers} (hserves : s.Serves peer a) {e : E} (hnode : s.node e = n) (h : n.Idle)
    {k : Nat} {r : Except Fault Nat}
    (hends : Session.Ends peer a (n.busy, .askingTip) k m.leaveSync r) (standing : Standing)
    {fuel : Nat} (hfuel : k + 1 ≤ fuel) :
    let t := Timeline.run s fuel (Timeline.start e standing [⟨peer, false, none⟩])
    s.node t.surroundings = m.released ∧ t.results = [some r] := by
  have hpermit : (n.gate.ask 0).holds 0 = true := by
    obtain ⟨permits, hgate⟩ := h.gate
    rw [hgate]
    rfl
  have henter : Session.enter { n with gate := n.gate.ask 0 } = (n.busy, .askingTip) := by
    simp only [Session.enter, checkAdmitting, h.status, Status.admits, if_true, busy]
  exact Timeline.run_alone hserves hnode hpermit (henter ▸ hends) standing hfuel

end Node

/-! ### Where two chains agree -/

namespace Ledger

variable {j : Judge} {chain : List Block} {b : Block}

/-- The hash of an accepted block is that of the tip above it. -/
lemma Accepted.hash_eq_tip_take (h : Accepted j chain) (hb : b ∈ chain) :
    b.hash = (tip (chain.take (b.height + 1))).hash := by
  obtain ⟨front, back, rfl⟩ := List.append_of_mem hb
  obtain ⟨coinbase, others, hvalid⟩ := h.valid
  have hheight : b.height = front.length := hvalid.height
  have htake : (front ++ b :: back).take (front.length + 1) = front ++ [b] := by
    simp [List.take_append, List.take_of_length_le]
  rw [hheight, htake, tip_append]

/-- At every height below its end an accepted chain has a block. -/
lemma Accepted.exists_height (h : Accepted j chain) {i : Nat} (hi : i < chain.length) :
    ∃ b ∈ chain, b.height = i := by
  have hrange : i ∈ chain.map Block.height := by
    rw [h.map_height]
    exact List.mem_range.mpr hi
  exact List.mem_map.mp hrange

end Ledger

namespace Node

variable {σ ω σ' ω' : Type}

/-- The node has no blocks, or its tip is the header that the other one has just below its
height. -/
def IsOn (n : Node σ ω) (m : Node σ' ω') : Prop :=
  n.height = 0 ∨ ∃ x ∈ m.headerList, x.height.toNat + 1 = n.height ∧ x.hash m.digest = n.tipHash

/-- The node has the chain of the other one, and the bodies from a height on. -/
structure CaughtUp [Storage σ] [Storage σ'] (n : Node σ ω) (m : Node σ' ω') (floor : Nat) :
    Prop where
  tip : n.tip = m.tip
  headers : n.headerList = m.headerList
  utxos : n.utxos = m.utxos
  bodies : ∀ x ∈ m.headerList, floor ≤ x.height.toNat → ∃ b, b.header = x ∧
    m.block (x.hash m.digest) = .ok b ∧ Storage.block n.store (x.hash m.digest) = .ok b

/-- What comes of a session of the first node with the second one, by its result and by the first
node after it. If the chain of the first one is no shorter, nothing is fetched. If it is shorter and
the second node goes on from its tip, all further blocks are. If the chains differ below, the
session fails at the first header. Unless blocks were fetched, the node is what it was. -/
structure Converges [Storage σ] [Storage σ'] (here : Node σ ω) (there : Node σ' ω')
    (result : Except Fault Nat) (after : Node σ ω) : Prop where
  level : there.height ≤ here.height → result = .ok 0 ∧ after = here
  ahead : here.height < there.height → here.IsOn there →
    result = .ok (there.height - here.height) ∧ after.CaughtUp there here.height
  apart : here.height < there.height → ¬here.IsOn there →
    ∃ x ∈ there.headerList, x.height.toNat + 1 = here.height ∧
      result = .error (.validation (.prevHashMismatch here.tipHash (x.hash there.digest))) ∧
      after = here

variable {n : Node σ ω} {m : Node σ' ω'} {own chain : List Block}

/-- Just below a height a node has a header, and its hash is that of the tip at this height. -/
lemma Holds.exists_below (h : m.Holds chain) (hdistinct : Ledger.Distinct m.judge chain)
    {height : Nat} (hpos : height ≠ 0) (hle : height ≤ chain.length) :
    ∃ x ∈ m.headerList, x.height.toNat + 1 = height ∧
      x.hash m.digest = (Ledger.tip (chain.take height)).hash := by
  obtain ⟨b, hb, hheight⟩ := h.accepted.exists_height (i := height - 1) (by omega)
  have hnext : b.height + 1 = height := by omega
  refine ⟨b.header, h.headerList hdistinct ▸ List.mem_map_of_mem hb, hnext, ?_⟩
  rw [← hnext, ← h.accepted.hash_eq_tip_take hb]
  exact h.accepted.hash_eq hb

/-- A node is on a longer chain if the tip at its height is its own. -/
lemma isOn_iff (hn : n.Holds own) (hm : m.Holds chain)
    (hdistinct : Ledger.Distinct m.judge chain) (hle : own.length ≤ chain.length) :
    n.IsOn m ↔ (Ledger.tip (chain.take n.height)).hash = n.tipHash := by
  have hheight : n.height = own.length := hn.height
  constructor
  · rintro (hzero | ⟨x, hx, hbelow, hhash⟩)
    · have hempty : own = [] := List.length_eq_zero_iff.mp (hheight ▸ hzero)
      rw [hzero, hn.tipHash, hempty]
      rfl
    · rw [hm.headerList hdistinct] at hx
      obtain ⟨b, hb, rfl⟩ := List.mem_map.mp hx
      have hentry : b.header.hash m.digest = b.hash := hm.accepted.hash_eq hb
      rw [← hhash, hentry, hm.accepted.hash_eq_tip_take hb, ← hbelow]
      rfl
  · intro htip
    by_cases hzero : n.height = 0
    · exact Or.inl hzero
    · obtain ⟨x, hx, hbelow, hhash⟩ := hm.exists_below hdistinct hzero (hheight ▸ hle)
      exact Or.inr ⟨x, hx, hbelow, hhash.trans htip⟩

/-! ### Convergence -/

/-- A node that holds the same chain as another one, and its bodies from a height on, has caught
up. -/
lemma caughtUp_of_holds [Storage σ] [Storage σ'] {floor : Nat} (hn : n.Holds chain)
    (hm : m.Holds chain) (hjudge : n.judge = m.judge) (hdistinct : Ledger.Distinct m.judge chain)
    (hkept : n.HasBodies floor chain)
    (hbodies : ∀ b ∈ chain, Storage.block m.store b.hash = .ok b) : n.CaughtUp m floor where
  tip := hn.tip.trans hm.tip.symm
  headers := (hn.headerList (hjudge ▸ hdistinct)).trans (hm.headerList hdistinct).symm
  utxos := hn.utxos.trans hm.utxos.symm
  bodies := by
    rw [hm.headerList hdistinct]
    intro x hx hfloor
    obtain ⟨b, hb, rfl⟩ := List.mem_map.mp hx
    have hentry : b.header.hash m.digest = b.hash := hm.accepted.hash_eq hb
    rw [hentry]
    exact ⟨b, rfl, (Answers.offers_ofNode hm hdistinct hbodies).block b hb, hkept b hb hfloor⟩

/-- A node that is on a longer chain has the first blocks of it: the hash of its tip commits to all
of its own. -/
lemma IsOn.eq_take (h : n.IsOn m) (hn : n.Holds own) (hm : m.Holds chain)
    (hjudge : n.judge = m.judge) (hdistinct : Ledger.Distinct m.judge (own ++ chain))
    (hle : own.length ≤ chain.length) : own = chain.take n.height := by
  have htip : (Ledger.tip (chain.take n.height)).hash = (Ledger.tip own).hash := by
    rw [← hn.tipHash]
    exact (isOn_iff hn hm (hdistinct.mono (List.subset_append_right _ _)) hle).mp h
  have hfront : Ledger.Accepted m.judge (chain.take n.height) := by
    have haccepted := hm.accepted
    rw [← List.take_append_drop n.height chain] at haccepted
    exact haccepted.front
  refine Ledger.Accepted.eq_of_tip_eq (hjudge ▸ hn.accepted) hfront (hdistinct.mono ?_) htip.symm
  exact List.append_subset.mpr ⟨List.subset_append_left _ _,
    fun b hb => List.mem_append_right _ (List.mem_of_mem_take hb)⟩

/-- A session of an idle node with a node that has lost no body ends after as many replies as there
are blocks to fetch and two more at most, and it converges. -/
theorem converges_of_holds [Storage σ] [Storage.Unfailing σ] [Observer ω] [Storage σ']
    {here : Node (Faulty σ) ω} {there : Node σ' ω'} (hidle : here.Idle) (hable : here.busy.Able)
    (hown : here.Holds own) (hchain : there.Holds chain) (hjudge : here.judge = there.judge)
    (hdistinct : Ledger.Distinct there.judge (own ++ chain))
    (hbodies : ∀ b ∈ chain, Storage.block there.store b.hash = .ok b) (peer : String) :
    ∃ (k : Nat) (m : Node (Faulty σ) ω) (r : Except Fault Nat),
      k ≤ there.height - here.height + 2 ∧
      Session.Ends peer (.ofNode there) (here.busy, .askingTip) k m.leaveSync r ∧
      here.Converges there r m.released := by
  have hthere := hdistinct.mono (List.subset_append_right own chain)
  have hoffers := Answers.offers_ofNode hchain hthere hbodies
  have hheight : here.height = own.length := hown.height
  have hheight' : there.height = chain.length := hchain.height
  rcases Nat.lt_or_ge here.height there.height with hlt | hle
  · have hlonger : here.height < chain.length := hheight' ▸ hlt
    have hlonger' : own.length ≤ chain.length := hheight ▸ hlonger.le
    by_cases hon : here.IsOn there
    · have hagree := hon.eq_take hown hchain hjudge hdistinct hlonger'
      have hbusy : here.busy.judge = there.judge := hjudge
      obtain ⟨m, hends, hholds, hkept, hsame⟩ := Session.ends_of_agreement peer hoffers
        hable (hagree ▸ hown.busy) (hbusy ▸ hchain.accepted) (hbusy ▸ hthere) hlonger
      have hcaught : m.released.CaughtUp there here.height :=
        caughtUp_of_holds hholds.released hchain (hsame.trans hbusy) hthere hkept hbodies
      rw [← hheight'] at hends
      exact ⟨_, m, _, le_rfl, hends,
        { level := fun hle => absurd hle (Nat.not_le.mpr hlt)
          ahead := fun _ _ => ⟨rfl, hcaught⟩
          apart := fun _ hnot => absurd hon hnot }⟩
    · have hpos : here.height ≠ 0 := fun hzero => hon (Or.inl hzero)
      obtain ⟨x, hx, hbelow, hhash⟩ := hchain.exists_below hthere hpos hlonger.le
      have hdiffers : x.hash there.digest ≠ here.tipHash := by
        rw [hhash]
        exact fun heq => hon ((isOn_iff hown hchain hthere hlonger').mpr heq)
      have hends := Session.ends_of_mismatch (n := here.busy) peer hoffers
        hchain.accepted hlonger (hhash ▸ hdiffers)
      refine ⟨2, here.busy, _, Nat.le_add_left _ _, hends, ?_⟩
      rw [hidle.released_busy]
      exact
        { level := fun hle => absurd hle (Nat.not_le.mpr hlt)
          ahead := fun _ hyes => absurd hyes hon
          apart := fun _ _ => ⟨x, hx, hbelow, by rw [hhash]; rfl, rfl⟩ }
  · have hends := Session.ends_of_le (n := here.busy) peer hoffers hchain.accepted (hheight' ▸ hle)
    refine ⟨1, here.busy, _, by omega, hends, ?_⟩
    rw [hidle.released_busy]
    exact
      { level := fun _ => ⟨rfl, rfl⟩
        ahead := fun hlt => absurd hle (Nat.not_le.mpr hlt)
        apart := fun hlt => absurd hle (Nat.not_le.mpr hlt) }

variable [Storage σ] [Storage.Unfailing σ] [Observer ω] [Storage σ'] [Storage.Reliable σ']
  [Observer ω'] {primitives : Primitives} {params : ChainParams} {limits limits' : SyncSettings}
  {store : σ} {store' : σ'} {n : Node (Faulty σ) ω} {m : Node (Faulty σ') ω'}

/-- Let two nodes with the same rules be opened over empty stores and go through acts, restarts and
refusals of their stores to write; but the store of the second one refuses no body. If the first one
is idle and its store works, and a single session of it with the second one is run while nothing
else happens, then the session ends and converges. -/
theorem sync_converges (hsized : primitives.Sized) (hempty : Storage.IsEmpty store)
    (hempty' : Storage.IsEmpty store')
    (hopen : Node.open? primitives params limits (Faulty.sound store) = some (.ok n))
    (hopen' : Node.open? primitives params limits' (Faulty.sound store') = some (.ok m))
    (turns : List (Turn ω)) (turns' : List (Turn ω')) (hspares : ∀ x ∈ turns', x.SparesBodies)
    (hfits : ∀ b ∈ (n.history turns).known ++ (m.history turns').known, b.Fits)
    (hfree : CollisionFree primitives.digest (Ledger.messages primitives.digest
      ((n.history turns).known ++ (m.history turns').known)))
    (hidle : (n.history turns).node.Idle)
    (hworks : ∀ call, (n.history turns).node.store.faults call = none)
    {E : Type} {s : Surroundings E (Faulty σ) ω} {peer : String}
    (hserves : s.Serves peer (.ofNode (m.history turns').node)) {e : E}
    (hnode : s.node e = (n.history turns).node) (standing : Standing) {fuel : Nat}
    (hfuel : (m.history turns').node.height - (n.history turns).node.height + 3 ≤ fuel) :
    let t := Timeline.run s fuel (Timeline.start e standing [⟨peer, false, none⟩])
    ∃ result, t.results = [some result] ∧
      (n.history turns).node.Converges (m.history turns').node result
        (s.node t.surroundings) := by
  intro t
  let j : Judge := ⟨primitives, params.targetBits, params.rewards⟩
  have hdistinct : Ledger.Distinct j ((n.history turns).known ++ (m.history turns').known) :=
    ⟨hsized, hfree, hfits⟩
  have hknown := hdistinct.mono (List.subset_append_left _ (m.history turns').known)
  have hknown' := hdistinct.mono (List.subset_append_right (n.history turns).known _)
  have hsound : (n.history turns).Sound j := (History.Sound.opened hempty hopen).turns turns hknown
  have hsound' : (m.history turns').Sound j :=
    (History.Sound.opened hempty' hopen').turns turns' hknown'
  have hwhole : (m.history turns').Whole :=
    (History.Sound.opened hempty' hopen').whole_turns (.opened hopen') turns' hspares hknown'
  have hsub : (n.history turns).blocks ++ (m.history turns').blocks ⊆
      (n.history turns).known ++ (m.history turns').known :=
    List.append_subset.mpr ⟨List.subset_append_of_subset_left _ hsound.blocks_subset_known,
      List.subset_append_of_subset_right _ hsound'.blocks_subset_known⟩
  obtain ⟨k, after, r, hk, hends, hconverges⟩ := converges_of_holds hidle
    ⟨rfl, hsound.readable, hworks _, hworks _⟩ hsound.holds hsound'.holds
    (hsound.judge.trans hsound'.judge.symm) (hsound'.judge ▸ hdistinct.mono hsub) hwhole.bodies peer
  have hsteps : k + 1 ≤ fuel := by omega
  obtain ⟨hafter, hresults⟩ := hidle.run hserves hnode hends standing hsteps
  exact ⟨r, hresults, hafter ▸ hconverges⟩

end Node

/-! ### A body that was lost -/

namespace Sample

/-- Both blocks are taken and kept. -/
def steady : List (Turn Watcher) :=
  [.act (.block first), .act (.block second)]

/-- The body of the second block is lost, and a restart cuts it off. -/
def lossy : List (Turn Watcher) :=
  [.act (.block first), .failBodies (some (.database (.reported "disk full"))),
    .act (.block second), .failBodies none, .reopen {}]

lemma history_steady :
    (faultyNode.history steady).known = [first, second] ∧
      (faultyNode.history steady).node.height = 2 ∧
      (faultyNode.history steady).node.tip = ⟨second.hash, 2⟩ ∧
      (faultyNode.history steady).node.headers.values = [first.header, second.header] ∧
      first.header.hash (faultyNode.history steady).node.digest = first.hash ∧
      second.header.hash (faultyNode.history steady).node.digest = second.hash ∧
      (faultyNode.history steady).node.block second.hash = .ok second := by
  decide +kernel

lemma history_lossy :
    (faultyNode.history lossy).known = [first, second] ∧
      (faultyNode.history lossy).node.height = 1 ∧
      (faultyNode.history lossy).node.tipHash = first.hash ∧
      Storage.holdsBody (faultyNode.history lossy).node.store second = false ∧
      (faultyNode.history lossy).node.status = .ready ∧
      (faultyNode.history lossy).node.sessions = 0 ∧
      (faultyNode.history lossy).node.gate = Gate.ofCapacity 1 ∧
      ∀ call ∈ [.persistHeader, .persistBlock, .header, .block, .lastBlockHash],
        (faultyNode.history lossy).node.store.faults call = none := by
  decide +kernel

/-- The node that has lost a body syncs with the one that has not. -/
def refetch : Timeline (Node (Faulty DurableStore) Watcher) :=
  Timeline.run (Surroundings.beside (.ofNode (faultyNode.history steady).node)) 4
    (Timeline.start (faultyNode.history lossy).node .foreground [⟨"peer", false, none⟩])

end Sample

namespace Node

open Sample in
/-- The lost body is fetched again. -/
theorem sync_converges_of_lossy :
    (faultyNode.history lossy).node.height = 1 ∧
      Storage.holdsBody (faultyNode.history lossy).node.store second = false ∧
      refetch.results = [some (.ok 1)] ∧ refetch.surroundings.tip = ⟨second.hash, 2⟩ ∧
      Storage.block refetch.surroundings.store second.hash = .ok second := by
  obtain ⟨hknown', hheight', htip', hvalues, hfirst, hsecond, hbody⟩ := history_steady
  obtain ⟨hknown, hheight, htip, hlost, hstatus, hsessions, hgate, hfaults⟩ := history_lossy
  have hsub : [first, second] ++ [first, second] ⊆ [first, second, third] := by simp
  have hfits : ∀ b ∈ (faultyNode.history lossy).known ++ (faultyNode.history steady).known,
      b.Fits := by
    rw [hknown, hknown']
    exact fun b hb => fits b (hsub hb)
  have hfree : CollisionFree Sample.digest (Ledger.messages Sample.digest
      ((faultyNode.history lossy).known ++ (faultyNode.history steady).known)) := by
    rw [hknown, hknown']
    exact collisionFree.mono (Ledger.messages_mono hsub)
  have hworks : ∀ call, (faultyNode.history lossy).node.store.faults call = none :=
    fun call => hfaults call (by cases call <;> simp)
  have hlisted : ∀ x ∈ [first.header, second.header],
      x ∈ (faultyNode.history steady).node.headerList :=
    fun x hx => List.mem_mergeSort.mpr (hvalues ▸ hx)
  have hspares : ∀ x ∈ steady, x.SparesBodies := by simp [steady, Turn.SparesBodies]
  obtain ⟨result, hresults, hconverges⟩ := sync_converges (e := (faultyNode.history lossy).node)
    sized isEmpty_durable isEmpty_durable open?_faultyNode open?_faultyNode lossy steady hspares
    hfits hfree ⟨hstatus, hsessions, 0, hgate⟩ hworks (Surroundings.serves_beside "peer" _)
    (Surroundings.node_beside _ _) .foreground (show _ - _ + 3 ≤ 4 by rw [hheight, hheight'])
  rw [Surroundings.node_beside] at hconverges
  have hon : (faultyNode.history lossy).node.IsOn (faultyNode.history steady).node := by
    refine Or.inr ⟨first.header, hlisted _ (by simp), ?_, ?_⟩
    · rw [hheight]
      decide +kernel
    · rw [hfirst, htip]
  obtain ⟨rfl, hcaught⟩ := hconverges.ahead (by rw [hheight, hheight']; decide) hon
  rw [hheight, hheight'] at hresults
  obtain ⟨b, -, hserved, hstored⟩ := hcaught.bodies second.header (hlisted _ (by simp)) (by
    rw [hheight]
    decide +kernel)
  rw [hsecond] at hserved hstored
  obtain rfl : second = b := Except.ok.inj (hbody.symm.trans hserved)
  rw [refetch]
  exact ⟨hheight, hlost, hresults, hcaught.tip.trans htip', hstored⟩

end Node

end PowLedger
