import Mathlib.Data.List.Enum
import Mathlib.Data.List.Perm.Subperm
import Mathlib.Tactic.Common
import Mathlib.Tactic.Lemma
import PowLedger.Proofs.Node.Opening
import PowLedger.Proofs.Sync.Meeting

/-!
# Sessions and reconstructions side by side

Three parties write the status of a node: sessions that enter, sessions that leave, and
reconstructions. A `Course` is a meeting at a node together with the reconstruction that may be
going on there. A reconstruction takes three turns, between which sessions go on: the node stops
admitting, the store is read, and the status says how that went. Meanwhile what would bring a block
or a transaction to admission has to wait. The store can be replaced by any other at any time, so a
reconstruction may succeed or fail for any reason.

As far as the status is concerned a step of a session does one of three things, `Node.Shift`. From
this, and from the balance of sessions and gate, it follows what the status is at any time,
`Course.Kept`.
-/

namespace PowLedger

/-! ### What a session does to the status -/

/-- What can become of status and count of sessions in a step: both stay, a session enters an
admitting node, or one lets go of the status. -/
inductive Node.Shift {σ ω : Type} (n m : Node σ ω) : Prop
  | stay : m.status = n.status → m.sessions = n.sessions → Shift n m
  | enter : n.status.admits = true → m.status = .syncing → m.sessions = n.sessions + 1 → Shift n m
  | leave : m.status = n.leaveSync.status → m.sessions = n.leaveSync.sessions → Shift n m

/-- Letting go changes no other status than that of a syncing node. -/
lemma Node.leaveSync_status {σ ω : Type} {n : Node σ ω} (h : n.status ≠ .syncing) :
    n.leaveSync.status = n.status :=
  if_neg fun hboth => h hboth.2

namespace Session

variable {σ ω : Type} {n m : Node σ ω} {next : Node σ ω × Stage}

/-- How a session goes on, as far as status, sessions and gate are concerned: it waits for its next
reply, or it has let go of the status and ended. -/
inductive Proceeds (n : Node σ ω) (next : Node σ ω × Stage) : Prop
  | on : next.2.phase = .underWay → next.1.status = n.status → next.1.sessions = n.sessions →
    next.1.gate = n.gate → Proceeds n next
  | off : next.2.phase = .finished → next.1.status = n.leaveSync.status →
    next.1.sessions = n.leaveSync.sessions → next.1.gate = n.gate → Proceeds n next

/-- A session that proceeds shifts the status. -/
lemma Proceeds.shift (h : Proceeds n next) : n.Shift next.1 := by
  cases h with
  | on _ hstatus hsessions _ => exact .stay hstatus hsessions
  | off _ hstatus hsessions _ => exact .leave hstatus hsessions

/-- What a session proceeds from matters only by its status, sessions and gate. -/
lemma Proceeds.of_standing (h : Proceeds m next)
    (hstanding : m.status = n.status ∧ m.sessions = n.sessions ∧ m.gate = n.gate) :
    Proceeds n next := by
  obtain ⟨hstatus, hsessions, hgate⟩ := hstanding
  cases h with
  | on hphase hs hn hg =>
    exact .on hphase (hs.trans hstatus) (hn.trans hsessions) (hg.trans hgate)
  | off hphase hs hn hg =>
    refine .off hphase (hs.trans ?_) (hn.trans ?_) (hg.trans hgate)
    · simp only [Node.leaveSync, hstatus, hsessions]
    · simp only [Node.leaveSync, hsessions]

/-- A session that ends proceeds. -/
lemma finish_proceeds (n : Node σ ω) (result : Except Fault Nat) :
    Proceeds n (finish n result) :=
  .off rfl rfl rfl rfl

/-- A session that goes on to the next header, or ends, proceeds. -/
lemma next_proceeds (peer : String) (calledOff : Bool) (n : Node σ ω) (added : Nat)
    (headers : List Header) : Proceeds n (Session.next peer calledOff n added headers) := by
  cases headers with
  | nil => exact finish_proceeds n _
  | cons h rest =>
    rw [Session.next]
    split
    · exact finish_proceeds n _
    · cases n.judge.checkHeader h n.tip with
      | error f => exact finish_proceeds n _
      | ok _ => exact .on rfl rfl rfl rfl

/-- A session that has heard of the peer's last header proceeds. -/
lemma onTip_proceeds (n : Node σ ω) (r : Except Fault Header) : Proceeds n (onTip n r) := by
  cases r with
  | error f =>
    rw [onTip]
    split <;> exact finish_proceeds n _
  | ok tip =>
    rw [onTip]
    split
    · exact finish_proceeds n _
    · exact .on rfl rfl rfl rfl

/-- A session that has got past the gate enters an admitting node, or it ends at once. -/
lemma enter_shift (n : Node σ ω) : n.Shift (enter n).1 := by
  rw [enter]
  cases hadmitting : n.checkAdmitting with
  | error f => exact .stay rfl rfl
  | ok _ => exact .enter (Node.checkAdmitting_eq_ok_iff.mp hadmitting) rfl rfl

variable [Storage σ] [Observer ω]

/-- A session under way proceeds on any reply. -/
theorem onReply_proceeds (peer : String) (calledOff : Bool) (n : Node σ ω) {stage : Stage}
    (hphase : stage.phase = .underWay) (reply : Reply) :
    Proceeds n (onReply peer calledOff n stage reply) := by
  cases stage with
  | atGate | ended result => cases hphase
  | askingTip =>
    cases reply with
    | lastHeader r => exact onTip_proceeds n r
    | headers r | block r | transaction r => exact .on rfl rfl rfl rfl
  | askingHeaders floor =>
    cases reply with
    | headers r =>
      cases r with
      | error f => exact finish_proceeds n _
      | ok headers => exact next_proceeds peer calledOff n 0 _
    | lastHeader r | block r | transaction r => exact .on rfl rfl rfl rfl
  | askingBody wanted hash rest added =>
    cases reply with
    | lastHeader r | headers r | transaction r => exact .on rfl rfl rfl rfl
    | block r =>
      cases r with
      | error f => exact finish_proceeds n _
      | ok b =>
        rw [onReply, onBody]
        split
        · exact finish_proceeds n _
        · have hstanding := n.addBlock_standing b
          rcases hadd : n.addBlock b with ⟨m, f | _⟩
          · rw [hadd] at hstanding
            exact (finish_proceeds m _).of_standing hstanding
          · rw [hadd] at hstanding
            exact (next_proceeds peer calledOff m (added + 1) rest).of_standing hstanding

end Session

/-! ### Sessions at a meeting -/

namespace Meeting

variable {σ ω : Type} {capacity i : Nat} {w : Meeting σ ω} {p q : Party}
  {next : Node σ ω × Stage} {taken : Option Block}

/-- Leaving the gate shifts no status. -/
lemma shift_goOn (h : w.node.Shift next.1) : w.node.Shift (w.goOn i next q taken).node := by
  rw [goOn]
  split
  · cases h with
    | stay hstatus hsessions => exact .stay hstatus hsessions
    | enter hadmits hstatus hsessions => exact .enter hadmits hstatus hsessions
    | leave hstatus hsessions => exact .leave hstatus hsessions
  · exact h

/-- A session that proceeds keeps the balance. -/
lemma Balanced.proceeds (h : w.Balanced capacity) (hp : w.parties[i]? = some p)
    (hphase : p.stage.phase = .underWay) (hproceeds : Session.Proceeds w.node next) :
    (w.goOn i next q taken).Balanced capacity := by
  cases hproceeds with
  | on hnext _ hsessions hgate =>
    refine h.goOn hp hphase (by simp [hnext]) hgate ?_
    rw [hnext, hsessions]
    rfl
  | off hnext _ hsessions hgate =>
    refine h.goOn hp hphase (by simp [hnext]) hgate ?_
    rw [hnext, hsessions]
    rfl

/-- The sessions under way are no more than the permits held. -/
lemma Balanced.live_le (h : w.Balanced capacity) :
    (w.parties.countP fun p => p.stage.phase = .underWay) ≤ w.node.gate.held.length := by
  let live := w.parties.zipIdx.filter fun e => e.1.stage.phase = .underWay
  have hcount : (w.parties.countP fun p => p.stage.phase = .underWay) =
      (live.map Prod.snd).length := by
    conv_lhs => rw [← List.zipIdx_map_fst 0 w.parties]
    rw [List.countP_map, List.countP_eq_length_filter, List.length_map]
    rfl
  have hnodup : (live.map Prod.snd).Nodup := by
    have hall : (w.parties.zipIdx.map Prod.snd).Nodup := by
      rw [List.zipIdx_map_snd]
      exact List.nodup_range'
    exact hall.sublist (List.filter_sublist.map Prod.snd)
  have hheld : live.map Prod.snd ⊆ w.node.gate.held := by
    intro i hi
    obtain ⟨e, he, rfl⟩ := List.mem_map.mp hi
    obtain ⟨hmem, hunder⟩ := List.mem_filter.mp he
    exact h.permits e.2 e.1 (List.mem_zipIdx_iff_getElem?.mp hmem) (of_decide_eq_true hunder)
  rw [hcount]
  exact (List.subperm_of_subset hnodup hheld).length_le

variable [Storage σ] [Observer ω] {e : Happening ω} {w' : Meeting σ ω}

/-- Whatever comes of a happening shifts the status of the node. -/
theorem Comes.shift (hcomes : w.Comes e w') : w.node.Shift w'.node := by
  cases hcomes with
  | nothing e | comeUp peer | ask _ _ _ => exact .stay rfl rfl
  | letIn _ _ _ => exact shift_goOn (Session.enter_shift w.node)
  | @reply _ p calledOff reply _ hphase =>
    exact shift_goOn (Session.onReply_proceeds p.peer calledOff w.node hphase reply).shift
  | turnAway f _ _ => exact shift_goOn (.stay rfl rfl)
  | drop f _ _ => exact shift_goOn (Session.finish_proceeds w.node _).shift
  | other ha =>
    obtain ⟨hstatus, hsessions, -⟩ := w.node.act_standing ha
    exact .stay hstatus hsessions

/-- Whatever comes of a happening keeps the balance. -/
theorem Balanced.comes (h : w.Balanced capacity) (hcomes : w.Comes e w') :
    w'.Balanced capacity := by
  cases hcomes with
  | nothing e => exact h
  | comeUp peer => exact h.comeUp peer
  | ask hp hphase hnew => exact h.ask hp hphase hnew
  | letIn hp hphase hpermit => exact h.letIn hp hphase hpermit
  | @reply _ p calledOff reply hp hphase =>
    exact h.proceeds hp hphase (Session.onReply_proceeds p.peer calledOff w.node hphase reply)
  | turnAway f hp hphase => exact h.turnAway hp hphase f
  | drop f hp hphase => exact h.drop hp hphase f
  | other ha =>
    obtain ⟨-, hsessions, hgate⟩ := w.node.act_standing ha
    exact h.withNode _ hsessions hgate

/-- A session under way that ends was counted before, and is counted no more. -/
theorem Balanced.over (h : w.Balanced capacity) (hcomes : w.Comes e w') {p' : Party}
    (hp : w.parties[i]? = some p) (hphase : p.stage.phase = .underWay)
    (hp' : w'.parties[i]? = some p') (hover : p'.stage.phase = .finished) :
    w'.node.sessions + 1 = w.node.sessions := by
  have hafter := (h.comes hcomes).sessions
  rcases hcomes.party hp with hsame | ⟨-, next, q, taken, rfl⟩
  · rw [hsame] at hp'
    cases hp'
    rw [hphase] at hover
    cases hover
  · rw [getElem?_goOn hp, if_pos rfl] at hp'
    cases hp'
    have hend : next.2.phase = .finished := hover
    have hcount := countP_goOn hp next q taken
    rw [if_pos hphase, if_neg (by rw [hend]; decide), ← hafter, ← h.sessions] at hcount
    exact hcount

/-- At a node that admits nothing, nothing that happens changes the ledger or the pool, and no block
is put on record. -/
theorem Comes.of_status (hcomes : w.Comes e w') (h : w.node.status.admits = false) :
    w'.node.holdings = w.node.holdings ∧ w'.blocks = w.blocks := by
  have hgoOn : ∀ {j next q}, next.1.holdings = w.node.holdings →
      (w.goOn j next q none).node.holdings = w.node.holdings ∧
        (w.goOn j next q none).blocks = w.blocks := by
    intro j next q hnext
    refine ⟨?_, List.append_nil _⟩
    rw [goOn]
    split <;> exact hnext
  have htakes : ∀ a : Act ω, w.node.takes a = none := fun a => by
    rw [Node.takes, Option.filter_eq_none_iff]
    intro b _
    rw [(Node.refuses_of_status h).1 b]
    simp [Except.isOk, Except.toBool]
  cases hcomes with
  | nothing e | comeUp peer | ask _ _ _ => exact ⟨rfl, rfl⟩
  | letIn _ _ _ => exact hgoOn (Node.holdings_act_of_status h .enter)
  | @reply _ p calledOff reply _ _ =>
    rw [htakes]
    exact hgoOn (Node.holdings_act_of_status h (.reply p.peer calledOff p.stage reply))
  | turnAway f _ _ => exact hgoOn rfl
  | drop f _ _ => exact hgoOn (Node.holdings_act_of_status h .leave)
  | @other a _ => exact ⟨Node.holdings_act_of_status h a, by simp [htakes]⟩

/-- Whether a happening brings a block or a transaction to admission. -/
def brings (w : Meeting σ ω) : Happening ω → Bool
  | .other a => a.block?.isSome || a.transaction?.isSome
  | .reply i calledOff reply =>
    match w.parties[i]? with
    | none => false
    | some p => (Act.reply p.peer calledOff p.stage reply : Act ω).block?.isSome
  | _ => false

end Meeting

/-! ### The course of things -/

/-- How far a reconstruction is. -/
inductive Upkeep where
  /-- None is under way. -/
  | idle
  /-- The node has stopped admitting. -/
  | begun
  /-- The store has been read, or could not be. -/
  | read (result : Except Fault Unit)

/-- A meeting at a node that is reconstructed from time to time. -/
structure Course (σ ω : Type) where
  meeting : Meeting σ ω
  upkeep : Upkeep
  /-- How the reconstructions ended that are over, oldest first. -/
  results : List (Except Fault Unit)

namespace Course

/-- What can come next in a course. -/
inductive Turn (σ ω : Type) where
  | happening (e : Happening ω)
  /-- The contents of the store are replaced. -/
  | replaceStore (store : σ)
  /-- A reconstruction begins. -/
  | beginUpkeep
  /-- The store is read. -/
  | readStore
  /-- The reconstruction ends. -/
  | endUpkeep

variable {σ ω : Type}

/-- Nobody has come and no reconstruction has been made. -/
def start (n : Node σ ω) : Course σ ω :=
  ⟨Meeting.start n, .idle, []⟩

/-- The node. -/
def node (c : Course σ ω) : Node σ ω :=
  c.meeting.node

/-- The course with another node. -/
def withNode (c : Course σ ω) (n : Node σ ω) : Course σ ω :=
  { c with meeting := { c.meeting with node := n } }

variable [Storage σ] [Observer ω]

/-- The course after a turn. Admission waits for the end of a reconstruction, and one reconstruction
for the end of another. -/
def step (c : Course σ ω) : Turn σ ω → Course σ ω
  | .happening e =>
    match c.upkeep, c.meeting.brings e with
    | .begun, true | .read _, true => c
    | _, _ => { c with meeting := c.meeting.step e }
  | .replaceStore store => c.withNode { c.node with store := store }
  | .beginUpkeep =>
    match c.upkeep with
    | .idle => { c.withNode { c.node with status := .reconstructing } with upkeep := .begun }
    | _ => c
  | .readStore =>
    match c.upkeep, c.node.rebuild? with
    | .begun, some (n, r) => { c.withNode n with upkeep := .read r }
    | _, _ => c
  | .endUpkeep =>
    match c.upkeep with
    | .read r =>
      { c.withNode { c.node with status := if r.isOk then .ready else .uninitialized } with
        upkeep := .idle
        results := c.results ++ [r] }
    | _ => c

/-- The course that a node comes to by some turns. -/
def run (n : Node σ ω) (ts : List (Turn σ ω)) : Course σ ω :=
  ts.foldl step (start n)

/-- The three turns of a reconstruction, one right after the other, are what becomes of a node that
is reconstructed. -/
theorem foldl_upkeep {c : Course σ ω} (hidle : c.upkeep = .idle) {m : Node σ ω}
    {r : Except Fault Unit} (hread : c.node.reconstruct? = some (m, r)) :
    [Turn.beginUpkeep, .readStore, .endUpkeep].foldl step c =
      ⟨{ c.meeting with node := m }, .idle, c.results ++ [r]⟩ := by
  rw [Node.reconstruct?] at hread
  cases hrebuild : Node.rebuild? { c.node with status := .reconstructing } with
  | none =>
    rw [hrebuild] at hread
    cases hread
  | some rebuilt =>
    obtain ⟨n, result⟩ := rebuilt
    have hturns : (c.step .beginUpkeep).step .readStore =
        { c.withNode n with upkeep := .read result } := by
      simp only [step, hidle, node, withNode] at hrebuild ⊢
      simp only [hrebuild]
    rw [List.foldl_cons, List.foldl_cons, hturns]
    cases result <;>
    · rw [hrebuild] at hread
      cases hread
      rfl

/-! ### What is true all along -/

/-- What is true of a course at a node that started with `capacity` permits and had not been
reconstructed. -/
structure Kept (capacity : Nat) (c : Course σ ω) : Prop where
  balanced : c.meeting.Balanced capacity
  /-- During a reconstruction the status says so. -/
  reading : c.upkeep ≠ .idle → c.node.status = .reconstructing
  /-- After a reconstruction that succeeded the node is ready, or syncing on behalf of sessions. -/
  mended : c.upkeep = .idle → c.results.getLast? = some (.ok ()) →
    c.node.status = .ready ∨ c.node.status = .syncing ∧ 0 < c.node.sessions
  /-- After one that failed, and before the first one, it is uninitialized. -/
  unmended : c.upkeep = .idle → c.results.getLast? ≠ some (.ok ()) →
    c.node.status = .uninitialized

variable {c : Course σ ω} {capacity : Nat}

omit [Storage σ] [Observer ω] in
/-- A shift of the status keeps what is true. -/
lemma Kept.shift (h : c.Kept capacity) {w : Meeting σ ω} (hbalanced : w.Balanced capacity)
    (hshift : c.node.Shift w.node) : Kept capacity { c with meeting := w } := by
  cases hshift with
  | stay hstatus hsessions =>
    exact
      { balanced := hbalanced
        reading := fun hbusy => hstatus.trans (h.reading hbusy)
        mended := fun hidle hok => (h.mended hidle hok).imp hstatus.trans fun hsyncing =>
          ⟨hstatus.trans hsyncing.1, hsyncing.2.trans_eq hsessions.symm⟩
        unmended := fun hidle hnot => hstatus.trans (h.unmended hidle hnot) }
  | enter hadmits hstatus hsessions =>
    refine ⟨hbalanced, fun hbusy => ?_, fun _ _ => Or.inr ⟨hstatus, ?_⟩, fun hidle hnot => ?_⟩
    · rw [h.reading hbusy] at hadmits
      cases hadmits
    · exact (Nat.succ_pos _).trans_eq hsessions.symm
    · rw [h.unmended hidle hnot] at hadmits
      cases hadmits
  | leave hstatus hsessions =>
    refine ⟨hbalanced, fun hbusy => ?_, fun hidle hok => ?_, fun hidle hnot => ?_⟩
    · have hreading := h.reading hbusy
      exact hstatus.trans ((Node.leaveSync_status (by rw [hreading]; decide)).trans hreading)
    · rcases h.mended hidle hok with hready | ⟨hsyncing, hpos⟩
      · exact Or.inl (hstatus.trans ((Node.leaveSync_status (by rw [hready]; decide)).trans hready))
      · by_cases hlast : c.node.sessions - 1 = 0
        · exact Or.inl (hstatus.trans (if_pos ⟨hlast, hsyncing⟩))
        · refine Or.inr ⟨hstatus.trans ((if_neg fun hboth => hlast hboth.1).trans hsyncing), ?_⟩
          exact (Nat.pos_of_ne_zero hlast).trans_eq hsessions.symm
    · have hfailed := h.unmended hidle hnot
      exact hstatus.trans ((Node.leaveSync_status (by rw [hfailed]; decide)).trans hfailed)

/-- Every turn keeps what is true. -/
theorem Kept.step (h : c.Kept capacity) (t : Turn σ ω) : (c.step t).Kept capacity := by
  cases t with
  | happening e =>
    have hcomes := c.meeting.step_comes e
    rw [Course.step]
    split
    · exact h
    · exact h
    · exact h.shift (h.balanced.comes hcomes) hcomes.shift
  | replaceStore store =>
    exact ⟨h.balanced.withNode _ rfl rfl, h.reading, h.mended, h.unmended⟩
  | beginUpkeep =>
    rw [Course.step]
    split
    · exact ⟨h.balanced.withNode _ rfl rfl, fun _ => rfl, nofun, nofun⟩
    · exact h
  | readStore =>
    rw [Course.step]
    split
    · next n r hbegun hrebuild =>
      obtain ⟨hstatus, hsessions, hgate, -⟩ := Node.rebuild?_standing hrebuild
      refine ⟨h.balanced.withNode _ hsessions hgate, fun _ => ?_, nofun, nofun⟩
      exact hstatus.trans (h.reading (by rw [hbegun]; nofun))
    · exact h
  | endUpkeep =>
    rw [Course.step]
    split
    · next r hread =>
      refine ⟨h.balanced.withNode _ rfl rfl, fun hbusy => absurd rfl hbusy, fun _ hok => ?_,
        fun _ hnot => ?_⟩
      · rw [List.getLast?_concat] at hok
        cases hok
        exact Or.inl rfl
      · rw [List.getLast?_concat] at hnot
        cases r with
        | error f => rfl
        | ok _ => exact absurd rfl hnot
    · exact h

/-- So does a whole course. -/
theorem Kept.foldl_step (h : c.Kept capacity) (ts : List (Turn σ ω)) :
    (ts.foldl Course.step c).Kept capacity := by
  induction ts generalizing c with
  | nil => exact h
  | cons t ts ih => exact ih (h.step t)

omit [Storage σ] [Observer ω] in
/-- All is true at a node that has not read its store yet. -/
lemma kept_start (primitives : Primitives) (params : ChainParams) (limits : SyncSettings)
    (store : σ) : Kept limits.capacity.toNat
      (start (Node.blank primitives params limits store : Node σ ω)) where
  balanced :=
    { orderly := Gate.orderly_ofCapacity _
      tickets := fun _ hknows => by rcases hknows with hmem | hmem <;> cases hmem
      permits := nofun
      sessions := rfl }
  reading := fun hbusy => absurd rfl hbusy
  mended := nofun
  unmended := fun _ _ => rfl

/-! ### Until a reconstruction succeeds -/

omit [Storage σ] [Observer ω] in
/-- Unless the last reconstruction succeeded, the node admits nothing. -/
lemma Kept.not_admits (h : c.Kept capacity) (hnot : c.results.getLast? ≠ some (.ok ())) :
    c.node.status.admits = false := by
  by_cases hidle : c.upkeep = .idle
  · rw [h.unmended hidle hnot]
    rfl
  · rw [h.reading hidle]
    rfl

/-- The record of the reconstructions only grows. -/
lemma results_step (c : Course σ ω) (t : Turn σ ω) :
    ∃ more, (c.step t).results = c.results ++ more := by
  have hself : ∃ more, c.results = c.results ++ more := ⟨[], (List.append_nil _).symm⟩
  cases t with
  | replaceStore store => exact hself
  | happening e | beginUpkeep | readStore => rw [step]; split <;> exact hself
  | endUpkeep =>
    rw [step]
    split
    · exact ⟨_, rfl⟩
    · exact hself

/-- So it does in the long run. -/
lemma results_foldl_step (c : Course σ ω) (ts : List (Turn σ ω)) :
    ∃ more, (ts.foldl step c).results = c.results ++ more := by
  induction ts generalizing c with
  | nil => exact ⟨[], (List.append_nil _).symm⟩
  | cons t ts ih =>
    obtain ⟨first, hfirst⟩ := c.results_step t
    obtain ⟨more, hmore⟩ := ih (c.step t)
    exact ⟨first ++ more, by rw [List.foldl_cons, hmore, hfirst, List.append_assoc]⟩

/-- At a node that admits nothing no turn puts a block on record or changes the pool. -/
lemma step_of_status (h : c.node.status.admits = false) (t : Turn σ ω) :
    (c.step t).meeting.blocks = c.meeting.blocks ∧ (c.step t).node.pool = c.node.pool := by
  cases t with
  | happening e =>
    have hcomes := (c.meeting.step_comes e).of_status h
    rw [step]
    split
    · exact ⟨rfl, rfl⟩
    · exact ⟨rfl, rfl⟩
    · exact ⟨hcomes.2, congrArg Holdings.pool hcomes.1⟩
  | replaceStore store => exact ⟨rfl, rfl⟩
  | beginUpkeep | endUpkeep => rw [step]; split <;> exact ⟨rfl, rfl⟩
  | readStore =>
    rw [step]
    split
    · next hrebuild => exact ⟨rfl, (Node.rebuild?_standing hrebuild).2.2.2⟩
    · exact ⟨rfl, rfl⟩

/-- Unless the last reconstruction succeeded, and until one does, no block goes on record, the pool
stays as it is, and the node takes nothing. -/
theorem Kept.refuses (h : c.Kept capacity) (hnot : c.results.getLast? ≠ some (.ok ()))
    (ts : List (Turn σ ω)) {more : List (Except Fault Unit)}
    (hmore : (ts.foldl Course.step c).results = c.results ++ more) (hnone : .ok () ∉ more) :
    (ts.foldl Course.step c).meeting.blocks = c.meeting.blocks ∧
      (ts.foldl Course.step c).node.pool = c.node.pool ∧ (ts.foldl Course.step c).node.Refuses := by
  induction ts generalizing c more with
  | nil => exact ⟨rfl, rfl, Node.refuses_of_status (h.not_admits hnot)⟩
  | cons t ts ih =>
    obtain ⟨first, hfirst⟩ := c.results_step t
    obtain ⟨rest, hrest⟩ := (c.step t).results_foldl_step ts
    obtain rfl : first ++ rest = more := by
      rw [List.foldl_cons, hrest, hfirst, List.append_assoc] at hmore
      exact List.append_cancel_left hmore
    rw [List.mem_append, not_or] at hnone
    have hnot' : (c.step t).results.getLast? ≠ some (.ok ()) := by
      rw [hfirst, List.getLast?_append]
      cases hlast : first.getLast? with
      | none => rwa [Option.none_or]
      | some r =>
        rintro ⟨⟩
        exact hnone.1 (List.mem_of_getLast? hlast)
    obtain ⟨hblocks, hpool, hrefuses⟩ := ih (h.step t) hnot' hrest hnone.2
    obtain ⟨hblocks', hpool'⟩ := step_of_status (h.not_admits hnot) t
    exact ⟨hblocks.trans hblocks', hpool.trans hpool', hrefuses⟩

/-- The turn of a session under way that ends takes it off the count. -/
lemma Kept.over (h : c.Kept capacity) (t : Turn σ ω) {i : Nat} {p p' : Party}
    (hp : c.meeting.parties[i]? = some p) (hphase : p.stage.phase = .underWay)
    (hp' : (c.step t).meeting.parties[i]? = some p') (hover : p'.stage.phase = .finished) :
    (c.step t).node.sessions + 1 = c.node.sessions := by
  have hsame : c.meeting.parties[i]? ≠ some p' := by
    rw [hp]
    rintro ⟨⟩
    rw [hphase] at hover
    cases hover
  cases t with
  | happening e =>
    rw [Course.step] at hp' ⊢
    split at hp'
    · exact absurd hp' hsame
    · exact absurd hp' hsame
    · exact h.balanced.over (c.meeting.step_comes e) hp hphase hp' hover
  | replaceStore store => exact absurd hp' hsame
  | beginUpkeep | readStore | endUpkeep =>
    rw [Course.step] at hp'
    split at hp' <;> exact absurd hp' hsame

/-- Let sessions and reconstructions of a node take their turns in any order, from the moment when
it has not read its store yet. Every permit of the gate is free or held, the sessions under way hold
one each, and just these are counted; one that ends was counted. The node is syncing only on behalf
of a session under way. With none it is ready if the last reconstruction succeeded, and
uninitialized if it failed or there was none; during a reconstruction the status says so. Unless
the last reconstruction succeeded, and until one does, the node takes nothing. A reconstruction that
is made at one stretch does what its three turns do. -/
theorem upkeep_safe (primitives : Primitives) (params : ChainParams) (limits : SyncSettings)
    (store : σ) (ts : List (Turn σ ω)) :
    let c := run (Node.blank primitives params limits store) ts
    let gate := c.node.gate
    let live := c.meeting.parties.countP fun p => p.stage.phase = .underWay
    (gate.free + gate.held.length = limits.capacity.toNat ∧
      gate.held.length ≤ limits.capacity.toNat ∧ gate.held.Nodup ∧ live ≤ gate.held.length ∧
      ∀ i p, c.meeting.parties[i]? = some p → p.stage.phase = .underWay → i ∈ gate.held) ∧
    (c.node.sessions = live ∧
      ∀ (t : Turn σ ω) (i : Nat) (p p' : Party), c.meeting.parties[i]? = some p →
        p.stage.phase = .underWay → (c.step t).meeting.parties[i]? = some p' →
          p'.stage.phase = .finished → (c.step t).node.sessions + 1 = c.node.sessions) ∧
    (c.node.status = .syncing → 0 < live) ∧
    (c.upkeep = .idle → live = 0 →
      (c.results.getLast? = some (.ok ()) → c.node.status = .ready) ∧
      (c.results.getLast? ≠ some (.ok ()) → c.node.status = .uninitialized)) ∧
    (c.upkeep ≠ .idle → c.node.status = .reconstructing) ∧
    (c.results.getLast? ≠ some (.ok ()) → ∀ (ts' : List (Turn σ ω)) more,
      (ts'.foldl step c).results = c.results ++ more → .ok () ∉ more →
        (ts'.foldl step c).meeting.blocks = c.meeting.blocks ∧
        (ts'.foldl step c).node.pool = c.node.pool ∧ (ts'.foldl step c).node.Refuses) ∧
    ∀ m r, c.upkeep = .idle → c.node.reconstruct? = some (m, r) →
      [Turn.beginUpkeep, .readStore, .endUpkeep].foldl step c =
        ⟨{ c.meeting with node := m }, .idle, c.results ++ [r]⟩ := by
  intro c gate live
  have h : c.Kept limits.capacity.toNat :=
    (kept_start primitives params limits store).foldl_step ts
  have hpermits := h.balanced.orderly.permits
  have hsessions : c.node.sessions = live := h.balanced.sessions
  refine ⟨⟨hpermits, hpermits ▸ Nat.le_add_left _ _, h.balanced.orderly.held, h.balanced.live_le,
    h.balanced.permits⟩, ⟨hsessions, fun t i p p' hp hphase => h.over t hp hphase⟩,
    fun hsyncing => ?_, fun hidle hnone => ⟨fun hok => ?_, h.unmended hidle⟩, h.reading,
    fun hnot ts' more => h.refuses hnot ts', fun m r hidle => foldl_upkeep hidle⟩
  · have hidle : c.upkeep = .idle := by
      by_contra hbusy
      rw [h.reading hbusy] at hsyncing
      cases hsyncing
    by_cases hok : c.results.getLast? = some (.ok ())
    · rcases h.mended hidle hok with hready | ⟨-, hpos⟩
      · rw [hready] at hsyncing
        cases hsyncing
      · exact hsessions ▸ hpos
    · rw [h.unmended hidle hok] at hsyncing
      cases hsyncing
  · rcases h.mended hidle hok with hready | ⟨-, hpos⟩
    · exact hready
    · omega

end Course

namespace Sample

/-- The node is opened, a session gets past the gate, the store is replaced and cannot be read any
more, and then the session is given up. -/
def spoiled : List (Course.Turn VolatileStore Watcher) :=
  [.beginUpkeep, .readStore, .endUpkeep, .happening (.comeUp "a"), .happening (.ask 0),
    .happening (.letIn 0), .replaceStore misplaced, .beginUpkeep, .readStore, .endUpkeep,
    .happening (.drop 0 (.consistency .inputOverflow))]

/-- After a reconstruction that failed while a session was under way, the end of the session does
not make the node ready, and every permit is free again. -/
theorem upkeep_safe_of_spoiled :
    let c := Course.run (Node.blank primitives params {} VolatileStore.empty) spoiled
    c.node.status = .uninitialized ∧ c.node.sessions = 0 ∧ c.node.gate.free = 1 ∧
      c.node.Refuses := by
  intro c
  obtain ⟨-, ⟨hsessions, -⟩, -, hidle, -, hrefuses, -⟩ :=
    Course.upkeep_safe primitives params {} VolatileStore.empty spoiled
  have hnot : c.results.getLast? ≠ some (.ok ()) := by
    rintro ⟨⟩
  have hrefuses' := hrefuses hnot [] [] rfl List.not_mem_nil
  exact ⟨(hidle rfl rfl).2 hnot, hsessions, rfl, hrefuses'.2.2⟩

end Sample

end PowLedger
