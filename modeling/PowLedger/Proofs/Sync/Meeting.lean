import Mathlib.Data.List.Basic
import Mathlib.Tactic.Common
import Mathlib.Tactic.Lemma
import PowLedger.Proofs.Node.Growth
import PowLedger.Proofs.Sync.Gate
import PowLedger.Proofs.Sync.Progress

/-!
# Sessions that meet at one node

Any number of sessions share a node and its gate. They take their steps in any order, between the
steps anything else may be brought to the node, and a peer may reply whatever it likes, with any
delay, or never; a session can be given up at any point. A `Meeting` is the node together with its
sessions and a record of the blocks that it has taken. What can happen next is a `Happening`, and a
happening that cannot take place where things stand changes nothing.

What is true of a meeting all along is `Meeting.Sound`: the node has grown by the recorded blocks,
every session has admitted as many blocks as it says, each for a header that its peer has listed,
and the gate and the count of sessions know of exactly the sessions that are still about.
-/

namespace PowLedger

/-- A session among those of a node, and what is on record about it. -/
structure Party where
  peer : String
  stage : Stage
  /-- The headers that the peer has listed to the session. -/
  listed : List Header
  /-- The blocks that the node has taken by the session, oldest first. -/
  admitted : List Block

/-- The node and its sessions; the ticket of a session is its place. -/
structure Meeting (σ ω : Type) where
  node : Node σ ω
  parties : List Party
  /-- The blocks that the node has taken, by a session or otherwise, oldest first. -/
  blocks : List Block

/-- What can happen next at a meeting. -/
inductive Happening (ω : Type) where
  /-- A session comes up. -/
  | comeUp (peer : String)
  /-- A session asks the gate for a permit. -/
  | ask (i : Nat)
  /-- A session that holds a permit begins. -/
  | letIn (i : Nat)
  /-- A session gets any reply, having been called off or not. -/
  | reply (i : Nat) (calledOff : Bool) (reply : Reply)
  /-- A session goes away from the gate, with or without a permit: it was called off, its time is
  up, or it was given up. -/
  | turnAway (i : Nat) (f : Fault)
  /-- A session that is under way is given up. -/
  | drop (i : Nat) (f : Fault)
  /-- Anything else happens to the node. -/
  | other (a : Act ω)

/-- The session that a happening is a step of. -/
def Happening.session? {ω : Type} : Happening ω → Option Nat
  | .ask i | .letIn i | .reply i _ _ | .turnAway i _ | .drop i _ => some i
  | .comeUp _ | .other _ => none

/-- An act that is no step of a session. -/
def Act.isForeign {ω : Type} : Act ω → Bool
  | .enter | .reply .. | .leave | .updateGate _ => false
  | _ => true

namespace Meeting

variable {σ ω : Type}

/-- Nobody has come yet. -/
def start (n : Node σ ω) : Meeting σ ω :=
  ⟨n, [], []⟩

/-- Lets the session at a place do something if it is in the right phase. -/
def atPlace (w : Meeting σ ω) (i : Nat) (phase : Phase) (f : Party → Meeting σ ω) : Meeting σ ω :=
  match w.parties[i]? with
  | none => w
  | some p => if p.stage.phase = phase then f p else w

/-- The node and a session have gone on; a session that is over leaves the gate. -/
def goOn (w : Meeting σ ω) (i : Nat) (next : Node σ ω × Stage) (p : Party)
    (taken : Option Block) : Meeting σ ω where
  node :=
    if next.2.phase = .finished then { next.1 with gate := next.1.gate.leave i } else next.1
  parties := w.parties.set i { p with stage := next.2, admitted := p.admitted ++ taken.toList }
  blocks := w.blocks ++ taken.toList

variable [Storage σ] [Observer ω]

/-- The meeting after a happening. -/
def step (w : Meeting σ ω) : Happening ω → Meeting σ ω
  | .comeUp peer => { w with parties := w.parties ++ [⟨peer, .atGate, [], []⟩] }
  | .ask i => w.atPlace i .waiting fun _ =>
    if w.node.gate.Knows i then w
    else { w with node := { w.node with gate := w.node.gate.ask i } }
  | .letIn i => w.atPlace i .waiting fun p =>
    if w.node.gate.holds i then w.goOn i (Session.enter w.node) p none else w
  | .reply i calledOff reply => w.atPlace i .underWay fun p =>
    w.goOn i (Session.onReply p.peer calledOff w.node p.stage reply)
      { p with listed := p.listed ++ p.stage.hears reply }
      (w.node.takes (.reply p.peer calledOff p.stage reply))
  | .turnAway i f => w.atPlace i .waiting fun p => w.goOn i (w.node, .ended (.error f)) p none
  | .drop i f => w.atPlace i .underWay fun p =>
    w.goOn i (Session.finish w.node (.error f)) p none
  | .other a =>
    if a.isForeign then
      { w with node := w.node.act a, blocks := w.blocks ++ (w.node.takes a).toList }
    else w

/-- The meeting that a node comes to by some happenings. -/
def run (n : Node σ ω) (hs : List (Happening ω)) : Meeting σ ω :=
  hs.foldl step (start n)

/-- What can come of a happening. -/
inductive Comes (w : Meeting σ ω) : Happening ω → Meeting σ ω → Prop
  /-- The happening cannot take place where things stand. -/
  | nothing (e : Happening ω) : Comes w e w
  | comeUp (peer : String) :
    Comes w (.comeUp peer) { w with parties := w.parties ++ [⟨peer, .atGate, [], []⟩] }
  | ask {i : Nat} {p : Party} : w.parties[i]? = some p → p.stage.phase = .waiting →
    ¬w.node.gate.Knows i →
    Comes w (.ask i) { w with node := { w.node with gate := w.node.gate.ask i } }
  | letIn {i : Nat} {p : Party} : w.parties[i]? = some p → p.stage.phase = .waiting →
    i ∈ w.node.gate.held → Comes w (.letIn i) (w.goOn i (Session.enter w.node) p none)
  | reply {i : Nat} {p : Party} (calledOff : Bool) (reply : Reply) : w.parties[i]? = some p →
    p.stage.phase = .underWay →
    Comes w (.reply i calledOff reply)
      (w.goOn i (Session.onReply p.peer calledOff w.node p.stage reply)
        { p with listed := p.listed ++ p.stage.hears reply }
        (w.node.takes (.reply p.peer calledOff p.stage reply)))
  | turnAway {i : Nat} {p : Party} (f : Fault) : w.parties[i]? = some p →
    p.stage.phase = .waiting →
    Comes w (.turnAway i f) (w.goOn i (w.node, .ended (.error f)) p none)
  | drop {i : Nat} {p : Party} (f : Fault) : w.parties[i]? = some p →
    p.stage.phase = .underWay →
    Comes w (.drop i f) (w.goOn i (Session.finish w.node (.error f)) p none)
  | other {a : Act ω} : a.isForeign = true →
    Comes w (.other a)
      { w with node := w.node.act a, blocks := w.blocks ++ (w.node.takes a).toList }

omit [Storage σ] [Observer ω] in
/-- What holds if nothing happens, and if the session is there and in the right phase and does
something, holds in any case. -/
lemma atPlace_induction {w : Meeting σ ω} {i : Nat} {P : Meeting σ ω → Prop} {phase : Phase}
    {f : Party → Meeting σ ω} (hsame : P w)
    (hdone : ∀ p, w.parties[i]? = some p → p.stage.phase = phase → P (f p)) :
    P (w.atPlace i phase f) := by
  rw [atPlace]
  cases hp : w.parties[i]? with
  | none => exact hsame
  | some p =>
    show P (if p.stage.phase = phase then f p else w)
    split
    · next hphase => exact hdone p hp hphase
    · exact hsame

/-- A happening takes place where things allow it, and otherwise nothing comes of it. -/
theorem step_comes (w : Meeting σ ω) (e : Happening ω) : w.Comes e (w.step e) := by
  cases e with
  | comeUp peer => exact .comeUp peer
  | ask i =>
    refine atPlace_induction (.nothing _) fun p hp hphase => ?_
    split
    · exact .nothing _
    · next hnew => exact .ask hp hphase hnew
  | letIn i =>
    refine atPlace_induction (.nothing _) fun p hp hphase => ?_
    split
    · next hpermit => exact .letIn hp hphase (Gate.holds_iff.mp hpermit)
    · exact .nothing _
  | reply i calledOff reply =>
    exact atPlace_induction (.nothing _) fun p hp hphase => .reply calledOff reply hp hphase
  | turnAway i f =>
    exact atPlace_induction (.nothing _) fun p hp hphase => .turnAway f hp hphase
  | drop i f => exact atPlace_induction (.nothing _) fun p hp hphase => .drop f hp hphase
  | other a =>
    rw [step]
    split
    · next ha => exact .other ha
    · exact .nothing _

end Meeting

/-- An act that is no step of a session changes neither status nor sessions nor gate. -/
lemma Node.act_standing {σ ω : Type} [Storage σ] [Observer ω] (n : Node σ ω) {a : Act ω}
    (h : a.isForeign = true) : (n.act a).status = n.status ∧ (n.act a).sessions = n.sessions ∧
      (n.act a).gate = n.gate := by
  cases a with
  | enter | reply peer calledOff stage reply | leave | updateGate change => cases h
  | subscribe topic observer | addWatch | updateWatch miner change => exact ⟨rfl, rfl, rfl⟩
  | block b => exact n.addBlock_standing b
  | transaction tx => exact n.addTransaction_standing tx
  | announcedBody peer hash r =>
    rw [n.act_announcedBody peer hash r]
    exact n.brought_standing _ _
  | announcedTransaction peer txid r =>
    rw [n.act_announcedTransaction peer txid r]
    exact n.brought_standing _ _

/-! ### What is true all along -/

/-- The record of a session is in order: it says as many blocks as it has admitted, what it has
still to fetch was listed, and every block that it has admitted is for a listed header. -/
structure Party.Kept (digest : Hasher) (p : Party) : Prop where
  tally : ∀ k, p.stage.tally = some k → p.admitted.length = k
  pending : p.stage.pending ⊆ p.listed
  honest : p.stage.Honest digest
  listed : ∀ b ∈ p.admitted, b.header ∈ p.listed ∧ b.hash = b.header.hash digest

namespace Party.Kept

variable {digest : Hasher} {p : Party} {stage : Stage} {listed : List Header}

/-- The record stays in order when the session goes on without a new block. -/
lemma quiet (h : p.Kept digest) (htally : ∀ k, stage.tally = some k → k = p.admitted.length)
    (hpending : stage.pending ⊆ listed) (hhonest : stage.Honest digest)
    (hlisted : p.listed ⊆ listed) :
    Party.Kept digest ⟨p.peer, stage, listed, p.admitted ++ (none : Option Block).toList⟩ where
  tally := by
    intro k hk
    rw [Option.toList_none, List.append_nil]
    exact (htally k hk).symm
  pending := hpending
  honest := hhonest
  listed := by
    intro b hb
    rw [Option.toList_none, List.append_nil] at hb
    exact ⟨hlisted (h.listed b hb).1, (h.listed b hb).2⟩

/-- The record stays in order when the session goes on with one block more. -/
lemma grown (h : p.Kept digest) {b : Block}
    (htally : ∀ k, stage.tally = some k → k = p.admitted.length + 1)
    (hpending : stage.pending ⊆ listed) (hhonest : stage.Honest digest)
    (hlisted : p.listed ⊆ listed) (hb : b.header ∈ listed) (hhash : b.hash = b.header.hash digest) :
    Party.Kept digest ⟨p.peer, stage, listed, p.admitted ++ (some b).toList⟩ where
  tally := by
    intro k hk
    rw [Option.toList_some, List.length_append]
    exact (htally k hk).symm
  pending := hpending
  honest := hhonest
  listed := by
    intro c hc
    rcases List.mem_append.mp hc with hc | hc
    · exact ⟨hlisted (h.listed c hc).1, (h.listed c hc).2⟩
    · rw [List.mem_singleton.mp hc]
      exact ⟨hb, hhash⟩

end Party.Kept

namespace Meeting

variable {σ ω : Type}

/-- The gate and the count of sessions know of exactly the sessions that are still about. -/
structure Balanced (capacity : Nat) (w : Meeting σ ω) : Prop where
  orderly : w.node.gate.Orderly capacity
  /-- The gate knows no session that is over. -/
  tickets : ∀ i, w.node.gate.Knows i → ∃ p, w.parties[i]? = some p ∧ p.stage.phase ≠ .finished
  /-- Whoever is under way has a permit. -/
  permits : ∀ i p, w.parties[i]? = some p → p.stage.phase = .underWay → i ∈ w.node.gate.held
  sessions : w.node.sessions = w.parties.countP fun p => p.stage.phase = .underWay

/-- What is true of a meeting at a node that started as `n` with `capacity` permits. -/
structure Sound (n : Node σ ω) (capacity : Nat) (w : Meeting σ ω) : Prop where
  grows : n.Grows w.blocks w.node
  kept : ∀ p ∈ w.parties, p.Kept n.digest
  chained : ∀ p ∈ w.parties, p.admitted.Sublist w.blocks
  balanced : w.Balanced capacity

variable {n : Node σ ω} {capacity i : Nat} {w : Meeting σ ω} {p q : Party}
  {next : Node σ ω × Stage} {taken : Option Block}

/-! ### A session goes on -/

/-- A session that goes on is at its new stage, and the others are where they were. -/
lemma getElem?_goOn (hp : w.parties[i]? = some p) (j : Nat) :
    (w.goOn i next q taken).parties[j]? =
      if i = j then some { q with stage := next.2, admitted := q.admitted ++ taken.toList }
      else w.parties[j]? := by
  obtain ⟨hlt, -⟩ := List.getElem?_eq_some_iff.mp hp
  rw [goOn, List.getElem?_set, if_pos hlt]

/-- A happening leaves a session where it is, or the session, which is not over, goes on. -/
lemma Comes.party [Storage σ] [Observer ω] {w' : Meeting σ ω} {e : Happening ω}
    (hcomes : w.Comes e w') (hp : w.parties[i]? = some p) : w'.parties[i]? = some p ∨
      p.stage.phase ≠ .finished ∧ ∃ next q taken, w' = w.goOn i next q taken := by
  have hgoOn : ∀ {j r phase} (next q taken), w.parties[j]? = some r → r.stage.phase = phase →
      phase ≠ .finished → (w.goOn j next q taken).parties[i]? = some p ∨
        p.stage.phase ≠ .finished ∧
          ∃ next' q' taken', w.goOn j next q taken = w.goOn i next' q' taken' := by
    intro j r phase next q taken hr hphase hnot
    by_cases hij : j = i
    · subst hij
      rw [hp] at hr
      cases hr
      exact Or.inr ⟨fun hover => hnot (hphase.symm.trans hover), next, q, taken, rfl⟩
    · exact Or.inl (by rw [getElem?_goOn hr, if_neg hij, hp])
  cases hcomes with
  | nothing e | ask _ _ _ | other _ => exact Or.inl hp
  | comeUp peer =>
    obtain ⟨hlt, -⟩ := List.getElem?_eq_some_iff.mp hp
    exact Or.inl ((List.getElem?_append_left hlt).trans hp)
  | letIn hr hphase _ => exact hgoOn _ _ _ hr hphase (by decide)
  | reply calledOff reply hr hphase => exact hgoOn _ _ _ hr hphase (by decide)
  | turnAway f hr hphase => exact hgoOn _ _ _ hr hphase (by decide)
  | drop f hr hphase => exact hgoOn _ _ _ hr hphase (by decide)

/-- The number of sessions under way changes by the one that goes on. -/
lemma countP_goOn (hp : w.parties[i]? = some p) (next : Node σ ω × Stage) (q : Party)
    (taken : Option Block) :
    ((w.goOn i next q taken).parties.countP fun p => p.stage.phase = .underWay) +
        (if p.stage.phase = .underWay then 1 else 0) =
      (w.parties.countP fun p => p.stage.phase = .underWay) +
        if next.2.phase = .underWay then 1 else 0 := by
  obtain ⟨hlt, rfl⟩ := List.getElem?_eq_some_iff.mp hp
  have hpos (hunder : w.parties[i].stage.phase = .underWay) :
      0 < w.parties.countP fun p => p.stage.phase = .underWay :=
    List.countP_pos_iff.mpr ⟨_, List.getElem_mem hlt, decide_eq_true hunder⟩
  rw [goOn, List.countP_set hlt]
  simp only [decide_eq_true_eq]
  split
  · next hunder =>
    have := hpos hunder
    omega
  · omega

/-- A session that has a permit goes on under way. -/
lemma Balanced.goOn_underWay (h : w.Balanced capacity) (hp : w.parties[i]? = some p)
    (hphase : next.2.phase = .underWay) (hgate : next.1.gate = w.node.gate)
    (hpermit : i ∈ w.node.gate.held)
    (hsessions : next.1.sessions + (if p.stage.phase = .underWay then 1 else 0) =
      w.node.sessions + 1) : (w.goOn i next q taken).Balanced capacity := by
  have hnode : (w.goOn i next q taken).node = next.1 := if_neg (by simp [hphase])
  have hcount := countP_goOn hp next q taken
  rw [if_pos hphase, ← h.sessions, ← hsessions] at hcount
  constructor
  · rw [hnode, hgate]
    exact h.orderly
  · intro j hj
    rw [hnode, hgate] at hj
    rw [getElem?_goOn hp]
    split
    · exact ⟨_, rfl, by simp [hphase]⟩
    · exact h.tickets j hj
  · intro j r hr hunder
    rw [getElem?_goOn hp] at hr
    rw [hnode, hgate]
    split at hr
    · next hij => exact hij ▸ hpermit
    · exact h.permits j r hr hunder
  · rw [hnode]
    omega

/-- A session ends, and the gate and the count of sessions forget it. -/
lemma Balanced.goOn_finished (h : w.Balanced capacity) (hp : w.parties[i]? = some p)
    (hphase : next.2.phase = .finished) (hgate : next.1.gate = w.node.gate)
    (hsessions : next.1.sessions + (if p.stage.phase = .underWay then 1 else 0) =
      w.node.sessions) : (w.goOn i next q taken).Balanced capacity := by
  have hnode : (w.goOn i next q taken).node = { next.1 with gate := next.1.gate.leave i } :=
    if_pos hphase
  have hnot : next.2.phase ≠ .underWay := by
    rw [hphase]
    decide
  have hcount := countP_goOn hp next q taken
  rw [if_neg hnot, ← h.sessions, ← hsessions] at hcount
  constructor
  · rw [hnode, hgate]
    exact h.orderly.leave i
  · intro j hj
    rw [hnode, hgate] at hj
    obtain ⟨hj, hne⟩ := (h.orderly.knows_leave i j).mp hj
    rw [getElem?_goOn hp, if_neg hne.symm]
    exact h.tickets j hj
  · intro j r hr hunder
    rw [getElem?_goOn hp] at hr
    rw [hnode, hgate]
    split at hr
    · cases hr
      rw [hphase] at hunder
      cases hunder
    · next hij => exact Gate.mem_held_leave (h.permits j r hr hunder) (Ne.symm hij)
  · rw [hnode]
    show next.1.sessions = _
    omega

/-- A session under way goes on or ends, and lets go of the status if it ends. -/
lemma Balanced.goOn (h : w.Balanced capacity) (hp : w.parties[i]? = some p)
    (hphase : p.stage.phase = .underWay) (hnext : next.2.phase ≠ .waiting)
    (hgate : next.1.gate = w.node.gate)
    (hsessions : next.1.sessions =
      if next.2.phase = .finished then w.node.sessions - 1 else w.node.sessions) :
    (w.goOn i next q taken).Balanced capacity := by
  cases hafter : next.2.phase with
  | waiting => exact absurd hafter hnext
  | underWay =>
    refine h.goOn_underWay hp hafter hgate (h.permits i p hp hphase) ?_
    rw [hsessions, hafter, hphase]
    rfl
  | finished =>
    have hpos : 0 < w.node.sessions := by
      rw [h.sessions]
      exact List.countP_pos_iff.mpr ⟨p, List.mem_of_getElem? hp, decide_eq_true hphase⟩
    refine h.goOn_finished hp hafter hgate ?_
    rw [hsessions, hafter, hphase, if_pos rfl, if_pos rfl]
    omega

/-- A session that comes up is not under way and not known to the gate. -/
lemma Balanced.comeUp (h : w.Balanced capacity) (peer : String) :
    Balanced capacity { w with parties := w.parties ++ [⟨peer, .atGate, [], []⟩] } where
  orderly := h.orderly
  tickets := by
    intro i hi
    obtain ⟨p, hp, hphase⟩ := h.tickets i hi
    obtain ⟨hlt, -⟩ := List.getElem?_eq_some_iff.mp hp
    exact ⟨p, (List.getElem?_append_left hlt).trans hp, hphase⟩
  permits := by
    intro i p hp hphase
    rw [List.getElem?_append] at hp
    split at hp
    · exact h.permits i p hp hphase
    · rw [List.mem_singleton.mp (List.mem_of_getElem? hp)] at hphase
      cases hphase
  sessions := by
    rw [List.countP_append]
    exact h.sessions

/-- A session that asks the gate gets a permit or queues. -/
lemma Balanced.ask (h : w.Balanced capacity) (hp : w.parties[i]? = some p)
    (hphase : p.stage.phase = .waiting) (hnew : ¬w.node.gate.Knows i) :
    Balanced capacity { w with node := { w.node with gate := w.node.gate.ask i } } where
  orderly := h.orderly.ask hnew
  tickets := by
    intro j hj
    rcases (h.orderly.knows_ask i j).mp hj with hj | rfl
    · exact h.tickets j hj
    · exact ⟨p, hp, by simp [hphase]⟩
  permits := fun j q hq hunder => h.orderly.mem_held_ask (h.permits j q hq hunder)
  sessions := h.sessions

/-- A session that goes away from the gate gives back the permit that it may hold. -/
lemma Balanced.turnAway (h : w.Balanced capacity) (hp : w.parties[i]? = some p)
    (hphase : p.stage.phase = .waiting) (f : Fault) :
    (w.goOn i (w.node, .ended (.error f)) q none).Balanced capacity := by
  refine h.goOn_finished hp rfl rfl ?_
  rw [if_neg (by rw [hphase]; decide)]
  rfl

/-- A session that holds a permit begins, or the node admits nothing and the session ends. -/
lemma Balanced.letIn (h : w.Balanced capacity) (hp : w.parties[i]? = some p)
    (hphase : p.stage.phase = .waiting) (hpermit : i ∈ w.node.gate.held) :
    (w.goOn i (Session.enter w.node) q none).Balanced capacity := by
  have hnot : p.stage.phase ≠ .underWay := by
    rw [hphase]
    decide
  rw [Session.enter]
  cases w.node.checkAdmitting with
  | error f =>
    refine h.goOn_finished hp rfl rfl ?_
    rw [if_neg hnot]
    rfl
  | ok _ =>
    refine h.goOn_underWay hp rfl rfl hpermit ?_
    rw [if_neg hnot]
    rfl

/-- A session that is given up lets go of the status and the gate. -/
lemma Balanced.drop (h : w.Balanced capacity) (hp : w.parties[i]? = some p)
    (hphase : p.stage.phase = .underWay) (f : Fault) :
    (w.goOn i (Session.finish w.node (.error f)) q none).Balanced capacity :=
  h.goOn hp hphase nofun rfl rfl

/-- What leaves sessions and gate as they are leaves the balance. -/
lemma Balanced.withNode (h : w.Balanced capacity) {m : Node σ ω} (blocks : List Block)
    (hsessions : m.sessions = w.node.sessions) (hgate : m.gate = w.node.gate) :
    Balanced capacity ⟨m, w.parties, blocks⟩ where
  orderly := hgate ▸ h.orderly
  tickets := fun i hi => h.tickets i (hgate ▸ hi)
  permits := fun i p hp hphase => hgate ▸ h.permits i p hp hphase
  sessions := hsessions.trans h.sessions

/-- The node grows by the block that a session has taken. -/
lemma grows_goOn (h : n.Grows (w.blocks ++ taken.toList) next.1) :
    n.Grows (w.goOn i next q taken).blocks (w.goOn i next q taken).node := by
  rw [goOn]
  split
  · exact h.withGate _
  · exact h

/-- A session goes on or ends, and all stays sound. -/
lemma Sound.goOn (h : Sound n capacity w) (hp : w.parties[i]? = some p)
    (hgrows : n.Grows (w.blocks ++ taken.toList) next.1) (hadmitted : q.admitted = p.admitted)
    (hkept : Party.Kept n.digest
      { q with stage := next.2, admitted := q.admitted ++ taken.toList })
    (hbalanced : (w.goOn i next q taken).Balanced capacity) :
    Sound n capacity (w.goOn i next q taken) where
  grows := grows_goOn hgrows
  kept := by
    intro r hr
    rcases List.mem_or_eq_of_mem_set hr with hr | rfl
    · exact h.kept r hr
    · exact hkept
  chained := by
    intro r hr
    rcases List.mem_or_eq_of_mem_set hr with hr | rfl
    · exact (h.chained r hr).trans (List.sublist_append_left _ _)
    · have hsub := h.chained p (List.mem_of_getElem? hp)
      rw [← hadmitted] at hsub
      exact hsub.append (List.Sublist.refl _)
  balanced := hbalanced

/-! ### The happenings one by one -/

/-- A session that is there and in the right phase does what it has to. -/
lemma atPlace_eq (hp : w.parties[i]? = some p) {phase : Phase} (hphase : p.stage.phase = phase)
    (f : Party → Meeting σ ω) : w.atPlace i phase f = f p := by
  rw [atPlace, hp]
  exact if_pos hphase

/-- A session comes up. -/
lemma Sound.comeUp (h : Sound n capacity w) (peer : String) :
    Sound n capacity { w with parties := w.parties ++ [⟨peer, .atGate, [], []⟩] } where
  grows := h.grows
  kept := by
    intro p hp
    rcases List.mem_append.mp hp with hp | hp
    · exact h.kept p hp
    · rw [List.mem_singleton.mp hp]
      exact
        { tally := fun k hk => Option.some.inj hk
          pending := List.nil_subset _
          honest := trivial
          listed := List.forall_mem_nil _ }
  chained := by
    intro p hp
    rcases List.mem_append.mp hp with hp | hp
    · exact h.chained p hp
    · rw [List.mem_singleton.mp hp]
      exact List.nil_sublist _
  balanced := h.balanced.comeUp peer

/-- A session asks the gate. -/
lemma Sound.ask (h : Sound n capacity w) (hp : w.parties[i]? = some p)
    (hphase : p.stage.phase = .waiting) (hnew : ¬w.node.gate.Knows i) :
    Sound n capacity { w with node := { w.node with gate := w.node.gate.ask i } } where
  grows := h.grows.withGate _
  kept := h.kept
  chained := h.chained
  balanced := h.balanced.ask hp hphase hnew

/-- A session goes away from the gate. -/
lemma Sound.turnAway (h : Sound n capacity w) (hp : w.parties[i]? = some p)
    (hphase : p.stage.phase = .waiting) (f : Fault) :
    Sound n capacity (w.goOn i (w.node, .ended (.error f)) p none) := by
  have hkept := h.kept p (List.mem_of_getElem? hp)
  refine h.goOn hp (by simpa using h.grows) rfl ?_ (h.balanced.turnAway hp hphase f)
  exact hkept.quiet nofun (List.nil_subset _) trivial (List.Subset.refl _)

variable [Storage σ] [Observer ω]

/-- A session that holds a permit begins, or the node admits nothing and the session ends. -/
lemma Sound.letIn (h : Sound n capacity w) (hp : w.parties[i]? = some p)
    (hphase : p.stage.phase = .waiting) (hpermit : i ∈ w.node.gate.held) :
    Sound n capacity (w.goOn i (Session.enter w.node) p none) := by
  have hkept := h.kept p (List.mem_of_getElem? hp)
  have hgrows := h.grows.moves (Node.act_moves h.grows.wired .enter)
  refine h.goOn hp hgrows rfl ?_ (h.balanced.letIn hp hphase hpermit)
  rw [Session.enter]
  cases w.node.checkAdmitting with
  | error f => exact hkept.quiet (by rintro k ⟨⟩) (List.nil_subset _) trivial (List.Subset.refl _)
  | ok _ =>
    refine hkept.quiet (fun k hk => ?_) (List.nil_subset _) trivial (List.Subset.refl _)
    rw [hkept.tally 0 (Stage.tally_of_waiting hphase)]
    exact (Option.some.inj hk).symm

/-- A session under way is given up. -/
lemma Sound.drop (h : Sound n capacity w) (hp : w.parties[i]? = some p)
    (hphase : p.stage.phase = .underWay) (f : Fault) :
    Sound n capacity (w.goOn i (Session.finish w.node (.error f)) p none) := by
  have hkept := h.kept p (List.mem_of_getElem? hp)
  have hgrows := h.grows.moves (Node.act_moves h.grows.wired .leave)
  refine h.goOn hp hgrows rfl ?_ (h.balanced.drop hp hphase f)
  exact hkept.quiet nofun (List.nil_subset _) trivial (List.Subset.refl _)

/-- What a session under way makes of a reply, seen from its record. -/
lemma Sound.onReply_cases (h : Sound n capacity w) (hp : w.parties[i]? = some p)
    (hphase : p.stage.phase = .underWay) (calledOff : Bool) (reply : Reply) :
    (w.node.takes (.reply p.peer calledOff p.stage reply) = none ∧
        Session.Leads w.node p.admitted.length (p.listed ++ p.stage.hears reply)
          (Session.onReply p.peer calledOff w.node p.stage reply)) ∨
      ∃ b, w.node.takes (.reply p.peer calledOff p.stage reply) = some b ∧
        (w.node.addBlock b).2 = .ok () ∧ b.header ∈ p.listed ++ p.stage.hears reply ∧
        b.hash = b.header.hash w.node.digest ∧
        Session.Leads (w.node.addBlock b).1 (p.admitted.length + 1)
          (p.listed ++ p.stage.hears reply)
          (Session.onReply p.peer calledOff w.node p.stage reply) := by
  have hkept := h.kept p (List.mem_of_getElem? hp)
  have hdigest : w.node.digest = n.digest := congrArg Primitives.digest h.grows.primitives
  have htally : p.stage.tally = some p.admitted.length := by
    obtain ⟨k, hk⟩ := Stage.exists_tally_of_underWay hphase
    rw [hk, hkept.tally k hk]
  exact Session.onReply_cases p.peer calledOff hphase htally
    (List.Subset.trans hkept.pending (List.subset_append_left _ _)) (hdigest ▸ hkept.honest)
    (List.subset_append_right _ _)

/-- A session gets a reply. -/
lemma Sound.reply (h : Sound n capacity w) (hp : w.parties[i]? = some p)
    (hphase : p.stage.phase = .underWay) (calledOff : Bool) (reply : Reply) :
    Sound n capacity (w.goOn i (Session.onReply p.peer calledOff w.node p.stage reply)
      { p with listed := p.listed ++ p.stage.hears reply }
      (w.node.takes (.reply p.peer calledOff p.stage reply))) := by
  have hkept := h.kept p (List.mem_of_getElem? hp)
  have hdigest : w.node.digest = n.digest := congrArg Primitives.digest h.grows.primitives
  have hgrows := h.grows.moves
    (Node.act_moves h.grows.wired (.reply p.peer calledOff p.stage reply))
  have hlisted : p.listed ⊆ p.listed ++ p.stage.hears reply := List.subset_append_left _ _
  rcases h.onReply_cases hp hphase calledOff reply with
    ⟨htakes, hleads⟩ | ⟨b, htakes, hok, hb, hhash, hleads⟩
  · refine h.goOn hp hgrows rfl ?_
      (h.balanced.goOn hp hphase hleads.phase hleads.gate hleads.sessions)
    rw [htakes]
    exact hkept.quiet hleads.tally hleads.pending (hdigest ▸ hleads.honest) hlisted
  · obtain ⟨-, hsessions, hgate⟩ := w.node.addBlock_standing b
    have hsame : (w.node.addBlock b).1.digest = n.digest :=
      (congrArg (fun core => core.primitives.digest) (Node.addBlock_core hok)).trans hdigest
    refine h.goOn hp hgrows rfl ?_ (h.balanced.goOn hp hphase hleads.phase
      (hleads.gate.trans hgate) (by rw [hleads.sessions, hsessions]))
    rw [htakes]
    exact hkept.grown hleads.tally hleads.pending (hsame ▸ hleads.honest) hlisted hb
      (hdigest ▸ hhash)

/-- Something else happens to the node. -/
lemma Sound.other (h : Sound n capacity w) {a : Act ω} (ha : a.isForeign = true) :
    Sound n capacity
      { w with node := w.node.act a, blocks := w.blocks ++ (w.node.takes a).toList } := by
  obtain ⟨-, hsessions, hgate⟩ := w.node.act_standing ha
  exact
    { grows := h.grows.moves (Node.act_moves h.grows.wired a)
      kept := h.kept
      chained := fun p hp => (h.chained p hp).trans (List.sublist_append_left _ _)
      balanced := h.balanced.withNode _ hsessions hgate }

/-- Sessions that come up take their places one after the other. -/
lemma foldl_comeUp (w : Meeting σ ω) (peers : List String) :
    (peers.map Happening.comeUp).foldl Meeting.step w =
      { w with parties := w.parties ++ peers.map fun peer => ⟨peer, .atGate, [], []⟩ } := by
  induction peers generalizing w with
  | nil => simp
  | cons peer peers ih => simp [ih, Meeting.step]

/-- Whatever else happens to the node, sessions and gate are as they were. -/
lemma foldl_other (w : Meeting σ ω) {acts : List (Act ω)}
    (hacts : ∀ a ∈ acts, a.isForeign = true) :
    ((acts.map Happening.other).foldl Meeting.step w).node = acts.foldl Node.act w.node ∧
      ((acts.map Happening.other).foldl Meeting.step w).parties = w.parties ∧
      ((acts.map Happening.other).foldl Meeting.step w).node.gate = w.node.gate := by
  induction acts generalizing w with
  | nil => exact ⟨rfl, rfl, rfl⟩
  | cons a acts ih =>
    have ha := hacts a List.mem_cons_self
    have hstep : w.step (.other a) =
        { w with node := w.node.act a, blocks := w.blocks ++ (w.node.takes a).toList } :=
      if_pos ha
    obtain ⟨hnode, hparties, hgate⟩ := ih (w.step (.other a)) fun c hc =>
      hacts c (List.mem_cons_of_mem _ hc)
    rw [hstep] at hnode hparties hgate
    rw [List.map_cons, List.foldl_cons, hstep]
    exact ⟨hnode, hparties, hgate.trans (w.node.act_standing ha).2.2⟩

/-- Whatever comes of a happening, all stays sound. -/
lemma Sound.comes (h : Sound n capacity w) {e : Happening ω} {w' : Meeting σ ω}
    (hcomes : w.Comes e w') : Sound n capacity w' := by
  cases hcomes with
  | nothing e => exact h
  | comeUp peer => exact h.comeUp peer
  | ask hp hphase hnew => exact h.ask hp hphase hnew
  | letIn hp hphase hpermit => exact h.letIn hp hphase hpermit
  | reply calledOff reply hp hphase => exact h.reply hp hphase calledOff reply
  | turnAway f hp hphase => exact h.turnAway hp hphase f
  | drop f hp hphase => exact h.drop hp hphase f
  | other ha => exact h.other ha

/-- Whatever happens next, all stays sound. -/
theorem Sound.step (h : Sound n capacity w) (e : Happening ω) : Sound n capacity (w.step e) :=
  h.comes (w.step_comes e)

/-- Whatever happens in the long run, all stays sound. -/
lemma Sound.foldl_step (h : Sound n capacity w) (es : List (Happening ω)) :
    Sound n capacity (es.foldl Meeting.step w) := by
  induction es generalizing w with
  | nil => exact h
  | cons e es ih => exact ih (h.step e)

omit [Storage σ] [Observer ω] in
/-- At a wired node without sessions, all is sound from the start. -/
lemma sound_start (hwired : n.Wired) (hsessions : n.sessions = 0)
    (hgate : n.gate = Gate.ofCapacity capacity) : Sound n capacity (start n) where
  grows := hwired.grows
  kept := List.forall_mem_nil _
  chained := List.forall_mem_nil _
  balanced :=
    { orderly := hgate ▸ Gate.orderly_ofCapacity capacity
      tickets := by
        intro i hi
        rw [start, hgate] at hi
        rcases hi with hi | hi <;> cases hi
      permits := nofun
      sessions := hsessions }

/-- At a wired node without sessions, all stays sound whatever happens. -/
theorem sound_run (hwired : n.Wired) (hsessions : n.sessions = 0)
    (hgate : n.gate = Gate.ofCapacity capacity) (es : List (Happening ω)) :
    Sound n capacity (run n es) :=
  (sound_start hwired hsessions hgate).foldl_step es

omit [Storage σ] [Observer ω] in
/-- Once all sessions are over, none is counted and every permit is free. -/
theorem Sound.settled (h : Sound n capacity w)
    (hend : ∀ p ∈ w.parties, p.stage.phase = .finished) :
    w.node.sessions = 0 ∧ w.node.gate.free = capacity := by
  constructor
  · rw [h.balanced.sessions, List.countP_eq_zero]
    intro p hp
    simp [hend p hp]
  · have hheld : w.node.gate.held = [] := by
      refine List.eq_nil_iff_forall_not_mem.mpr fun i hi => ?_
      obtain ⟨p, hp, hphase⟩ := h.balanced.tickets i (Or.inl hi)
      exact hphase (hend p (List.mem_of_getElem? hp))
    have hpermits := h.balanced.orderly.permits
    rw [hheld] at hpermits
    exact hpermits

end Meeting

end PowLedger
