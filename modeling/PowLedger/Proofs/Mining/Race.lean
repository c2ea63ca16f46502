import Mathlib.Logic.Relation
import Mathlib.Tactic.Common
import Mathlib.Tactic.Lemma
import PowLedger.Proofs.Mining.Search
import PowLedger.Proofs.Node.Step

/-!
# A miner's race with the chain

A miner makes its attempts while blocks come in from elsewhere, and neither waits for the other. A
`Race` holds a node and one of its miners between two steps. Whatever others can come in between is
more than one step. The miner reads the tip, stores its height in the watch, enters the attempt
there, reads the tip again and assembles its candidate for that one; then it tries the nonces one by
one and looks at each whether it is called off, looks once more, submits, and leaves the watch. The
node commits a block in one step and then tells the observers that were subscribed at that moment
one by one; the miner's watch compares the heights in one step and calls the attempt off in another.

The program admits one block at a time, so that no two publications are under way together. Nothing
here depends on it: any number of them can be, and they are delivered in the order of the commits.

With nothing in between, the steps of the miner are an attempt of the program
(`Race.alone_of_attempt`), and a commit followed by its deliveries is the admission of a block
(`Race.run_addBlock`).
-/

namespace PowLedger

/-! ### The two halves of what a watch does -/

namespace Watch

/-- The watch with the height that the next attempt builds. -/
def aim (w : Watch) (height : Nat) : Watch :=
  { w with target := height }

/-- The watch with an attempt entered at the height that it holds. -/
def enter (w : Watch) (calledOff : Bool) : Watch :=
  { w with current := some calledOff }

/-- An attempt is entered after its height has been stored. -/
lemma enter_aim (w : Watch) (height : Nat) (calledOff : Bool) :
    (w.aim height).enter calledOff = w.begin height calledOff := rfl

end Watch

/-- Whether an observer is the watch of this miner. -/
def Subscriber.isWatch {ω : Type} (miner : Nat) : Subscriber ω → Bool
  | .watch i => i == miner
  | _ => false

/-- Whether an act brings no block and leaves the watch of this miner alone. -/
def Act.spares {ω : Type} (miner : Nat) : Act ω → Bool
  | .updateWatch i _ => i != miner
  | a => a.block?.isNone

/-! ### The miner -/

/-- How far an attempt has come that builds on a tip. -/
inductive Toil where
  | assembling
  /-- The nonce is the next one to be tried. -/
  | searching (txs : List Transaction) (h : Header) (nonce : Nat)
  /-- The block is solved; it remains to look whether the attempt is called off. -/
  | solved (b : Block)
  | submitting (b : Block)
  /-- The node has taken the block, and its observers are being told. -/
  | published (b : Block)
  /-- The node has refused the block; it remains to look whether the chain has moved. -/
  | refused (f : Fault)
  | ended (result : Except Fault MineOutcome)

/-- Where a miner is. -/
inductive MinerPhase where
  /-- No attempt is under way. -/
  | idle
  /-- The tip has been read, and its height is to be stored in the watch. -/
  | entering (height : Nat)
  /-- The height is stored, and the attempt is to be entered in the watch. -/
  | aimed
  /-- The attempt is entered, and the tip is to be read again. -/
  | entered
  /-- The attempt builds on the tip that it has read then. -/
  | building (base : Tip) (toil : Toil)

/-- The tip that the attempt under way builds on. -/
def MinerPhase.base? : MinerPhase → Option Tip
  | .building base _ => some base
  | _ => none

namespace Toil

/-- Where a sweep leads to: after an exhausted one the next has a later time. -/
def afterSweep (digest : Hasher) (reading : Int64) (txs : List Transaction) (h : Header) :
    SweepOutcome → Toil
  | .cancelled => .ended (.ok .cancelled)
  | .solved nonce _ => .solved (Block.ofHeader digest { h with nonce := nonce } txs)
  | .exhausted => .searching txs { h with timestamp := Mining.laterTime reading h.timestamp } 0

/-- Tries one nonce. -/
def turn (digest : Hasher) (maxNonce : UInt64) (calledOff : Bool) (reading : Int64)
    (txs : List Transaction) (h : Header) (nonce : Nat) : Toil :=
  match threshold h.target with
  | .error f => .ended (.error f)
  | .ok bound =>
    let outcome := sweepFrom digest h.assembleFront bound (fun _ => calledOff) nonce 1
    if outcome = .exhausted ∧ nonce < maxNonce.toNat then .searching txs h (nonce + 1)
    else afterSweep digest reading txs h outcome

/-- Where a search leads to, if it comes to an end. -/
def afterSearch? (digest : Hasher) (txs : List Transaction) : Except Fault Search → Option Toil
  | .error f => some (.ended (.error f))
  | .ok (.solved h) => some (.solved (Block.ofHeader digest h txs))
  | .ok .cancelled => some (.ended (.ok .cancelled))
  | .ok .undecided => none

end Toil

/-- The node as it looks to somebody who has read its tip before. -/
def Node.withTip {σ ω : Type} (n : Node σ ω) (t : Tip) : Node σ ω :=
  { n with tipHash := t.hash, height := t.height }

/-- Assembles a candidate on a tip that was read before. -/
def Toil.assemble {σ ω : Type} (n : Node σ ω) (m : Miner) (base : Tip) (reading : Int64) : Toil :=
  let txs := Mining.transactions (n.withTip base) m
  match Mining.header (n.withTip base) txs reading with
  | .error f => .ended (.error f)
  | .ok h => .searching txs h 0

/-! ### Races -/

/-- A block that observers are being told of. -/
structure Publication (ω : Type) where
  block : Block
  /-- Whether the miner has submitted it. -/
  own : Bool
  /-- Who is still to be told, in order. -/
  waiting : List (Subscriber ω)
  /-- Whether the miner's watch has found the block high enough, so that its next step is to call
  the attempt off. -/
  noticed : Bool

/-- Whether the watch of a miner has not done with a publication. -/
def Publication.concerns {ω : Type} (p : Publication ω) (miner : Nat) : Bool :=
  p.noticed || p.waiting.any (·.isWatch miner)

/-- An attempt that has returned: the tip it has built on, the blocks that the node has taken from
it, each with the tip that the node had then, and the result. -/
structure PastAttempt where
  base : Tip
  taken : List (Tip × Block)
  result : Except Fault MineOutcome
  deriving DecidableEq

/-- A node and one of its miners. -/
structure Race (σ ω : Type) where
  node : Node σ ω
  phase : MinerPhase
  /-- What observers are being told of, oldest first. -/
  publications : List (Publication ω)
  /-- What the node has taken from the attempt under way, each block with the tip before it. -/
  taken : List (Tip × Block)
  /-- The attempts that have returned, oldest first. -/
  past : List PastAttempt

namespace Race

/-- Something that happens in a race. -/
inductive Move (ω : Type) where
  /-- The miner makes its next step. If it enters an attempt, `calledOff` says whether that is
  called off from the start; if it looks at the clock, this shows `reading`. -/
  | mine (calledOff : Bool) (reading : Int64)
  /-- Somebody else brings a block. -/
  | bring (b : Block)
  /-- The oldest publication goes on. -/
  | tell
  /-- The attempt under way is called off from outside. -/
  | callOff
  /-- Something happens that has to do with neither the chain nor the miner. -/
  | act (a : Act ω)

variable {σ ω : Type}

/-- The race when a miner comes to a node. Publications may be under way that do not reach it. -/
def start (n : Node σ ω) (publications : List (Publication ω)) : Race σ ω :=
  ⟨n.addWatch, .idle, publications, [], []⟩

/-- The race with the attempt at some point of its toil. -/
def build (s : Race σ ω) (base : Tip) (toil : Toil) : Race σ ω :=
  { s with phase := .building base toil }

/-- The race after the node has committed a block, which makes it `n`. -/
def publish (s : Race σ ω) (b : Block) (own : Bool) (n : Node σ ω) : Race σ ω :=
  { s with
    node := n
    publications := s.publications ++ [⟨b, own, n.bus.subscribers .blocks, false⟩] }

variable [Storage σ] [Observer ω]

/-- The next step of an attempt that builds on a tip. -/
def work (m : Miner) (reading : Int64) (s : Race σ ω) (base : Tip) : Toil → Race σ ω
  | .assembling => s.build base (.assemble s.node m base reading)
  | .searching txs h nonce =>
    s.build base (.turn s.node.digest m.maxNonce (s.node.watch m.watch).isCalledOff reading txs h
      nonce)
  | .solved b =>
    s.build base (if (s.node.watch m.watch).isCalledOff then .ended (.ok .cancelled)
      else .submitting b)
  | .submitting b =>
    match s.node.commit b with
    | .error f => s.build base (.refused f)
    | .ok n => { (s.publish b true n).build base (.published b) with
        taken := s.taken ++ [(s.node.tip, b)] }
  | .published b =>
    -- The submission is over when all observers have been told.
    s.build base (if s.publications.any (·.own) then .published b else .ended (.ok (.mined b)))
  | .refused f =>
    s.build base (.ended (if s.node.height ≠ base.height then .ok .cancelled else .error f))
  | .ended result =>
    { s with
      node := s.node.updateWatch m.watch Watch.finish
      phase := .idle
      taken := []
      past := s.past ++ [⟨base, s.taken, result⟩] }

/-- The next step of the miner. -/
def mine (m : Miner) (calledOff : Bool) (reading : Int64) (s : Race σ ω) : Race σ ω :=
  match s.phase with
  | .idle => { s with phase := .entering s.node.height }
  | .entering height =>
    { s with node := s.node.updateWatch m.watch fun w => w.aim height, phase := .aimed }
  | .aimed =>
    { s with node := s.node.updateWatch m.watch fun w => w.enter calledOff, phase := .entered }
  | .entered => s.build s.node.tip .assembling
  | .building base toil => s.work m reading base toil

/-- The next step of the oldest publication. -/
def tell (miner : Nat) (s : Race σ ω) : Race σ ω :=
  match s.publications with
  | [] => s
  | p :: later =>
    if p.noticed then
      { s with
        node := s.node.updateWatch miner Watch.callOff
        publications := { p with noticed := false } :: later }
    else
      match p.waiting with
      | [] => { s with publications := later }
      | o :: waiting =>
        if o.isWatch miner then
          { s with
            publications := { p with
              waiting := waiting
              noticed := (s.node.watch miner).target ≤ p.block.height } :: later }
        else
          { s with
            node := (Node.deliver (.blockAdded p.block) o s.node).1
            publications := { p with waiting := waiting } :: later }

/-- The race after a move. -/
def step (m : Miner) (s : Race σ ω) : Move ω → Race σ ω
  | .mine calledOff reading => s.mine m calledOff reading
  | .bring b =>
    match s.node.commit b with
    | .error _ => s
    | .ok n => s.publish b false n
  | .tell => s.tell m.watch
  | .callOff => { s with node := s.node.updateWatch m.watch Watch.callOff }
  | .act a => if a.spares m.watch then { s with node := s.node.act a } else s

/-- The race after any moves. -/
def run (m : Miner) (s : Race σ ω) (moves : List (Move ω)) : Race σ ω :=
  moves.foldl (step m) s

/-- The second race comes from the first one by steps of the miner and deliveries alone. -/
def Alone (m : Miner) : Race σ ω → Race σ ω → Prop :=
  Relation.ReflTransGen fun s t =>
    (∃ calledOff reading, t = s.mine m calledOff reading) ∨ t = s.tell m.watch

end Race

/-! ### Watches -/

namespace Node

variable {σ ω : Type}

/-- Nodes with the same watches agree on each. -/
lemma watch_congr {n n' : Node σ ω} (h : n'.watches = n.watches) (i : Nat) :
    n'.watch i = n.watch i := by
  unfold watch
  rw [h]

/-- Changing a watch adds none. -/
@[simp]
lemma length_watches_updateWatch (n : Node σ ω) (i : Nat) (f : Watch → Watch) :
    (n.updateWatch i f).watches.length = n.watches.length :=
  List.length_modify ..

/-- Changing a watch changes that watch. -/
lemma watch_updateWatch {n : Node σ ω} {i : Nat} (h : i < n.watches.length) (f : Watch → Watch) :
    (n.updateWatch i f).watch i = f (n.watch i) := by
  simp [watch, updateWatch, List.getD_eq_getElem?_getD, h]

/-- Changing a watch changes no other one. -/
lemma watch_updateWatch_of_ne (n : Node σ ω) {i j : Nat} (h : i ≠ j) (f : Watch → Watch) :
    (n.updateWatch i f).watch j = n.watch j := by
  simp [watch, updateWatch, List.getD_eq_getElem?_getD, h]

/-- Changes that agree on a watch change the node alike. -/
lemma updateWatch_congr {n : Node σ ω} {i : Nat} {f g : Watch → Watch}
    (h : f (n.watch i) = g (n.watch i)) : n.updateWatch i f = n.updateWatch i g := by
  have hwatches : n.watches.modify i f = n.watches.modify i g := by
    refine List.ext_getElem? fun j => ?_
    rw [List.getElem?_modify, List.getElem?_modify]
    by_cases hj : i = j
    · subst hj
      cases hi : n.watches[i]? with
      | none => rfl
      | some w =>
        have hw : n.watch i = w := by rw [watch, List.getD_eq_getElem?_getD, hi]; rfl
        rw [hw] at h
        simp [h]
    · simp [hj]
  rw [updateWatch, updateWatch, hwatches]

/-- Two changes of a watch are one. -/
lemma updateWatch_updateWatch (n : Node σ ω) (i : Nat) (f g : Watch → Watch) :
    (n.updateWatch i f).updateWatch i g = n.updateWatch i fun w => g (f w) := by
  simp [updateWatch, List.modify_modify_eq, Function.comp_def]

/-- A watch that changes nothing changes nothing. -/
lemma updateWatch_self {n : Node σ ω} {i : Nat} {f : Watch → Watch}
    (h : f (n.watch i) = n.watch i) : n.updateWatch i f = n := by
  have hid : n.updateWatch i f = n.updateWatch i id := updateWatch_congr h
  rw [hid, updateWatch, List.modify_id]

end Node

namespace Race

variable {σ ω : Type} [Storage σ] [Observer ω] {m : Miner} {s : Race σ ω}

/-! ### A publication without interruption -/

/-- A publication that tells one more observer delivers to it. It takes two steps if that is the
miner's watch and calls off, and one otherwise. -/
lemma exists_tell {i : Nat} {p : Publication ω} {o : Subscriber ω} {waiting : List (Subscriber ω)}
    (hs : s.publications = [p]) (hp : p.noticed = false) (hwaiting : p.waiting = o :: waiting) :
    ∃ k, (tell i)^[k] s =
      { s with
        node := (Node.deliver (.blockAdded p.block) o s.node).1
        publications := [{ p with waiting := waiting }] } := by
  by_cases hown : o.isWatch i = true
  · obtain rfl : o = .watch i := by
      cases o <;> simp_all [Subscriber.isWatch]
    have hlearn : (Node.deliver (.blockAdded p.block) (.watch i) s.node).1 =
        s.node.updateWatch i fun w => w.learn p.block.height := rfl
    by_cases hreached : (s.node.watch i).target ≤ p.block.height
    · have hcall : (s.node.updateWatch i fun w => w.learn p.block.height) =
          s.node.updateWatch i Watch.callOff := Node.updateWatch_congr (if_pos hreached)
      exact ⟨2, by simp [tell, hs, hp, hwaiting, hown, hreached, hlearn, hcall]⟩
    · have hcall : (s.node.updateWatch i fun w => w.learn p.block.height) = s.node :=
        Node.updateWatch_self (if_neg hreached)
      exact ⟨1, by simp [tell, hs, hp, hwaiting, hown, hreached, hlearn, hcall]⟩
  · exact ⟨1, by simp [tell, hs, hp, hwaiting, hown]⟩

/-- The only publication delivers to all its observers and is over. -/
lemma exists_tell_all {i : Nat} {b : Block} {own : Bool} {waiting : List (Subscriber ω)}
    (hs : s.publications = [⟨b, own, waiting, false⟩]) (failures : Nat) :
    ∃ k, (tell i)^[k] s =
      { s with
        node := (deliverAll (Node.deliver (.blockAdded b)) s.node failures waiting).1
        publications := [] } := by
  induction waiting generalizing s failures with
  | nil => exact ⟨1, by simp [tell, hs, deliverAll]⟩
  | cons o waiting ih =>
    obtain ⟨k, hk⟩ := exists_tell (i := i) hs rfl rfl
    obtain ⟨l, hl⟩ := ih (s := (tell i)^[k] s) (by rw [hk])
      (if (Node.deliver (.blockAdded b) o s.node).2.isDone then failures else failures + 1)
    refine ⟨l + k, ?_⟩
    rw [Function.iterate_add_apply, hl, hk, deliverAll_cons]

/-- What is published when nothing else is comes to the node as the program publishes it. -/
lemma exists_publish {i : Nat} (hs : s.publications = []) (b : Block) (own : Bool) (n : Node σ ω) :
    ∃ k, (tell i)^[k] (s.publish b own n) = { s with node := (n.publish (.blockAdded b)).1 } := by
  have hone : (s.publish b own n).publications =
      [⟨b, own, n.bus.subscribers .blocks, false⟩] := by
    rw [publish, hs]
    rfl
  obtain ⟨k, hk⟩ := exists_tell_all (i := i) hone 0
  refine ⟨k, hk.trans ?_⟩
  cases s
  simp_all [publish, Node.publish, Event.topic]

/-- Telling again and again is a run. -/
lemma run_replicate_tell (m : Miner) (s : Race σ ω) (k : Nat) :
    s.run m (List.replicate k .tell) = (tell m.watch)^[k] s := by
  induction k generalizing s with
  | zero => rfl
  | succ k ih => exact ih (s.tell m.watch)

/-- A block brought from elsewhere and told without interruption is admitted as the program does. -/
theorem run_addBlock (hs : s.publications = []) {b : Block} (hok : (s.node.addBlock b).2 = .ok ()) :
    ∃ k, s.run m (.bring b :: List.replicate k .tell) =
      { s with node := (s.node.addBlock b).1 } := by
  cases hcommit : s.node.commit b with
  | error f => simp [Node.addBlock, hcommit] at hok
  | ok n =>
    obtain ⟨k, hk⟩ := exists_publish (i := m.watch) hs b false n
    have hbring : s.step m (.bring b) = s.publish b false n := by rw [step, hcommit]
    have hadd : (s.node.addBlock b).1 = (n.publish (.blockAdded b)).1 := by
      rw [Node.addBlock, hcommit]
    refine ⟨k, ?_⟩
    rw [hadd, ← hk, ← hbring, ← run_replicate_tell]
    rfl

/-! ### An attempt without interruption -/

/-- The miner makes its next step. -/
lemma Alone.mine {t : Race σ ω} (h : Alone m s t) (calledOff : Bool) (reading : Int64) :
    Alone m s (t.mine m calledOff reading) :=
  h.tail (.inl ⟨calledOff, reading, rfl⟩)

/-- The publications go on. -/
lemma Alone.iterate_tell {t : Race σ ω} (h : Alone m s t) (k : Nat) :
    Alone m s ((tell m.watch)^[k] t) := by
  induction k with
  | zero => exact h
  | succ k ih => exact Function.iterate_succ_apply' (tell m.watch) k t ▸ ih.tail (.inr rfl)

/-- A step of an attempt that builds on a tip. -/
lemma alone_work (m : Miner) (s : Race σ ω) (base : Tip) (toil : Toil) (reading : Int64) :
    Alone m (s.build base toil) (s.work m reading base toil) := by
  have hstep : (s.build base toil).mine m false reading = s.work m reading base toil := by
    cases toil <;> rfl
  exact hstep ▸ Alone.mine .refl false reading

/-- Where one try leads to in a sweep. -/
lemma sweepFrom_succ (digest : Hasher) (front : Bytes) (bound : Nat) (calledOff : Nat → Bool)
    (nonce tries : Nat) : sweepFrom digest front bound calledOff nonce (tries + 1) =
      if sweepFrom digest front bound calledOff nonce 1 = .exhausted then
        sweepFrom digest front bound calledOff (nonce + 1) tries
      else sweepFrom digest front bound calledOff nonce 1 := by
  simp only [sweepFrom]
  by_cases hoff : calledOff nonce = true
  · simp [hoff]
  · by_cases hmeets : meets (digest (front ++ bigEndian 8 nonce)) bound = true <;>
      simp [hoff, hmeets]

/-- Trying the nonces one by one is a sweep. -/
lemma alone_sweep (m : Miner) (s : Race σ ω) (base : Tip) (txs : List Transaction) {h : Header}
    {bound : Nat} (hbound : threshold h.target = .ok bound) (reading : Int64) {nonce tries : Nat}
    (hlast : nonce + tries = m.maxNonce.toNat) :
    Alone m (s.build base (.searching txs h nonce))
      (s.build base (.afterSweep s.node.digest reading txs h
        (sweepFrom s.node.digest h.assembleFront bound
          (fun _ => (s.node.watch m.watch).isCalledOff) nonce (tries + 1)))) := by
  induction tries generalizing nonce with
  | zero =>
    have hturn := alone_work m s base (.searching txs h nonce) reading
    have hend : ¬nonce < m.maxNonce.toNat := by omega
    simpa only [work, Toil.turn, hbound, hend, and_false, if_false, Nat.zero_add] using hturn
  | succ tries ih =>
    have hturn := alone_work m s base (.searching txs h nonce) reading
    have hmore : nonce < m.maxNonce.toNat := by omega
    rw [sweepFrom_succ]
    split
    · next hexhausted =>
      simp only [work, Toil.turn, hbound, hexhausted, hmore, and_self, if_true] at hturn
      exact hturn.trans (ih (by omega))
    · next hstop =>
      simpa only [work, Toil.turn, hbound, hstop, false_and, if_false] using hturn

/-- Sweeping again and again is a search. -/
lemma alone_search (m : Miner) (s : Race σ ω) (base : Tip) {txs : List Transaction}
    {clock : Nat → Int64} {number sweeps : Nat} {h : Header} {toil : Toil}
    (hends : Toil.afterSearch? s.node.digest txs (Mining.search s.node.digest m.maxNonce
      (fun _ _ => (s.node.watch m.watch).isCalledOff) clock number sweeps h) = some toil) :
    Alone m (s.build base (.searching txs h 0)) (s.build base toil) := by
  induction sweeps generalizing number h with
  | zero => cases hends
  | succ sweeps ih =>
    rw [Mining.search, sweep] at hends
    cases hbound : threshold h.target with
    | error f =>
      have hturn := alone_work m s base (.searching txs h 0) 0
      simp only [hbound, Toil.afterSearch?, Option.some.injEq] at hends
      simpa only [work, Toil.turn, hbound, hends] using hturn
    | ok bound =>
      have hsweep := alone_sweep m s base txs hbound (clock (number + 1))
        (Nat.zero_add m.maxNonce.toNat)
      simp only [hbound] at hends
      cases houtcome : sweepFrom s.node.digest h.assembleFront bound
          (fun _ => (s.node.watch m.watch).isCalledOff) 0 (m.maxNonce.toNat + 1) with
      | solved nonce found | cancelled =>
        simp only [houtcome, Toil.afterSearch?, Option.some.injEq] at hends
        simpa only [houtcome, Toil.afterSweep, hends] using hsweep
      | exhausted =>
        simp only [houtcome] at hends
        rw [houtcome] at hsweep
        exact hsweep.trans (ih hends)

variable {n n' : Node σ ω} {taken : List (Tip × Block)} {past : List PastAttempt}

/-- Submitting a block is a submission of the program. -/
lemma alone_submit (m : Miner) (n : Node σ ω) (b : Block) {base : Tip} (hbase : base = n.tip)
    (taken : List (Tip × Block)) (past : List PastAttempt) :
    ∃ taken', Alone m ⟨n, .building base (.submitting b), [], taken, past⟩
      ⟨(Mining.submit n b n.height).1, .building base (.ended (Mining.submit n b n.height).2), [],
        taken', past⟩ := by
  have hheight : base.height = n.height := congrArg Tip.height hbase
  have hsubmit := alone_work m ⟨n, .idle, [], taken, past⟩ base (.submitting b) 0
  rw [Mining.submit, Node.addBlock]
  cases hcommit : n.commit b with
  | error f =>
    have hrefused := alone_work m ⟨n, .idle, [], taken, past⟩ base (.refused f) 0
    simp only [work, hcommit] at hsubmit
    simp only [work, hheight, ne_eq, not_true, if_false] at hrefused
    simp only [ne_eq, not_true, if_false]
    exact ⟨taken, hsubmit.trans hrefused⟩
  | ok extended =>
    simp only [work, hcommit] at hsubmit
    let told : Race σ ω :=
      ⟨(extended.publish (.blockAdded b)).1, .building base (.published b), [],
        taken ++ [(n.tip, b)], past⟩
    obtain ⟨k, hk⟩ := exists_publish (i := m.watch) (s := told) rfl b true extended
    have htold := hsubmit.trans (hk ▸ Alone.iterate_tell .refl k)
    exact ⟨_, htold.trans (alone_work m told base (.published b) 0)⟩

/-- Assembling a candidate, searching and submitting is what the program does between entering the
watch and leaving it. -/
lemma alone_solveAndSubmit {clock : Nat → Int64} {sweeps : Nat} {r : Except Fault MineOutcome}
    (hends : Mining.solveAndSubmit n m clock sweeps = (n', some r)) (taken : List (Tip × Block))
    (past : List PastAttempt) :
    ∃ taken', Alone m ⟨n, .building n.tip .assembling, [], taken, past⟩
      ⟨n', .building n.tip (.ended r), [], taken', past⟩ := by
  let s : Race σ ω := ⟨n, .idle, [], taken, past⟩
  have hview : s.node.withTip n.tip = n := rfl
  have hassemble := alone_work m s n.tip .assembling (clock 0)
  simp only [work, Toil.assemble, hview] at hassemble
  rw [Mining.solveAndSubmit] at hends
  cases hheader : Mining.header n (Mining.transactions n m) (clock 0) with
  | error f =>
    simp only [hheader] at hassemble hends
    cases hends
    exact ⟨taken, hassemble⟩
  | ok h =>
    simp only [hheader] at hassemble hends
    have hfound : ∀ toil, Toil.afterSearch? n.digest (Mining.transactions n m)
        (Mining.search n.digest m.maxNonce (fun _ _ => (n.watch m.watch).isCalledOff) clock 0 sweeps
          h) = some toil →
        Alone m (s.build n.tip (.searching (Mining.transactions n m) h 0)) (s.build n.tip toil) :=
      fun toil hends => alone_search m s n.tip hends
    cases hsearch : Mining.search n.digest m.maxNonce
        (fun _ _ => (n.watch m.watch).isCalledOff) clock 0 sweeps h with
    | error f =>
      simp only [hsearch] at hends
      cases hends
      exact ⟨taken, hassemble.trans (hfound _ (by rw [hsearch]; rfl))⟩
    | ok outcome =>
      cases outcome with
      | undecided => simp [hsearch] at hends
      | cancelled =>
        simp only [hsearch] at hends
        cases hends
        exact ⟨taken, hassemble.trans (hfound _ (by rw [hsearch]; rfl))⟩
      | solved h' =>
        obtain ⟨-, -, -, -, hoff⟩ := Mining.search_eq_solved hsearch
        let b := Block.ofHeader n.digest h' (Mining.transactions n m)
        have hlook := alone_work m s n.tip (.solved b) 0
        simp only [work, s, hoff, Bool.false_eq_true, if_false] at hlook
        obtain ⟨taken', hsubmit⟩ := alone_submit m n b rfl taken past
        simp only [hsearch] at hends
        cases hends
        exact ⟨taken', ((hassemble.trans (hfound _ (by rw [hsearch]; rfl))).trans hlook).trans
          hsubmit⟩

/-- A miner that has no attempt under way and is not disturbed makes the attempt of the program. -/
theorem alone_of_attempt {calledOff : Bool} {clock : Nat → Int64} {sweeps : Nat}
    {r : Except Fault MineOutcome} (hidle : (n.watch m.watch).current = none)
    (hends : Mining.attempt n m calledOff clock sweeps = (n', some r)) (past : List PastAttempt) :
    ∃ taken, Alone m ⟨n, .idle, [], [], past⟩
      ⟨n', .idle, [], [], past ++ [⟨n.tip, taken, r⟩]⟩ := by
  rw [Mining.attempt, hidle, Option.isSome_none, if_neg Bool.false_ne_true] at hends
  let begun := n.updateWatch m.watch fun w => w.begin n.height calledOff
  have hentered : Alone m ⟨n, .idle, [], [], past⟩
      ⟨begun, .building n.tip .assembling, [], [], past⟩ := by
    have hsteps := (((Alone.mine (m := m) .refl calledOff 0).mine calledOff 0).mine calledOff
      0).mine (s := ⟨n, .idle, [], [], past⟩) calledOff 0
    simp only [mine, build, Node.updateWatch_updateWatch, Watch.enter_aim] at hsteps
    exact hsteps
  cases hsolve : Mining.solveAndSubmit begun m clock sweeps with
  | mk ended result =>
    simp only [begun] at hsolve
    simp only [hsolve] at hends
    cases hends
    obtain ⟨taken, hworks⟩ := alone_solveAndSubmit hsolve [] past
    have hleave := alone_work m ⟨ended, .idle, [], taken, past⟩ n.tip (.ended r) 0
    exact ⟨taken, (hentered.trans hworks).trans hleave⟩

end Race

end PowLedger
