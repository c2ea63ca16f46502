import Mathlib.Tactic.Common
import Mathlib.Tactic.Lemma
import PowLedger.Proofs.Mining.Attempt
import PowLedger.Proofs.Mining.Race
import PowLedger.Proofs.Node.Observation

/-!
# No attempt keeps mining on a stale tip

A block can come in between any two steps of a miner, and the miner's watch learns of it only
later. Still, an attempt whose tip is no longer the chain's has been called off once the watch has
been told of everything (`Race.stale_attempt_called_off`).

`Race.Sound` is what makes this so. The height in the watch is read before the tip that the attempt
builds on, and the tip only rises, so the height in the watch is at most that of the tip. Whoever
moves the chain on from that tip does so with a block at least as high, and publishes it to a watch
in which the attempt stands already; so the watch is told, and it takes the block to be high enough
(`Race.Sound.warned`). What is told late, or is meant for the attempt before, can only call off too
much.
-/

namespace PowLedger

/-! ### What a move spares -/

/-- The second node has the tip of the first one, this miner's watch as it was, and all the
observers of blocks. -/
structure Node.Spares {σ ω : Type} (miner : Nat) (n n' : Node σ ω) : Prop where
  tip : n'.tip = n.tip
  enrolled : miner < n.watches.length → miner < n'.watches.length
  watch : miner < n.watches.length → n'.watch miner = n.watch miner
  observers : n.bus.blocks <+: n'.bus.blocks

namespace Node

variable {σ ω : Type}

/-- A node with the same tip and the same watches, and with all the observers of blocks. -/
lemma Spares.of_watches {n n' : Node σ ω} (htip : n'.tip = n.tip) (h : n'.watches = n.watches)
    (hobservers : n.bus.blocks <+: n'.bus.blocks) (i : Nat) : n.Spares i n' where
  tip := htip
  enrolled hi := h ▸ hi
  watch _ := watch_congr h i
  observers := hobservers

variable [Storage σ] [Observer ω]

/-- Delivering a block to another observer spares a miner. -/
lemma deliver_spares (b : Block) {o : Subscriber ω} {i : Nat} (ho : o.isWatch i = false)
    (n : Node σ ω) : n.Spares i (deliver (.blockAdded b) o n).1 := by
  have hcore := deliver_core (.blockAdded b) o n
  have htip : (deliver (.blockAdded b) o n).1.tip = n.tip :=
    congrArg₂ Tip.mk (congrArg NodeCore.tipHash hcore) (congrArg NodeCore.height hcore)
  have hobservers := deliver_subscribers (.blockAdded b) o n .blocks
  cases o with
  | watch j =>
    have hne : j ≠ i := by simpa [Subscriber.isWatch] using ho
    exact ⟨htip, fun h => by simpa [deliver] using h, fun _ => n.watch_updateWatch_of_ne hne _,
      hobservers⟩
  | utxoSet => exact .of_watches htip (congrArg Node.watches (deliver_utxoSet n b) :) hobservers i
  | bodyWriter =>
    exact .of_watches htip (congrArg Node.watches (deliver_bodyWriter n b) :) hobservers i
  | pool | outside o => exact .of_watches htip rfl hobservers i

/-- A transaction that is brought to a node changes no watch. -/
lemma brought_none_watches (n : Node σ ω) (tx? : Option Transaction) :
    (n.brought none tx?).watches = n.watches := by
  have htold : ∀ (tx : Transaction) (os : List (Subscriber ω)) (k : Node σ ω) (failures : Nat),
      (deliverAll (deliver (.transactionAdded tx)) k failures os).1.watches = k.watches := by
    intro tx os
    induction os with
    | nil => exact fun _ _ => rfl
    | cons o os ih =>
      intro k failures
      rw [deliverAll_cons, ih]
      cases o <;> rfl
  cases tx? with
  | none => rfl
  | some tx =>
    rw [brought]
    rcases n.addTransaction_cases tx with ⟨f, hadd⟩ | ⟨fee, -, -, -, hadd⟩
    · rw [hadd]
    · rw [hadd]
      exact htold tx _ _ 0

/-- An act that has to do with neither the chain nor a miner spares it. -/
lemma act_spares {a : Act ω} {i : Nat} (h : a.spares i = true) (n : Node σ ω) :
    n.Spares i (n.act a) := by
  have hblock : a.block? = none := by
    cases a <;> simp_all [Act.spares, Act.block?]
  have hholdings := n.act_holdings a
  have hact := (n.act_brought a).2 .blocks
  rw [hblock] at hholdings hact
  have htip : (n.act a).tip = n.tip := by
    have hcore : (n.brought none a.transaction?).core = n.core := by
      cases a.transaction? with
      | none => rfl
      | some tx => exact n.addTransaction_core tx
    have hledger := congrArg Holdings.ledger hholdings
    exact congrArg₂ Tip.mk
      ((congrArg LedgerState.tipHash hledger).trans (congrArg NodeCore.tipHash hcore))
      ((congrArg LedgerState.height hledger).trans (congrArg NodeCore.height hcore))
  have hobservers : n.bus.blocks <+: (n.act a).bus.blocks :=
    (n.brought_subscribers none a.transaction? .blocks).trans hact
  have haside : ∀ {m m' : Node σ ω}, m.Aside m' → m'.watches = m.watches :=
    fun hm => (congrArg Node.watches hm.bare :)
  cases a with
  | block b => cases hblock
  | addWatch =>
    refine ⟨htip, fun hi => ?_, fun hi => ?_, hobservers⟩
    · exact Nat.lt_of_lt_of_le hi (by simp [act, addWatch])
    · simp [act, watch, addWatch, List.getElem?_append_left hi]
  | updateWatch j change =>
    have hne : j ≠ i := by simpa [Act.spares] using h
    exact ⟨htip, fun hi => by simpa [act] using hi,
      fun _ => n.watch_updateWatch_of_ne hne change, hobservers⟩
  | transaction tx => exact .of_watches htip (n.brought_none_watches (some tx)) hobservers i
  | enter => exact .of_watches htip (haside n.enter_aside) hobservers i
  | leave | subscribe topic observer | updateGate change => exact .of_watches htip rfl hobservers i
  | reply peer calledOff stage reply =>
    have hreply := haside (n.onReply_aside peer calledOff stage reply)
    rw [hblock] at hreply
    exact .of_watches htip hreply hobservers i
  | announcedBody peer hash r =>
    have hserved := congrArg Node.watches (n.act_announcedBody peer hash r)
    rw [hblock] at hserved
    exact .of_watches htip hserved hobservers i
  | announcedTransaction peer txid r =>
    have hserved := congrArg Node.watches (n.act_announcedTransaction peer txid r)
    exact .of_watches htip (hserved.trans (n.brought_none_watches _)) hobservers i

omit [Observer ω] in
/-- A block that a node commits is on top of its tip, and becomes the new one; watches and observers
stay. -/
lemma commit_on_top {n n' : Node σ ω} {b : Block} (h : n.commit b = .ok n') :
    b.header.previous = n.tipHash ∧ b.height = n.height ∧ n'.tip = ⟨b.hash, n.height + 1⟩ ∧
      n'.watches = n.watches ∧ n'.bus = n.bus := by
  obtain ⟨-, fees, store, hcheck, -, rfl⟩ := commit_eq_ok_iff.mp h
  obtain ⟨coinbase, others, hvalid, -⟩ := Judge.checkBlock_eq_ok_iff.mp hcheck
  exact ⟨hvalid.previous, hvalid.height, rfl, rfl, rfl⟩

end Node

/-! ### What an attempt makes for its tip -/

/-- The header is made for the block after this tip. -/
structure Header.Atop (h : Header) (base : Tip) : Prop where
  previous : h.previous = base.hash
  height : h.height = UInt64.ofNat base.height

namespace Toil

/-- The header that an attempt is at before its block is taken. -/
def header? : Toil → Option Header
  | .searching _ h _ => some h
  | .solved b | .submitting b => some b.header
  | _ => none

/-- What the node has taken from an attempt on this tip. -/
def taken (base : Tip) : Toil → List (Tip × Block)
  | .published b | .ended (.ok (.mined b)) => [(base, b)]
  | _ => []

/-- What an attempt makes is for its tip. -/
def Fits (base : Tip) (toil : Toil) : Prop :=
  ∀ h, toil.header? = some h → h.Atop base

/-- The second toil may come after the first one, without an admission in between. -/
structure Goes (base : Tip) (toil toil' : Toil) : Prop where
  fits : toil.Fits base → toil'.Fits base
  taken : toil'.taken base = toil.taken base

variable {base : Tip}

/-- An attempt may stay where it is. -/
lemma Goes.refl (toil : Toil) : toil.Goes base toil :=
  ⟨fun hfits => hfits, rfl⟩

/-- An attempt may stop making anything. -/
lemma Goes.stop {toil toil' : Toil} (hnone : toil'.header? = none)
    (htaken : toil'.taken base = toil.taken base) : toil.Goes base toil' where
  fits _ h hh := by
    rw [hnone] at hh
    cases hh
  taken := htaken

/-- An assembled candidate is for the tip that was read. -/
lemma goes_assemble {σ ω : Type} (n : Node σ ω) (m : Miner) (base : Tip) (reading : Int64) :
    Goes base .assembling (.assemble n m base reading) := by
  let txs := Mining.transactions (n.withTip base) m
  rw [assemble]
  cases hheader : Mining.header (n.withTip base) txs reading with
  | error f => exact .stop rfl rfl
  | ok h =>
    refine ⟨fun _ h' hh' => ?_, rfl⟩
    cases hh'
    obtain ⟨root, -, hmade⟩ := Mining.exists_header_eq_ok (n.withTip base) m reading
    cases hmade.symm.trans hheader
    exact ⟨rfl, rfl⟩

/-- A sweep changes time and nonce only. -/
lemma goes_afterSweep (digest : Hasher) (reading : Int64) (txs : List Transaction) (h : Header)
    (nonce : Nat) (outcome : SweepOutcome) :
    Goes base (.searching txs h nonce) (afterSweep digest reading txs h outcome) := by
  have hfits : ∀ h' : Header, h'.previous = h.previous → h'.height = h.height →
      (searching txs h nonce).Fits base → h'.Atop base := by
    intro h' hprevious hheight hfits
    obtain ⟨hp, hh⟩ := hfits h rfl
    exact ⟨hprevious.trans hp, hheight.trans hh⟩
  cases outcome with
  | cancelled => exact .stop rfl rfl
  | solved w found | exhausted =>
    refine ⟨fun hbefore h' hh' => ?_, rfl⟩
    cases hh'
    exact hfits _ rfl rfl hbefore

/-- So does a single try. -/
lemma goes_turn (digest : Hasher) (maxNonce : UInt64) (calledOff : Bool) (reading : Int64)
    (txs : List Transaction) (h : Header) (nonce : Nat) :
    Goes base (.searching txs h nonce) (turn digest maxNonce calledOff reading txs h nonce) := by
  rw [turn]
  cases threshold h.target with
  | error f => exact .stop rfl rfl
  | ok bound =>
    simp only
    split
    · exact ⟨fun hbefore => hbefore, rfl⟩
    · exact goes_afterSweep digest reading txs h nonce _

end Toil

/-- A block that is made for a tip and taken by a node that is at least as high is taken on that
tip. -/
lemma Header.Atop.tip_eq {σ ω : Type} [Storage σ] {n n' : Node σ ω} {b : Block} {base : Tip}
    (h : b.header.Atop base) (hcommit : n.commit b = .ok n') (hle : base.height ≤ n.height) :
    n.tip = base := by
  obtain ⟨hprevious, hheight, -⟩ := Node.commit_on_top hcommit
  have hword : n.height = base.height % UInt64.size := by
    rw [← hheight, Block.height, h.height]
    exact UInt64.toNat_ofNat'
  have hsame : n.height = base.height :=
    Nat.le_antisymm (hword ▸ Nat.mod_le _ _) hle
  exact congrArg₂ Tip.mk (hprevious.symm.trans h.previous) hsame

/-! ### The invariant -/

namespace MinerPhase

/-- What a miner can rely on in each phase about its watch and the height of the chain. -/
def Keeps (w : Watch) (height : Nat) : MinerPhase → Prop
  | .idle => w.current = none
  | .entering read => w.current = none ∧ read ≤ height
  | .aimed => w.current = none ∧ w.target ≤ height
  | .entered => w.current.isSome = true ∧ w.target ≤ height
  | .building base toil =>
    w.current.isSome = true ∧ w.target ≤ base.height ∧ base.height ≤ height ∧ toil.Fits base

/-- What the node has taken from the attempt under way. -/
def taken : MinerPhase → List (Tip × Block)
  | .building base toil => toil.taken base
  | _ => []

/-- An attempt that builds on a tip is entered in the watch, at no greater height than that tip's,
and the chain is as high as that. -/
lemma Keeps.of_base? {w : Watch} {phase : MinerPhase} {height : Nat} {base : Tip}
    (h : phase.Keeps w height) (hbase : phase.base? = some base) :
    w.current.isSome = true ∧ w.target ≤ base.height ∧ base.height ≤ height := by
  cases phase with
  | building base' toil =>
    cases hbase
    exact ⟨h.1, h.2.1, h.2.2.1⟩
  | idle | entering read | aimed | entered => cases hbase

/-- Without a tip nothing is built, and nothing taken. -/
lemma taken_of_base? {phase : MinerPhase} (h : phase.base? = none) : phase.taken = [] := by
  cases phase with
  | building base toil => cases h
  | idle | entering read | aimed | entered => rfl

/-- The chain may rise. -/
lemma Keeps.mono {w : Watch} {phase : MinerPhase} {height height' : Nat} (h : phase.Keeps w height)
    (hle : height ≤ height') : phase.Keeps w height' := by
  cases phase with
  | idle => exact h
  | entering read | aimed | entered => exact ⟨h.1, h.2.trans hle⟩
  | building base toil => exact ⟨h.1, h.2.1, h.2.2.1.trans hle, h.2.2.2⟩

/-- The attempt may be called off. -/
lemma Keeps.callOff {w : Watch} {phase : MinerPhase} {height : Nat} (h : phase.Keeps w height) :
    phase.Keeps w.callOff height := by
  have hcurrent : w.callOff.current.isSome = w.current.isSome := Option.isSome_map
  cases phase with
  | idle => exact Option.map_eq_none_iff.mpr h
  | entering read | aimed => exact ⟨Option.map_eq_none_iff.mpr h.1, h.2⟩
  | entered | building base toil => exact ⟨hcurrent.trans h.1, h.2⟩

end MinerPhase

/-- What an attempt reports is what the node has taken from it, on the tip that it built on. -/
structure PastAttempt.Honest (a : PastAttempt) : Prop where
  taken : a.taken = (Toil.ended a.result).taken a.base
  linked : ∀ x ∈ a.taken, x.2.header.previous = x.1.hash ∧ x.2.height = x.1.height

namespace Race

variable {σ ω : Type}

/-- The publication has still to tell the miner's watch of a block that calls off what is built at
this height. -/
def Warns (miner height : Nat) (p : Publication ω) : Prop :=
  height ≤ p.block.height ∧ p.concerns miner = true

/-- What holds throughout a race. -/
structure Sound (m : Miner) (s : Race σ ω) : Prop where
  enrolled : m.watch < s.node.watches.length
  subscribed : s.node.bus.blocks.any (·.isWatch m.watch) = true
  keeps : s.phase.Keeps (s.node.watch m.watch) s.node.height
  /-- An attempt on a stale tip has been called off, or is going to be. -/
  warned : ∀ base, s.phase.base? = some base → base ≠ s.node.tip →
    (s.node.watch m.watch).isCalledOff = true ∨ ∃ p ∈ s.publications, Warns m.watch base.height p
  taken : s.taken = s.phase.taken
  linked : ∀ x ∈ s.taken, x.2.header.previous = x.1.hash ∧ x.2.height = x.1.height
  past : ∀ a ∈ s.past, a.Honest

variable {m : Miner} {s : Race σ ω}

/-- A race is sound when the miner comes. -/
lemma sound_start {n : Node σ ω} (hwatch : m.watch = n.watches.length)
    (publications : List (Publication ω)) : (start n publications).Sound m where
  enrolled := by simp [start, Node.addWatch, hwatch]
  subscribed := by simp [start, Node.addWatch, Bus.subscribe, Subscriber.isWatch, hwatch]
  keeps := by simp [start, Node.addWatch, Node.watch, MinerPhase.Keeps, Watch.idle, hwatch]
  warned _ hbase := nomatch hbase
  taken := rfl
  linked _ hx := nomatch hx
  past _ ha := nomatch ha

/-- What spares the miner keeps a race sound. -/
lemma Sound.of_spares (h : s.Sound m) {n : Node σ ω} (hn : s.node.Spares m.watch n) :
    Sound m { s with node := n } := by
  have hwatch := hn.watch h.enrolled
  have hheight : n.height = s.node.height := congrArg Tip.height hn.tip
  exact
    { h with
      enrolled := hn.enrolled h.enrolled
      subscribed := by
        obtain ⟨o, ho, hown⟩ := List.any_eq_true.mp h.subscribed
        exact List.any_eq_true.mpr ⟨o, hn.observers.subset ho, hown⟩
      keeps := by
        show s.phase.Keeps (n.watch m.watch) n.height
        rw [hwatch, hheight]
        exact h.keeps
      warned := fun base hbase hstale => by
        show (n.watch m.watch).isCalledOff = true ∨ _
        rw [hwatch]
        exact h.warned base hbase (hn.tip ▸ hstale) }

/-- So does calling off, whatever becomes of the publications. -/
lemma Sound.calledOff (h : s.Sound m) (publications : List (Publication ω)) :
    Sound m { s with
      node := s.node.updateWatch m.watch Watch.callOff
      publications := publications } := by
  have hwatch := Node.watch_updateWatch h.enrolled Watch.callOff
  exact
    { h with
      enrolled := by simpa using h.enrolled
      keeps := by
        show s.phase.Keeps ((s.node.updateWatch m.watch Watch.callOff).watch m.watch) s.node.height
        rw [hwatch]
        exact h.keeps.callOff
      warned := fun base hbase _ => by
        refine .inl ?_
        show ((s.node.updateWatch m.watch Watch.callOff).watch m.watch).isCalledOff = true
        obtain ⟨hentered, -⟩ := h.keeps.of_base? hbase
        obtain ⟨off, hoff⟩ := Option.isSome_iff_exists.mp hentered
        rw [hwatch]
        simp [Watch.isCalledOff, Watch.callOff, hoff] }

/-- So does going on with the publications, if what warns the attempt is not lost. -/
lemma Sound.republish (h : s.Sound m) {publications : List (Publication ω)}
    (hkept : ∀ base, s.phase.base? = some base → ∀ p ∈ s.publications,
      Warns m.watch base.height p → ∃ p' ∈ publications, Warns m.watch base.height p') :
    Sound m { s with publications := publications } :=
  { h with
    warned := fun base hbase hstale => (h.warned base hbase hstale).imp_right
      fun ⟨p, hp, hwarns⟩ => hkept base hbase p hp hwarns }

/-- So does a commit: a block that makes a tip stale is published to the miner's watch. -/
lemma Sound.publish [Storage σ] (h : s.Sound m) {b : Block} {n : Node σ ω}
    (hcommit : s.node.commit b = .ok n) (own : Bool) : (s.publish b own n).Sound m := by
  obtain ⟨-, hheight, htip, hwatches, hbus⟩ := Node.commit_on_top hcommit
  have hwatch : n.watch m.watch = s.node.watch m.watch :=
    Node.watch_congr hwatches m.watch
  have hrises : n.height = s.node.height + 1 := congrArg Tip.height htip
  have hkeeps : s.phase.Keeps (n.watch m.watch) s.node.height := hwatch ▸ h.keeps
  have hsubscribed : n.bus.blocks.any (·.isWatch m.watch) = true := hbus ▸ h.subscribed
  exact
    { h with
      enrolled := hwatches ▸ h.enrolled
      subscribed := hsubscribed
      keeps := hkeeps.mono (hrises ▸ Nat.le_succ s.node.height)
      warned := fun base hbase _ => by
        obtain ⟨-, -, hbelow⟩ := h.keeps.of_base? hbase
        exact .inr ⟨_, List.mem_append_right _ (List.mem_singleton_self _), hheight ▸ hbelow,
          hsubscribed⟩ }

/-- So does going on with an attempt, without an admission. -/
lemma Sound.build (h : s.Sound m) {base : Tip} {toil toil' : Toil}
    (hphase : s.phase = .building base toil) (hgoes : toil.Goes base toil') :
    (s.build base toil').Sound m := by
  have hkeeps := h.keeps
  have htaken := h.taken
  rw [hphase] at hkeeps htaken
  exact
    { h with
      keeps := ⟨hkeeps.1, hkeeps.2.1, hkeeps.2.2.1, hgoes.fits hkeeps.2.2.2⟩
      warned := fun base' hbase => h.warned base' (by rw [hphase]; exact hbase)
      taken := htaken.trans hgoes.taken.symm }

/-- So does what the miner does to its watch before it builds. -/
lemma Sound.prepare (h : s.Sound m) {phase : MinerPhase} (hbefore : s.phase.base? = none)
    (hafter : phase.base? = none) {f : Watch → Watch}
    (hkeeps : phase.Keeps (f (s.node.watch m.watch)) s.node.height) :
    Sound m { s with node := s.node.updateWatch m.watch f, phase := phase } :=
  { h with
    enrolled := by simpa using h.enrolled
    keeps := (Node.watch_updateWatch h.enrolled f).symm ▸ hkeeps
    warned := fun base hbase => by
      rw [hafter] at hbase
      cases hbase
    taken := by
      rw [h.taken, MinerPhase.taken_of_base? hbefore, MinerPhase.taken_of_base? hafter] }

variable [Storage σ] [Observer ω]

/-- Every step of a publication keeps a race sound. The watch finds a block high enough for whatever
the attempt may build, since its own height is that of the tip at most. -/
lemma Sound.tell (h : s.Sound m) : (s.tell m.watch).Sound m := by
  rw [Race.tell]
  split
  · exact h
  · next p later hpublications =>
    split
    · exact h.calledOff _
    · next hquiet =>
      have hnoticed : p.noticed = false := Bool.not_eq_true _ ▸ hquiet
      split
      · next hwaiting =>
        have hdone : p.concerns m.watch = false := by
          simp [Publication.concerns, hnoticed, hwaiting]
        refine h.republish fun base _ p' hp' hwarns => ⟨p', ?_, hwarns⟩
        rw [hpublications] at hp'
        rcases List.mem_cons.mp hp' with rfl | hlater
        · simp [Warns, hdone] at hwarns
        · exact hlater
      · next o waiting hwaiting =>
        split
        · next hown =>
          refine h.republish fun base hbase p' hp' hwarns => ?_
          rw [hpublications] at hp'
          rcases List.mem_cons.mp hp' with rfl | hlater
          · obtain ⟨-, htarget, -⟩ := h.keeps.of_base? hbase
            refine ⟨_, List.mem_cons_self, hwarns.1, ?_⟩
            simp [Publication.concerns, htarget.trans hwarns.1]
          · exact ⟨p', List.mem_cons_of_mem _ hlater, hwarns⟩
        · next hother =>
          have hfalse : o.isWatch m.watch = false := Bool.not_eq_true _ ▸ hother
          have htold := h.of_spares (Node.deliver_spares p.block hfalse s.node)
          refine htold.republish fun base _ p' hp' hwarns => ?_
          change p' ∈ s.publications at hp'
          rw [hpublications] at hp'
          rcases List.mem_cons.mp hp' with rfl | hlater
          · refine ⟨_, List.mem_cons_self, hwarns.1, ?_⟩
            simpa [Publication.concerns, hwaiting, hfalse] using hwarns.2
          · exact ⟨p', List.mem_cons_of_mem _ hlater, hwarns⟩

omit [Observer ω] in
/-- Every step of an attempt that builds on a tip keeps a race sound. -/
lemma Sound.work (h : s.Sound m) (reading : Int64) {base : Tip} {toil : Toil}
    (hphase : s.phase = .building base toil) : (s.work m reading base toil).Sound m := by
  have hkeeps := h.keeps
  rw [hphase] at hkeeps
  obtain ⟨-, -, hbelow, hfits⟩ := hkeeps
  cases toil with
  | assembling => exact h.build hphase (Toil.goes_assemble s.node m base reading)
  | searching txs header nonce =>
    exact h.build hphase (Toil.goes_turn s.node.digest m.maxNonce _ reading txs header nonce)
  | solved b =>
    refine h.build hphase ?_
    split
    · exact .stop rfl rfl
    · exact ⟨fun hbefore => hbefore, rfl⟩
  | submitting b =>
    rw [Race.work]
    cases hcommit : s.node.commit b with
    | error f => exact h.build hphase (.stop rfl rfl)
    | ok n =>
      have htaken : s.taken = [] := by rw [h.taken, hphase]; rfl
      have htip : s.node.tip = base := (hfits _ rfl).tip_eq hcommit hbelow
      have hpublished := h.publish hcommit true
      have hlater := hpublished.keeps
      change s.phase.Keeps _ _ at hlater
      rw [hphase] at hlater
      obtain ⟨hprevious, hheight, -⟩ := Node.commit_on_top hcommit
      rw [htaken, List.nil_append]
      exact
        { hpublished with
          keeps := ⟨hlater.1, hlater.2.1, hlater.2.2.1, fun _ hh => by cases hh⟩
          warned := fun base' hbase => hpublished.warned base' (by
            show s.phase.base? = _
            rw [hphase]
            exact hbase)
          taken := by rw [htip]; rfl
          linked := fun x hx => by
            rw [List.mem_singleton.mp hx]
            exact ⟨hprevious, hheight⟩ }
  | published b =>
    refine h.build hphase ?_
    split
    · exact .refl _
    · exact .stop rfl rfl
  | refused f =>
    refine h.build hphase ?_
    split <;> exact .stop rfl rfl
  | ended result =>
    have htaken := h.taken
    rw [hphase] at htaken
    exact
      { enrolled := by simpa [Race.work] using h.enrolled
        subscribed := h.subscribed
        keeps := congrArg Watch.current (Node.watch_updateWatch h.enrolled Watch.finish)
        warned := fun _ hbase => by cases hbase
        taken := rfl
        linked := fun _ hx => by cases hx
        past := fun a ha => by
          rcases List.mem_append.mp ha with hold | hnew
          · exact h.past a hold
          · rw [List.mem_singleton.mp hnew]
            exact ⟨htaken, h.linked⟩ }

omit [Observer ω] in
/-- Every step of the miner keeps a race sound. -/
lemma Sound.mine (h : s.Sound m) (calledOff : Bool) (reading : Int64) :
    (s.mine m calledOff reading).Sound m := by
  have hkeeps := h.keeps
  have htaken := h.taken
  rw [Race.mine]
  cases hphase : s.phase with
  | building base toil => exact h.work reading hphase
  | idle =>
    rw [hphase] at hkeeps htaken
    exact
      { h with
        keeps := ⟨hkeeps, le_rfl⟩
        warned := fun _ hbase => by cases hbase
        taken := htaken }
  | entering height =>
    rw [hphase] at hkeeps
    exact h.prepare (by rw [hphase]; rfl) rfl hkeeps
  | aimed =>
    rw [hphase] at hkeeps
    exact h.prepare (by rw [hphase]; rfl) rfl ⟨rfl, hkeeps.2⟩
  | entered =>
    rw [hphase] at hkeeps htaken
    exact
      { h with
        keeps := ⟨hkeeps.1, hkeeps.2, le_rfl, fun _ hh => by cases hh⟩
        warned := fun base hbase hstale => by
          cases hbase
          exact absurd rfl hstale
        taken := htaken }

/-- Every move keeps a race sound. -/
lemma Sound.step (h : s.Sound m) (move : Move ω) : (s.step m move).Sound m := by
  cases move with
  | mine calledOff reading => exact h.mine calledOff reading
  | tell => exact h.tell
  | callOff => exact h.calledOff s.publications
  | bring b =>
    rw [Race.step]
    cases hcommit : s.node.commit b with
    | error f => exact h
    | ok n => exact h.publish hcommit false
  | act a =>
    rw [Race.step]
    split
    · next hspares => exact h.of_spares (Node.act_spares hspares s.node)
    · exact h

/-- So do any number of them. -/
lemma Sound.run (h : s.Sound m) (moves : List (Move ω)) : (s.run m moves).Sound m := by
  induction moves generalizing s with
  | nil => exact h
  | cons move moves ih => exact ih (h.step move)

/-- A miner comes to a node, while any blocks are being told. Whatever happens from then on, and in
whatever order the steps come of the miner, of those that bring blocks, of the publications and of
all others:

* if the tip that an attempt builds on is no longer the chain's, and no publication under way has
  still to tell the miner's watch, then the attempt is called off;
* of an attempt that has returned a block, the node has taken this block and no other, and it has
  taken it on the tip that the attempt has built on;
* of an attempt that has returned that it was called off, or a fault, the node has taken no block;
* whenever no attempt is under way, and so after every return, none is entered in the watch. -/
theorem stale_attempt_called_off {n : Node σ ω} (hwatch : m.watch = n.watches.length)
    (publications : List (Publication ω)) (moves : List (Move ω)) :
    let s := (start n publications).run m moves
    (∀ base, s.phase.base? = some base → base ≠ s.node.tip →
      (∀ p ∈ s.publications, p.concerns m.watch = false) →
      (s.node.watch m.watch).isCalledOff = true) ∧
    (∀ a ∈ s.past, ∀ b, a.result = .ok (.mined b) →
      a.taken = [(a.base, b)] ∧ b.header.previous = a.base.hash ∧ b.height = a.base.height) ∧
    (∀ a ∈ s.past, (a.result = .ok .cancelled ∨ ∃ f, a.result = .error f) → a.taken = []) ∧
    (s.phase = .idle → (s.node.watch m.watch).attemptHeight = none) := by
  intro s
  have hsound : s.Sound m := (sound_start hwatch publications).run moves
  refine ⟨fun base hbase hstale htold => ?_, fun a ha b hmined => ?_, fun a ha hnone => ?_,
    fun hidle => ?_⟩
  · refine (hsound.warned base hbase hstale).resolve_right fun ⟨p, hp, hwarns⟩ => ?_
    exact Bool.false_ne_true ((htold p hp).symm.trans hwarns.2)
  · obtain ⟨htaken, hlinked⟩ := hsound.past a ha
    rw [hmined] at htaken
    have htaken : a.taken = [(a.base, b)] := htaken
    exact ⟨htaken, hlinked (a.base, b) (by rw [htaken]; exact List.mem_singleton_self _)⟩
  · have htaken := (hsound.past a ha).taken
    rcases hnone with hcancelled | ⟨f, hfailed⟩
    · rw [htaken, hcancelled]
      rfl
    · rw [htaken, hfailed]
      rfl
  · have hkeeps := hsound.keeps
    rw [hidle] at hkeeps
    exact Option.map_eq_none_iff.mpr hkeeps

end Race

/-! ### A miner and a rival on the sample chain -/

namespace Sample

/-- What the miner finds on top of the first block. -/
def found : Block := Block.ofHeader digest solved [coinbase 1 30, payment]

/-- What somebody else finds on top of that. -/
def rival : Block := block found.hash 2 [coinbase 2 12]

/-- The miner finds a block and begins anew. When it has read the tip for the second time the rival
block comes in, and the watch learns of it when the candidate is assembled already. -/
def raced : List (Race.Move Watcher) :=
  List.replicate 8 (.mine false 7) ++ List.replicate 8 .tell ++ List.replicate 6 (.mine false 7) ++
    .bring rival :: .mine false 8 :: List.replicate 8 .tell

/-- The miner is at the candidate on its own block, and everybody has been told of the rival one. -/
lemma raced_ready :
    let s := (Race.start (node.run waiting).node []).run miner raced
    miner.watch = (node.run waiting).node.watches.length ∧
      s.phase.base? = some ⟨found.hash, 2⟩ ∧ s.node.tip = ⟨rival.hash, 3⟩ ∧
      s.publications.isEmpty = true ∧
      s.past.map (fun a => (a.base, a.result)) = [(⟨first.hash, 1⟩, .ok (.mined found))] := by
  decide +kernel

end Sample

namespace Race

open Sample in
/-- The first attempt has found a block, which the node has taken on the tip that it built on; the
second one builds on that block, has lost its height to the rival, and is called off. -/
theorem stale_attempt_called_off_of_rival :
    let s := (start (Sample.node.run waiting).node []).run miner raced
    s.phase.base? = some ⟨found.hash, 2⟩ ∧ s.node.tip = ⟨rival.hash, 3⟩ ∧
      (s.node.watch miner.watch).isCalledOff = true ∧
      s.past = [⟨⟨first.hash, 1⟩, [(⟨first.hash, 1⟩, found)], .ok (.mined found)⟩] := by
  obtain ⟨hwatch, hbase, htip, htold, hpast⟩ := raced_ready
  obtain ⟨hcalled, hmined, -, -⟩ := stale_attempt_called_off hwatch [] raced
  generalize (start (Sample.node.run waiting).node []).run miner raced = s at *
  have hstale : (⟨found.hash, 2⟩ : Tip) ≠ s.node.tip := by
    rw [htip]
    exact fun hsame => absurd (congrArg Tip.height hsame) (by decide)
  refine ⟨hbase, htip, hcalled _ hbase hstale ?_, ?_⟩
  · rw [List.isEmpty_iff.mp htold]
    exact fun p hp => nomatch hp
  · obtain ⟨a, hone, hshape⟩ := List.map_eq_singleton_iff.mp hpast
    obtain ⟨hfirst, hresult⟩ := Prod.mk.inj hshape
    obtain ⟨htaken, -⟩ := hmined a (hone ▸ List.mem_singleton_self a) found hresult
    rw [hone, ← hfirst, ← hresult, ← htaken]

end Race

end PowLedger
