import Mathlib.Tactic.Common
import Mathlib.Tactic.Lemma
import PowLedger.Proofs.Node.Frame

/-!
# What one step of a session does

A session that is under way makes a step on each reply. Whatever the reply is, there are two
possibilities, `Session.onReply_cases`. Either nothing of the node is changed but the status and
the count of sessions. Or the reply brought the body asked for, its header being one that the peer
has listed, and the node has taken it; all else is as in the first case, over the node with the
block.
`Session.Leads` says what both cases have in common: how the session goes on, and that it lets go of
the status when it ends.
-/

namespace PowLedger

/-- Where a session is between its beginning and its end. -/
inductive Phase where
  /-- It has not got past the gate. -/
  | waiting
  | underWay
  | finished
  deriving DecidableEq

namespace Stage

/-- The phase of a session at a stage. -/
def phase : Stage → Phase
  | .atGate => .waiting
  | .askingTip | .askingHeaders _ | .askingBody .. => .underWay
  | .ended _ => .finished

/-- The number of blocks that a session says it has added, unless it ended with a fault. -/
def tally : Stage → Option Nat
  | .atGate | .askingTip | .askingHeaders _ => some 0
  | .askingBody _ _ _ added => some added
  | .ended (.ok added) => some added
  | .ended (.error _) => none

/-- The headers that a session has still to fetch the bodies of. -/
def pending : Stage → List Header
  | .askingBody wanted _ rest _ => wanted :: rest
  | _ => []

/-- The body is asked for by the hash of the wanted header. -/
def Honest (digest : Hasher) : Stage → Prop
  | .askingBody wanted hash _ _ => hash = wanted.hash digest
  | _ => True

/-- The headers that a session at a stage learns of from a reply. -/
def hears : Stage → Reply → List Header
  | .askingHeaders _, .headers (.ok headers) => headers
  | _, _ => []

variable {stage : Stage}

/-- A session that waits does so at the gate. -/
lemma eq_atGate_of_waiting (h : stage.phase = .waiting) : stage = .atGate := by
  cases stage with
  | atGate => rfl
  | askingTip | askingHeaders floor | askingBody wanted hash rest added | ended result => cases h

/-- A session that waits has added nothing. -/
lemma tally_of_waiting (h : stage.phase = .waiting) : stage.tally = some 0 := by
  rw [eq_atGate_of_waiting h]
  rfl

/-- A session that is over has ended in some way. -/
lemma exists_ended_of_finished (h : stage.phase = .finished) : ∃ r, stage = .ended r := by
  cases stage with
  | ended result => exact ⟨result, rfl⟩
  | atGate | askingTip | askingHeaders floor | askingBody wanted hash rest added => cases h

/-- A session under way says how many blocks it has added. -/
lemma exists_tally_of_underWay (h : stage.phase = .underWay) : ∃ k, stage.tally = some k := by
  cases stage with
  | atGate | ended result => cases h
  | askingTip | askingHeaders floor => exact ⟨0, rfl⟩
  | askingBody wanted hash rest added => exact ⟨added, rfl⟩

end Stage

namespace Session

variable {σ ω : Type}

/-- How a session goes on that has added `added` blocks so far and whose peer has listed some
headers: it waits for its next reply, or it has let go of the status and ended. Nothing else of the
node is changed. -/
structure Leads (n : Node σ ω) (added : Nat) (listed : List Header) (next : Node σ ω × Stage) :
    Prop where
  aside : n.Aside next.1
  gate : next.1.gate = n.gate
  phase : next.2.phase ≠ .waiting
  sessions : next.1.sessions = if next.2.phase = .finished then n.sessions - 1 else n.sessions
  tally : ∀ k, next.2.tally = some k → k = added
  pending : next.2.pending ⊆ listed
  honest : next.2.Honest n.digest

variable {n : Node σ ω} {added : Nat} {listed : List Header}

/-- An end with the number of added blocks or with a fault. -/
lemma finish_leads {result : Except Fault Nat} (h : ∀ k, result = .ok k → k = added) :
    Leads n added listed (finish n result) where
  aside := n.leaveSync_aside
  gate := rfl
  phase := nofun
  sessions := rfl
  tally := fun k hk => by
    cases result with
    | error f => cases hk
    | ok k' =>
      cases hk
      exact h k rfl
  pending := List.nil_subset _
  honest := trivial

/-- An end with a fault. -/
lemma finish_error_leads (f : Fault) : Leads n added listed (finish n (.error f)) :=
  finish_leads nofun

/-- A session goes on to the next of some listed headers, or it ends. -/
lemma next_leads (peer : String) (calledOff : Bool) {headers : List Header}
    (h : headers ⊆ listed) : Leads n added listed (next peer calledOff n added headers) := by
  cases headers with
  | nil => exact finish_leads fun k hk => (Except.ok.inj hk).symm
  | cons x rest =>
    rw [next]
    split
    · exact finish_error_leads _
    · cases n.judge.checkHeader x n.tip with
      | error f => exact finish_error_leads f
      | ok _ =>
        exact
          { aside := ⟨rfl, rfl⟩
            gate := rfl
            phase := by rintro ⟨⟩
            sessions := rfl
            tally := fun k hk => (Option.some.inj hk).symm
            pending := h
            honest := rfl }

/-- A session goes on to ask for headers, or it ends. -/
lemma onTip_leads (r : Except Fault Header) : Leads n 0 listed (onTip n r) := by
  cases r with
  | error f =>
    rw [onTip]
    split
    · exact finish_leads fun k hk => (Except.ok.inj hk).symm
    · exact finish_error_leads f
  | ok tip =>
    rw [onTip]
    split
    · exact finish_leads fun k hk => (Except.ok.inj hk).symm
    · exact
        { aside := ⟨rfl, rfl⟩
          gate := rfl
          phase := by rintro ⟨⟩
          sessions := rfl
          tally := fun k hk => (Option.some.inj hk).symm
          pending := List.nil_subset _
          honest := trivial }

/-- The headers worth fetching are some of those listed. -/
lemma fetchOrder_subset (floor : Nat) (headers : List Header) :
    fetchOrder floor headers ⊆ headers := by
  intro x hx
  exact List.mem_mergeSort.mp (List.mem_of_mem_filter hx)

/-- A reply that the session does not wait for leaves it where it is. -/
lemma self_leads {stage : Stage} (hphase : stage.phase = .underWay)
    (htally : stage.tally = some added) (hpending : stage.pending ⊆ listed)
    (hhonest : stage.Honest n.digest) : Leads n added listed (n, stage) where
  aside := ⟨rfl, rfl⟩
  gate := rfl
  phase := by rw [hphase]; decide
  sessions := by rw [hphase]; rfl
  tally := fun k hk => Option.some.inj (hk.symm.trans htally)
  pending := hpending
  honest := hhonest

/-- Past the gate a session is under way or over, and the gate is as it was. -/
lemma enter_phase_gate (n : Node σ ω) :
    (enter n).2.phase ≠ .waiting ∧ (enter n).1.gate = n.gate := by
  rw [enter]
  cases n.checkAdmitting with
  | error f => exact ⟨by rintro ⟨⟩, rfl⟩
  | ok _ => exact ⟨by rintro ⟨⟩, rfl⟩

variable [Storage σ] [Observer ω]

/-- The step on a body: the session goes on or ends, and if the body is the one asked for and the
node takes it, the session has added one block more. -/
lemma onBody_cases (peer : String) (calledOff : Bool) {wanted : Header} {hash : String}
    {rest : List Header} (hpending : wanted :: rest ⊆ listed) (hhash : hash = wanted.hash n.digest)
    (r : Except Fault Block) :
    (n.takes (.reply peer calledOff (.askingBody wanted hash rest added) (.block r)) = none ∧
        Leads n added listed (onBody peer calledOff wanted hash rest added n r)) ∨
      ∃ b, n.takes (.reply peer calledOff (.askingBody wanted hash rest added) (.block r)) =
          some b ∧
        (n.addBlock b).2 = .ok () ∧ b.header ∈ listed ∧ b.hash = b.header.hash n.digest ∧
        Leads (n.addBlock b).1 (added + 1) listed
          (onBody peer calledOff wanted hash rest added n r) := by
  cases r with
  | error f => exact Or.inl ⟨rfl, finish_error_leads f⟩
  | ok b =>
    rw [Node.takes, Act.block?, onBody]
    by_cases hwrong : b.hash ≠ hash ∨ b.header ≠ wanted
    · rw [if_pos hwrong, if_pos hwrong]
      exact Or.inl ⟨rfl, finish_error_leads _⟩
    · rw [if_neg hwrong, if_neg hwrong]
      obtain ⟨hright, rfl⟩ : b.hash = hash ∧ b.header = wanted := by
        simpa only [not_or, not_not] using hwrong
      rcases n.addBlock_cases b with ⟨f, hadd⟩ | ⟨fees, store, -, -, -, hadd⟩
      · refine Or.inl ⟨by simp [hadd, Except.isOk, Except.toBool], ?_⟩
        simp only [hadd]
        exact finish_error_leads f
      · have hok : (n.addBlock b).2 = .ok () := by rw [hadd]
        refine Or.inr ⟨b, by simp [hok, Except.isOk, Except.toBool], hok,
          hpending List.mem_cons_self, hright.trans hhash, ?_⟩
        simp only [hadd]
        exact next_leads peer calledOff fun x hx => hpending (List.mem_cons_of_mem _ hx)

/-- The step on any reply: nothing is taken and the session goes on or ends, or the node takes the
body of a listed header and the session has added one block more. -/
theorem onReply_cases (peer : String) (calledOff : Bool) {stage : Stage} {reply : Reply}
    (hphase : stage.phase = .underWay) (htally : stage.tally = some added)
    (hpending : stage.pending ⊆ listed) (hhonest : stage.Honest n.digest)
    (hhears : stage.hears reply ⊆ listed) :
    (n.takes (.reply peer calledOff stage reply) = none ∧
        Leads n added listed (onReply peer calledOff n stage reply)) ∨
      ∃ b, n.takes (.reply peer calledOff stage reply) = some b ∧
        (n.addBlock b).2 = .ok () ∧ b.header ∈ listed ∧ b.hash = b.header.hash n.digest ∧
        Leads (n.addBlock b).1 (added + 1) listed (onReply peer calledOff n stage reply) := by
  have hself := self_leads hphase htally hpending hhonest
  cases stage with
  | atGate | ended result => cases hphase
  | askingTip =>
    cases htally
    cases reply with
    | lastHeader r => exact Or.inl ⟨rfl, onTip_leads r⟩
    | headers r | block r | transaction r => exact Or.inl ⟨rfl, hself⟩
  | askingHeaders floor =>
    cases htally
    cases reply with
    | headers r =>
      cases r with
      | error f => exact Or.inl ⟨rfl, finish_error_leads f⟩
      | ok headers =>
        exact Or.inl ⟨rfl, next_leads peer calledOff
          (List.Subset.trans (fetchOrder_subset floor headers) hhears)⟩
    | lastHeader r | block r | transaction r => exact Or.inl ⟨rfl, hself⟩
  | askingBody wanted hash rest added' =>
    cases htally
    cases reply with
    | block r => exact onBody_cases peer calledOff hpending hhonest r
    | lastHeader r | headers r | transaction r => exact Or.inl ⟨rfl, hself⟩

end Session

end PowLedger
