import Mathlib.Tactic.Common
import Mathlib.Tactic.Lemma
import PowLedger.Proofs.Sync.Timeline
import PowLedger.Sync.Peer

/-!
# A session alone with its peer

If its peer answers at once and nothing else happens, there is only one way a session can go:
`Session.Ends` says how many replies it gets, and what becomes of the node. A run in virtual time
with no other session goes just this way, `Timeline.run_alone`. The session is let in when it comes
to the gate, the reply to each question is there in the moment the question is put, and no timer is
ever set.
-/

namespace PowLedger

section Exchange

variable {E σ ω : Type} [Storage σ] [Observer ω]

/-- The peer answers at once, and a question to it does not touch the node. -/
structure Surroundings.Serves (s : Surroundings E σ ω) (peer : String) (a : Answers) : Prop
    extends s.Lawful where
  node_asked : ∀ e r, s.node (s.ask e peer r).1 = s.node e
  answer : ∀ e r, (s.ask e peer r).2 = ⟨0, a.reply r, false⟩

/-- A node, and a peer that answers at once. -/
def Surroundings.beside (a : Answers) : Surroundings (Node σ ω) σ ω :=
  ⟨id, fun _ n => n, fun n _ r => (n, ⟨0, a.reply r, false⟩)⟩

omit [Storage σ] [Observer ω] in
lemma Surroundings.node_beside (a : Answers) (n : Node σ ω) : (beside a).node n = n :=
  rfl

lemma Surroundings.serves_beside (peer : String) (a : Answers) :
    (Surroundings.beside a : Surroundings (Node σ ω) σ ω).Serves peer a where
  toLawful := lawful_of_plan fun _ r => ⟨0, a.reply r, false⟩
  node_asked _ _ := rfl
  answer _ _ := rfl

/-- From where it is, a session that gets the answers of its peer ends after so many replies, with a
node and a result. -/
inductive Session.Ends (peer : String) (a : Answers) :
    Node σ ω × Stage → (replies : Nat) → Node σ ω → Except Fault Nat → Prop
  | finished {n : Node σ ω} {r : Except Fault Nat} : Ends peer a (n, .ended r) 0 n r
  | reply {n m : Node σ ω} {stage : Stage} {q : Request} {k : Nat} {r : Except Fault Nat} :
      Session.request stage = some q →
      Ends peer a (Session.onReply peer false n stage ((a.reply q).locate peer)) k m r →
      Ends peer a (n, stage) (k + 1) m r

/-- A session that ends some time does not wait at the gate. -/
lemma Session.Ends.phase {peer : String} {a : Answers} {next : Node σ ω × Stage} {k : Nat}
    {m : Node σ ω} {r : Except Fault Nat} (h : Ends peer a next k m r) :
    next.2.phase ≠ .waiting := by
  cases h with
  | finished => exact nofun
  | @reply n m stage q k r hrequest _ =>
    intro hphase
    obtain rfl : stage = .atGate := Stage.eq_atGate_of_waiting hphase
    cases hrequest

namespace Timeline

/-- Where the only session of a run is: it has the reply to its question and looks at it next, or it
is over and has left the gate. -/
inductive At (s : Surroundings E σ ω) (peer : String) (a : Answers) (t : Timeline E) :
    Node σ ω × Stage → Prop
  | replied {n : Node σ ω} {stage : Stage} {q : Request} : Session.request stage = some q →
      s.node t.surroundings = n → t.agenda = [.wake 0] →
      t.tasks = [⟨peer, stage, .settled ((a.reply q).locate peer), false⟩] →
      At s peer a t (n, stage)
  | finished {n : Node σ ω} {r : Except Fault Nat} {k : Task} :
      s.node t.surroundings = { n with gate := n.gate.leave 0 } → t.tasks = [k] →
      k.stage = .ended r → At s peer a t (n, .ended r)

variable {s : Surroundings E σ ω} {peer : String} {a : Answers} {t : Timeline E}

/-- A session that goes on gets its next reply at once, or leaves the gate. -/
lemma proceed_at (hs : s.Serves peer a) {k : Task} (hpeer : k.peer = peer)
    (hcalled : k.calledOff = false) (htasks : t.tasks = [k]) (hagenda : t.agenda = [])
    {next : Node σ ω × Stage} (hnext : next.2.phase ≠ .waiting) :
    At s peer a (proceed s t 0 k next.1 next.2) next := by
  obtain ⟨n, stage⟩ := next
  subst hpeer
  cases hrequest : Session.request stage with
  | none =>
    cases stage with
    | atGate => exact absurd rfl hnext
    | askingTip | askingHeaders floor | askingBody wanted hash rest added => cases hrequest
    | ended r =>
      obtain ⟨hnode, hended⟩ := proceed_finished hs.toLawful t 0 k n r
      rw [htasks] at hended
      exact .finished hnode hended rfl
  | some q =>
    have hasked := hs.node_asked (s.setNode t.surroundings n) q
    have hanswer := hs.answer (s.setNode t.surroundings n) q
    refine .replied hrequest ?_ ?_ ?_
    · simp [proceed, hrequest, hcalled, hanswer, continueWith, update, hasked, hs.node_setNode]
    · simp [proceed, hrequest, hcalled, hanswer, continueWith, update, hagenda]
    · simp [proceed, hrequest, hcalled, hanswer, continueWith, update, htasks]

/-- A step of the run is the session's step on the reply. -/
lemma step_at (hs : s.Serves peer a) {n : Node σ ω} {stage : Stage} {q : Request}
    (h : At s peer a t (n, stage)) (hrequest : Session.request stage = some q)
    (hnext : (Session.onReply peer false n stage ((a.reply q).locate peer)).2.phase ≠ .waiting) :
    At s peer a (step s t) (Session.onReply peer false n stage ((a.reply q).locate peer)) := by
  have hphase : stage.phase = .underWay := by
    cases stage with
    | atGate | ended r => cases hrequest
    | askingTip | askingHeaders floor | askingBody wanted hash rest added => rfl
  obtain ⟨e, standing, now, agenda, timers, tasks⟩ := t
  cases h with
  | finished hnode htasks hended => cases hrequest
  | replied hsame hnode hagenda htasks =>
    obtain rfl : _ = q := Option.some.inj (hsame.symm.trans hrequest)
    subst hnode hagenda htasks
    change At s peer a (look s ⟨e, standing, now, [], timers, _⟩ 0 ⟨_, _, _, _⟩) _
    rw [look_settled hphase]
    exact proceed_at hs rfl rfl rfl rfl hnext

/-- The run goes on to the end of the session and then stays. -/
lemma run_at (hs : s.Serves peer a) {next : Node σ ω × Stage} {k : Nat} {m : Node σ ω}
    {r : Except Fault Nat} (hends : Session.Ends peer a next k m r) (h : At s peer a t next)
    {fuel : Nat} (hfuel : k ≤ fuel) :
    s.node (run s fuel t).surroundings = { m with gate := m.gate.leave 0 } ∧
      (run s fuel t).results = [some r] := by
  induction hends generalizing t fuel with
  | @finished n r =>
    cases h with
    | replied hrequest => cases hrequest
    | finished hnode htasks hended =>
      have hstays : run s fuel t = t := by
        cases fuel with
        | zero => rfl
        | succ fuel => simp [run, htasks, hended, Stage.isEnded]
      rw [hstays]
      exact ⟨hnode, by simp [results, htasks, hended]⟩
  | @reply n m stage q k r hrequest hrest ih =>
    obtain ⟨fuel, rfl⟩ : ∃ f, fuel = f + 1 := Nat.exists_eq_add_one.mpr (by omega)
    have hgoes : run s (fuel + 1) t = run s fuel (step s t) := by
      cases h with
      | finished => cases hrequest
      | replied hsame hnode hagenda htasks =>
        have hnot : Stage.isEnded stage = false := by
          cases stage with
          | ended r => cases hrequest
          | atGate | askingTip | askingHeaders floor | askingBody wanted hash rest added => rfl
        simp [run, htasks, hnot]
    rw [hgoes]
    exact ih (step_at hs h hrequest hrest.phase) (by omega)

/-- A session that comes alone to a gate with a free permit goes as its exchange with the peer
does. -/
theorem run_alone (hs : s.Serves peer a) {e : E} {n m : Node σ ω} {k : Nat}
    {r : Except Fault Nat} (hnode : s.node e = n) (hpermit : (n.gate.ask 0).holds 0 = true)
    (hends : Session.Ends peer a (Session.enter { n with gate := n.gate.ask 0 }) k m r)
    (standing : Standing) {fuel : Nat} (hfuel : k + 1 ≤ fuel) :
    let t := run s fuel (start e standing [⟨peer, false, none⟩])
    s.node t.surroundings = { m with gate := m.gate.leave 0 } ∧ t.results = [some r] := by
  obtain ⟨fuel, rfl⟩ : ∃ f, fuel = f + 1 := Nat.exists_eq_add_one.mpr (by omega)
  let k : Task := ⟨peer, .atGate, .fresh, false⟩
  let came : Timeline E := ⟨e, standing, 0, [], [], [k]⟩
  have hlooks : step s (start e standing [⟨peer, false, none⟩]) = look s came 0 k := by
    cases standing <;> rfl
  have henters : look s came 0 k = letIn s came 0 k { n with gate := n.gate.ask 0 } := by
    simp only [came, k, look, arrive, hnode, hpermit, if_true, Bool.false_eq_true, if_false]
  have hgoes : run s (fuel + 1) (start e standing [⟨peer, false, none⟩]) =
      run s fuel (letIn s came 0 k { n with gate := n.gate.ask 0 }) := by
    rw [← henters, ← hlooks]
    rfl
  intro t
  rw [show t = _ from hgoes]
  exact run_at hs hends (proceed_at hs rfl rfl rfl rfl hends.phase) (by omega)

end Timeline

end Exchange

end PowLedger
