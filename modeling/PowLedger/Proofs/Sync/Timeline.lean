import Mathlib.Tactic.Common
import Mathlib.Tactic.Lemma
import PowLedger.Proofs.Sync.Meeting
import PowLedger.Sync.Timeline

/-!
# Runs in virtual time are meetings

A run of sessions in virtual time settles what a meeting leaves open: who goes next, when a permit
or a reply comes, and when a session gives up. Whatever it settles, every step of it is some
happenings at a meeting, `Timeline.step_shows`, and what is true of meetings is true of runs. Of the
surroundings it is asked only that they keep the node that is put there, and that a question
to a peer does no more to the node than may happen to it anyway, `Surroundings.Lawful`.
-/

namespace PowLedger

/-- Surroundings that keep the node that is put there, and where a question to a peer may bring
anything to the node but steps of sessions. -/
structure Surroundings.Lawful {E σ ω : Type} [Storage σ] [Observer ω] (s : Surroundings E σ ω) :
    Prop where
  node_setNode : ∀ e n, s.node (s.setNode e n) = n
  node_ask : ∀ e peer r, ∃ acts : List (Act ω), (∀ a ∈ acts, a.isForeign = true) ∧
    s.node (s.ask e peer r).1 = acts.foldl Node.act (s.node e)

/-- Peers that answer by a fixed plan, around nothing but the node, are lawful. -/
lemma Surroundings.lawful_of_plan {σ ω : Type} [Storage σ] [Observer ω]
    (plan : String → Request → PeerAnswer) :
    (⟨id, fun _ n => n, fun n peer r => (n, plan peer r)⟩ :
      Surroundings (Node σ ω) σ ω).Lawful where
  node_setNode _ _ := rfl
  node_ask _ _ _ := ⟨[], List.forall_mem_nil _, rfl⟩

/-- A session waits for what fits its stage, and before it comes to the gate it is not known
there. -/
def Task.Proper (g : Gate) (i : Nat) (k : Task) : Prop :=
  match k.wait with
  | .fresh => k.stage.phase ≠ .underWay ∧ (k.stage.phase = .waiting → ¬g.Knows i)
  | .permit _ => k.stage.phase ≠ .underWay
  | .answer .. | .settled _ => k.stage.phase ≠ .waiting

/-- What is proper at one gate is so at another that does not get to know the session. -/
lemma Task.Proper.of_knows {g g' : Gate} {i : Nat} {k : Task} (h : k.Proper g i)
    (hknows : g'.Knows i → g.Knows i) : k.Proper g' i := by
  obtain ⟨peer, stage, wait, calledOff⟩ := k
  cases wait with
  | fresh => exact ⟨h.1, fun hphase hknown => h.2 hphase (hknows hknown)⟩
  | permit deadline | answer ready limit request reply | settled reply => exact h

/-- A session that is over may wait for anything. -/
lemma Task.proper_of_finished {g : Gate} {i : Nat} {k : Task} (h : k.stage.phase = .finished) :
    k.Proper g i := by
  obtain ⟨peer, stage, wait, calledOff⟩ := k
  change stage.phase = .finished at h
  cases wait with
  | fresh => exact ⟨by simp [h], by simp [h]⟩
  | permit deadline | answer ready limit request reply | settled reply => simp [Proper, h]

/-- What a task shows of its session. -/
def Task.face (k : Task) : String × Stage :=
  (k.peer, k.stage)

/-- What a session at a meeting shows of itself. -/
def Party.face (p : Party) : String × Stage :=
  (p.peer, p.stage)

namespace Timeline

variable {E σ ω : Type}

/-- The timeline and the meeting are about one node and the same sessions. -/
structure Shows (s : Surroundings E σ ω) (t : Timeline E) (w : Meeting σ ω) : Prop where
  node : s.node t.surroundings = w.node
  tasks : ∀ i : Nat, t.tasks[i]?.map Task.face = w.parties[i]?.map Party.face
  proper : ∀ (i : Nat) (k : Task), t.tasks[i]? = some k → k.Proper w.node.gate i

/-- The sessions are the same, and all but the one at a place wait for what fits. -/
structure AgreesBut (i : Nat) (t : Timeline E) (w : Meeting σ ω) : Prop where
  tasks : ∀ j : Nat, t.tasks[j]?.map Task.face = w.parties[j]?.map Party.face
  proper : ∀ (j : Nat) (k : Task), j ≠ i → t.tasks[j]? = some k → k.Proper w.node.gate j

/-! ### What does not touch node and sessions -/

lemma enqueue_same (t : Timeline E) (a : Alarm) :
    (t.enqueue a).surroundings = t.surroundings ∧ (t.enqueue a).tasks = t.tasks := by
  rw [enqueue]
  split <;> exact ⟨rfl, rfl⟩

lemma foldl_enqueue_same {α : Type} (f : α → Alarm) (as : List α) (t : Timeline E) :
    (as.foldl (fun t a => t.enqueue (f a)) t).surroundings = t.surroundings ∧
      (as.foldl (fun t a => t.enqueue (f a)) t).tasks = t.tasks := by
  induction as generalizing t with
  | nil => exact ⟨rfl, rfl⟩
  | cons a as ih =>
    obtain ⟨hsurroundings, htasks⟩ := ih (t.enqueue (f a))
    obtain ⟨hsurroundings', htasks'⟩ := t.enqueue_same (f a)
    exact ⟨hsurroundings.trans hsurroundings', htasks.trans htasks'⟩

variable {s : Surroundings E σ ω} {t t' : Timeline E} {w : Meeting σ ω} {i : Nat}

/-- What a timeline shows depends on its surroundings and its tasks only. -/
lemma Shows.of_same (h : t.Shows s w)
    (hsame : t'.surroundings = t.surroundings ∧ t'.tasks = t.tasks) : t'.Shows s w where
  node := hsame.1 ▸ h.node
  tasks := hsame.2 ▸ h.tasks
  proper := hsame.2 ▸ h.proper

/-- What a timeline shows it shows all the more but for one session. -/
lemma Shows.agreesBut (h : t.Shows s w) (i : Nat) : t.AgreesBut i w :=
  ⟨h.tasks, fun j k _ hk => h.proper j k hk⟩

/-- The session of a task. -/
lemma exists_party (hi : t.tasks[i]?.map Task.face = w.parties[i]?.map Party.face) {k : Task}
    (hk : t.tasks[i]? = some k) : ∃ p, w.parties[i]? = some p ∧ p.face = k.face := by
  rw [hk] at hi
  cases hp : w.parties[i]? with
  | none => simp [hp] at hi
  | some p =>
    rw [hp] at hi
    exact ⟨p, rfl, (Option.some.inj hi).symm⟩

/-- The session of a task at the gate waits. -/
lemma Shows.exists_waiting (h : t.Shows s w) {k : Task} (hk : t.tasks[i]? = some k)
    (hstage : k.stage = .atGate) :
    ∃ p, w.parties[i]? = some p ∧ p.peer = k.peer ∧ p.stage.phase = .waiting := by
  obtain ⟨p, hp, hface⟩ := exists_party (h.tasks i) hk
  obtain ⟨hpeer, hsame⟩ : p.peer = k.peer ∧ p.stage = k.stage := Prod.ext_iff.mp hface
  refine ⟨p, hp, hpeer, ?_⟩
  rw [hsame, hstage]
  rfl

/-- One task and its session change alike, the others keep what they have, and none of them gets to
be known at the gate. -/
lemma shows_of_modify {w' : Meeting σ ω} {f : Task → Task} {k : Task} {q : Party}
    (h : t.AgreesBut i w) (hk : t.tasks[i]? = some k)
    (hnode : s.node t'.surroundings = w'.node) (hmodify : t'.tasks = t.tasks.modify i f)
    (hparties : ∀ j : Nat, w'.parties[j]? = if i = j then some q else w.parties[j]?)
    (hface : (f k).face = q.face) (hnew : (f k).Proper w'.node.gate i)
    (hknows : ∀ j ≠ i, w'.node.gate.Knows j → w.node.gate.Knows j) : t'.Shows s w' where
  node := hnode
  tasks := by
    intro j
    rw [hmodify, hparties, List.getElem?_modify]
    by_cases hij : i = j
    · subst hij
      simp [hk, hface]
    · simpa [hij] using h.tasks j
  proper := by
    intro j r hr
    rw [hmodify] at hr
    by_cases hij : i = j
    · subst hij
      rw [List.getElem?_modify_eq, hk] at hr
      cases hr
      exact hnew
    · rw [List.getElem?_modify_ne f _ hij] at hr
      exact (h.proper j r (Ne.symm hij) hr).of_knows (hknows j (Ne.symm hij))

/-- A session that waits for something else at the same stage is seen where it was. -/
lemma shows_of_wait {f : Task → Task} {k : Task} (h : t.AgreesBut i w)
    (hk : t.tasks[i]? = some k) (hnode : s.node t'.surroundings = w.node)
    (hmodify : t'.tasks = t.tasks.modify i f) (hface : (f k).face = k.face)
    (hnew : (f k).Proper w.node.gate i) : t'.Shows s w := by
  obtain ⟨p, hp, hsame⟩ := exists_party (h.tasks i) hk
  refine shows_of_modify h hk hnode hmodify (fun j => ?_) (hface.trans hsame.symm) hnew
    fun _ _ hknown => hknown
  split
  · next hij => exact hij ▸ hp
  · rfl

/-- A session that has got its reply is seen where it was. -/
lemma settle_shows (h : t.Shows s w) {k : Task} (hk : t.tasks[i]? = some k)
    (hphase : k.stage.phase ≠ .waiting) (reply : Reply) : (t.settle i reply).Shows s w :=
  shows_of_wait (h.agreesBut i) hk h.node rfl rfl hphase

variable [Storage σ] [Observer ω]

/-- What else happens to the node is seen at the meeting. -/
lemma Shows.others (h : t.Shows s w) {acts : List (Act ω)} (hacts : ∀ a ∈ acts, a.isForeign = true)
    (htasks : t'.tasks = t.tasks)
    (hnode : s.node t'.surroundings = acts.foldl Node.act (s.node t.surroundings)) :
    t'.Shows s ((acts.map Happening.other).foldl Meeting.step w) := by
  obtain ⟨hsame, hparties, hgate⟩ := w.foldl_other hacts
  constructor
  · rw [hnode, hsame, h.node]
  · rw [htasks, hparties]
    exact h.tasks
  · rw [htasks, hgate]
    exact h.proper

/-! ### A session goes on -/

/-- After a change of the gate the node has the new one, and the sessions are as they were. -/
lemma changeGate_same (hs : s.Lawful) (t : Timeline E) (f : Gate → Gate) :
    s.node (changeGate s t f).surroundings =
        { s.node t.surroundings with gate := f (s.node t.surroundings).gate } ∧
      (changeGate s t f).tasks = t.tasks := by
  obtain ⟨hsurroundings, htasks⟩ := foldl_enqueue_same Alarm.wake
    ((f (s.node t.surroundings).gate).held.filter fun i => !(s.node t.surroundings).gate.holds i)
    { t with surroundings := s.setNode t.surroundings
                { s.node t.surroundings with gate := f (s.node t.surroundings).gate } }
  constructor
  · rw [changeGate, hsurroundings, hs.node_setNode]
  · rw [changeGate, htasks]

/-- A session that is over leaves the gate. -/
lemma proceed_finished (hs : s.Lawful) (t : Timeline E) (i : Nat) (k : Task) (n : Node σ ω)
    (r : Except Fault Nat) :
    s.node (proceed s t i k n (.ended r)).surroundings = { n with gate := n.gate.leave i } ∧
      (proceed s t i k n (.ended r)).tasks =
        t.tasks.modify i fun k => { k with stage := .ended r } := by
  obtain ⟨hnode, htasks⟩ := changeGate_same hs
    (({ t with surroundings := s.setNode t.surroundings n } : Timeline E).update i
      fun k => { k with stage := .ended r }) (·.leave i)
  constructor
  · rw [proceed, Session.request, hnode, update, hs.node_setNode]
  · rw [proceed, Session.request, htasks, update]

/-- A session under way has a reply, or it waits for one, and nothing has come to the node but what
may. -/
lemma proceed_underWay (hs : s.Lawful) (t : Timeline E) (i : Nat) (k : Task) (n : Node σ ω)
    {stage : Stage} (hphase : stage.phase = .underWay) :
    ∃ (f : Task → Task) (acts : List (Act ω)),
      (∀ k : Task, (f k).face = (k.peer, stage) ∧ ∀ g, (f k).Proper g i) ∧
      (∀ a ∈ acts, a.isForeign = true) ∧
      s.node (proceed s t i k n stage).surroundings = acts.foldl Node.act n ∧
      (proceed s t i k n stage).tasks = t.tasks.modify i f := by
  have hnot : stage.phase ≠ .waiting := by
    rw [hphase]
    decide
  obtain ⟨request, hrequest⟩ : ∃ request, Session.request stage = some request := by
    cases stage with
    | atGate | ended r => cases hphase
    | askingTip | askingHeaders floor | askingBody wanted hash rest added => exact ⟨_, rfl⟩
  rw [proceed, hrequest]
  dsimp only
  split
  · refine ⟨_, [], ?_, ?_, ?_, rfl⟩
    · exact fun k => ⟨rfl, fun g => hnot⟩
    · exact List.forall_mem_nil _
    · exact hs.node_setNode _ n
  · obtain ⟨acts, hacts, hask⟩ := hs.node_ask (s.setNode t.surroundings n) k.peer request
    rw [hs.node_setNode] at hask
    split
    · refine ⟨_, acts, ?_, hacts, ?_, rfl⟩
      · exact fun k => ⟨rfl, fun g => hnot⟩
      · exact hask
    · split
      · refine ⟨_, acts, ?_, hacts, ?_, rfl⟩
        · exact fun k => ⟨rfl, fun g => hnot⟩
        · exact hask
      · split
        · refine ⟨_, acts, ?_, hacts, ?_, (enqueue_same _ _).2⟩
          · exact fun k => ⟨rfl, fun g => hnot⟩
          · rw [(enqueue_same _ _).1]
            exact hask
        · refine ⟨_, acts, ?_, hacts, ?_, rfl⟩
          · exact fun k => ⟨rfl, fun g => hnot⟩
          · exact hask

/-- A session goes on at the timeline as it does at the meeting. -/
lemma proceed_shows (hs : s.Lawful) (h : t.AgreesBut i w) {k : Task} {p q : Party}
    (hk : t.tasks[i]? = some k) (hp : w.parties[i]? = some p) (hpeer : q.peer = k.peer)
    {next : Node σ ω × Stage} (taken : Option Block) (hphase : next.2.phase ≠ .waiting)
    (hgate : next.1.gate = w.node.gate) {capacity : Nat} (horderly : w.node.gate.Orderly capacity) :
    ∃ es : List (Happening ω), (proceed s t i k next.1 next.2).Shows s
      (es.foldl Meeting.step (w.goOn i next q taken)) := by
  obtain ⟨n, stage⟩ := next
  change stage.phase ≠ .waiting at hphase
  change n.gate = w.node.gate at hgate
  cases hend : stage.phase with
  | waiting => exact absurd hend hphase
  | finished =>
    obtain ⟨r, rfl⟩ := Stage.exists_ended_of_finished hend
    obtain ⟨hnode, hmodify⟩ := proceed_finished hs t i k n r
    refine ⟨[], shows_of_modify h hk hnode hmodify (Meeting.getElem?_goOn hp) ?_ ?_ ?_⟩
    · rw [← hpeer]
      rfl
    · exact Task.proper_of_finished hend
    · intro j hj hknown
      change (n.gate.leave i).Knows j at hknown
      rw [hgate] at hknown
      exact ((horderly.knows_leave i j).mp hknown).1
  | underWay =>
    obtain ⟨f, acts, hf, hacts, hnode, hmodify⟩ := proceed_underWay hs t i k n hend
    have hgoOn : (w.goOn i (n, stage) q taken).node = n := if_neg (by rw [hend]; decide)
    -- at the meeting the session is at its new stage first, and what the question brings to the
    -- node comes after
    let settled : Timeline E :=
      { t with surroundings := s.setNode t.surroundings n, tasks := t.tasks.modify i f }
    have hsettled : settled.Shows s (w.goOn i (n, stage) q taken) := by
      refine shows_of_modify h hk ?_ rfl (Meeting.getElem?_goOn hp) ?_ ?_ ?_
      · rw [hgoOn]
        exact hs.node_setNode _ n
      · exact (hf k).1.trans (by rw [← hpeer]; rfl)
      · exact (hf k).2 _
      · intro j hj hknown
        rw [hgoOn, hgate] at hknown
        exact hknown
    refine ⟨acts.map Happening.other, hsettled.others hacts hmodify ?_⟩
    show _ = acts.foldl Node.act (s.node (s.setNode t.surroundings n))
    rw [hnode, hs.node_setNode]

/-! ### A session looks around -/

variable {n : Node σ ω} {capacity : Nat}

/-- A session that holds a permit begins. -/
lemma letIn_shows (hs : s.Lawful) (hw : Meeting.Sound n capacity w) (h : t.AgreesBut i w)
    {k : Task} {p : Party} (hk : t.tasks[i]? = some k) (hp : w.parties[i]? = some p)
    (hpeer : p.peer = k.peer) (hphase : p.stage.phase = .waiting)
    (hpermit : w.node.gate.holds i = true) :
    ∃ es : List (Happening ω), (letIn s t i k w.node).Shows s (es.foldl Meeting.step w) := by
  obtain ⟨hentered, hgate⟩ := Session.enter_phase_gate w.node
  have hstep : w.step (.letIn i) = w.goOn i (Session.enter w.node) p none := by
    rw [Meeting.step, Meeting.atPlace_eq hp hphase, if_pos hpermit]
  obtain ⟨es, hes⟩ := proceed_shows hs h hk hp hpeer none hentered hgate hw.balanced.orderly
  rw [← hstep] at hes
  exact ⟨.letIn i :: es, hes⟩

/-- A session that goes away from the gate is turned away at the meeting. -/
lemma shows_turnAway (h : t.Shows s w) (hw : Meeting.Sound n capacity w) {k : Task} {p : Party}
    (hk : t.tasks[i]? = some k) (hp : w.parties[i]? = some p) (hpeer : p.peer = k.peer)
    (hphase : p.stage.phase = .waiting) (f : Fault)
    (hnode : s.node t'.surroundings = { w.node with gate := w.node.gate.leave i })
    (hmodify : t'.tasks = t.tasks.modify i fun k => { k with stage := .ended (.error f) }) :
    t'.Shows s (w.step (.turnAway i f)) := by
  rw [Meeting.step, Meeting.atPlace_eq hp hphase]
  refine shows_of_modify (h.agreesBut i) hk hnode hmodify
    (Meeting.getElem?_goOn hp) ?_ ?_ ?_
  · rw [Task.face, Party.face, hpeer]
  · exact Task.proper_of_finished rfl
  · intro j hj hknown
    exact ((hw.balanced.orderly.knows_leave i j).mp hknown).1

/-- A session comes to the gate. -/
lemma arrive_shows (hs : s.Lawful) (hw : Meeting.Sound n capacity w) (h : t.Shows s w) {k : Task}
    (hk : t.tasks[i]? = some k) (hstage : k.stage = .atGate) (hwait : k.wait = .fresh) :
    ∃ es : List (Happening ω), (arrive s t i k).Shows s (es.foldl Meeting.step w) := by
  obtain ⟨p, hp, hpeer, hphase⟩ := h.exists_waiting hk hstage
  have hnew : ¬w.node.gate.Knows i := by
    have hproper := h.proper i k hk
    rw [Task.Proper, hwait] at hproper
    exact hproper.2 (by rw [hstage]; rfl)
  have hleave : ({ w.node with gate := w.node.gate.leave i } : Node σ ω) = w.node := by
    rw [Gate.leave_eq_self hnew]
  have hstep : w.step (.ask i) = { w with node := { w.node with gate := w.node.gate.ask i } } := by
    rw [Meeting.step, Meeting.atPlace_eq hp hphase, if_neg hnew]
  have hasked := hw.step (.ask i)
  rw [hstep] at hasked
  have hothers : t.AgreesBut i { w with node := { w.node with gate := w.node.gate.ask i } } := by
    refine ⟨h.tasks, fun j r hj hr => (h.proper j r hr).of_knows fun hknown => ?_⟩
    rcases (hw.balanced.orderly.knows_ask i j).mp hknown with hknown | hji
    · exact hknown
    · exact absurd hji hj
  rw [arrive, h.node]
  dsimp only
  split
  · exact ⟨[.turnAway i _], shows_turnAway h hw hk hp hpeer hphase _ (h.node.trans hleave.symm) rfl⟩
  · split
    · next hholds =>
      obtain ⟨es, hes⟩ := letIn_shows hs hasked hothers hk hp hpeer hphase hholds
      refine ⟨.ask i :: es, ?_⟩
      rw [List.foldl_cons, hstep]
      exact hes
    · split
      · exact ⟨[.turnAway i _],
          shows_turnAway h hw hk hp hpeer hphase _ (h.node.trans hleave.symm) rfl⟩
      · refine ⟨[.ask i], ?_⟩
        show Shows s _ (w.step (.ask i))
        rw [hstep]
        refine shows_of_wait hothers hk (hs.node_setNode _ _) rfl rfl ?_
        show k.stage.phase ≠ .underWay
        rw [hstage]
        decide

/-- A session that gets a reply makes its next step. -/
lemma onReply_shows (hs : s.Lawful) (hw : Meeting.Sound n capacity w) (h : t.Shows s w) {k : Task}
    (hk : t.tasks[i]? = some k) (hphase : k.stage.phase = .underWay) (reply : Reply) :
    ∃ es : List (Happening ω),
      (proceed s t i k (Session.onReply k.peer k.calledOff w.node k.stage reply).1
        (Session.onReply k.peer k.calledOff w.node k.stage reply).2).Shows s
          (es.foldl Meeting.step w) := by
  obtain ⟨p, hp, hface⟩ := exists_party (h.tasks i) hk
  obtain ⟨hpeer, hstage⟩ : p.peer = k.peer ∧ p.stage = k.stage := Prod.ext_iff.mp hface
  rw [← hstage] at hphase
  rw [← hpeer, ← hstage]
  have hreplied : (Session.onReply p.peer k.calledOff w.node p.stage reply).2.phase ≠ .waiting ∧
      (Session.onReply p.peer k.calledOff w.node p.stage reply).1.gate = w.node.gate := by
    rcases hw.onReply_cases hp hphase k.calledOff reply with
      ⟨-, hleads⟩ | ⟨b, -, -, -, -, hleads⟩
    · exact ⟨hleads.phase, hleads.gate⟩
    · exact ⟨hleads.phase, hleads.gate.trans (w.node.addBlock_standing b).2.2⟩
  have hstep : w.step (.reply i k.calledOff reply) =
      w.goOn i (Session.onReply p.peer k.calledOff w.node p.stage reply)
        { p with listed := p.listed ++ p.stage.hears reply }
        (w.node.takes (.reply p.peer k.calledOff p.stage reply)) := by
    rw [Meeting.step, Meeting.atPlace_eq hp hphase]
  obtain ⟨es, hes⟩ := proceed_shows (q := { p with listed := p.listed ++ p.stage.hears reply }) hs
    (h.agreesBut i) hk hp hpeer
    (w.node.takes (.reply p.peer k.calledOff p.stage reply)) hreplied.1 hreplied.2
    hw.balanced.orderly
  rw [← hstep] at hes
  exact ⟨.reply i k.calledOff reply :: es, hes⟩

/-- A session that is turned away at the gate. -/
lemma turnAway_shows (hs : s.Lawful) (hw : Meeting.Sound n capacity w) (h : t.Shows s w) {k : Task}
    (hk : t.tasks[i]? = some k) (hstage : k.stage = .atGate) (f : Fault) :
    ∃ es : List (Happening ω), (turnAway s t i f).Shows s (es.foldl Meeting.step w) := by
  obtain ⟨p, hp, hpeer, hphase⟩ := h.exists_waiting hk hstage
  obtain ⟨hnode, htasks⟩ := changeGate_same hs ((t.clearTimers i).fail i f) (·.leave i)
  refine ⟨[.turnAway i f], shows_turnAway h hw hk hp hpeer hphase f (hnode.trans ?_) htasks⟩
  show ({ s.node t.surroundings with gate := (s.node t.surroundings).gate.leave i } : Node σ ω) = _
  rw [h.node]

/-- A session at the gate that looks around. -/
lemma look_waiting_shows (hs : s.Lawful) (hw : Meeting.Sound n capacity w) (h : t.Shows s w)
    {k : Task} (hk : t.tasks[i]? = some k) (hstage : k.stage = .atGate) :
    ∃ es : List (Happening ω), (look s t i k).Shows s (es.foldl Meeting.step w) := by
  have hproper := h.proper i k hk
  obtain ⟨p, hp, hpeer, hphase⟩ := h.exists_waiting hk hstage
  obtain ⟨peer, stage, wait, calledOff⟩ := k
  obtain rfl : stage = .atGate := hstage
  cases wait with
  | fresh => exact arrive_shows hs hw h hk rfl rfl
  | permit deadline =>
    rw [look, h.node]
    dsimp only
    split
    · exact turnAway_shows hs hw h hk rfl _
    · split
      · next hholds =>
        have hclear : (t.clearTimers i).Shows s w := h.of_same ⟨rfl, rfl⟩
        exact letIn_shows hs hw (hclear.agreesBut i) hk hp hpeer hphase hholds
      · split
        · exact turnAway_shows hs hw h hk rfl _
        · exact ⟨[], h⟩
  | answer ready limit request reply | settled reply => exact absurd rfl hproper

/-- A session under way that waits for an answer sees whether it has been called off, then whether
the answer is there, then whether its time is up. -/
lemma look_answer {stage : Stage} (hphase : stage.phase = .underWay) (peer : String)
    (ready limit : Nat) (request : Request) (reply : Reply) (calledOff : Bool) :
    look s t i ⟨peer, stage, .answer ready limit request reply, calledOff⟩ =
      if calledOff then
        t.settle i (Reply.failure (.cancelled (.request peer request.what)) request)
      else if ready ≤ t.now then t.settle i reply
      else if limit ≤ t.now then
        t.settle i (Reply.failure (.timeout (.request peer request.what
          (s.node t.surroundings).limits.peerTimeout.toNat)) request)
      else t := by
  cases stage with
  | atGate | ended r => cases hphase
  | askingTip | askingHeaders floor | askingBody wanted hash rest added => rfl

/-- A session under way that has its reply makes its next step. -/
lemma look_settled {stage : Stage} (hphase : stage.phase = .underWay) (peer : String)
    (reply : Reply) (calledOff : Bool) :
    look s t i ⟨peer, stage, .settled reply, calledOff⟩ =
      proceed s t i ⟨peer, stage, .settled reply, calledOff⟩
        (Session.onReply peer calledOff (s.node t.surroundings) stage reply).1
        (Session.onReply peer calledOff (s.node t.surroundings) stage reply).2 := by
  cases stage with
  | atGate | ended r => cases hphase
  | askingTip | askingHeaders floor | askingBody wanted hash rest added => rfl

/-- A session under way that looks around. -/
lemma look_underWay_shows (hs : s.Lawful) (hw : Meeting.Sound n capacity w) (h : t.Shows s w)
    {k : Task} (hk : t.tasks[i]? = some k) (hphase : k.stage.phase = .underWay) :
    ∃ es : List (Happening ω), (look s t i k).Shows s (es.foldl Meeting.step w) := by
  have hproper := h.proper i k hk
  have hnot : k.stage.phase ≠ .waiting := by
    rw [hphase]
    decide
  have hsettle (reply : Reply) : ∃ es : List (Happening ω),
      (t.settle i reply).Shows s (es.foldl Meeting.step w) :=
    ⟨[], settle_shows h hk hnot reply⟩
  obtain ⟨peer, stage, wait, calledOff⟩ := k
  cases wait with
  | fresh => exact absurd hphase hproper.1
  | permit deadline => exact absurd hphase hproper
  | answer ready limit request reply =>
    rw [look_answer hphase]
    split
    · exact hsettle _
    · split
      · exact hsettle _
      · split
        · exact hsettle _
        · exact ⟨[], h⟩
  | settled reply =>
    rw [look_settled hphase, h.node]
    exact onReply_shows hs hw h hk hphase reply

/-! ### A step, a run -/

omit [Storage σ] [Observer ω] in
/-- Calling a session off is not seen at the meeting. -/
lemma callOff_shows (h : t.Shows s w) (i : Nat) :
    (t.update i fun k => { k with calledOff := true }).Shows s w := by
  cases hk : t.tasks[i]? with
  | none =>
    refine h.of_same ⟨rfl, ?_⟩
    exact List.modify_eq_self (List.getElem?_eq_none_iff.mp hk)
  | some k =>
    exact shows_of_wait (h.agreesBut i) hk h.node rfl rfl (h.proper i k hk)

/-- What an alarm does is some happenings at the meeting. -/
lemma handle_shows (hs : s.Lawful) (hw : Meeting.Sound n capacity w) (h : t.Shows s w)
    (a : Alarm) : ∃ es : List (Happening ω), (handle s t a).Shows s (es.foldl Meeting.step w) := by
  cases a with
  | callOff i => exact ⟨[], (callOff_shows h i).of_same (enqueue_same _ _)⟩
  | wake i =>
    rw [handle]
    cases hk : t.tasks[i]? with
    | none => exact ⟨[], h⟩
    | some k =>
      cases hphase : k.stage.phase with
      | waiting => exact look_waiting_shows hs hw h hk (Stage.eq_atGate_of_waiting hphase)
      | underWay => exact look_underWay_shows hs hw h hk hphase
      | finished =>
        obtain ⟨peer, stage, wait, calledOff⟩ := k
        obtain ⟨r, rfl⟩ := Stage.exists_ended_of_finished hphase
        exact ⟨[], h⟩

/-- Every step in virtual time is some happenings at the meeting. -/
theorem step_shows (hs : s.Lawful) (hw : Meeting.Sound n capacity w) (h : t.Shows s w) :
    ∃ es : List (Happening ω), (step s t).Shows s (es.foldl Meeting.step w) := by
  obtain ⟨e, standing, now, agenda, timers, tasks⟩ := t
  cases agenda with
  | cons a rest =>
    have hrest : Shows s ⟨e, standing, now, rest, timers, tasks⟩ w := h.of_same ⟨rfl, rfl⟩
    exact handle_shows hs hw hrest a
  | nil =>
    simp only [step]
    split
    · exact ⟨[], h⟩
    · exact ⟨[], h.of_same (foldl_enqueue_same id _ _)⟩

/-- Any number of steps in virtual time are some happenings at the meeting. -/
theorem run_shows (hs : s.Lawful) (hw : Meeting.Sound n capacity w) (h : t.Shows s w)
    (fuel : Nat) : ∃ es : List (Happening ω), (run s fuel t).Shows s (es.foldl Meeting.step w) := by
  induction fuel generalizing t w with
  | zero => exact ⟨[], h⟩
  | succ fuel ih =>
    rw [run]
    split
    · exact ⟨[], h⟩
    · obtain ⟨es, hes⟩ := step_shows hs hw h
      obtain ⟨es', hes'⟩ := ih (hw.foldl_step es) hes
      refine ⟨es ++ es', ?_⟩
      rw [List.foldl_append]
      exact hes'

/-- A run that starts at a wired node without sessions is a meeting at this node. -/
theorem run_start_shows (hs : s.Lawful) {e : E} (hwired : (s.node e).Wired)
    (hsessions : (s.node e).sessions = 0) (hgate : (s.node e).gate = Gate.ofCapacity capacity)
    (standing : Standing) (sessions : List Start) (fuel : Nat) :
    ∃ es : List (Happening ω),
      (run s fuel (start e standing sessions)).Shows s (Meeting.run (s.node e) es) := by
  let comings : List (Happening ω) := (sessions.map Start.peer).map .comeUp
  have hstart : (start e standing sessions).Shows s (Meeting.run (s.node e) comings) := by
    rw [Meeting.run, Meeting.foldl_comeUp]
    constructor
    · rfl
    · intro i
      show (sessions.map _)[i]?.map _ = (((sessions.map _).map _))[i]?.map _
      rw [List.getElem?_map, List.getElem?_map, List.getElem?_map, Option.map_map, Option.map_map,
        Option.map_map]
      rfl
    · intro i k hk
      obtain ⟨x, -, rfl⟩ := List.mem_map.mp (List.mem_of_getElem? hk)
      refine ⟨nofun, fun _ hknown => ?_⟩
      change (s.node e).gate.Knows i at hknown
      rw [hgate] at hknown
      rcases hknown with hknown | hknown <;> cases hknown
  obtain ⟨es, hes⟩ := run_shows hs (Meeting.sound_run hwired hsessions hgate comings) hstart fuel
  refine ⟨comings ++ es, ?_⟩
  rw [Meeting.run, List.foldl_append]
  exact hes

/-- By a run that starts at a wired node without sessions the node grows by some blocks, and once
all sessions have ended, none is counted and every permit is free. -/
theorem run_start_settled (hs : s.Lawful) {e : E} (hwired : (s.node e).Wired)
    (hsessions : (s.node e).sessions = 0) (hgate : (s.node e).gate = Gate.ofCapacity capacity)
    (standing : Standing) (sessions : List Start) (fuel : Nat) :
    let t := run s fuel (start e standing sessions)
    (∃ blocks, (s.node e).Grows blocks (s.node t.surroundings)) ∧
    (t.tasks.all (Stage.isEnded ·.stage) = true →
      (s.node t.surroundings).sessions = 0 ∧ (s.node t.surroundings).gate.free = capacity) := by
  intro t
  obtain ⟨es, hes⟩ := run_start_shows hs hwired hsessions hgate standing sessions fuel
  have hsound := Meeting.sound_run hwired hsessions hgate es
  rw [hes.node]
  refine ⟨⟨_, hsound.grows⟩, fun hall => hsound.settled fun p hp => ?_⟩
  obtain ⟨i, hi⟩ := List.getElem?_of_mem hp
  have hface := hes.tasks i
  rw [hi] at hface
  obtain ⟨k, hk, hsame⟩ := Option.map_eq_some_iff.mp hface
  have hended := List.all_eq_true.mp hall k (List.mem_of_getElem? hk)
  rw [show p.stage = k.stage from (congrArg Prod.snd hsame).symm]
  cases hstage : k.stage with
  | ended r => rfl
  | atGate | askingTip | askingHeaders floor | askingBody wanted hash rest added =>
    rw [hstage] at hended
    cases hended

end Timeline

end PowLedger
