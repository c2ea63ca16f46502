import PowLedger.Sync.Session

/-!
# Sessions in virtual time

Several sessions of one node run on a clock that moves only when none of them can go on. A session
waits for a permit of the gate until its deadline, and for an answer until its limit; it can be
called off at any time. A waiting session looks first whether it has been called off, then whether
what it waits for has come, then whether its time is up. It sets its timers when it begins to wait
and takes them back when it is done waiting, so nothing wakes a session but what it waits for.

What happens is worked off in order. Of the things due at one moment, a run in the background takes
first what was set first, call-offs having been set at the start. A session in the foreground goes
before the call-offs of the same moment.

The surroundings of the run are given by three functions: to see the node, to put a new state of it
back, and to ask a peer, which may change the surroundings and may call the session off.
-/

namespace PowLedger

/-- A reply that comes after a delay; asking for it may call the session off. -/
structure PeerAnswer where
  delay : Nat
  reply : Reply
  callsOff : Bool

/-- What a run of sessions takes place in. -/
structure Surroundings (E σ ω : Type) where
  node : E → Node σ ω
  setNode : E → Node σ ω → E
  ask : E → (peer : String) → Request → E × PeerAnswer

/-- What a session waits for. -/
inductive Wait where
  /-- It has not come to the gate yet. -/
  | fresh
  /-- A permit, until the deadline. -/
  | permit (deadline : Nat)
  /-- The reply to a request that comes at `ready`, until the limit. -/
  | answer (ready limit : Nat) (request : Request) (reply : Reply)
  /-- Nothing: the reply is there. -/
  | settled (reply : Reply)

/-- A session of a run. -/
structure Task where
  peer : String
  stage : Stage
  wait : Wait
  calledOff : Bool

/-- What a timer does when its moment comes. -/
inductive Alarm where
  /-- Calls a session off. -/
  | callOff (session : Nat)
  /-- Lets a session look around. -/
  | wake (session : Nat)
  deriving DecidableEq

/-- Whether an alarm lets a session look around. -/
def Alarm.isWake : Alarm → Bool
  | .wake _ => true
  | .callOff _ => false

/-- How sessions stand to all else that is due at the same moment. -/
inductive Standing where
  /-- The sessions go first. -/
  | foreground
  /-- What was set first goes first. -/
  | background
  deriving DecidableEq

/-- The order in which alarms of one moment go off, given the order in which they were set. -/
def Standing.arrange : Standing → List Alarm → List Alarm
  | .foreground, as => as.filter Alarm.isWake ++ as.filter (!·.isWake)
  | .background, as => as

/-- The state of a run of sessions. -/
structure Timeline (E : Type) where
  surroundings : E
  standing : Standing
  now : Nat
  /-- What is to be worked off now, in order. -/
  agenda : List Alarm
  /-- What is due later, in the order of setting. -/
  timers : List (Nat × Alarm)
  tasks : List Task

namespace Timeline

variable {E σ ω : Type}

/-- Changes one session. -/
def update (t : Timeline E) (i : Nat) (f : Task → Task) : Timeline E :=
  { t with tasks := t.tasks.modify i f }

/-- Puts an alarm at the end of the agenda unless it is there. -/
def enqueue (t : Timeline E) (a : Alarm) : Timeline E :=
  if t.agenda.contains a then t else { t with agenda := t.agenda ++ [a] }

/-- Lets a session go on before anything else. -/
def continueWith (t : Timeline E) (i : Nat) : Timeline E :=
  { t with agenda := .wake i :: t.agenda.filter (· != .wake i) }

/-- Sets a timer. -/
def setTimer (t : Timeline E) (due : Nat) (a : Alarm) : Timeline E :=
  { t with timers := t.timers ++ [(due, a)] }

/-- Takes back the timers that a session has set for itself. -/
def clearTimers (t : Timeline E) (i : Nat) : Timeline E :=
  { t with timers := t.timers.filter fun timer => timer.2 != .wake i }

variable [Storage σ] [Observer ω]

/-- Changes the gate of the node and wakes the tickets that have got a permit by it. -/
def changeGate (s : Surroundings E σ ω) (t : Timeline E) (f : Gate → Gate) : Timeline E :=
  let n := s.node t.surroundings
  let gate := f n.gate
  let lucky := gate.held.filter fun i => !n.gate.holds i
  let t := { t with surroundings := s.setNode t.surroundings { n with gate := gate } }
  lucky.foldl (fun t i => t.enqueue (.wake i)) t

/-- Puts a question for a session that has come to a new stage, or ends it. -/
def proceed (s : Surroundings E σ ω) (t : Timeline E) (i : Nat) (task : Task)
    (n : Node σ ω) (stage : Stage) : Timeline E :=
  let t := { t with surroundings := s.setNode t.surroundings n }
  match Session.request stage with
  | none =>
    changeGate s (t.update i fun task => { task with stage := stage }) (·.leave i)
  | some request =>
    if task.calledOff then
      let reply := Reply.failure (.cancelled (.request task.peer request.what)) request
      (t.update i fun task => { task with stage := stage, wait := .settled reply }).continueWith i
    else
      let (e, answer) := s.ask t.surroundings task.peer request
      let limit := t.now + n.limits.peerTimeout.toNat
      let ready := t.now + answer.delay
      let reply := answer.reply.locate task.peer
      let calledOff := task.calledOff || answer.callsOff
      let t := { t with surroundings := e }
      let settle (reply : Reply) : Timeline E :=
        let settled (task : Task) : Task :=
          { task with stage := stage, wait := .settled reply, calledOff := calledOff }
        (t.update i settled).continueWith i
      if answer.delay = 0 then settle reply
      else if limit ≤ t.now then
        settle (Reply.failure (.timeout (.request task.peer request.what 0)) request)
      else
        let t := t.update i fun task =>
          { task with stage := stage, wait := .answer ready limit request reply
                      calledOff := calledOff }
        let t := (t.setTimer ready (.wake i)).setTimer limit (.wake i)
        if answer.callsOff then t.enqueue (.wake i) else t

/-- Lets a session that has got a permit begin. -/
def letIn (s : Surroundings E σ ω) (t : Timeline E) (i : Nat) (task : Task) (n : Node σ ω) :
    Timeline E :=
  let (n, stage) := Session.enter n
  proceed s t i task n stage

/-- Ends a session with a fault. -/
def fail (t : Timeline E) (i : Nat) (f : Fault) : Timeline E :=
  t.update i fun task => { task with stage := .ended (.error f) }

/-- A session comes to the gate. -/
def arrive (s : Surroundings E σ ω) (t : Timeline E) (i : Nat) (task : Task) : Timeline E :=
  let n := s.node t.surroundings
  let patience := n.limits.gateDeadline.toNat
  let asked := { n with gate := n.gate.ask i }
  if task.calledOff then t.fail i (.cancelled .gate)
  else if asked.gate.holds i then letIn s t i task asked
  else if patience = 0 then t.fail i (.timeout (.gate 0))
  else
    let deadline := t.now + patience
    let t := { t with surroundings := s.setNode t.surroundings asked }
    let t := t.update i fun task => { task with wait := .permit deadline }
    t.setTimer deadline (.wake i)

/-- Ends a session that waits at the gate. -/
def turnAway (s : Surroundings E σ ω) (t : Timeline E) (i : Nat) (f : Fault) : Timeline E :=
  changeGate s ((t.clearTimers i).fail i f) (·.leave i)

/-- Ends the wait of a session for an answer: it has the reply. -/
def settle (t : Timeline E) (i : Nat) (reply : Reply) : Timeline E :=
  ((t.clearTimers i).update i fun task => { task with wait := .settled reply }).continueWith i

/-- Lets a session look at what it waits for. -/
def look (s : Surroundings E σ ω) (t : Timeline E) (i : Nat) (task : Task) : Timeline E :=
  let n := s.node t.surroundings
  match task.stage, task.wait with
  | .ended _, _ => t
  | _, .fresh => arrive s t i task
  | _, .permit deadline =>
    if task.calledOff then turnAway s t i (.cancelled .gate)
    else if n.gate.holds i then letIn s (t.clearTimers i) i task n
    else if deadline ≤ t.now then
      turnAway s t i (.timeout (.gate n.limits.gateDeadline.toNat))
    else t
  | _, .answer ready limit request reply =>
    if task.calledOff then
      t.settle i (Reply.failure (.cancelled (.request task.peer request.what)) request)
    else if ready ≤ t.now then t.settle i reply
    else if limit ≤ t.now then
      let expiry := Expiry.request task.peer request.what n.limits.peerTimeout.toNat
      t.settle i (Reply.failure (.timeout expiry) request)
    else t
  | stage, .settled reply =>
    let (n, stage) := Session.onReply task.peer task.calledOff n stage reply
    proceed s t i task n stage

/-- Works off one alarm. -/
def handle (s : Surroundings E σ ω) (t : Timeline E) : Alarm → Timeline E
  | .callOff i => (t.update i fun task => { task with calledOff := true }).enqueue (.wake i)
  | .wake i =>
    match t.tasks[i]? with
    | none => t
    | some task => look s t i task

/-- The earliest of the moments that timers are set for. -/
def nextDue (timers : List (Nat × Alarm)) : Option Nat :=
  (timers.map Prod.fst).min?

/-- One step: the first point of the agenda, or the timers of the next moment. Nothing happens once
both are empty. -/
def step (s : Surroundings E σ ω) (t : Timeline E) : Timeline E :=
  match t.agenda with
  | a :: rest => handle s { t with agenda := rest } a
  | [] =>
    match nextDue t.timers with
    | none => t
    | some due =>
      let (present, later) := t.timers.partition fun timer => timer.1 ≤ due
      (t.standing.arrange (present.map Prod.snd)).foldl enqueue
        { t with now := max t.now due, timers := later }

/-- Whether a session has ended. -/
def Stage.isEnded : Stage → Bool
  | .ended _ => true
  | _ => false

/-- Goes on until all sessions have ended, for at most `fuel` steps. -/
def run (s : Surroundings E σ ω) : (fuel : Nat) → Timeline E → Timeline E
  | 0, t => t
  | fuel + 1, t => if t.tasks.all (Stage.isEnded ·.stage) then t else run s fuel (step s t)

/-- A session to be started: its peer, whether it has been called off before, and when it will
be. -/
structure Start where
  peer : String
  calledOff : Bool
  callOffAt : Option Nat

/-- What happens at the start: every session comes to the gate, unless it is called off at once. -/
def firstAlarms (sessions : List Start) : List Alarm :=
  sessions.zipIdx.flatMap fun (s, i) =>
    if s.callOffAt = some 0 then [.callOff i, .wake i] else [.wake i]

/-- The timers of the call-offs to come. -/
def callOffTimers (sessions : List Start) : List (Nat × Alarm) :=
  sessions.zipIdx.filterMap fun (s, i) =>
    (s.callOffAt.filter (0 < ·)).map fun due => (due, .callOff i)

/-- A run in which the given sessions start in order. -/
def start (e : E) (standing : Standing) (sessions : List Start) : Timeline E where
  surroundings := e
  standing := standing
  now := 0
  agenda := standing.arrange (firstAlarms sessions)
  timers := callOffTimers sessions
  tasks := sessions.map fun s => ⟨s.peer, .atGate, .fresh, s.calledOff⟩

/-- How the sessions of a run ended, in order. -/
def results (t : Timeline E) : List (Option (Except Fault Nat)) :=
  t.tasks.map fun task =>
    match task.stage with
    | .ended r => some r
    | _ => none

end Timeline

end PowLedger
