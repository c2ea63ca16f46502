import Mathlib.Tactic.Common
import Mathlib.Tactic.Lemma
import PowLedger.Network.Sync
import PowLedger.Proofs.Node.Admission

/-!
# Announced headers

An announced header is judged at the tip of the moment, and the peer is asked for the block behind
its hash. Anything may happen to the node before the peer replies, and what it then serves is
compared with the announcement by its hash alone, and with the tip that there is by then.

The hash does not tell where the previous hash ends and the root begins. But it does tell the
height, and both tips are as high as it says: so no block has been taken meanwhile, the tips are
one, and the previous hash is that of this tip in both headers (`Node.header_eq_of_hash_eq`). The
main result is `Node.announced_header_exact`. It is about `Node.hearAmid`, an announcement amid
other acts; a local network follows this course with nothing in between
(`LocalNetwork.hearHeader_eq_ok`).
-/

namespace PowLedger

namespace Node

variable {σ ω : Type}

/-- A header is judged when it is announced: it is not known, and it passes at the tip. -/
lemma headerAnnounced_eq_some_iff {n : Node σ ω} {h : Header} {hash : String} :
    n.headerAnnounced h = .ok (some hash) ↔
      h.hash n.digest = hash ∧ n.header? hash = none ∧ n.judge.checkHeader h n.tip = .ok () := by
  rw [headerAnnounced]
  split
  · next hknown =>
    simp only [Except.ok.injEq, reduceCtorEq, false_iff]
    rintro ⟨rfl, hnew, -⟩
    rw [hnew] at hknown
    cases hknown
  · next hnew =>
    rw [Option.not_isSome_iff_eq_none] at hnew
    cases n.judge.checkHeader h n.tip with
    | error f => simp
    | ok _ =>
      simp only [Except.ok.injEq, Option.some.injEq]
      constructor
      · rintro rfl
        exact ⟨rfl, hnew, trivial⟩
      · exact fun hasked => hasked.1

variable [Storage σ] [Observer ω]

/-! ### Announcements amid other acts -/

/-- A peer announces a header. If the block behind it is asked for, other acts come `meanwhile`, and
then the peer replies. -/
def hearAmid (n : Node σ ω) (peer : String) (h : Header) (meanwhile : List (Act ω))
    (reply : Except Fault Block) : Node σ ω × Except Fault Bool :=
  match n.headerAnnounced h with
  | .error f => (n, .error f)
  | .ok none => (n, .ok false)
  | .ok (some hash) => (n.run meanwhile).node.announcedBody peer hash reply

/-- The node just before the last step of an announcement: as it was if nothing is asked for, and
else as the other acts have left it. -/
def amid (n : Node σ ω) (h : Header) (meanwhile : List (Act ω)) : Node σ ω :=
  match n.headerAnnounced h with
  | .ok (some _) => (n.run meanwhile).node
  | _ => n

variable {n : Node σ ω} {h : Header} {hash : String}

lemma hearAmid_of_asked (hasked : n.headerAnnounced h = .ok (some hash)) (peer : String)
    (meanwhile : List (Act ω)) (reply : Except Fault Block) :
    n.hearAmid peer h meanwhile reply = (n.amid h meanwhile).announcedBody peer hash reply := by
  simp only [hearAmid, amid, hasked]

lemma amid_of_asked (hasked : n.headerAnnounced h = .ok (some hash)) (meanwhile : List (Act ω)) :
    n.amid h meanwhile = (n.run meanwhile).node := by
  simp only [amid, hasked]

/-- An announcement adds nothing, or the block behind it is asked for, the peer serves one of this
hash, and the node takes it. -/
lemma hearAmid_cases (n : Node σ ω) (peer : String) (h : Header) (meanwhile : List (Act ω))
    (reply : Except Fault Block) :
    ((n.hearAmid peer h meanwhile reply).2 ≠ .ok true ∧
      (n.hearAmid peer h meanwhile reply).1 = n.amid h meanwhile) ∨
    ∃ b, n.headerAnnounced h = .ok (some b.hash) ∧ reply = .ok b ∧
      ((n.amid h meanwhile).addBlock b).2 = .ok () ∧
      n.hearAmid peer h meanwhile reply = (((n.amid h meanwhile).addBlock b).1, .ok true) := by
  rcases hannounced : n.headerAnnounced h with f | _ | hash
  · simp [hearAmid, amid, hannounced]
  · simp [hearAmid, amid, hannounced]
  · rw [hearAmid_of_asked hannounced]
    rcases (n.amid h meanwhile).announcedBody_cases peer hash reply with
      ⟨f, hrefused⟩ | ⟨b, hserved, rfl, hok, htaken⟩
    · exact .inl (by simp [hrefused])
    · exact .inr ⟨b, rfl, hserved, hok, htaken⟩

/-- If a header passes at a tip, and a block of its hash is taken after the node has grown, then the
node has not grown, and the header is that of the block. -/
lemma header_eq_of_hash_eq {later : Node σ ω} {taken : List Block} {b : Block}
    (hgrows : n.Grows taken later) (hpasses : n.judge.checkHeader h n.tip = .ok ())
    (hok : (later.addBlock b).2 = .ok ()) (hhash : b.hash = h.hash n.digest)
    (hfree : CollisionFree n.digest [h.assemble, b.header.assemble]) :
    taken = [] ∧ b.header = h := by
  obtain ⟨-, ⟨fees, hfees⟩, -⟩ := addBlock_eq_ok_iff.mp hok
  obtain ⟨coinbase, others, hvalid, -⟩ := Judge.checkBlock_eq_ok_iff.mp hfees
  obtain ⟨hprevious, hheight, -, -⟩ := Judge.checkHeader_eq_ok_iff.mp hpasses
  have hagrees : h.Agrees b.header := by
    have hown : b.hash = b.header.hash n.digest := by
      have hdeclared := hvalid.hash
      rwa [hgrows.judge] at hdeclared
    have hdigest : n.digest h.assemble = n.digest b.header.assemble :=
      Bytes.hex_injective (hhash.symm.trans hown)
    exact Header.assemble_eq_iff_agrees.mp (hfree _ (by simp) _ (by simp) hdigest)
  have hnone : taken = [] := by
    have hsame : n.height + taken.length = n.height := by
      calc
        n.height + taken.length = later.height := hgrows.height.symm
        _ = b.height := hvalid.height.symm
        _ = h.height.toNat := congrArg UInt64.toNat hagrees.height.symm
        _ = n.height := hheight
    exact List.length_eq_zero_iff.mp (by omega)
  subst hnone
  have htip : later.tip = n.tip := hgrows.tip
  refine ⟨rfl, (hagrees.eq_of_previous ?_).symm⟩
  rw [hprevious, hvalid.previous, htip]

/-- An announcement by which a block is taken admits the very header that was announced. Take any
node, any announced header, any acts that come before the peer replies, and any reply. If the
announcement ends with `true`, then the peer has served a block that has this header, field by
field, and its hash, the node has this block on top, and it has taken no other block since the
announcement. If the block that was asked for is served and the node takes it, then the announcement
ends with `true`. In all other cases it adds nothing. -/
theorem announced_header_exact (hwired : n.Wired) (peer : String) (h : Header)
    (meanwhile : List (Act ω)) (reply : Except Fault Block)
    (hfree : ∀ b, reply = .ok b → CollisionFree n.digest [h.assemble, b.header.assemble]) :
    let heard := n.hearAmid peer h meanwhile reply
    let later := n.amid h meanwhile
    (heard.2 = .ok true → ∃ b, reply = .ok b ∧ b.header = h ∧ b.hash = h.hash n.digest ∧
      (n.run meanwhile).blocks = [] ∧ later.Took heard.1 b) ∧
    (∀ b, n.headerAnnounced h = .ok (some b.hash) → reply = .ok b →
      (later.addBlock b).2 = .ok () → heard.2 = .ok true) ∧
    (heard.2 ≠ .ok true → heard.1 = later) := by
  intro heard later
  refine ⟨fun htrue => ?_, fun b hasked hserved hok => ?_, fun hrefused => ?_⟩
  · rcases n.hearAmid_cases peer h meanwhile reply with
      ⟨hrefused, -⟩ | ⟨b, hasked, hserved, hok, htaken⟩
    · exact absurd htrue hrefused
    have hlater : later = (n.run meanwhile).node := amid_of_asked hasked meanwhile
    have hgrows : n.Grows (n.run meanwhile).blocks later := by
      rw [hlater]
      exact run_grows hwired meanwhile
    obtain ⟨hhash, -, hpasses⟩ := headerAnnounced_eq_some_iff.mp hasked
    obtain ⟨hquiet, hheader⟩ := header_eq_of_hash_eq hgrows hpasses hok hhash.symm (hfree b hserved)
    have htook : later.Took (later.addBlock b).1 b := took_of_addBlock hgrows.wired hok
    have hheard : heard = ((later.addBlock b).1, .ok true) := htaken
    exact ⟨b, hserved, hheader, hhash.symm, hquiet, hheard ▸ htook⟩
  · have htaken : heard = ((later.addBlock b).1, .ok true) := by
      subst hserved
      exact (hearAmid_of_asked hasked peer meanwhile _).trans (announcedBody_of_addBlock hok peer)
    exact congrArg Prod.snd htaken
  · rcases n.hearAmid_cases peer h meanwhile reply with ⟨-, hsame⟩ | ⟨b, -, -, -, htaken⟩
    · exact hsame
    · exact absurd (congrArg Prod.snd htaken) hrefused

open Sample in
/-- The sample node hears of the first block and takes it from the peer, although the second block
comes too early meanwhile and an observer panics. If the first block comes from elsewhere before the
peer replies, the announcement adds nothing. -/
theorem announced_header_exact_of_first :
    let meanwhile := [.subscribe .blocks ⟨"watcher", .panic⟩, .block second]
    (∃ b, b.header = first.header ∧ (Sample.node.run meanwhile).node.Took
      (Sample.node.hearAmid "peer" first.header meanwhile (.ok first)).1 b) ∧
    (Sample.node.hearAmid "peer" first.header [.block first] (.ok first)).1 =
      (Sample.node.addBlock first).1 := by
  intro meanwhile
  have hwired : Sample.node.Wired := wired_of_open? open?_node
  have hfree : ∀ b, Except.ok first = (.ok b : Except Fault Block) →
      CollisionFree Sample.node.digest [first.header.assemble, b.header.assemble] := by
    rintro b ⟨⟩ x hx y hy -
    simp only [List.mem_cons, List.not_mem_nil, or_false, or_self] at hx hy
    rw [hx, hy]
  obtain ⟨hasked, htrue, hfalse⟩ :
      Sample.node.headerAnnounced first.header = .ok (some first.hash) ∧
      (Sample.node.hearAmid "peer" first.header meanwhile (.ok first)).2 = .ok true ∧
      (Sample.node.hearAmid "peer" first.header [.block first] (.ok first)).2 ≠ .ok true := by
    decide +kernel
  obtain ⟨htaken, -, -⟩ :=
    announced_header_exact hwired "peer" first.header meanwhile (.ok first) hfree
  obtain ⟨-, -, hsame⟩ :=
    announced_header_exact hwired "peer" first.header [.block first] (.ok first) hfree
  obtain ⟨b, -, hheader, -, -, htook⟩ := htaken htrue
  refine ⟨⟨b, hheader, ?_⟩, (hsame hfalse).trans (amid_of_asked hasked _)⟩
  rwa [amid_of_asked hasked] at htook

end Node

/-! ### Local networks -/

namespace LocalNetwork

variable {w w' : LocalNetwork} {name peer : String} {h : Header} {n : LocalNode}

/-- Asking a peer changes no node. -/
lemma node_ask (w : LocalNetwork) (status : Status) (peer : String) (r : Request) (name : String) :
    (w.ask status peer r).1.node name = w.node name := by
  rw [ask]
  split
  · rfl
  · split <;> rfl
  · rfl

/-- What a visit makes of the node under a name goes back to the node's place. -/
lemma eq_putNode_of_visit {α : Type} {f : LocalNode → LocalNode × α} {a : α}
    (hnode : w.node name = .ok n) (hvisit : w.visit name f = .ok (w', a)) :
    ∃ place, w' = w.putNode place (f n).1 ∧ a = (f n).2 := by
  rw [node] at hnode
  rw [visit] at hvisit
  cases hplace : w.places.get? name with
  | none => simp [hplace] at hnode
  | some place =>
    cases hat : w.nodeAt? place with
    | none => simp [hplace, hat] at hnode
    | some m =>
      obtain rfl : m = n := by simpa [hplace, hat] using hnode
      obtain ⟨rfl, rfl⟩ : w.putNode place (f m).1 = w' ∧ (f m).2 = a := by
        simpa [hplace, visitAt, hat] using hvisit
      exact ⟨place, rfl, rfl⟩

/-- In a local network an announcement takes its course with nothing in between: if nothing is asked
for then nothing changes, and else a peer is asked, which changes no node, and the node goes back to
its place. -/
theorem hearHeader_eq_ok {r : Except Fault Bool} (hheard : w.hearHeader name peer h = .ok (w', r)) :
    ∃ n reply, w.node name = .ok n ∧ r = (n.hearAmid peer h [] reply).2 ∧
      ((w' = w ∧ (n.hearAmid peer h [] reply).1 = n) ∨
        ∃ (asked : LocalNetwork) (place : Nat), (∀ other, asked.node other = w.node other) ∧
          w' = asked.putNode place (n.hearAmid peer h [] reply).1) := by
  simp only [hearHeader, bind_eq_ok_iff] at hheard
  obtain ⟨n, hnode, -, -, hheard⟩ := hheard
  rcases hannounced : n.headerAnnounced h with f | _ | hash
  · have hheld : n.hearAmid peer h [] (.error f) = (n, .error f) := by
      rw [Node.hearAmid, hannounced]
    rw [hannounced] at hheard
    cases hheard
    exact ⟨n, .error f, hnode, by rw [hheld], .inl ⟨rfl, by rw [hheld]⟩⟩
  · have hheld : ∀ reply, n.hearAmid peer h [] reply = (n, .ok false) := by
      intro reply
      rw [Node.hearAmid, hannounced]
    rw [hannounced] at hheard
    cases hheard
    exact ⟨n, .error (.notFound (.block "")), hnode, by rw [hheld], .inl ⟨rfl, by rw [hheld]⟩⟩
  · have hheld : ∀ reply, n.hearAmid peer h [] reply = n.announcedBody peer hash reply := by
      intro reply
      rw [Node.hearAmid_of_asked hannounced, Node.amid_of_asked hannounced]
      rfl
    rw [hannounced] at hheard
    have hasked : (w.ask n.status peer (.block hash)).1.node name = .ok n :=
      (w.node_ask n.status peer (.block hash) name).trans hnode
    obtain ⟨place, hw', hr⟩ := eq_putNode_of_visit hasked hheard
    rw [← hheld] at hw' hr
    exact ⟨n, _, hnode, hr, .inr ⟨_, place, w.node_ask n.status peer (.block hash), hw'⟩⟩

end LocalNetwork

end PowLedger
