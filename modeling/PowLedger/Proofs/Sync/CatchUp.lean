import Mathlib.Tactic.Common
import Mathlib.Tactic.Lemma
import PowLedger.Proofs.Node.Admission
import PowLedger.Proofs.Node.Archive
import PowLedger.Proofs.Node.Linkage
import PowLedger.Proofs.Sync.Exchange

/-!
# Catching up with a chain

What a session comes to depends on the chain its peer has, `Answers.Offers`, and on the place in it
that the node has reached. If the chain is no longer than that of the node, there is nothing to
fetch. Otherwise the headers from the height of the node on are gone through in order, and the first
of them must attach at the tip. If the node has the blocks below it, it takes all the others: the
judge has accepted each of them at the tip and over the outputs that the node has by then
(`Session.next_fetches`).
-/

namespace PowLedger

/-- The peer has a chain with all its bodies. -/
structure Answers.Offers (a : Answers) (chain : List Block) : Prop where
  none : chain = [] → a.lastHeader = .error (.notFound .tipHeader)
  last : ∀ b, chain.getLast? = some b → a.lastHeader = .ok b.header
  headers : a.headers = .ok (chain.map Block.header)
  block : ∀ b ∈ chain, a.block b.hash = .ok b

/-! ### What a node answers -/

namespace Node

variable {σ ω : Type} {n : Node σ ω} {chain : List Block}

/-- The headers by height are those of the chain. -/
lemma Holds.headerList (h : n.Holds chain) (hdistinct : Ledger.Distinct n.judge chain) :
    n.headerList = chain.map Block.header := by
  have hnodup : ((chain.map Block.header).map (Header.hash n.digest)).Nodup := by
    have hhashes := h.accepted.nodup_hashes hdistinct
    have hsame : chain.map Block.hash = (chain.map Block.header).map (Header.hash n.digest) := by
      rw [List.map_map]
      exact List.map_congr_left fun b hb => (h.accepted.hash_eq hb).symm
    rwa [hsame] at hhashes
  exact headerList_eq h.accepted.linked (h.headers.trans h.accepted.headers_eq) hnodup

/-- The header of a block of the chain is found under its hash. -/
lemma Holds.header? (h : n.Holds chain) (hdistinct : Ledger.Distinct n.judge chain) {b : Block}
    (hb : b ∈ chain) : n.header? b.hash = some b.header := by
  rw [Node.header?, h.headers,
    Ledger.get?_headers_eq_some_iff (h.accepted.nodup_hashes hdistinct)]
  exact ⟨b, hb, rfl, rfl⟩

end Node

/-- A node over a store with all bodies of its chain offers this chain. -/
lemma Answers.offers_ofNode {σ ω : Type} [Storage σ] {n : Node σ ω} {chain : List Block}
    (h : n.Holds chain) (hdistinct : Ledger.Distinct n.judge chain)
    (hbodies : ∀ b ∈ chain, Storage.block n.store b.hash = .ok b) : (ofNode n).Offers chain where
  none := by
    rintro rfl
    have htip : n.tipHash = "" := h.tipHash
    simp only [ofNode, Node.lastHeader, Node.lastBlockHash, htip, if_true]
  last := by
    intro b hb
    obtain ⟨front, rfl⟩ := List.getLast?_eq_some_iff.mp hb
    have htip : n.tipHash = b.hash := by rw [h.tipHash, Ledger.tip_append]
    have hne : n.tipHash ≠ "" := by
      rw [h.tipHash]
      exact h.accepted.tip_hash_ne_empty hdistinct.sized (by simp)
    simp only [ofNode, Node.lastHeader, Node.lastBlockHash, hne, if_false]
    rw [htip, h.header? hdistinct (by simp)]
  headers := congrArg Except.ok (h.headerList hdistinct)
  block := by
    intro b hb
    show n.block b.hash = _
    rw [Node.block, h.header? hdistinct hb]
    exact hbodies b hb

/-! ### The start of a session -/

/-- The last header of an accepted chain has the height of its place. -/
lemma Ledger.Accepted.height_last {j : Judge} {front : List Block} {b : Block}
    (h : Ledger.Accepted j (front ++ [b])) : b.header.height.toNat = front.length := by
  obtain ⟨coinbase, others, hvalid⟩ := h.valid
  exact hvalid.height

namespace Session

variable {σ ω : Type} {peer : String} {a : Answers} {chain : List Block} {j : Judge}
  {n m : Node σ ω} {k : Nat} {r : Except Fault Nat}

/-- A first header that does not attach at the tip ends the session. -/
lemma next_of_mismatch {x : Header} {rest : List Header} (h : x.previous ≠ n.tipHash)
    (added : Nat) : next peer false n added (x :: rest) =
      finish n (.error (.validation (.prevHashMismatch n.tipHash x.previous))) := by
  have hcheck : n.judge.checkHeader x n.tip =
      .error (.validation (.prevHashMismatch n.tipHash x.previous)) := if_pos h
  simp only [next, hcheck, Bool.false_eq_true, if_false]

/-- A header of an accepted chain attaches at the tip of those before it. -/
lemma next_of_accepted {front rest : List Block} {b : Block} (h : n.Holds front)
    (haccepted : Ledger.Accepted n.judge (front ++ b :: rest)) (added : Nat) :
    next peer false n added ((b :: rest).map Block.header) =
      (n, .askingBody b.header b.hash (rest.map Block.header) added) := by
  obtain ⟨coinbase, others, hvalid⟩ := haccepted.valid
  have hcheck : n.judge.checkHeader b.header n.tip = .ok () := by
    rw [h.tip]
    exact Judge.checkHeader_eq_ok_iff.mpr
      ⟨hvalid.previous, hvalid.height, hvalid.target, hvalid.work⟩
  have hhash : b.header.hash n.digest = b.hash := hvalid.hash.symm
  simp only [List.map_cons, next, hcheck, hhash, Bool.false_eq_true, if_false]

variable [Storage σ] [Observer ω] (peer)

/-- There is nothing to fetch from a peer whose chain is no longer. -/
lemma ends_of_le (h : a.Offers chain) (haccepted : Ledger.Accepted j chain)
    (hle : chain.length ≤ n.height) : Ends peer a (n, .askingTip) 1 n.leaveSync (.ok 0) := by
  have htip : onReply peer false n .askingTip ((a.reply .lastHeader).locate peer) =
      finish n (.ok 0) := by
    show onTip n (Answer.locate peer _ a.lastHeader) = _
    rcases List.eq_nil_or_concat' chain with rfl | ⟨front, b, rfl⟩
    · rw [h.none rfl]
      rfl
    · rw [List.length_append, List.length_singleton] at hle
      rw [h.last b List.getLast?_concat]
      show onTip n (.ok b.header) = _
      rw [onTip, if_pos (by rw [haccepted.height_last]; omega)]
  refine .reply rfl ?_
  rw [htip]
  exact .finished

/-- From a peer whose chain is longer the headers are asked for, and those from the height of the
node on are gone through. -/
lemma ends_of_lt (h : a.Offers chain) (haccepted : Ledger.Accepted j chain)
    (hlt : n.height < chain.length)
    (hrest : Ends peer a (next peer false n 0 ((chain.drop n.height).map Block.header)) k m r) :
    Ends peer a (n, .askingTip) (k + 2) m r := by
  have htip : onReply peer false n .askingTip ((a.reply .lastHeader).locate peer) =
      (n, .askingHeaders n.height) := by
    show onTip n (Answer.locate peer _ a.lastHeader) = _
    rcases List.eq_nil_or_concat' chain with rfl | ⟨front, b, rfl⟩
    · simp at hlt
    · rw [List.length_append, List.length_singleton] at hlt
      rw [h.last b List.getLast?_concat]
      show onTip n (.ok b.header) = _
      rw [onTip, if_neg (by rw [haccepted.height_last]; omega)]
  have hheaders : onReply peer false n (.askingHeaders n.height)
      ((a.reply .headers).locate peer) =
      next peer false n 0 ((chain.drop n.height).map Block.header) := by
    show onHeaders peer false n.height n (Answer.locate peer _ a.headers) = _
    rw [h.headers]
    show next peer false n 0 (fetchOrder n.height (chain.map Block.header)) = _
    rw [fetchOrder, haccepted.linked.mergeSort_eq, haccepted.linked.filter_height, List.map_drop]
  refine .reply rfl ?_
  rw [htip]
  refine .reply rfl ?_
  rw [hheaders]
  exact hrest

/-- From a peer whose longer chain does not attach at the tip nothing is fetched. -/
lemma ends_of_mismatch (h : a.Offers chain) (haccepted : Ledger.Accepted j chain)
    (hlt : n.height < chain.length)
    (hne : (Ledger.tip (chain.take n.height)).hash ≠ n.tipHash) :
    Ends peer a (n, .askingTip) 2 n.leaveSync (.error (.validation
      (.prevHashMismatch n.tipHash (Ledger.tip (chain.take n.height)).hash))) := by
  have hdrop := List.drop_eq_getElem_cons hlt
  have hprevious : chain[n.height].header.previous = (Ledger.tip (chain.take n.height)).hash := by
    rw [← List.take_append_drop n.height chain, hdrop] at haccepted
    obtain ⟨coinbase, others, hvalid⟩ := haccepted.valid
    exact hvalid.previous
  rw [← hprevious] at hne ⊢
  refine ends_of_lt peer h haccepted hlt ?_
  rw [hdrop, List.map_cons, next_of_mismatch hne]
  exact .finished

end Session

/-! ### The bodies -/

namespace Node

variable {σ ω : Type} [Storage σ]

/-- The node admits blocks, and its store refuses neither headers nor bodies. -/
structure Able (n : Node (Faulty σ) ω) : Prop where
  admits : n.status.admits = true
  readable : n.store.Readable
  headers : n.store.faults .persistHeader = none
  bodies : n.store.faults .persistBlock = none

/-- The store of the node has the bodies of these blocks from a height on. -/
def HasBodies (n : Node σ ω) (floor : Nat) (blocks : List Block) : Prop :=
  ∀ b ∈ blocks, floor ≤ b.height → Storage.block n.store b.hash = .ok b

variable [Storage.Unfailing σ] [Observer ω] {n : Node (Faulty σ) ω} {front rest : List Block}

/-- A node that is able to takes the next block of an accepted chain, and keeps its body. -/
lemma Able.addBlock (hable : n.Able) (h : n.Holds front) {floor : Nat}
    (hkept : n.HasBodies floor front) {b : Block}
    (haccepted : Ledger.Accepted n.judge (front ++ [b]))
    (hdistinct : Ledger.Distinct n.judge (front ++ [b])) :
    (n.addBlock b).2 = .ok () ∧ (n.addBlock b).1.Able ∧ (n.addBlock b).1.Holds (front ++ [b]) ∧
      (n.addBlock b).1.HasBodies floor (front ++ [b]) ∧ (n.addBlock b).1.judge = n.judge := by
  obtain ⟨-, fees, hfees⟩ := haccepted.last
  rw [← h.tip, ← h.utxos] at hfees
  have hok : (n.addBlock b).2 = .ok () := by
    obtain ⟨inner, hinner⟩ :=
      Storage.Unfailing.persistHeader_ok n.store.store b.hash b.header
    refine addBlock_eq_ok_iff.mpr ⟨hable.admits, ⟨fees, hfees⟩, { n.store with store := inner }, ?_⟩
    show n.store.guarded .persistHeader (n.store.rewrap _) = _
    rw [hinner, Faulty.guarded_rewrap_of_ok hable.headers]
  have hmoves := addBlock_moves h.wired b
  rw [show (some b).filter (fun b => (n.addBlock b).2.isOk) = some b by
    simp [hok, Except.isOk, Except.toBool]] at hmoves
  obtain ⟨hholds, hjudge⟩ := hmoves.holds h
  obtain ⟨hfaults, hself, hothers⟩ :=
    hmoves.bodies hable.readable hable.bodies haccepted hdistinct
  refine ⟨hok, ⟨?_, ?_, ?_, ?_⟩, hholds, fun c hc hfloor => ?_, hjudge⟩
  · rw [(n.addBlock_standing b).1]
    exact hable.admits
  · exact hable.readable.of_faults_eq hfaults
  · rw [hfaults]
    exact hable.headers
  · rw [hfaults]
    exact hable.bodies
  · rcases List.mem_append.mp hc with hc | hc
    · rw [hothers c hc]
      exact hkept c hc hfloor
    · exact List.mem_singleton.mp hc ▸ hself

end Node

/-- A node that has the first blocks of an accepted chain fetches the others from a peer that serves
them: each is taken, and its body kept. -/
theorem Session.next_fetches {σ ω : Type} [Storage σ] [Storage.Unfailing σ] [Observer ω]
    (peer : String) {a : Answers} {n : Node (Faulty σ) ω} {front rest : List Block} {floor : Nat}
    (hable : n.Able) (h : n.Holds front) (hkept : n.HasBodies floor front)
    (haccepted : Ledger.Accepted n.judge (front ++ rest))
    (hdistinct : Ledger.Distinct n.judge (front ++ rest))
    (hserved : ∀ b ∈ rest, a.block b.hash = .ok b) (added : Nat) :
    ∃ m : Node (Faulty σ) ω,
      Ends peer a (next peer false n added (rest.map Block.header)) rest.length m.leaveSync
        (.ok (added + rest.length)) ∧
      m.Holds (front ++ rest) ∧ m.HasBodies floor (front ++ rest) ∧ m.judge = n.judge := by
  induction rest generalizing front n added with
  | nil =>
    rw [List.append_nil]
    exact ⟨n, .finished, h, hkept, rfl⟩
  | cons b rest ih =>
    have hsplit : front ++ b :: rest = front ++ [b] ++ rest := by simp
    have hfront : Ledger.Accepted n.judge (front ++ [b]) := (hsplit ▸ haccepted).front
    obtain ⟨hok, hable', hholds, hkept', hjudge⟩ := hable.addBlock h hkept hfront
      (hdistinct.mono (by simp))
    obtain ⟨m, hends, hm⟩ := ih hable' hholds hkept' (hjudge ▸ hsplit ▸ haccepted)
      (hjudge ▸ hsplit ▸ hdistinct) (fun c hc => hserved c (List.mem_cons_of_mem _ hc)) (added + 1)
    have hadd : n.addBlock b = ((n.addBlock b).1, .ok ()) := Prod.ext rfl hok
    have hbody : onReply peer false n (.askingBody b.header b.hash (rest.map Block.header) added)
        ((a.reply (.block b.hash)).locate peer) =
        next peer false (n.addBlock b).1 (added + 1) (rest.map Block.header) := by
      show onBody peer false b.header b.hash _ added n (Answer.locate peer _ (a.block b.hash)) = _
      rw [hserved b List.mem_cons_self]
      show onBody peer false b.header b.hash _ added n (.ok b) = _
      rw [onBody, if_neg (by simp), hadd]
    refine ⟨m, ?_, hsplit ▸ hm.1, hsplit ▸ hm.2.1, hm.2.2.trans hjudge⟩
    rw [next_of_accepted h haccepted, List.length_cons,
      show added + (rest.length + 1) = added + 1 + rest.length by omega]
    refine .reply rfl ?_
    rw [hbody]
    exact hends

/-- A node that has the first blocks of the longer chain of its peer gets all of it. -/
theorem Session.ends_of_agreement {σ ω : Type} [Storage σ] [Storage.Unfailing σ] [Observer ω]
    (peer : String) {a : Answers} {n : Node (Faulty σ) ω} {chain : List Block}
    (hoffers : a.Offers chain) (hable : n.Able) (h : n.Holds (chain.take n.height))
    (haccepted : Ledger.Accepted n.judge chain) (hdistinct : Ledger.Distinct n.judge chain)
    (hlt : n.height < chain.length) :
    ∃ m : Node (Faulty σ) ω,
      Ends peer a (n, .askingTip) (chain.length - n.height + 2) m.leaveSync
        (.ok (chain.length - n.height)) ∧
      m.Holds chain ∧ m.HasBodies n.height chain ∧ m.judge = n.judge := by
  have hsplit : chain.take n.height ++ chain.drop n.height = chain := List.take_append_drop _ _
  have hbelow : n.HasBodies n.height (chain.take n.height) := by
    intro b hb hfloor
    obtain ⟨s, coinbase, others, tip, hplace, hvalid⟩ := h.accepted.valid_of_mem hb
    have hlow : b.height < n.height := by
      rw [hvalid.height, h.height]
      exact hplace
    exact absurd hlow (Nat.not_lt.mpr hfloor)
  obtain ⟨m, hends, hholds, hkept, hjudge⟩ := next_fetches peer (a := a) hable h hbelow
    (hsplit.symm ▸ haccepted) (hsplit.symm ▸ hdistinct)
    (fun b hb => hoffers.block b (List.mem_of_mem_drop hb)) 0
  rw [hsplit] at hholds hkept
  rw [Nat.zero_add, List.length_drop] at hends
  exact ⟨m, ends_of_lt peer hoffers haccepted hlt hends, hholds, hkept, hjudge⟩

end PowLedger
