import Mathlib.Tactic.Common
import Mathlib.Tactic.Lemma
import PowLedger.Proofs.Mining.Search
import PowLedger.Proofs.Node.Coherence
import PowLedger.Proofs.Pool.Selection

/-!
# Miners and the judge

A candidate is put together by other rules than it is judged by: transactions are selected and their
fees added by rank, the reward is added with a cap, the header is hashed in pieces. What the miner
makes of this is a valid block all the same, because the pool is coherent with the unspent outputs
(`Mining.candidate_valid`).

While the miner sweeps nonces, everything else goes on. `Mining.attemptAmid` is an attempt with any
acts in between: some before the candidate is assembled and some before it is submitted. Without
these it is the attempt that the program makes (`Mining.attemptAmid_nil`). The main result is
`Mining.solved_block_accepted`.
-/

namespace PowLedger

namespace Mining

variable {σ ω : Type}

/-! ### Candidates -/

/-- What the coinbase of a candidate pays. -/
def pay (n : Node σ ω) (m : Miner) : Amount :=
  Amount.addCapped (n.params.rewards.reward n.height) (Pool.fees (n.pool.select m.maxTransactions))

lemma transactions_eq (n : Node σ ω) (m : Miner) :
    transactions n m = Transaction.coinbase n.digest n.height (pay n m) m.lock ::
      (n.pool.select m.maxTransactions).map PoolEntry.transaction := rfl

/-- A coinbase pays the reward and the exact fees, as far as an amount goes. -/
lemma toNat_pay (n : Node σ ω) (m : Miner) :
    (pay n m).toNat = min (UInt64.size - 1) ((n.params.rewards.reward n.height).toNat +
      ((n.pool.select m.maxTransactions).map (·.fee.toNat)).sum) := by
  rw [pay, Amount.toNat_addCapped, Pool.toNat_fees]
  omega

/-- There always is a header for a candidate. -/
lemma exists_header_eq_ok (n : Node σ ω) (m : Miner) (time : Int64) :
    ∃ root, merkleRoot n.digest ((transactions n m).map Transaction.id) = .ok root ∧
      header n (transactions n m) time = .ok ⟨n.params.blockVersion, n.tipHash, root,
        UInt64.ofNat n.height, time, n.params.targetBits, 0⟩ := by
  have hroot : merkleRoot n.digest ((transactions n m).map Transaction.id) =
      .ok (Merkle.climb n.digest ((transactions n m).map Transaction.id)).2 := rfl
  exact ⟨_, hroot, by rw [header, hroot]⟩

/-- The block that a solved header makes of a candidate. -/
def solvedBlock (n : Node σ ω) (m : Miner) (h : Header) : Block :=
  Block.ofHeader n.digest h (transactions n m)

/-- The selected transactions leave in fees what their entries say. -/
lemma feeTotal_select {n : Node σ ω} (h : n.Coherent) (m : Miner) :
    Block.feeTotal n.utxos ((n.pool.select m.maxTransactions).map PoolEntry.transaction) =
      ((n.pool.select m.maxTransactions).map (·.fee.toNat)).sum := by
  rw [Block.feeTotal, List.map_map]
  refine congrArg List.sum (List.map_congr_left fun e he => ?_)
  exact (Judge.checkTransaction_eq_ok_iff.mp (h.valid e (Pool.mem_of_mem_select he))).2.symm

/-- A candidate of a coherent node keeps all rules once its header has work, whatever time and nonce
the search has put into it. -/
theorem candidate_valid {n : Node σ ω} (hcoherent : n.Coherent) (hword : n.height < UInt64.size)
    (m : Miner) {time time' : Int64} {nonce : UInt64} {h : Header}
    (hheader : header n (transactions n m) time = .ok h)
    (hwork : Header.hasWork n.digest { h with timestamp := time', nonce := nonce } = true) :
    n.judge.ValidBlock n.tip n.utxos
      (solvedBlock n m { h with timestamp := time', nonce := nonce })
      (Transaction.coinbase n.digest n.height (pay n m) m.lock)
      ((n.pool.select m.maxTransactions).map PoolEntry.transaction) := by
  obtain ⟨root, hroot, hmade⟩ := exists_header_eq_ok n m time
  cases hmade.symm.trans hheader
  have hheight : (UInt64.ofNat n.height).toNat = n.height := UInt64.toNat_ofNat_of_lt' hword
  have hpay : (pay n m).toNat < UInt64.size := (pay n m).toNat_lt
  have hvalid : ∀ e ∈ n.pool.entries, n.judge.ValidSpend n.utxos e.transaction :=
    fun e he => (Judge.checkTransaction_eq_ok_iff.mp (hcoherent.valid e he)).1
  have hclaim : (Transaction.coinbase n.digest n.height (pay n m) m.lock).outputTotal =
      (pay n m).toNat := Nat.add_zero _
  exact
    { transactions := rfl
      previous := rfl
      height := hheight
      target := rfl
      work := hwork
      hash := rfl
      root := hroot
      coinbaseInputs := rfl
      coinbaseData := congrArg (bigEndian 8) hheight.symm
      coinbaseOutputs := List.cons_ne_nil _ _
      coinbaseId := rfl
      spends := by
        intro tx htx
        obtain ⟨e, he, rfl⟩ := List.mem_map.mp htx
        exact hvalid e (Pool.mem_of_mem_select he)
      spentOnce := by
        rw [List.flatMap_map]
        exact Pool.nodup_sources_select (fun e he => (hvalid e he).sourcesOnce) _
      claimFits := hclaim ▸ hpay
      claim := by
        have hblock : (solvedBlock n m ⟨n.params.blockVersion, n.tipHash, root,
            UInt64.ofNat n.height, time', n.params.targetBits, nonce⟩).height = n.height := hheight
        rw [hclaim, hblock, toNat_pay, feeTotal_select hcoherent]
        exact Nat.min_le_right _ _ }

variable [Storage σ] [Observer ω]

/-! ### Attempts amid other acts -/

/-- What the search of an attempt comes to whose candidate is assembled on a node. -/
def searchOn (n : Node σ ω) (m : Miner) (clock : Nat → Int64) (calledOff : Nat → Nat → Bool)
    (sweeps : Nat) : Except Fault Search :=
  match header n (transactions n m) (clock 0) with
  | .error f => .error f
  | .ok h => search n.digest m.maxNonce calledOff clock 0 sweeps h

/-- The end of an attempt whose candidate was assembled on `start`: what the search has found is
submitted to the node as it is `later`, unless the attempt has been called off by then. -/
def conclude (start later : Node σ ω) (m : Miner) :
    Except Fault Search → Node σ ω × Option (Except Fault MineOutcome)
  | .error f => (later, some (.error f))
  | .ok .undecided => (later, none)
  | .ok .cancelled => (later, some (.ok .cancelled))
  | .ok (.solved h) =>
    if (later.watch m.watch).isCalledOff then (later, some (.ok .cancelled))
    else ((submit later (solvedBlock start m h) start.height).1,
      some (submit later (solvedBlock start m h) start.height).2)

/-- The node on which a candidate is assembled: the attempt is entered in the watch, and `early`
acts come between. -/
def begun (n : Node σ ω) (m : Miner) (calledOff : Bool) (early : List (Act ω)) : Node σ ω :=
  ((n.updateWatch m.watch fun w => w.begin n.height calledOff).run early).node

/-- An attempt with other acts `early`, before its candidate is assembled, and `meanwhile`, before
it is submitted. Of each nonce `seen` says whether the search has seen by then that it is called
off. -/
def attemptAmid (n : Node σ ω) (m : Miner) (calledOff : Bool) (early meanwhile : List (Act ω))
    (clock : Nat → Int64) (seen : (number nonce : Nat) → Bool) (sweeps : Nat) :
    Node σ ω × Option (Except Fault MineOutcome) :=
  if (n.watch m.watch).current.isSome then (n, some (.error (.mining .attemptRunning)))
  else
    let start := begun n m calledOff early
    let ended := conclude start (start.run meanwhile).node m (searchOn start m clock seen sweeps)
    (ended.1.updateWatch m.watch Watch.finish, ended.2)

/-- If nothing happens meanwhile, searching and submitting is what the miner does. That the miner
does not look once more whether it has been called off makes no difference then. -/
lemma conclude_self (start : Node σ ω) (m : Miner) (clock : Nat → Int64) (sweeps : Nat) :
    conclude start start m
        (searchOn start m clock (fun _ _ => (start.watch m.watch).isCalledOff) sweeps) =
      solveAndSubmit start m clock sweeps := by
  rw [searchOn, solveAndSubmit]
  cases header start (transactions start m) (clock 0) with
  | error f => rfl
  | ok h =>
    cases hsearch : search start.digest m.maxNonce
        (fun _ _ => (start.watch m.watch).isCalledOff) clock 0 sweeps h with
    | error f => simp only [hsearch, conclude]
    | ok outcome =>
      cases outcome with
      | cancelled | undecided => simp only [hsearch, conclude]
      | solved h' =>
        obtain ⟨-, -, -, -, hoff⟩ := search_eq_solved hsearch
        simp only [conclude, hoff]
        rfl

/-- An attempt with no other acts in between is the attempt of the miner. -/
theorem attemptAmid_nil (n : Node σ ω) (m : Miner) (calledOff : Bool) (clock : Nat → Int64)
    (sweeps : Nat) :
    attemptAmid n m calledOff [] [] clock
        (fun _ _ => ((begun n m calledOff []).watch m.watch).isCalledOff) sweeps =
      attempt n m calledOff clock sweeps := by
  have hsame := conclude_self (begun n m calledOff []) m clock sweeps
  have hrun : ((begun n m calledOff []).run []).node = begun n m calledOff [] := rfl
  rw [attemptAmid, attempt]
  split
  · rfl
  · simp only [hrun, hsame]
    rfl

/-- A solved candidate of a coherent node is accepted by the node as it is later, if that has taken
no block meanwhile and its store takes the header. -/
theorem addBlock_solvedBlock {start later : Node σ ω} (hcoherent : start.Coherent)
    (hgrows : start.Grows [] later) (hadmits : later.status.admits = true)
    (hword : start.height < UInt64.size) (m : Miner) {clock : Nat → Int64}
    {seen : Nat → Nat → Bool} {sweeps : Nat} {h : Header}
    (hsolved : searchOn start m clock seen sweeps = .ok (.solved h)) {store : σ}
    (hpersist : Storage.persistHeader later.store (solvedBlock start m h).hash h = .ok store) :
    start.judge.ValidBlock start.tip start.utxos (solvedBlock start m h)
        (Transaction.coinbase start.digest start.height (pay start m) m.lock)
        ((start.pool.select m.maxTransactions).map PoolEntry.transaction) ∧
      (later.addBlock (solvedBlock start m h)).2 = .ok () := by
  rw [searchOn] at hsolved
  cases hheader : header start (transactions start m) (clock 0) with
  | error f => simp [hheader] at hsolved
  | ok candidate =>
    simp only [hheader] at hsolved
    obtain ⟨⟨time, nonce, rfl⟩, hwork, -⟩ := search_eq_solved hsolved
    have hvalid := candidate_valid hcoherent hword m hheader hwork
    refine ⟨hvalid, ?_⟩
    obtain ⟨fees, hok⟩ := Judge.checkBlock_isOk_iff.mpr ⟨_, _, hvalid⟩
    have htip : later.tip = start.tip := hgrows.tip
    have hutxos : later.utxos = start.utxos := hgrows.utxos
    rw [← hgrows.judge, ← htip, ← hutxos] at hok
    have hcommit := Node.commit_eq_ok_iff.mpr ⟨hadmits, fees, store, hok, hpersist, rfl⟩
    rw [Node.addBlock, hcommit]

/-- If its search is solved, nobody has called it off and the node takes the block, an attempt ends
with that block. -/
lemma attemptAmid_eq_mined {n : Node σ ω} {m : Miner} {calledOff : Bool}
    {early meanwhile : List (Act ω)} {clock : Nat → Int64} {seen : Nat → Nat → Bool} {sweeps : Nat}
    {start later : Node σ ω} {h : Header} (hstart : start = begun n m calledOff early)
    (hlater : later = (start.run meanwhile).node) (hidle : (n.watch m.watch).current = none)
    (hsolved : searchOn start m clock seen sweeps = .ok (.solved h))
    (hon : (later.watch m.watch).isCalledOff = false)
    (hok : (later.addBlock (solvedBlock start m h)).2 = .ok ()) :
    attemptAmid n m calledOff early meanwhile clock seen sweeps =
      ((later.addBlock (solvedBlock start m h)).1.updateWatch m.watch Watch.finish,
        some (.ok (.mined (solvedBlock start m h)))) := by
  have hsubmit : submit later (solvedBlock start m h) start.height =
      ((later.addBlock (solvedBlock start m h)).1, .ok (.mined (solvedBlock start m h))) := by
    rw [submit]
    rcases hadd : later.addBlock (solvedBlock start m h) with ⟨taken, f | _⟩
    · rw [hadd] at hok
      cases hok
    · rfl
  rw [attemptAmid, hidle, Option.isSome_none, if_neg Bool.false_ne_true]
  simp only [← hstart, ← hlater, hsolved, conclude, hon, Bool.false_eq_true, if_false, hsubmit]

/-! ### Attempts on reached nodes -/

/-- What a node that was opened with these parameters stays. -/
structure InOrder (params : ChainParams) (n : Node σ ω) : Prop where
  wired : n.Wired
  coherent : n.Coherent
  admits : n.status.admits = true
  params : n.params = params

variable {primitives : Primitives} {params : ChainParams} {limits : SyncSettings} {store : σ}
  {n n₀ : Node σ ω}

omit [Observer ω] in
/-- A node that could be opened is in order. -/
lemma inOrder_of_open? (hopen : Node.open? primitives params limits store = some (.ok n)) :
    InOrder params n := by
  refine ⟨Node.wired_of_open? hopen, Node.coherent_of_open? hopen, ?_, ?_⟩ <;>
    obtain ⟨chain, utxos, rfl⟩ := Node.open?_cases hopen <;> rfl

/-- A node in order is so after any run. -/
lemma InOrder.run (h : InOrder params n) (acts : List (Act ω)) :
    InOrder params (n.run acts).node where
  wired := (Node.run_grows h.wired acts).wired
  coherent := h.coherent.run h.wired acts
  admits := (n.run_admits acts).trans h.admits
  params := (Node.run_grows h.wired acts).params.trans h.params

/-- The node on which a candidate is assembled is in order. -/
lemma InOrder.begun (h : InOrder params n) (m : Miner) (calledOff : Bool) (early : List (Act ω)) :
    InOrder params (begun n m calledOff early) :=
  (h.run [.updateWatch m.watch fun w => w.begin n.height calledOff]).run early

/-- A miner never makes a block that its own node refuses. Take any node opened over any store,
after any run, and an attempt of a miner that has none under way, amid any other acts. If the search
is solved, no block is taken and the attempt is not called off meanwhile, and the store takes the
header, then the node takes the block and the attempt ends with it. The block is on top of the tip;
it consists of a coinbase and the transactions selected from the pool, in order, and the coinbase
pays the reward and their fees, or the greatest amount. -/
theorem solved_block_accepted
    (hopen : Node.open? primitives params limits store = some (.ok n₀))
    (acts early meanwhile : List (Act ω)) (m : Miner) (calledOff : Bool) (clock : Nat → Int64)
    (seen : (number nonce : Nat) → Bool) (sweeps : Nat) :
    let n := (n₀.run acts).node
    let start := begun n m calledOff early
    let later := (start.run meanwhile).node
    let ended := attemptAmid n m calledOff early meanwhile clock seen sweeps
    ∀ h : Header, (n.watch m.watch).current = none →
      -- the height is a word of 64 bits
      start.height < 2 ^ 64 →
      searchOn start m clock seen sweeps = .ok (.solved h) →
      (start.run meanwhile).blocks = [] →
      (later.watch m.watch).isCalledOff = false →
      (∃ kept, Storage.persistHeader later.store (solvedBlock start m h).hash h = .ok kept) →
      let b := solvedBlock start m h
      (later.addBlock b).2 = .ok () ∧
      ended.2 = some (.ok (.mined b)) ∧
      b.header.previous = later.tipHash ∧ b.height = later.height ∧
      ended.1.tip = ⟨b.hash, later.height + 1⟩ ∧
      ∃ coinbase amount,
        b.transactions = coinbase ::
          (start.pool.select m.maxTransactions).map PoolEntry.transaction ∧
        coinbase.inputs = [] ∧ coinbase.outputs = [⟨amount, m.lock⟩] ∧
        amount.toNat = min (2 ^ 64 - 1) ((params.rewards.reward later.height).toNat +
          ((start.pool.select m.maxTransactions).map (·.fee.toNat)).sum) := by
  intro n start later ended h hidle hword hsolved hquiet hon hkept b
  obtain ⟨kept, hpersist⟩ := hkept
  have hstart : InOrder params start := ((inOrder_of_open? hopen).run acts).begun m calledOff early
  have hgrows : start.Grows [] later := hquiet ▸ Node.run_grows hstart.wired meanwhile
  obtain ⟨hvalid, hok⟩ := addBlock_solvedBlock hstart.coherent hgrows (hstart.run meanwhile).admits
    hword m hsolved hpersist
  have hended : ended = ((later.addBlock b).1.updateWatch m.watch Watch.finish,
      some (.ok (.mined b))) := attemptAmid_eq_mined rfl rfl hidle hsolved hon hok
  have htip : later.tip = start.tip := hgrows.tip
  have hheight : later.height = start.height := congrArg Tip.height htip
  refine ⟨hok, by rw [hended], ?_, ?_, ?_, _, pay start m, rfl, rfl, rfl, ?_⟩
  · exact hvalid.previous.trans (congrArg Tip.hash htip.symm)
  · exact hvalid.height.trans hheight.symm
  · have hcore := Node.addBlock_core hok
    rw [hended]
    exact congrArg₂ Tip.mk (congrArg NodeCore.tipHash hcore) (congrArg NodeCore.height hcore)
  · rw [toNat_pay, hheight, hstart.params]
    rfl

end Mining

/-! ### A miner on the sample chain -/

namespace Sample

/-- A miner that takes one transaction into a block. -/
def miner : Miner := ⟨0, 1, 3, lock⟩

/-- The payment waits, and the miner has come. -/
def mining : List (Act Watcher) :=
  waiting ++ [.addWatch]

/-- A session comes and goes while the miner sweeps. -/
def meanwhile : List (Act Watcher) :=
  [.enter, .block first, .leave]

/-- What the miner finds at the first nonce. -/
def solved : Header :=
  { (block first.hash 1 [coinbase 1 30, payment]).header with timestamp := 7 }

/-- The node that the miner begins on, and the one on which its candidate is assembled. -/
lemma mining_ready :
    let n := (node.run mining).node
    let start := Mining.begun n miner false []
    let mined := Mining.solvedBlock start miner solved
    (n.watch miner.watch).current = none ∧ start.height < 2 ^ 64 ∧
      Mining.searchOn start miner (fun _ => 7) (fun _ _ => false) 1 = .ok (.solved solved) ∧
      (start.run meanwhile).blocks = [] ∧
      ((start.run meanwhile).node.watch miner.watch).isCalledOff = false ∧
      mined.transactions = [coinbase 1 30, payment] := by
  decide +kernel

end Sample

namespace Mining

open Sample in
/-- On the sample chain the miner claims the reward of twenty-five and the fee of five, and its
block is taken although a session and a block in vain came between. -/
theorem solved_block_accepted_of_mining :
    let n := (Sample.node.run mining).node
    let mined := solvedBlock (begun n miner false []) miner solved
    (attemptAmid n miner false [] meanwhile (fun _ => 7) (fun _ _ => false) 1).2 =
        some (.ok (.mined mined)) ∧
      mined.transactions = [coinbase 1 30, payment] := by
  intro n mined
  obtain ⟨hidle, hword, hsolved, hquiet, hon, htransactions⟩ := mining_ready
  obtain ⟨-, hmined, -⟩ := solved_block_accepted open?_node mining [] meanwhile miner false
    (fun _ => 7) (fun _ _ => false) 1 solved hidle hword hsolved hquiet hon ⟨_, rfl⟩
  exact ⟨hmined, htransactions⟩

end Mining

end PowLedger
