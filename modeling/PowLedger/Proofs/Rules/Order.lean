import Mathlib.Tactic.Common
import Mathlib.Tactic.Lemma
import PowLedger.Proofs.Rules.Verdict

/-!
# Which broken rule is named

A `Rule` is a condition on the data together with the fault that reports its breach. The consensus
rules of a block stand in a list, `Judge.blockRules`: those of the header, those of the body as a
whole, those of each spending transaction in turn, and those of the coinbase; all sums are exact
sums of natural numbers. The judge accepts a block just when all of them hold, and otherwise names
the first one that does not (`Judge.checkBlock_decides`).

Each check of the judge decides a list of its own, and checks made one after the other decide the
lists one after the other (`Decides.bind`); this carries the proof through the nested loops.
-/

namespace PowLedger

/-- A condition and the fault that reports its breach. -/
structure Rule where
  holds : Prop
  fault : Fault

/-- The fault reports the first rule of the list that does not hold. -/
def FirstBroken : List Rule → Fault → Prop
  | [], _ => False
  | r :: rules, f => (¬r.holds ∧ r.fault = f) ∨ (r.holds ∧ FirstBroken rules f)

/-- The computation fails just when a rule does not hold, and it reports the first such rule. -/
def Decides {α : Type} (x : Except Fault α) (rules : List Rule) : Prop :=
  ∀ f, x = .error f ↔ FirstBroken rules f

/-! ### Lists of rules -/

section FirstBroken

variable {rules more : List Rule} {f : Fault}

/-- Some rule is the first that does not hold unless all hold. -/
lemma exists_firstBroken_iff : (∃ f, FirstBroken rules f) ↔ ¬∀ r ∈ rules, r.holds := by
  induction rules with
  | nil => simp [FirstBroken]
  | cons r rules ih =>
    by_cases hr : r.holds
    · simp only [FirstBroken, hr, not_true_eq_false, false_and, true_and, false_or, ih,
        List.forall_mem_cons]
    · simp [FirstBroken, hr]

/-- Among two lists the first broken rule is that of the first list, or that of the second if all
rules of the first hold. -/
lemma firstBroken_append : FirstBroken (rules ++ more) f ↔
    FirstBroken rules f ∨ ((∀ r ∈ rules, r.holds) ∧ FirstBroken more f) := by
  induction rules with
  | nil => simp [FirstBroken]
  | cons r rules ih =>
    by_cases hr : r.holds
    · simp only [List.cons_append, FirstBroken, hr, not_true_eq_false, false_and, true_and,
        false_or, ih, List.forall_mem_cons]
    · simp [FirstBroken, hr]

/-- What is reported is a rule of the list that does not hold, and those before it hold. -/
lemma firstBroken_iff : FirstBroken rules f ↔ ∃ before r after, rules = before ++ r :: after ∧
    (∀ q ∈ before, q.holds) ∧ ¬r.holds ∧ r.fault = f := by
  constructor
  · intro h
    induction rules with
    | nil => exact h.elim
    | cons r rules ih =>
      rcases h with ⟨hr, hfault⟩ | ⟨hr, hrest⟩
      · exact ⟨[], r, rules, rfl, by simp, hr, hfault⟩
      · obtain ⟨before, q, after, rfl, hbefore, hq⟩ := ih hrest
        exact ⟨r :: before, q, after, rfl, List.forall_mem_cons.mpr ⟨hr, hbefore⟩, hq⟩
  · rintro ⟨before, r, after, rfl, hbefore, hr⟩
    exact firstBroken_append.mpr (.inr ⟨hbefore, .inl hr⟩)

end FirstBroken

/-! ### Deciding a list of rules -/

namespace Decides

variable {α β : Type} {x : Except Fault α} {rules more : List Rule}

/-- There is a result just when all rules hold. -/
lemma isOk_iff (h : Decides x rules) : (∃ a, x = .ok a) ↔ ∀ r ∈ rules, r.holds := by
  have hbroken : (∃ f, FirstBroken rules f) ↔ ¬∀ r ∈ rules, r.holds := exists_firstBroken_iff
  cases x with
  | ok a =>
    have hnone : ¬∃ f, FirstBroken rules f := by
      rintro ⟨f, hf⟩
      cases (h f).mpr hf
    simpa using not_not.mp (mt hbroken.mpr hnone)
  | error e => simpa using hbroken.mp ⟨e, (h e).mp rfl⟩

lemma ok (a : α) : Decides (.ok a) [] :=
  fun _ => by simp [FirstBroken]

/-- A rule that holds may be put in front. -/
lemma cons {r : Rule} (hr : r.holds) (h : Decides x rules) : Decides x (r :: rules) := by
  intro f
  rw [h f]
  simp [FirstBroken, hr]

/-- The first rule of a list stands for the choice between its fault and going on. -/
lemma ite {p q : Prop} [Decidable p] {g : Fault} (hp : ¬p ↔ q) (h : q → Decides x rules) :
    Decides (if p then .error g else x) (⟨q, g⟩ :: rules) := by
  intro f
  by_cases hq : q
  · have hnp : ¬p := hp.mpr hq
    simp [FirstBroken, hq, hnp, h hq f]
  · have hpos : p := not_not.mp (mt hp.mp hq)
    simp [FirstBroken, hq, hpos]

/-- A single rule is decided by a choice between success and its fault. -/
lemma check {p : Prop} [Decidable p] {g : Fault} {a : α} :
    Decides (if p then .ok a else .error g) [⟨p, g⟩] := by
  intro f
  by_cases hp : p <;> simp [FirstBroken, hp]

/-- A single rule is decided by a computation that has a result just when the rule holds, and that
fails in one way only. -/
lemma single {p : Prop} {g : Fault} (hok : (∃ a, x = .ok a) ↔ p)
    (herror : ∀ f, x = .error f → f = g) : Decides x [⟨p, g⟩] := by
  intro f
  cases x with
  | ok a =>
    have hp : p := hok.mp ⟨a, rfl⟩
    simp [FirstBroken, hp]
  | error e =>
    have hp : ¬p := fun h => by simpa using hok.mpr h
    simp [FirstBroken, hp, herror e rfl]

/-- Computations one after the other decide their rules one after the other. -/
lemma bind {k : α → Except Fault β} (hx : Decides x rules)
    (hk : ∀ a, x = .ok a → (∀ r ∈ rules, r.holds) → Decides (k a) more) :
    Decides (x >>= k) (rules ++ more) := by
  intro f
  rw [firstBroken_append]
  have hok := hx.isOk_iff
  cases x with
  | ok a =>
    have hall : ∀ r ∈ rules, r.holds := hok.mp ⟨a, rfl⟩
    have hnone : ¬FirstBroken rules f := fun hf => by cases (hx f).mpr hf
    have hrest : (.ok a >>= k) = .error f ↔ FirstBroken more f := hk a rfl hall f
    rw [hrest]
    exact ⟨fun h => .inr ⟨hall, h⟩, fun h => (h.resolve_left hnone).2⟩
  | error e =>
    have hbroken : ¬∀ r ∈ rules, r.holds := fun hall => by simpa using hok.mpr hall
    simp [error_bind, hbroken, ← hx f]

end Decides

/-! ### The rules -/

/-- No outpoint occurs among the `seen` ones or twice in the list. -/
def onceRules (fault : Outpoint → Fault) (seen : List Outpoint) : List Outpoint → List Rule
  | [] => []
  | o :: rest => ⟨o ∉ seen, fault o⟩ :: onceRules fault (o :: seen) rest

/-- The rules on the shape of a transaction. -/
def Transaction.shapeRules (tx : Transaction) : List Rule :=
  ⟨tx.outputs ≠ [], .validation .noOutputs⟩ ::
    onceRules (fun o => .validation (.duplicateInput o)) [] tx.sources

/-- The rules on what a transaction takes in and gives out. -/
def Transaction.sumRules (s : UtxoSet) (tx : Transaction) : List Rule :=
  [⟨tx.inputTotal s < 2 ^ 64, .consistency .inputOverflow⟩,
    ⟨tx.outputTotal < 2 ^ 64, .consistency .outputOverflow⟩,
    ⟨tx.outputTotal ≤ tx.inputTotal s, .validation
      (.negativeFee (UInt64.ofNat (tx.inputTotal s)) (UInt64.ofNat tx.outputTotal))⟩]

namespace Judge

/-- The rule on the id of a transaction. -/
def idRule (j : Judge) (tx : Transaction) : Rule :=
  ⟨tx.computedId j.digest = tx.id,
    .validation (.txIdMismatch tx.id (tx.computedId j.digest))⟩

/-- The rules on an input over a set of unspent outputs. -/
def inputRules (j : Judge) (s : UtxoSet) (message : Bytes) (i : TxInput) : List Rule :=
  [⟨∃ out, s.get? i.source = some out, .validation (.unknownInput i.source)⟩,
    ⟨∃ out, s.get? i.source = some out ∧ lockingHash i.publicKey = out.lock,
      .validation (.ownershipMismatch i.source)⟩,
    ⟨j.primitives.verify i.publicKey i.signature message = true,
      .validation (.badSignature i.source)⟩]

/-- The rules on a spending transaction. -/
def spendRules (j : Judge) (s : UtxoSet) (tx : Transaction) : List Rule :=
  tx.shapeRules ++ [⟨tx.inputs ≠ [], .validation .noInputs⟩, j.idRule tx] ++
    tx.inputs.flatMap (j.inputRules s (tx.signingDigest j.digest)) ++ tx.sumRules s

/-- The rules on a header at a tip. -/
def headerRules (j : Judge) (tip : Tip) (h : Header) : List Rule :=
  [⟨h.previous = tip.hash, .validation (.prevHashMismatch tip.hash h.previous)⟩,
    ⟨h.height.toNat = tip.height, .validation (.heightMismatch tip.height h.height.toNat)⟩,
    ⟨h.target = j.target, .validation (.targetMismatch j.target h.target)⟩,
    ⟨h.target.toNat ≤ 256 ∧ (j.digest h.assemble).toNat < 2 ^ (256 - h.target.toNat),
      .validation (.insufficientWork (h.hash j.digest))⟩]

/-- The rules on where coinbases stand and on what the first one states. -/
def placeRules (b : Block) (coinbase : Transaction) (others : List Transaction) : List Rule :=
  ⟨coinbase.inputs = [], .validation .missingCoinbase⟩ ::
    ((others.zipIdx 1).map fun e => ⟨e.1.inputs ≠ [], .validation (.misplacedCoinbase e.2)⟩) ++
    [⟨coinbase.coinbaseData = bigEndian 8 b.height,
      .validation (.coinbaseHeightMismatch b.height)⟩]

/-- The rules on a coinbase that may claim the reward and what the others leave in fees. -/
def coinbaseRules (j : Judge) (height total : Nat) (coinbase : Transaction) : List Rule :=
  let allowed := (j.rewards.reward height).toNat + total
  coinbase.shapeRules ++ [j.idRule coinbase,
    ⟨coinbase.outputTotal < 2 ^ 64, .consistency .outputOverflow⟩,
    ⟨coinbase.outputTotal ≤ allowed, .validation (.excessiveCoinbase
      (UInt64.ofNat coinbase.outputTotal) (UInt64.ofNat (min (2 ^ 64 - 1) allowed)))⟩]

/-- The rules on the transactions of a block. -/
def bodyRules (j : Judge) (s : UtxoSet) (b : Block) : List Transaction → List Rule
  | [] => []
  | coinbase :: others =>
    ⟨merkleRoot j.digest b.ids = .ok b.header.merkleRoot, .validation .merkleRootMismatch⟩ ::
      placeRules b coinbase others ++
      onceRules (fun o => .validation (.doubleSpend o)) [] (others.flatMap Transaction.sources) ++
      others.flatMap (j.spendRules s) ++
      j.coinbaseRules b.height (Block.feeTotal s others) coinbase

/-- The consensus rules of a block, in the order in which they are checked. -/
def blockRules (j : Judge) (tip : Tip) (s : UtxoSet) (b : Block) : List Rule :=
  j.headerRules tip b.header ++
    [⟨b.hash = b.header.hash j.digest,
      .validation (.hashMismatch b.hash (b.header.hash j.digest))⟩,
    ⟨b.transactions ≠ [], .validation .emptyBlock⟩] ++ j.bodyRules s b b.transactions

/-! ### The checks one by one -/

/-- Looking for a repeated outpoint decides that there is none. -/
lemma once_decides (fault : Outpoint → Fault) (seen os : List Outpoint) :
    Decides (match firstRepeated seen os with
      | some o => .error (fault o)
      | none => .ok ()) (onceRules fault seen os) := by
  induction os generalizing seen with
  | nil => exact .ok ()
  | cons o os ih =>
    rw [firstRepeated]
    by_cases ho : o ∈ seen
    · rw [if_pos ho]
      intro f
      simp [onceRules, FirstBroken, ho]
    · rw [if_neg ho]
      exact (ih (o :: seen)).cons ho

/-- The check of the shape decides the rules on it. -/
lemma checkShape_decides (tx : Transaction) : Decides (checkShape tx) tx.shapeRules := by
  by_cases hout : tx.outputs = []
  · intro f
    simp [checkShape, Transaction.checkShape, Transaction.shapeRules, FirstBroken, hout]
  · have honce := once_decides (fun o => .validation (.duplicateInput o)) [] tx.sources
    have hshape : checkShape tx = match firstRepeated [] tx.sources with
        | some o => .error (.validation (.duplicateInput o))
        | none => .ok () := by
      rw [checkShape, Transaction.checkShape, if_neg (by simpa using hout)]
      cases firstRepeated [] tx.sources <;> rfl
    rw [hshape]
    exact honce.cons hout

/-- The check of the id decides the rule on it. -/
lemma checkId_decides (j : Judge) (tx : Transaction) : Decides (j.checkId tx) [j.idRule tx] :=
  .check

/-- The check of an input decides the rules on it. -/
lemma checkInput_decides (j : Judge) (s : UtxoSet) (message : Bytes) (i : TxInput) :
    Decides (j.checkInput s message i) (j.inputRules s message i) := by
  rw [checkInput, inputRules]
  cases hget : s.get? i.source with
  | none =>
    intro f
    simp [FirstBroken]
  | some out =>
    refine .cons ⟨out, rfl⟩ (.ite ?_ fun _ => .check)
    simp

/-- The check of inputs decides the rules on them in turn. -/
lemma checkInputs_decides (j : Judge) (s : UtxoSet) (message : Bytes) (is : List TxInput) :
    Decides (j.checkInputs s message is) (is.flatMap (j.inputRules s message)) := by
  induction is with
  | nil => exact .ok ()
  | cons i is ih =>
    have hstep : j.checkInputs s message (i :: is) =
        j.checkInput s message i >>= fun _ => j.checkInputs s message is := by
      rw [checkInputs]
      cases j.checkInput s message i <;> rfl
    rw [hstep, List.flatMap_cons]
    exact (j.checkInput_decides s message i).bind fun _ _ _ => ih

/-- The sum of the outputs decides that it is an amount. -/
lemma outputValue_decides (tx : Transaction) : Decides tx.outputValue
    [⟨tx.outputTotal < 2 ^ 64, .consistency .outputOverflow⟩] := by
  refine .single ?_ fun f hf => ?_
  · simp only [Transaction.outputValue_eq_ok_iff]
    exact ⟨fun ⟨v, hv⟩ => hv ▸ v.toNat_lt, fun h => ⟨_, UInt64.toNat_ofNat_of_lt' h⟩⟩
  · rw [Transaction.outputValue] at hf
    cases hsum : tx.outputValue? with
    | none =>
      rw [hsum] at hf
      cases hf
      rfl
    | some v =>
      rw [hsum] at hf
      cases hf

/-- The only fault of a balance of live outpoints is that it overflows. -/
lemma eq_of_balanceFrom_eq_error {s : UtxoSet} {os : List Outpoint} {acc : Amount} {f : Fault}
    (hlive : ∀ o ∈ os, s.isLive o = true) (h : s.balanceFrom acc os = .error f) :
    f = .consistency .inputOverflow := by
  induction os generalizing acc with
  | nil => cases h
  | cons o os ih =>
    obtain ⟨out, hout⟩ := Table.contains_iff.mp (hlive o List.mem_cons_self)
    have hget : s.get? o = some out := hout
    rw [UtxoSet.balanceFrom, hget] at h
    cases hadd : Amount.add? acc out.value with
    | none =>
      simp only [hadd] at h
      cases h
      rfl
    | some sum =>
      simp only [hadd] at h
      exact ih (fun p hp => hlive p (List.mem_cons_of_mem _ hp)) h

/-- The fee of a transaction with live inputs decides the rules on its sums. -/
lemma fee_decides {s : UtxoSet} {tx : Transaction} (hlive : ∀ o ∈ tx.sources, s.isLive o = true) :
    Decides (fee s tx) (tx.sumRules s) := by
  have hbalance : Decides (s.balance tx.sources)
      [⟨tx.inputTotal s < 2 ^ 64, .consistency .inputOverflow⟩] := by
    refine .single ?_ fun f hf => eq_of_balanceFrom_eq_error hlive hf
    simp only [UtxoSet.balance_eq_ok_iff]
    constructor
    · rintro ⟨v, -, hv⟩
      have hsum : v.toNat = tx.inputTotal s := hv
      exact hsum ▸ v.toNat_lt
    · exact fun h => ⟨_, hlive, UInt64.toNat_ofNat_of_lt' h⟩
  rw [fee]
  refine hbalance.bind fun input hin _ => (outputValue_decides tx).bind fun output hout _ => ?_
  have hinput : input.toNat = tx.inputTotal s := (UtxoSet.balance_eq_ok_iff.mp hin).2
  have houtput : output.toNat = tx.outputTotal := Transaction.outputValue_eq_ok_iff.mp hout
  rw [← hinput, ← houtput, UInt64.ofNat_toNat, UInt64.ofNat_toNat]
  exact .ite (UInt64.not_lt.trans UInt64.le_iff_toNat_le) fun _ => .ok _

/-- The check of a spending transaction decides the rules on it. -/
theorem checkTransaction_decides (j : Judge) (tx : Transaction) (s : UtxoSet) :
    Decides (j.checkTransaction tx s) (j.spendRules s tx) := by
  have hbase : ¬tx.isCoinbase = true ↔ tx.inputs ≠ [] := List.isEmpty_iff.not
  rw [checkTransaction, spendRules, List.append_assoc, List.append_assoc, List.cons_append]
  refine (checkShape_decides tx).bind fun _ _ _ => .ite hbase fun _ => ?_
  refine (j.checkId_decides tx).bind fun _ _ _ => ?_
  refine (j.checkInputs_decides s _ tx.inputs).bind fun _ hinputs _ => fee_decides fun o ho => ?_
  obtain ⟨i, hi, rfl⟩ := List.mem_map.mp ho
  exact (checkInputs_eq_ok_iff.mp hinputs i hi).live

/-- The check of spending transactions decides the rules on them in turn. -/
lemma checkTransactions_decides (j : Judge) (s : UtxoSet) (acc : Amount)
    (others : List Transaction) :
    Decides (j.checkTransactions s acc others) (others.flatMap (j.spendRules s)) := by
  induction others generalizing acc with
  | nil => exact .ok acc
  | cons tx others ih =>
    have hstep : j.checkTransactions s acc (tx :: others) = j.checkTransaction tx s >>= fun fee =>
        j.checkTransactions s (Amount.addCapped acc fee) others := by
      rw [checkTransactions]
      cases j.checkTransaction tx s <;> rfl
    rw [hstep, List.flatMap_cons]
    exact (j.checkTransaction_decides tx s).bind fun fee _ _ => ih _

end Judge

/-- The digest of a header is below the threshold of its target, which has at most 256 bits. -/
lemma Header.hasWork_iff {digest : Hasher} {h : Header} : h.hasWork digest = true ↔
    h.target.toNat ≤ 256 ∧ (digest h.assemble).toNat < 2 ^ (256 - h.target.toNat) := by
  rw [hasWork, threshold, maxTargetBits]
  by_cases htarget : 256 < h.target.toNat
  · simp [htarget]
  · simp [htarget, meets, Nat.one_shiftLeft, Nat.le_of_not_lt htarget]

namespace Judge

/-- The check of a header decides the rules on it. -/
lemma checkHeader_decides (j : Judge) (h : Header) (tip : Tip) :
    Decides (j.checkHeader h tip) (j.headerRules tip h) := by
  rw [checkHeader, headerRules]
  simp only [← Header.hasWork_iff]
  exact .ite not_not fun _ => .ite not_not fun _ => .ite not_not fun _ => .check

/-- The check of the declared hash decides the rule on it. -/
lemma checkHash_decides (j : Judge) (b : Block) : Decides (j.checkHash b)
    [⟨b.hash = b.header.hash j.digest,
      .validation (.hashMismatch b.hash (b.header.hash j.digest))⟩] := by
  rw [checkHash]
  simp only [eq_comm (a := b.hash)]
  exact .check

/-- The check of the root of a block with transactions decides the rule on it. -/
lemma checkRoot_decides (j : Judge) {b : Block} (h : b.transactions ≠ []) :
    Decides (j.checkRoot b) [⟨merkleRoot j.digest b.ids = .ok b.header.merkleRoot,
      .validation .merkleRootMismatch⟩] := by
  refine .single ?_ fun f hf => ?_
  · rw [← checkRoot_eq_ok_iff]
    exact ⟨fun ⟨_, h⟩ => h, fun h => ⟨_, h⟩⟩
  · have hids : b.ids.isEmpty = false := by simpa [Block.ids] using h
    rw [checkRoot, Block.rootMatches, Block.computedRoot, merkleRoot, MerkleTree.ofLeaves,
      hids] at hf
    simp only [Bool.false_eq_true, if_false, Except.map] at hf
    split at hf
    · next hf' => cases hf'
    · cases hf
    · cases hf
      rfl

/-- Looking for a coinbase decides that none of the transactions is one; `k` is the place of the
first of them. -/
lemma misplaced_decides (k : Nat) (others : List Transaction) :
    Decides (match others.findIdx? Transaction.isCoinbase with
      | some i => .error (.validation (.misplacedCoinbase (i + k)))
      | none => .ok ())
      ((others.zipIdx k).map fun e => ⟨e.1.inputs ≠ [], .validation (.misplacedCoinbase e.2)⟩) := by
  induction others generalizing k with
  | nil => exact .ok ()
  | cons tx others ih =>
    rw [List.findIdx?_cons, List.zipIdx_cons, List.map_cons]
    by_cases htx : tx.inputs = []
    · intro f
      simp [Transaction.isCoinbase, htx, FirstBroken]
    · have hbase : tx.isCoinbase = false := by simpa [Transaction.isCoinbase] using htx
      refine .cons htx ?_
      have hrest := ih (k + 1)
      rw [hbase]
      cases hfind : others.findIdx? Transaction.isCoinbase with
      | none => simpa [hfind] using hrest
      | some i =>
        rw [hfind] at hrest
        simpa [Nat.add_assoc, Nat.add_comm 1] using hrest

/-- The check of the places of coinbases decides the rules on them. -/
lemma checkCoinbasePlace_decides (b : Block) (coinbase : Transaction)
    (others : List Transaction) :
    Decides (checkCoinbasePlace b coinbase others) (placeRules b coinbase others) := by
  have hbase : ¬(!coinbase.isCoinbase) = true ↔ coinbase.inputs = [] := by
    simp [Transaction.isCoinbase]
  rw [checkCoinbasePlace, placeRules]
  refine .ite hbase fun _ => ?_
  have hdata : Decides (if coinbase.coinbaseData = bigEndian 8 b.height then .ok ()
      else .error (.validation (.coinbaseHeightMismatch b.height)))
      [⟨coinbase.coinbaseData = bigEndian 8 b.height,
        .validation (.coinbaseHeightMismatch b.height)⟩] := .check
  have hboth := (misplaced_decides 1 others).bind fun _ _ _ => hdata
  cases hfind : others.findIdx? Transaction.isCoinbase <;> rw [hfind] at hboth <;> exact hboth

/-- The check of the coinbase decides the rules on it. -/
lemma checkCoinbase_decides (j : Judge) (height : Nat) {total : Nat} (coinbase : Transaction)
    {fees : Amount} (hfees : fees.toNat = min total (UInt64.size - 1)) :
    Decides (j.checkCoinbase height coinbase fees) (j.coinbaseRules height total coinbase) := by
  have hallowed : (Amount.addCapped (j.rewards.reward height) fees).toNat =
      min (2 ^ 64 - 1) ((j.rewards.reward height).toNat + total) := by
    have hsize : UInt64.size = 2 ^ 64 := rfl
    rw [Amount.toNat_addCapped, hfees]
    omega
  rw [checkCoinbase, coinbaseRules]
  refine (checkShape_decides coinbase).bind fun _ _ _ => ?_
  refine (j.checkId_decides coinbase).bind fun _ _ _ => ?_
  refine (outputValue_decides coinbase).bind fun claimed hclaimed _ => ?_
  have hsum : claimed.toNat = coinbase.outputTotal :=
    Transaction.outputValue_eq_ok_iff.mp hclaimed
  rw [← hallowed, ← hsum, UInt64.ofNat_toNat, UInt64.ofNat_toNat]
  refine .ite ?_ fun _ => .ok ()
  have hfit : claimed.toNat < 2 ^ 64 := claimed.toNat_lt
  rw [UInt64.not_lt, UInt64.le_iff_toNat_le, hallowed]
  omega

/-! ### The whole block -/

/-- The judge accepts a block just when all consensus rules hold, and otherwise it names the first
one that does not. -/
theorem checkBlock_decides (j : Judge) (b : Block) (tip : Tip) (s : UtxoSet) :
    Decides (j.checkBlock b tip s) (j.blockRules tip s b) := by
  rw [checkBlock, blockRules, List.append_assoc, List.cons_append]
  refine (j.checkHeader_decides b.header tip).bind fun _ _ _ => ?_
  refine (j.checkHash_decides b).bind fun _ _ _ => ?_
  cases htxs : b.transactions with
  | nil =>
    intro f
    simp [FirstBroken]
  | cons coinbase others =>
    refine .cons (by simp) ?_
    have hne : b.transactions ≠ [] := by simp [htxs]
    simp only [bodyRules, List.cons_append, List.append_assoc]
    refine (j.checkRoot_decides hne).bind fun _ _ _ => ?_
    refine (checkCoinbasePlace_decides b coinbase others).bind fun _ _ _ => ?_
    refine (once_decides _ [] _).bind fun _ _ _ => ?_
    refine (j.checkTransactions_decides s 0 others).bind fun fees hfees _ => ?_
    have hsum := (checkTransactions_eq_ok_iff.mp hfees).2
    rw [UInt64.toNat_zero, Nat.zero_add] at hsum
    have hcoinbase := (j.checkCoinbase_decides b.height coinbase hsum).bind fun _ _ _ => .ok fees
    rw [List.append_nil] at hcoinbase
    exact hcoinbase

/-- An input unlocks an output if there is one at its source, locked with the hash of the given
key, under which the signature verifies. -/
lemma unlocks_iff {j : Judge} {s : UtxoSet} {message : Bytes} {i : TxInput} :
    j.Unlocks s message i ↔ ∃ out, s.get? i.source = some out ∧
      out.lock = lockingHash i.publicKey ∧
      j.primitives.verify i.publicKey i.signature message = true := by
  constructor
  · rintro ⟨⟨out, hout, hlock⟩, hsigned⟩
    exact ⟨out, hout, hlock.symm, hsigned⟩
  · rintro ⟨out, hout, hlock, hsigned⟩
    exact ⟨⟨out, hout, hlock.symm⟩, hsigned⟩

/-- A valid spending transaction, rule by rule. -/
lemma validSpend_iff {j : Judge} {s : UtxoSet} {tx : Transaction} :
    j.ValidSpend s tx ↔ (tx.inputs ≠ [] ∧ tx.sources.Nodup) ∧ tx.outputs ≠ [] ∧
      tx.id = j.digest tx.idBytes ∧
      (∀ i ∈ tx.inputs, ∃ out, s.get? i.source = some out ∧
        out.lock = lockingHash i.publicKey ∧
        j.primitives.verify i.publicKey i.signature (j.digest tx.signingBytes) = true) ∧
      tx.inputTotal s < 2 ^ 64 ∧ tx.outputTotal < 2 ^ 64 ∧ tx.outputTotal ≤ tx.inputTotal s := by
  simp only [← unlocks_iff]
  constructor
  · intro h
    exact ⟨⟨h.inputs, h.sourcesOnce⟩, h.outputs, h.id.symm, h.unlocked, h.inputsFit,
      Nat.lt_of_le_of_lt h.balanced h.inputsFit, h.balanced⟩
  · rintro ⟨⟨hinputs, honce⟩, houtputs, hid, hunlocked, hfit, -, hbalanced⟩
    exact ⟨houtputs, hinputs, honce, hid.symm, hunlocked, hfit, hbalanced⟩

/-- The judge accepts exactly the blocks that keep the consensus rules, and returns what the
transactions leave in fees, or the greatest amount if that is none; and it refuses a block with the
first rule of the list that the block breaks. -/
theorem consensus_rules_exact (j : Judge) (b : Block) (tip : Tip) (s : UtxoSet) :
    (∀ fees, j.checkBlock b tip s = .ok fees ↔
      b.header.previous = tip.hash ∧ b.height = tip.height ∧ b.header.target = j.target ∧
      b.header.target.toNat ≤ 256 ∧
      (j.digest b.header.assemble).toNat < 2 ^ (256 - b.header.target.toNat) ∧
      b.hash = (j.digest b.header.assemble).hex ∧
      ∃ coinbase others, b.transactions = coinbase :: others ∧
        merkleRoot j.digest (b.transactions.map Transaction.id) = .ok b.header.merkleRoot ∧
        coinbase.inputs = [] ∧ (∀ tx ∈ others, tx.inputs ≠ []) ∧
        coinbase.coinbaseData = bigEndian 8 b.height ∧
        (others.flatMap Transaction.sources).Nodup ∧
        (∀ tx ∈ others, tx.outputs ≠ [] ∧ tx.id = j.digest tx.idBytes ∧
          (∀ i ∈ tx.inputs, ∃ out, s.get? i.source = some out ∧
            out.lock = lockingHash i.publicKey ∧
            j.primitives.verify i.publicKey i.signature (j.digest tx.signingBytes) = true) ∧
          tx.inputTotal s < 2 ^ 64 ∧ tx.outputTotal < 2 ^ 64 ∧
          tx.outputTotal ≤ tx.inputTotal s) ∧
        coinbase.outputs ≠ [] ∧ coinbase.id = j.digest coinbase.idBytes ∧
        coinbase.outputTotal < 2 ^ 64 ∧
        coinbase.outputTotal ≤ (j.rewards.reward b.height).toNat + Block.feeTotal s others ∧
        fees.toNat = min (2 ^ 64 - 1) (Block.feeTotal s others)) ∧
    (∀ f, j.checkBlock b tip s = .error f ↔
      ∃ before rule after, j.blockRules tip s b = before ++ rule :: after ∧
        (∀ r ∈ before, r.holds) ∧ ¬rule.holds ∧ rule.fault = f) := by
  refine ⟨fun fees => ?_, fun f => (j.checkBlock_decides b tip s f).trans firstBroken_iff⟩
  rw [checkBlock_eq_ok_iff]
  constructor
  · rintro ⟨coinbase, others, h, hfees⟩
    obtain ⟨htarget, hwork⟩ := Header.hasWork_iff.mp h.work
    refine ⟨h.previous, h.height, h.target, htarget, hwork, h.hash, coinbase, others,
      h.transactions, h.root, h.coinbaseInputs, fun tx htx => (h.spends tx htx).inputs,
      h.coinbaseData, h.spentOnce, fun tx htx => (validSpend_iff.mp (h.spends tx htx)).2,
      h.coinbaseOutputs, h.coinbaseId.symm, h.claimFits, h.claim, ?_⟩
    rw [hfees, Nat.min_comm]
    rfl
  · rintro ⟨hprevious, hheight, htarget, hbits, hwork, hhash, coinbase, others, htransactions,
      hroot, hbase, hinputs, hdata, honce, hspends, houtputs, hid, hfit, hclaim, hfees⟩
    have honceEach := (List.nodup_flatMap.mp honce).1
    refine ⟨coinbase, others, ⟨htransactions, hprevious, hheight, htarget,
      Header.hasWork_iff.mpr ⟨hbits, hwork⟩, hhash, hroot, hbase, hdata, houtputs, hid.symm,
      fun tx htx => validSpend_iff.mpr ⟨⟨hinputs tx htx, honceEach tx htx⟩, hspends tx htx⟩,
      honce, hfit, hclaim⟩, ?_⟩
    rw [hfees, Nat.min_comm]
    rfl

end Judge

end PowLedger
