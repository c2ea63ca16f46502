import Mathlib.Data.List.Infix
import Mathlib.Tactic.Common
import Mathlib.Tactic.Lemma
import PowLedger.Proofs.Store.Law

/-!
# Stored values that are cut short or followed by more

A decoder looks at its bytes from the front and at none that it does not take, so its verdict can
only wait for more bytes and is never changed by them, `Decoder.Incremental`. Like `Decoder.Reads`
the property is closed under the ways in which decoders are built, but it speaks of all byte
strings and not of stored forms alone. Together the two say what becomes of a stored form that is
cut short: its decoder starves, `Decoder.Reads.starves`. So the stored forms of transactions,
headers and blocks are self-delimiting, `stored_forms_selfDelimiting`.
-/

namespace PowLedger

/-! ### Verdicts that more bytes do not change -/

namespace Decoder

variable {α β : Type}

/-- The decoder fails because the byte string ends too early. -/
def Starves (d : Decoder α) (bs : Bytes) : Prop :=
  ∃ missing, d.run bs = .error (.unexpectedEnd missing)

/-- Where the decoder does not starve, bytes that follow are left and change nothing else. -/
def Incremental (d : Decoder α) : Prop :=
  ∀ bs more, d.Starves bs ∨ d.run (bs ++ more) = (d.run bs).map fun p => (p.1, p.2 ++ more)

/-- A decoder that reads nothing is incremental. -/
lemma Incremental.pure (a : α) : (Pure.pure a : Decoder α).Incremental :=
  fun _ _ => .inr rfl

/-- A decoder that fails without reading is incremental. -/
lemma Incremental.throw (f : DecodeFault) : (MonadExcept.throw f : Decoder α).Incremental :=
  fun _ _ => .inr rfl

/-- Incremental decoders in sequence are incremental. -/
lemma Incremental.bind {d : Decoder α} {f : α → Decoder β} (hd : d.Incremental)
    (hf : ∀ a, (f a).Incremental) : (d >>= f).Incremental := by
  intro bs more
  have hrun : ∀ s, (d >>= f).run s = d.run s >>= fun p => (f p.1).run p.2 := fun _ => rfl
  rcases hd bs more with ⟨missing, hstarves⟩ | hfirst
  · exact .inl ⟨missing, by rw [hrun, hstarves]; rfl⟩
  · rw [Starves, hrun, hrun, hfirst]
    cases d.run bs with
    | error fault => exact .inr rfl
    | ok p => exact hf p.1 p.2 more

/-- A function of what an incremental decoder reads. -/
lemma Incremental.map {d : Decoder α} (f : α → β) (hd : d.Incremental) :
    (f <$> d).Incremental :=
  hd.bind fun a => Incremental.pure (f a)

/-- A split that comes out is not changed by what follows. -/
lemma split_append {n : Nat} {bs front rest : Bytes} (h : split n bs = .ok (front, rest))
    (more : Bytes) : split n (bs ++ more) = .ok (front, rest ++ more) := by
  induction n, bs using split.induct generalizing front with
  | case1 bs =>
    obtain ⟨rfl, rfl⟩ : [] = front ∧ bs = rest := by simpa [split] using h
    rfl
  | case2 n => cases h
  | case3 n b bs first left hsplit ih =>
    obtain ⟨rfl, rfl⟩ : b :: first = front ∧ left = rest := by simpa [split, hsplit] using h
    simp only [List.cons_append, split, ih hsplit]
  | case4 n b bs missing hsplit ih => simp [split, hsplit] at h

/-- A read of a given number of bytes is incremental. -/
lemma Incremental.take (n : Nat) : (Decoder.take n).Incremental := by
  intro bs more
  cases h : split n bs with
  | error missing => exact .inl ⟨missing, by simp only [StateT.run, Decoder.take, h]⟩
  | ok p =>
    refine .inr ?_
    simp only [StateT.run, Decoder.take, h, split_append h more]
    rfl

/-- Values of one kind are read incrementally if each of them is. -/
lemma Incremental.many {d : Decoder α} (hd : d.Incremental) (n : Nat) :
    (Decoder.many d n).Incremental := by
  induction n with
  | zero => exact Incremental.pure []
  | succ n ih => exact hd.bind fun a => ih.bind fun rest => Incremental.pure (a :: rest)

/-- An incremental decoder starves on every strict beginning of what it reads a value off. -/
lemma Reads.starves {d : Decoder α} {x front : Bytes} {a : α} (hreads : d.Reads x a)
    (hd : d.Incremental) (hfront : front <+: x) (hne : front ≠ x) : d.Starves front := by
  obtain ⟨more, rfl⟩ := hfront
  refine (hd front more).resolve_right fun hsame => hne ?_
  have hwhole := hreads []
  rw [List.append_nil, hsame] at hwhole
  -- The value would be had already, with `more` among the bytes that are left.
  cases hrun : d.run front with
  | error fault => rw [hrun] at hwhole; cases hwhole
  | ok p =>
    have hleft : p.2 ++ more = [] := by
      rw [hrun] at hwhole
      exact congrArg Prod.snd (Except.ok.inj hwhole)
    rw [(List.append_eq_nil_iff.mp hleft).2, List.append_nil]

end Decoder

namespace Codec

/-! ### The decoders of the stored form -/

/-- Numbers are read incrementally: the mark decides how many bytes follow. -/
lemma incremental_decodeNumber (k : NumberKind) : (decodeNumber k).Incremental := by
  refine (Decoder.Incremental.take 1).bind fun front => ?_
  have hwide : ∀ n, Decoder.Incremental (if n ≤ k.width then Bytes.toNatLittle <$> Decoder.take n
      else throw (.invalidIntegerType k front.toNatLittle)) := by
    intro n
    split
    · exact (Decoder.Incremental.take n).map Bytes.toNatLittle
    · exact Decoder.Incremental.throw _
  dsimp only
  split
  · exact Decoder.Incremental.pure _
  split
  · exact hwide 2
  split
  · exact hwide 4
  split
  · exact hwide 8
  · exact Decoder.Incremental.throw _

/-- Words of 32 bits are read incrementally. -/
lemma incremental_decodeWord32 : decodeWord32.Incremental :=
  (incremental_decodeNumber .word32).map _

/-- Words of 64 bits are read incrementally. -/
lemma incremental_decodeWord64 : decodeWord64.Incremental :=
  (incremental_decodeNumber .word64).map _

/-- Indices of outputs are read incrementally. -/
lemma incremental_decodeIndex : decodeIndex.Incremental :=
  (incremental_decodeNumber .index).map _

/-- Signed words are read incrementally. -/
lemma incremental_decodeSigned64 : decodeSigned64.Incremental :=
  (incremental_decodeNumber .signed64).map _

/-- Byte strings are read incrementally. -/
lemma incremental_decodeBytes : decodeBytes.Incremental :=
  (incremental_decodeNumber .word64).bind Decoder.Incremental.take

/-- Texts are read incrementally: their bytes are judged once they are all there. -/
lemma incremental_decodeText : decodeText.Incremental := by
  refine incremental_decodeBytes.bind fun bs => ?_
  split
  · exact Decoder.Incremental.pure _
  · exact Decoder.Incremental.throw _

/-- Lists are read incrementally if their items are. -/
lemma incremental_decodeList {α : Type} {d : Decoder α} (hd : d.Incremental) :
    (decodeList d).Incremental :=
  (incremental_decodeNumber .word64).bind hd.many

/-- Inputs are read incrementally. -/
lemma incremental_decodeInput : decodeInput.Incremental :=
  incremental_decodeBytes.bind fun _ => incremental_decodeIndex.bind fun _ =>
    incremental_decodeBytes.bind fun _ => incremental_decodeBytes.map _

/-- Outputs are read incrementally. -/
lemma incremental_decodeOutput : decodeOutput.Incremental :=
  incremental_decodeWord64.bind fun _ => incremental_decodeBytes.map _

/-- Transactions are read incrementally. -/
lemma incremental_decodeTransaction : decodeTransaction.Incremental :=
  incremental_decodeBytes.bind fun _ =>
    (incremental_decodeList incremental_decodeInput).bind fun _ =>
    (incremental_decodeList incremental_decodeOutput).bind fun _ =>
    incremental_decodeBytes.map _

/-- Headers are read incrementally. -/
lemma incremental_decodeHeader : decodeHeader.Incremental :=
  incremental_decodeWord32.bind fun _ => incremental_decodeText.bind fun _ =>
    incremental_decodeBytes.bind fun _ => incremental_decodeWord64.bind fun _ =>
    incremental_decodeSigned64.bind fun _ => incremental_decodeWord32.bind fun _ =>
    incremental_decodeWord64.map _

/-- Blocks are read incrementally. -/
lemma incremental_decodeBlock : decodeBlock.Incremental :=
  incremental_decodeHeader.bind fun _ =>
    (incremental_decodeList incremental_decodeTransaction).bind fun _ =>
    incremental_decodeText.map _

/-! ### Self-delimiting forms -/

/-- The form tells where it ends: a value that fits is had back whatever follows its form, and is
not had from less than the whole of it. -/
structure SelfDelimiting {α : Type} (encode : α → Bytes) (d : Decoder α) (Fits : α → Prop) :
    Prop where
  /-- Reading undoes writing, whatever follows. -/
  read_append : ∀ a, Fits a → ∀ tail, DurableStore.read d (encode a ++ tail) = .ok a
  /-- A form that is cut short cannot be read. -/
  read_cut : ∀ a, Fits a → ∀ front, front <+: encode a → front ≠ encode a → ∃ missing,
    DurableStore.read d front = .error (.serialization (.unreadable (.unexpectedEnd missing)))
  /-- Different values have different forms. -/
  injective : ∀ a b, Fits a → Fits b → encode a = encode b → a = b
  /-- No form is a proper beginning of another. -/
  prefixFree : ∀ a b, Fits a → Fits b → encode a <+: encode b → encode a = encode b

/-- A form is self-delimiting if its decoder reads it and is incremental. -/
lemma SelfDelimiting.of_reads {α : Type} {encode : α → Bytes} {d : Decoder α} {Fits : α → Prop}
    (hreads : ∀ a, Fits a → d.Reads (encode a) a) (hd : d.Incremental) :
    SelfDelimiting encode d Fits where
  read_append a ha tail := by
    have hrun := hreads a ha tail
    simp only [DurableStore.read, Decoder.value, hrun]
  read_cut a ha front hfront hne := by
    obtain ⟨missing, hrun⟩ := (hreads a ha).starves hd hfront hne
    exact ⟨missing, by simp only [DurableStore.read, Decoder.value, hrun]⟩
  injective a b ha hb heq := (hreads a ha).inj (heq ▸ hreads b hb)
  prefixFree a b ha hb hbegins := by
    by_contra hne
    obtain ⟨missing, hrun⟩ := (hreads b hb).starves hd hbegins hne
    have hwhole := hreads a ha []
    rw [List.append_nil, hrun] at hwhole
    cases hwhole

/-- The stored forms of transactions, headers and blocks are self-delimiting: reading undoes
writing whatever bytes follow, every strict beginning of a stored form is refused, different values
have different stored forms, and none of these is a proper beginning of another. The values that
fit are those a machine can hold: each of their lists has a length that is a 64-bit word. -/
theorem stored_forms_selfDelimiting :
    SelfDelimiting encodeTransaction decodeTransaction Transaction.Fits ∧
    SelfDelimiting encodeHeader decodeHeader Header.Fits ∧
    SelfDelimiting encodeBlock decodeBlock Block.Fits :=
  ⟨.of_reads (fun _ => reads_encodeTransaction) incremental_decodeTransaction,
    .of_reads (fun _ => reads_encodeHeader) incremental_decodeHeader,
    .of_reads (fun _ => reads_encodeBlock) incremental_decodeBlock⟩

/-- A block whose numbers lie at the ends of the forms that numbers are written in. -/
def extremes : Block where
  header := ⟨4294967295, "größe", [0, 255], 18446744073709551615, Int64.minValue, 65535, 4294967296⟩
  transactions := [⟨[], [⟨⟨[1], 251⟩, [], List.replicate 251 7⟩],
    [⟨250, []⟩, ⟨65536, List.replicate 250 253⟩], []⟩]
  hash := ""

/-- The block is had back although its numbers come next to each other's marks, and is not had
without its last byte. -/
theorem stored_forms_selfDelimiting_of_extremes :
    extremes.Fits ∧
    DurableStore.read decodeBlock (encodeBlock extremes ++ [251]) = .ok extremes ∧
    ∃ missing, DurableStore.read decodeBlock (encodeBlock extremes).dropLast =
      .error (.serialization (.unreadable (.unexpectedEnd missing))) := by
  have hfits : extremes.Fits := by decide +kernel
  have hform := stored_forms_selfDelimiting.2.2
  refine ⟨hfits, hform.read_append extremes hfits [251], ?_⟩
  exact hform.read_cut extremes hfits _ (List.dropLast_prefix _) (by decide +kernel)

end Codec

end PowLedger
