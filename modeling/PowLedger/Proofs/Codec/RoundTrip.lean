import Mathlib.Data.List.Basic
import Mathlib.Tactic.Common
import PowLedger.Codec.Record
import PowLedger.Proofs.Bytes
import PowLedger.Proofs.Text.Utf8

/-!
# Round trip of the stored form

A decoder reads a value off its stored form and leaves whatever follows, `Decoder.Reads`. The
relation is closed under the ways in which decoders are built, so each record is read field by
field. Main statements: `reads_encodeTransaction`, `reads_encodeHeader`, `reads_encodeBlock`, and
`encodeTransaction_inj`, by which a transaction can be told from its stored form.

The length of a list is written as a 64-bit word. Every list in memory is short enough for that;
`Transaction.Fits`, `Header.Fits` and `Block.Fits` say so of a record.
-/

namespace PowLedger

/-! ### Reading a value and leaving the rest -/

/-- On every byte string that starts with `front`, the decoder takes `front` off and gives `a`. -/
def Decoder.Reads {α : Type} (d : Decoder α) (front : Bytes) (a : α) : Prop :=
  ∀ rest, d.run (front ++ rest) = .ok (a, rest)

namespace Decoder

variable {α β : Type}

/-- A decoder that reads nothing gives its value anywhere. -/
theorem Reads.pure (a : α) : (Pure.pure a : Decoder α).Reads [] a := by
  intro rest
  rfl

/-- Decoders in sequence read values that stand side by side. -/
theorem Reads.bind {d : Decoder α} {f : α → Decoder β} {x y : Bytes} {a : α} {b : β}
    (hd : d.Reads x a) (hf : (f a).Reads y b) : (d >>= f).Reads (x ++ y) b := by
  intro rest
  have hrun : (d >>= f).run (x ++ y ++ rest) =
      d.run (x ++ (y ++ rest)) >>= fun p => (f p.1).run p.2 := by
    rw [List.append_assoc]
    rfl
  rw [hrun, hd]
  exact hf rest

/-- The last of several decoders may read everything that is left of the value. -/
theorem Reads.bind_pure {d : Decoder α} {f : α → Decoder β} {x : Bytes} {a : α} {b : β}
    (hd : d.Reads x a) (hf : f a = Pure.pure b) : (d >>= f).Reads x b := by
  have hrest : (f a).Reads [] b := hf ▸ Reads.pure b
  simpa using hd.bind hrest

/-- A function of the value read. -/
theorem Reads.map {d : Decoder α} {x : Bytes} {a : α} (f : α → β) (hd : d.Reads x a) :
    (f <$> d).Reads x (f a) := by
  intro rest
  have hrun : (f <$> d).run (x ++ rest) = d.run (x ++ rest) >>= fun p => .ok (f p.1, p.2) := rfl
  rw [hrun, hd]
  rfl

/-- What is read off the whole of a byte string is its value. -/
theorem Reads.value {d : Decoder α} {x : Bytes} {a : α} (hd : d.Reads x a) :
    d.value x = .ok a := by
  have hrun := hd []
  rw [List.append_nil] at hrun
  rw [Decoder.value, hrun]

/-- A value can be told from what it is read off. -/
theorem Reads.inj {d : Decoder α} {x : Bytes} {a b : α} (ha : d.Reads x a) (hb : d.Reads x b) :
    a = b := by
  have heq := ha.value
  rw [hb.value] at heq
  exact (Except.ok.inj heq).symm

/-- Splitting off as many bytes as a string has gives that string. -/
theorem split_length (front rest : Bytes) :
    split front.length (front ++ rest) = .ok (front, rest) := by
  induction front with
  | nil => rfl
  | cons b front ih => simp [split, ih]

/-- A read of `n` bytes takes off a byte string of that length. -/
theorem Reads.take {n : Nat} {front : Bytes} (h : front.length = n) :
    (Decoder.take n).Reads front front := by
  subst h
  intro rest
  show Decoder.take front.length (front ++ rest) = _
  rw [Decoder.take, split_length]

/-- Values of one kind that stand side by side are read one after the other. -/
theorem Reads.many {d : Decoder α} {encode : α → Bytes} {l : List α}
    (h : ∀ a ∈ l, d.Reads (encode a) a) : (Decoder.many d l.length).Reads (l.flatMap encode) l := by
  induction l with
  | nil => exact Reads.pure []
  | cons a l ih =>
    have hrest := ih fun b hb => h b (List.mem_cons_of_mem _ hb)
    exact (h a List.mem_cons_self).bind (hrest.bind_pure rfl)

end Decoder

/-! ### Lengths that are words -/

/-- A list that is not longer than a list in memory can be: its length is a 64-bit word. -/
abbrev Counted {α : Type} (l : List α) : Prop :=
  l.length < UInt64.size

/-- The byte strings of an input have lengths that are words. -/
structure TxInput.Fits (i : TxInput) : Prop where
  txid : Counted i.source.txid
  signature : Counted i.signature
  publicKey : Counted i.publicKey

/-- The lists of a transaction, and those in its inputs and outputs, have lengths that are words. -/
structure Transaction.Fits (tx : Transaction) : Prop where
  id : Counted tx.id
  inputs : Counted tx.inputs
  outputs : Counted tx.outputs
  coinbaseData : Counted tx.coinbaseData
  eachInput : ∀ i ∈ tx.inputs, i.Fits
  eachLock : ∀ o ∈ tx.outputs, Counted o.lock

/-- The byte strings of a header have lengths that are words. -/
structure Header.Fits (h : Header) : Prop where
  previous : Counted (Utf8.encode h.previous)
  merkleRoot : Counted h.merkleRoot

/-- The lists of a block have lengths that are words. -/
structure Block.Fits (b : Block) : Prop where
  header : b.header.Fits
  transactions : Counted b.transactions
  eachTransaction : ∀ tx ∈ b.transactions, tx.Fits
  hash : Counted (Utf8.encode b.hash)

instance (i : TxInput) : Decidable i.Fits :=
  decidable_of_iff (Counted i.source.txid ∧ Counted i.signature ∧ Counted i.publicKey)
    ⟨fun h => ⟨h.1, h.2.1, h.2.2⟩, fun h => ⟨h.txid, h.signature, h.publicKey⟩⟩

instance (tx : Transaction) : Decidable tx.Fits :=
  decidable_of_iff (Counted tx.id ∧ Counted tx.inputs ∧ Counted tx.outputs ∧
      Counted tx.coinbaseData ∧ (∀ i ∈ tx.inputs, i.Fits) ∧ ∀ o ∈ tx.outputs, Counted o.lock)
    ⟨fun ⟨hid, hin, hout, hdata, hi, ho⟩ => ⟨hid, hin, hout, hdata, hi, ho⟩,
      fun h => ⟨h.id, h.inputs, h.outputs, h.coinbaseData, h.eachInput, h.eachLock⟩⟩

instance (h : Header) : Decidable h.Fits :=
  decidable_of_iff (Counted (Utf8.encode h.previous) ∧ Counted h.merkleRoot)
    ⟨fun ⟨hprev, hroot⟩ => ⟨hprev, hroot⟩, fun h => ⟨h.previous, h.merkleRoot⟩⟩

instance (b : Block) : Decidable b.Fits :=
  decidable_of_iff (b.header.Fits ∧ Counted b.transactions ∧ (∀ tx ∈ b.transactions, tx.Fits) ∧
      Counted (Utf8.encode b.hash))
    ⟨fun ⟨hh, ht, hts, hhash⟩ => ⟨hh, ht, hts, hhash⟩,
      fun h => ⟨h.header, h.transactions, h.eachTransaction, h.hash⟩⟩

namespace Codec

/-! ### Numbers -/

/-- A number up to 250 is read off its one byte. -/
theorem reads_decodeNumber_small {k : NumberKind} {n : Nat} (h : n ≤ 250) :
    (decodeNumber k).Reads [UInt8.ofNat n] n := by
  have hmark : Bytes.toNatLittle [UInt8.ofNat n] = n := by
    simp [Bytes.toNatLittle]; omega
  have hfront : (Decoder.take 1).Reads [UInt8.ofNat n] [UInt8.ofNat n] := Decoder.Reads.take rfl
  refine hfront.bind_pure ?_
  simp only [hmark, h, if_true]

/-- A greater number is read off its mark and the bytes that the mark announces. -/
theorem reads_decodeNumber_wide {k : NumberKind} {size n : Nat} {mark : UInt8}
    (hmark : mark = 251 ∧ size = 2 ∨ mark = 252 ∧ size = 4 ∨ mark = 253 ∧ size = 8)
    (hsize : size ≤ k.width) (hn : n < 256 ^ size) :
    (decodeNumber k).Reads (mark :: littleEndian size n) n := by
  have hvalue : (littleEndian size n).toNatLittle = n := by
    rw [toNatLittle_littleEndian, Nat.mod_eq_of_lt hn]
  have hbody : (Bytes.toNatLittle <$> Decoder.take size).Reads (littleEndian size n) n := by
    have hread := (Decoder.Reads.take (length_littleEndian size n)).map Bytes.toNatLittle
    rwa [hvalue] at hread
  have hfront : (Decoder.take 1).Reads [mark] [mark] := Decoder.Reads.take rfl
  refine hfront.bind ?_
  rcases hmark with ⟨rfl, rfl⟩ | ⟨rfl, rfl⟩ | ⟨rfl, rfl⟩
  · simpa [Bytes.toNatLittle, hsize] using hbody
  · simpa [Bytes.toNatLittle, hsize] using hbody
  · simpa [Bytes.toNatLittle, hsize] using hbody

/-- The widest form of a number has four or eight bytes. -/
theorem width_eq (k : NumberKind) : k.width = 4 ∨ k.width = 8 := by
  cases k <;> simp [NumberKind.width]

/-- A number is read off its shortest form as one of every kind that is wide enough. -/
theorem reads_encodeNumber {k : NumberKind} {n : Nat} (hn : n < 256 ^ k.width) :
    (decodeNumber k).Reads (encodeNumber n) n := by
  have hwidth := width_eq k
  unfold encodeNumber
  split
  · next h => exact reads_decodeNumber_small h
  split
  · next h =>
    exact reads_decodeNumber_wide (by simp) (by omega) (by simpa [UInt16.size] using h)
  split
  · next h =>
    exact reads_decodeNumber_wide (by simp) (by omega) (by simpa [UInt32.size] using h)
  · next h =>
    have h8 : k.width = 8 := by
      refine hwidth.resolve_left fun h4 => ?_
      rw [h4] at hn
      exact h hn
    rw [h8] at hn
    exact reads_decodeNumber_wide (by simp) (Nat.le_of_eq h8.symm) hn

/-- The length of a list that fits is read off its form. -/
theorem reads_length {α : Type} {l : List α} (h : Counted l) :
    (decodeNumber .word64).Reads (encodeNumber l.length) l.length :=
  reads_encodeNumber h

/-- A 64-bit word is read off its form as a number of a kind with that width. -/
theorem reads_word64 {k : NumberKind} (hk : k.width = 8) (w : UInt64) :
    (UInt64.ofNat <$> decodeNumber k).Reads (encodeNumber w.toNat) w := by
  have hlt : w.toNat < 256 ^ k.width := hk.symm ▸ w.toNat_lt
  have hread := (reads_encodeNumber hlt).map UInt64.ofNat
  rwa [UInt64.ofNat_toNat] at hread

/-- A 32-bit word is read off its form. -/
theorem reads_word32 (w : UInt32) : decodeWord32.Reads (encodeNumber w.toNat) w := by
  have hread := (reads_encodeNumber (k := .word32) w.toNat_lt).map UInt32.ofNat
  rwa [UInt32.ofNat_toNat] at hread

/-- Unfolding gives back the number that was folded. -/
theorem unfold_fold (n : Int) : unfold (fold n) = n := by
  unfold unfold fold
  split <;> split <;> omega

/-- A signed word of 64 bits is folded onto a number below `2 ^ 64`. -/
theorem fold_toInt_lt (w : Int64) : fold w.toInt < 256 ^ 8 := by
  have hlow := w.le_toInt
  have hhigh := w.toInt_lt
  unfold fold
  split <;> omega

/-- A signed 64-bit word is read off its form. -/
theorem reads_signed64 (w : Int64) : decodeSigned64.Reads (encodeNumber (fold w.toInt)) w := by
  have hread := (reads_encodeNumber (k := .signed64) (fold_toInt_lt w)).map
    fun n => Int64.ofInt (unfold n)
  rwa [unfold_fold, Int64.ofInt_toInt] at hread

/-! ### Byte strings, texts and lists -/

/-- A byte string is read off its form. -/
theorem reads_encodeBytes {bs : Bytes} (h : Counted bs) : decodeBytes.Reads (encodeBytes bs) bs :=
  (reads_length h).bind (Decoder.Reads.take rfl)

/-- A text is read off its form. -/
theorem reads_encodeText {s : String} (h : Counted (Utf8.encode s)) :
    decodeText.Reads (encodeText s) s := by
  refine (reads_encodeBytes h).bind_pure ?_
  rw [Utf8.decode_encode]

/-- A list is read off its form if each of its items is. -/
theorem reads_encodeList {α : Type} {d : Decoder α} {encode : α → Bytes} {l : List α}
    (h : Counted l) (hitem : ∀ a ∈ l, d.Reads (encode a) a) :
    (decodeList d).Reads (encodeList encode l) l :=
  (reads_length h).bind (Decoder.Reads.many hitem)

/-! ### Records -/

/-- An input is read off its stored form. -/
theorem reads_encodeInput {i : TxInput} (h : i.Fits) : decodeInput.Reads (encodeInput i) i := by
  unfold encodeInput
  simp only [List.append_assoc]
  exact (reads_encodeBytes h.txid).bind <| (reads_word64 rfl i.source.index).bind <|
    (reads_encodeBytes h.signature).bind <| (reads_encodeBytes h.publicKey).bind_pure rfl

/-- An output is read off its stored form. -/
theorem reads_encodeOutput {o : TxOutput} (h : Counted o.lock) :
    decodeOutput.Reads (encodeOutput o) o :=
  (reads_word64 rfl o.value).bind <| (reads_encodeBytes h).bind_pure rfl

/-- A transaction is read off its stored form. -/
theorem reads_encodeTransaction {tx : Transaction} (h : tx.Fits) :
    decodeTransaction.Reads (encodeTransaction tx) tx := by
  unfold encodeTransaction
  simp only [List.append_assoc]
  exact (reads_encodeBytes h.id).bind <|
    (reads_encodeList h.inputs fun i hi => reads_encodeInput (h.eachInput i hi)).bind <|
    (reads_encodeList h.outputs fun o ho => reads_encodeOutput (h.eachLock o ho)).bind <|
    (reads_encodeBytes h.coinbaseData).bind_pure rfl

/-- A header is read off its stored form. -/
theorem reads_encodeHeader {h : Header} (hfits : h.Fits) :
    decodeHeader.Reads (encodeHeader h) h := by
  unfold encodeHeader
  simp only [List.append_assoc]
  exact (reads_word32 h.version).bind <| (reads_encodeText hfits.previous).bind <|
    (reads_encodeBytes hfits.merkleRoot).bind <| (reads_word64 rfl h.height).bind <|
    (reads_signed64 h.timestamp).bind <| (reads_word32 h.target).bind <|
    (reads_word64 rfl h.nonce).bind_pure rfl

/-- A block is read off its stored form. -/
theorem reads_encodeBlock {b : Block} (h : b.Fits) : decodeBlock.Reads (encodeBlock b) b := by
  unfold encodeBlock
  simp only [List.append_assoc]
  exact (reads_encodeHeader h.header).bind <|
    (reads_encodeList h.transactions fun tx htx =>
      reads_encodeTransaction (h.eachTransaction tx htx)).bind <|
    (reads_encodeText h.hash).bind_pure rfl

/-- Two transactions with one stored form are equal. -/
theorem encodeTransaction_inj {s t : Transaction} (hs : s.Fits) (ht : t.Fits)
    (h : encodeTransaction s = encodeTransaction t) : s = t :=
  (reads_encodeTransaction hs).inj (h ▸ reads_encodeTransaction ht)

end Codec

end PowLedger
