import Mathlib.Data.List.Basic
import Mathlib.Tactic.Common
import Mathlib.Tactic.Lemma
import PowLedger.Block
import PowLedger.Proofs.Bytes
import PowLedger.Proofs.Text.Utf8

/-!
# What the assembled bytes of a header say

Five of the seven fields of a header are numbers of fixed width, and these can be read off the
assembled bytes. Between the version and the height stand the previous hash and the root, without a
length and without a separator: the bytes say what the two are together, `Header.Agrees`, but not
where the one ends and the other begins. So the headers with the bytes of a given header are those
that come of it when a text moves over this boundary (`Header.assemble_eq_iff`); nothing can move
once either of the two has a known length, as roots have.
-/

namespace PowLedger

namespace Header

/-- The headers have the same numbers, and the same bytes of previous hash and root together. -/
structure Agrees (h k : Header) : Prop where
  version : h.version = k.version
  link : Utf8.encode h.previous ++ h.merkleRoot = Utf8.encode k.previous ++ k.merkleRoot
  height : h.height = k.height
  timestamp : h.timestamp = k.timestamp
  target : h.target = k.target
  nonce : h.nonce = k.nonce

/-- The second header is the first one with the text moved from the front of the root to the end of
the previous hash. -/
structure Moves (text : String) (h k : Header) : Prop where
  root : h.merkleRoot = Utf8.encode text ++ k.merkleRoot
  rest : k = { h with previous := h.previous ++ text, merkleRoot := k.merkleRoot }

variable {h k : Header} {text : String}

/-- The assembled bytes of two headers are equal just when the headers agree. -/
lemma assemble_eq_iff_agrees : h.assemble = k.assemble ↔ h.Agrees k := by
  simp only [assemble, assembleWith, assembleFront]
  constructor
  · intro heq
    -- The fields behind the root have known lengths: take them off from the end.
    obtain ⟨heq, hnonce⟩ := List.append_inj' heq (by simp)
    obtain ⟨heq, htarget⟩ := List.append_inj' heq (by simp)
    obtain ⟨heq, htime⟩ := List.append_inj' heq (by simp)
    obtain ⟨heq, hheight⟩ := List.append_inj' heq (by simp)
    rw [List.append_assoc, List.append_assoc] at heq
    obtain ⟨hversion, hlink⟩ := List.append_inj heq (by simp)
    have htimestamp : h.timestamp = k.timestamp := by
      simpa using congrArg UInt64.toInt64 (bigEndian_word64_inj htime)
    exact ⟨bigEndian_word32_inj hversion, hlink, bigEndian_word64_inj hheight, htimestamp,
      bigEndian_word32_inj htarget, bigEndian_word64_inj hnonce⟩
  · intro hagrees
    simp only [List.append_assoc, hagrees.version, hagrees.height, hagrees.timestamp,
      hagrees.target, hagrees.nonce]
    simp only [← List.append_assoc (Utf8.encode _), hagrees.link]

lemma Agrees.symm (hagrees : h.Agrees k) : k.Agrees h where
  version := hagrees.version.symm
  link := hagrees.link.symm
  height := hagrees.height.symm
  timestamp := hagrees.timestamp.symm
  target := hagrees.target.symm
  nonce := hagrees.nonce.symm

/-! ### The boundary -/

/-- Headers that agree are equal if they name one block before them. -/
lemma Agrees.eq_of_previous (hagrees : h.Agrees k) (hprevious : h.previous = k.previous) :
    h = k := by
  have hroot : h.merkleRoot = k.merkleRoot := by
    have hlink := hagrees.link
    rw [hprevious] at hlink
    exact List.append_cancel_left hlink
  calc
    h = ⟨h.version, h.previous, h.merkleRoot, h.height, h.timestamp, h.target, h.nonce⟩ := rfl
    _ = ⟨k.version, k.previous, k.merkleRoot, k.height, k.timestamp, k.target, k.nonce⟩ := by
      rw [hagrees.version, hprevious, hroot, hagrees.height, hagrees.timestamp, hagrees.target,
        hagrees.nonce]
    _ = k := rfl

/-- Headers that agree are equal if the previous hashes they name have as many bytes. -/
lemma Agrees.eq_of_length_previous (hagrees : h.Agrees k)
    (hlen : (Utf8.encode h.previous).length = (Utf8.encode k.previous).length) : h = k :=
  hagrees.eq_of_previous (Utf8.encode_injective (List.append_inj hagrees.link hlen).1)

/-- Headers that agree are equal if their roots have as many bytes. -/
lemma Agrees.eq_of_length_root (hagrees : h.Agrees k)
    (hlen : h.merkleRoot.length = k.merkleRoot.length) : h = k :=
  hagrees.eq_of_previous (Utf8.encode_injective (List.append_inj' hagrees.link hlen).1)

/-- A text that moves changes no byte. -/
lemma Moves.agrees (hmoves : Moves text h k) : h.Agrees k := by
  obtain ⟨hroot, hrest⟩ := hmoves
  rw [hrest]
  exact
    { version := rfl
      link := by rw [Utf8.encode_append, List.append_assoc, ← hroot]
      height := rfl
      timestamp := rfl
      target := rfl
      nonce := rfl }

/-- If some bytes behind the previous hash of the first header end that of the second one, then they
are a text that has moved. -/
lemma Agrees.moves {bytes : Bytes} (hagrees : h.Agrees k)
    (hprevious : Utf8.encode k.previous = Utf8.encode h.previous ++ bytes)
    (hroot : h.merkleRoot = bytes ++ k.merkleRoot) : ∃ text, Moves text h k := by
  obtain ⟨text, htext, rfl⟩ := Utf8.exists_text_of_append hprevious.symm
  refine ⟨text, hroot, Agrees.eq_of_previous ?_ htext⟩
  exact { hagrees.symm with link := by rw [htext] }

/-- Headers agree just when a text moves from the root of one of them to its previous hash. -/
lemma agrees_iff_moves : h.Agrees k ↔ ∃ text, Moves text h k ∨ Moves text k h := by
  constructor
  · intro hagrees
    -- One of the previous hashes is the front of the other one.
    rcases List.append_eq_append_iff.mp hagrees.link with
      ⟨bytes, hprevious, hroot⟩ | ⟨bytes, hprevious, hroot⟩
    · obtain ⟨text, hmoves⟩ := hagrees.moves hprevious hroot
      exact ⟨text, .inl hmoves⟩
    · obtain ⟨text, hmoves⟩ := hagrees.symm.moves hprevious hroot
      exact ⟨text, .inr hmoves⟩
  · rintro ⟨text, hmoves | hmoves⟩
    · exact hmoves.agrees
    · exact hmoves.agrees.symm

/-- The assembled bytes of a header determine it, as far as roots have one length. -/
theorem assemble_inj (hroot : h.merkleRoot.length = k.merkleRoot.length)
    (heq : h.assemble = k.assemble) : h = k :=
  (assemble_eq_iff_agrees.mp heq).eq_of_length_root hroot

/-- The assembled bytes of two headers are equal just when one of them is the other with a text
moved from the front of the root to the end of the previous hash. So they determine a header as soon
as the length of either of the two is known, and all of its other fields anyway. -/
theorem assemble_eq_iff (h k : Header) :
    (h.assemble = k.assemble ↔ ∃ text, Moves text h k ∨ Moves text k h) ∧
    (h = k ↔ h.assemble = k.assemble ∧
      ((Utf8.encode h.previous).length = (Utf8.encode k.previous).length ∨
        h.merkleRoot.length = k.merkleRoot.length)) := by
  refine ⟨assemble_eq_iff_agrees.trans agrees_iff_moves, ?_, ?_⟩
  · rintro rfl
    exact ⟨rfl, .inl rfl⟩
  · rintro ⟨heq, hprevious | hroot⟩
    · exact (assemble_eq_iff_agrees.mp heq).eq_of_length_previous hprevious
    · exact assemble_inj hroot heq

end Header

namespace Sample

/-- A first header, whose root begins like a text. -/
def whole : Header :=
  ⟨1, "", [97, 98], 0, 0, 0, 0⟩

/-- The header with the text moved out of its root. -/
def shifted : Header :=
  ⟨1, "a", [98], 0, 0, 0, 0⟩

/-- A first header and one that is none have the same assembled bytes. -/
theorem assemble_whole_eq_shifted :
    whole.assemble = shifted.assemble ∧ whole ≠ shifted ∧
      whole.isGenesis = true ∧ shifted.isGenesis = false := by
  decide

end Sample

end PowLedger
