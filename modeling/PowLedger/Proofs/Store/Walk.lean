import Mathlib.Data.List.Chain
import Mathlib.Data.List.Perm.Subperm
import Mathlib.Logic.Relation
import Mathlib.Tactic.Common
import Mathlib.Tactic.Lemma
import PowLedger.Proofs.Store.Law
import PowLedger.Store.Walk

/-!
# When the walk over the headers ends

Nobody checks what a store holds before the headers in it are walked back, so the hashes that they
name may lead anywhere. The walk either ends, at a header that names none before it or at a hash
without header (`Walk.Ends`), or it gets to a hash that leads back to itself (`Walk.Circles`), and
on a store with finitely many headers one of the two is always the case (`Walk.ends_or_circles`). A
walk that ends comes to no hash twice, so it has at most one item more than there are headers; one
that circles goes on without end, and finds a header at each of its steps.

Looking at as many steps as there may be headers, and one more, tells which it is
(`Walk.collect?_eq_some_iff`, `Walk.collect?_eq_none_iff`).
-/

namespace PowLedger

namespace Walk

open Relation

variable {σ : Type} [Storage σ] {s : σ} {k k' : String} {h : Header} {f : Fault}
  {found found' : List (String × Header)} {r r' : Option Fault} {limit : Nat}

/-- The header under the first hash names the second one. -/
def Leads (s : σ) (k k' : String) : Prop :=
  ∃ h, Storage.header s k = .ok h ∧ h.isGenesis = false ∧ h.previous = k'

/-- The walk from a hash ends, with the headers that it finds, newest first, and the fault at which
it stops if it does not get to a first header. -/
inductive Ends (s : σ) : String → List (String × Header) → Option Fault → Prop
  | fault {k : String} {f : Fault} : Storage.header s k = .error f → Ends s k [] (some f)
  | first {k : String} {h : Header} :
    Storage.header s k = .ok h → h.isGenesis = true → Ends s k [(k, h)] none
  | back {k : String} {h : Header} {found : List (String × Header)} {r : Option Fault} :
    Storage.header s k = .ok h → h.isGenesis = false → Ends s h.previous found r →
    Ends s k ((k, h) :: found) r

/-- The walk from a hash gets to one that leads back to itself. -/
def Circles (s : σ) (k : String) : Prop :=
  ∃ c, ReflTransGen (Leads s) k c ∧ TransGen (Leads s) c c

/-- What a walk that ends collects: its headers, or the fault at which it stops. -/
def outcome (found : List (String × Header)) : Option Fault →
    Except Fault (List (String × Header))
  | none => .ok found
  | some f => .error f

/-! ### A walk that ends -/

/-- A walk ends in one way only. -/
lemma Ends.unique (hends : Ends s k found r) (hends' : Ends s k found' r') :
    found = found' ∧ r = r' := by
  induction hends generalizing found' r' with
  | fault hfault =>
    cases hends' with
    | fault hfault' =>
      rw [hfault] at hfault'
      cases hfault'
      exact ⟨rfl, rfl⟩
    | first hok _ | back hok _ _ =>
      rw [hfault] at hok
      cases hok
  | first hok hgenesis =>
    cases hends' with
    | fault hfault =>
      rw [hok] at hfault
      cases hfault
    | first hok' _ =>
      rw [hok] at hok'
      cases hok'
      exact ⟨rfl, rfl⟩
    | back hok' hlater _ =>
      rw [hok] at hok'
      cases hok'
      rw [hgenesis] at hlater
      cases hlater
  | back hok hlater _ ih =>
    cases hends' with
    | fault hfault =>
      rw [hok] at hfault
      cases hfault
    | first hok' hgenesis =>
      rw [hok] at hok'
      cases hok'
      rw [hlater] at hgenesis
      cases hgenesis
    | back hok' _ hrest =>
      rw [hok] at hok'
      cases hok'
      obtain ⟨rfl, rfl⟩ := ih hrest
      exact ⟨rfl, rfl⟩

/-- What a hash leads to is one header less away from the end. -/
lemma Ends.of_leads (hends : Ends s k found r) (hleads : Leads s k k') :
    ∃ rest, Ends s k' rest r ∧ rest.length < found.length := by
  obtain ⟨h, hok, hlater, rfl⟩ := hleads
  cases hends with
  | fault hfault =>
    rw [hok] at hfault
    cases hfault
  | first hok' hgenesis =>
    rw [hok] at hok'
    cases hok'
    rw [hlater] at hgenesis
    cases hgenesis
  | back hok' _ hrest =>
    rw [hok] at hok'
    cases hok'
    exact ⟨_, hrest, Nat.lt_succ_self _⟩

/-- So is what it leads to in several steps. -/
lemma Ends.of_transGen (hends : Ends s k found r) (hleads : TransGen (Leads s) k k') :
    ∃ rest, Ends s k' rest r ∧ rest.length < found.length := by
  induction hleads with
  | single hleads => exact hends.of_leads hleads
  | tail _ hleads ih =>
    obtain ⟨rest, hrest, hlt⟩ := ih
    obtain ⟨rest', hrest', hlt'⟩ := hrest.of_leads hleads
    exact ⟨rest', hrest', hlt'.trans hlt⟩

/-- A walk that ends does not circle. -/
theorem Ends.not_circles (hends : Ends s k found r) : ¬Circles s k := by
  rintro ⟨c, hreach, hcircle⟩
  obtain ⟨found, hends⟩ : ∃ found, Ends s c found r := by
    rcases reflTransGen_iff_eq_or_transGen.mp hreach with rfl | hreach
    · exact ⟨found, hends⟩
    · obtain ⟨rest, hrest, -⟩ := hends.of_transGen hreach
      exact ⟨rest, hrest⟩
  obtain ⟨rest, hrest, hlt⟩ := hends.of_transGen hcircle
  rw [(hends.unique hrest).1] at hlt
  exact hlt.false

/-- Every header found is the one under its hash, and the walk from there is a part of this one. -/
lemma Ends.of_mem (hends : Ends s k found r) {e : String × Header} (he : e ∈ found) :
    Storage.header s e.1 = .ok e.2 ∧ ReflTransGen (Leads s) k e.1 := by
  induction hends with
  | fault _ => cases he
  | first hok _ =>
    obtain rfl := List.mem_singleton.mp he
    exact ⟨hok, .refl⟩
  | back hok hlater _ ih =>
    rcases List.mem_cons.mp he with rfl | he
    · exact ⟨hok, .refl⟩
    · obtain ⟨hheader, hreach⟩ := ih he
      exact ⟨hheader, .head ⟨_, hok, hlater, rfl⟩ hreach⟩

/-- A walk that ends comes to no hash twice. -/
lemma Ends.nodup (hends : Ends s k found r) : (found.map Prod.fst).Nodup := by
  induction hends with
  | fault _ => exact List.nodup_nil
  | first _ _ => exact List.nodup_singleton _
  | back hok hlater hrest ih =>
    refine List.nodup_cons.mpr ⟨fun hmem => ?_, ih⟩
    obtain ⟨e, he, heq⟩ := List.mem_map.mp hmem
    have hcircle := TransGen.head' ⟨_, hok, hlater, rfl⟩ (heq ▸ (hrest.of_mem he).2)
    exact (Ends.back hok hlater hrest).not_circles ⟨_, .refl, hcircle⟩

/-- Each header found names the hash of the next one. -/
lemma Ends.linked (hends : Ends s k found r) :
    found.IsChain fun newer older => newer.2.previous = older.1 := by
  induction hends with
  | fault _ => exact .nil
  | first _ _ => exact .singleton _
  | back _ _ hrest ih =>
    cases hrest with
    | fault _ => exact .singleton _
    | first _ _ => exact .cons_cons rfl ih
    | back _ _ _ => exact .cons_cons rfl ih

/-- A walk without fault finds a first header at last. -/
lemma Ends.getLast? (hends : Ends s k found none) :
    ∃ e, found.getLast? = some e ∧ e.2.isGenesis = true := by
  generalize hr : none = r at hends
  induction hends with
  | fault _ => cases hr
  | first _ hgenesis => exact ⟨_, rfl, hgenesis⟩
  | back _ _ _ ih =>
    obtain ⟨e, hlast, hgenesis⟩ := ih hr
    exact ⟨e, by rw [List.getLast?_cons, hlast]; rfl, hgenesis⟩

/-- There are no more headers found than can be read. -/
lemma Ends.length_le (hends : Ends s k found r) {kept : List String}
    (hkept : ∀ j h, Storage.header s j = .ok h → j ∈ kept) : found.length ≤ kept.length := by
  have hsub : found.map Prod.fst ⊆ kept := fun j hj => by
    obtain ⟨e, he, rfl⟩ := List.mem_map.mp hj
    exact hkept _ _ (hends.of_mem he).1
  have hle := (List.subperm_of_subset hends.nodup hsub).length_le
  rwa [List.length_map] at hle

/-! ### One or the other -/

/-- What a hash that does not circle leads to does not circle either. -/
lemma not_circles_of_leads (hnot : ¬Circles s k) (hleads : Leads s k k') : ¬Circles s k' := by
  rintro ⟨c, hreach, hcircle⟩
  exact hnot ⟨c, .head hleads hreach, hcircle⟩

/-- A walk that has come past the hashes `seen`, and does not circle, ends. -/
lemma ends_of_not_circles_of_seen [Storage.Lawful σ] {seen : List String} (hnodup : seen.Nodup)
    (hread : ∀ j ∈ seen, ∃ h, Storage.header s j = .ok h)
    (hpast : ∀ j ∈ seen, TransGen (Leads s) j k) (hnot : ¬Circles s k) {left : Nat}
    (hleft : Storage.headerBound s < seen.length + left) : ∃ found r, Ends s k found r := by
  -- Each step adds a hash to those seen, and `left` says how many more there can be.
  induction left generalizing k seen with
  | zero =>
    have hbound := Storage.Lawful.length_le_headerBound hnodup hread
    omega
  | succ left ih =>
    cases hheader : Storage.header s k with
    | error f => exact ⟨[], some f, .fault hheader⟩
    | ok h =>
      cases hgenesis : h.isGenesis with
      | true => exact ⟨_, none, .first hheader hgenesis⟩
      | false =>
        have hleads : Leads s k h.previous := ⟨h, hheader, hgenesis, rfl⟩
        have hfresh : k ∉ seen := fun hmem => hnot ⟨k, .refl, hpast k hmem⟩
        have hread' : ∀ j ∈ k :: seen, ∃ h, Storage.header s j = .ok h :=
          List.forall_mem_cons.mpr ⟨⟨h, hheader⟩, hread⟩
        have hpast' : ∀ j ∈ k :: seen, TransGen (Leads s) j h.previous :=
          List.forall_mem_cons.mpr ⟨.single hleads, fun j hj => (hpast j hj).tail hleads⟩
        obtain ⟨found, r, hends⟩ := ih (List.nodup_cons.mpr ⟨hfresh, hnodup⟩) hread' hpast'
          (not_circles_of_leads hnot hleads) (by rw [List.length_cons]; omega)
        exact ⟨_, r, .back hheader hgenesis hends⟩

/-- A walk over a lawful store ends or circles. -/
theorem ends_or_circles [Storage.Lawful σ] (s : σ) (k : String) :
    (∃ found r, Ends s k found r) ∨ Circles s k := by
  by_cases hcircles : Circles s k
  · exact Or.inr hcircles
  · have hleft : Storage.headerBound s < 0 + (Storage.headerBound s + 1) := by omega
    exact Or.inl (ends_of_not_circles_of_seen List.nodup_nil (List.forall_mem_nil _)
      (List.forall_mem_nil _) hcircles hleft)

/-- A walk over a lawful store ends exactly if it does not circle. -/
lemma not_circles_iff [Storage.Lawful σ] : ¬Circles s k ↔ ∃ found r, Ends s k found r :=
  ⟨(ends_or_circles s k).resolve_right, fun ⟨_, _, hends⟩ => hends.not_circles⟩

/-! ### What is collected -/

/-- A walk that ends is collected within enough steps. -/
lemma Ends.collect (hends : Ends s k found r) (hlimit : found.length < limit) :
    collect s limit (some k) = some (outcome found r) := by
  induction hends generalizing limit with
  | fault hfault =>
    obtain ⟨limit, rfl⟩ := Nat.exists_eq_succ_of_ne_zero (Nat.ne_zero_of_lt hlimit)
    rw [Walk.collect, step, hfault]
    rfl
  | first hok hgenesis =>
    obtain ⟨limit, rfl⟩ := Nat.exists_eq_succ_of_ne_zero (Nat.ne_zero_of_lt hlimit)
    rw [Walk.collect, step, hok]
    simp [hgenesis, Walk.collect, outcome, Except.map]
  | @back _ _ _ r hok hlater _ ih =>
    obtain ⟨limit, rfl⟩ := Nat.exists_eq_succ_of_ne_zero (Nat.ne_zero_of_lt hlimit)
    rw [Walk.collect, step, hok]
    have hrest := ih (Nat.lt_of_succ_lt_succ hlimit)
    cases r <;> simp [hlater, hrest, outcome, Except.map]

/-- What is collected comes from a walk that ends. -/
lemma ends_of_collect {x : Except Fault (List (String × Header))}
    (hsome : collect s limit (some k) = some x) :
    ∃ found r, Ends s k found r ∧ x = outcome found r := by
  induction limit generalizing k x with
  | zero => cases hsome
  | succ limit ih =>
    rw [collect, step] at hsome
    cases hheader : Storage.header s k with
    | error f =>
      simp only [hheader] at hsome
      cases hsome
      exact ⟨[], some f, .fault hheader, rfl⟩
    | ok h =>
      simp only [hheader] at hsome
      cases hgenesis : h.isGenesis with
      | true =>
        simp only [hgenesis, if_true, collect] at hsome
        cases hsome
        exact ⟨_, none, .first hheader hgenesis, rfl⟩
      | false =>
        simp only [hgenesis, Bool.false_eq_true, if_false] at hsome
        obtain ⟨y, hrest, rfl⟩ := Option.map_eq_some_iff.mp hsome
        obtain ⟨found, r, hends, rfl⟩ := ih hrest
        refine ⟨_, r, .back hheader hgenesis hends, ?_⟩
        cases r <;> rfl

/-- The headers of a walk are collected exactly if it ends. -/
theorem collect?_eq_some_iff [Storage.Lawful σ] {x : Except Fault (List (String × Header))} :
    collect? s k = some x ↔ ∃ found r, Ends s k found r ∧ x = outcome found r := by
  refine ⟨ends_of_collect, ?_⟩
  rintro ⟨found, r, hends, rfl⟩
  have hread : ∀ j ∈ found.map Prod.fst, ∃ h, Storage.header s j = .ok h := fun j hj => by
    obtain ⟨e, he, rfl⟩ := List.mem_map.mp hj
    exact ⟨e.2, (hends.of_mem he).1⟩
  have hbound := Storage.Lawful.length_le_headerBound hends.nodup hread
  rw [List.length_map] at hbound
  exact hends.collect (Nat.lt_succ_of_le hbound)

/-- Nothing is ever collected exactly if the walk circles. -/
theorem collect?_eq_none_iff [Storage.Lawful σ] : collect? s k = none ↔ Circles s k := by
  constructor
  · intro hnone
    by_contra hnot
    obtain ⟨found, r, hends⟩ := not_circles_iff.mp hnot
    have hsome := collect?_eq_some_iff.mpr ⟨found, r, hends, rfl⟩
    rw [hnone] at hsome
    cases hsome
  · intro hcircles
    by_contra hsome
    obtain ⟨x, hx⟩ := Option.ne_none_iff_exists'.mp hsome
    obtain ⟨found, r, hends, -⟩ := collect?_eq_some_iff.mp hx
    exact hends.not_circles hcircles

/-! ### The items -/

/-- A walk that ends has the items of its end, as far as one looks. -/
lemma Ends.items_eq (hends : Ends s k found r) (limit : Nat) :
    items s limit (some k) = (found.map Except.ok ++ r.toList.map Except.error).take limit := by
  induction hends generalizing limit with
  | fault hfault =>
    cases limit with
    | zero => rfl
    | succ limit => cases limit <;> simp [items, step, hfault]
  | first hok hgenesis =>
    cases limit with
    | zero => rfl
    | succ limit => cases limit <;> simp [items, step, hok, hgenesis]
  | back hok hlater _ ih =>
    cases limit with
    | zero => rfl
    | succ limit => simp [items, step, hok, hlater, ih]

/-- A hash that circles leads to another one that does. -/
lemma Circles.leads (hcircles : Circles s k) :
    ∃ h, Storage.header s k = .ok h ∧ h.isGenesis = false ∧ Circles s h.previous := by
  obtain ⟨c, hreach, hcircle⟩ := hcircles
  obtain ⟨_, ⟨h, hok, hlater, rfl⟩, hrest⟩ := TransGen.head'_iff.mp (hcircle.trans_right hreach)
  exact ⟨h, hok, hlater, c, hrest, hcircle⟩

/-- A walk that circles goes on as long as one looks, and finds a header at each of its steps. -/
lemma Circles.items_eq (hcircles : Circles s k) (limit : Nat) :
    ∃ es : List (String × Header), items s limit (some k) = es.map Except.ok ∧
      es.length = limit := by
  induction limit generalizing k with
  | zero => exact ⟨[], rfl, rfl⟩
  | succ limit ih =>
    obtain ⟨h, hok, hlater, hnext⟩ := hcircles.leads
    obtain ⟨es, hes, hlen⟩ := ih hnext
    exact ⟨(k, h) :: es, by simp [items, step, hok, hlater, hes], by simp [hlen]⟩

end Walk

end PowLedger
