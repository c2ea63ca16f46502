import Mathlib.Data.List.Nodup
import Mathlib.Tactic.Common
import Mathlib.Tactic.Lemma
import PowLedger.Sync.Gate

/-!
# Permits are neither lost nor made

At a gate in order every permit is either free or held by one ticket, no ticket both waits and
holds, and nobody waits while a permit is free, `Gate.Orderly`. Asking and leaving keep this. A
ticket that leaves is forgotten, whether it held a permit or waited, `Gate.Orderly.knows_leave`,
and no other ticket loses its permit.
-/

namespace PowLedger

namespace Gate

/-- The ticket holds a permit or waits for one. -/
def Knows (g : Gate) (ticket : Nat) : Prop :=
  ticket ∈ g.held ∨ ticket ∈ g.queue

instance (g : Gate) (ticket : Nat) : Decidable (g.Knows ticket) :=
  inferInstanceAs (Decidable (ticket ∈ g.held ∨ ticket ∈ g.queue))

/-- Every permit is free or held by one ticket; nobody who holds one waits, and nobody waits while
one is free. -/
structure Orderly (g : Gate) (capacity : Nat) : Prop where
  permits : g.free + g.held.length = capacity
  held : g.held.Nodup
  queue : g.queue.Nodup
  apart : ∀ t ∈ g.queue, t ∉ g.held
  busy : g.queue ≠ [] → g.free = 0

variable {g : Gate} {capacity t u : Nat}

/-- Holding a permit is being among those who do. -/
lemma holds_iff : g.holds t = true ↔ t ∈ g.held :=
  List.contains_iff_mem

/-- A new gate is in order. -/
lemma orderly_ofCapacity (capacity : Nat) : (ofCapacity capacity).Orderly capacity where
  permits := rfl
  held := List.nodup_nil
  queue := List.nodup_nil
  apart := List.forall_mem_nil _
  busy := fun h => absurd rfl h

/-! ### Asking -/

/-- A ticket that asks gets a free permit, or it goes to the end of the queue. -/
lemma Orderly.ask_cases (h : g.Orderly capacity) (t : Nat) :
    (∃ free, g.free = free + 1 ∧ g.queue = [] ∧
        g.ask t = { g with free := free, held := t :: g.held }) ∨
      g.free = 0 ∧ g.ask t = { g with queue := g.queue ++ [t] } := by
  obtain ⟨free, held, queue⟩ := g
  cases free with
  | zero => exact Or.inr ⟨rfl, rfl⟩
  | succ free =>
    cases queue with
    | nil => exact Or.inl ⟨free, rfl, rfl, rfl⟩
    | cons next queue => exact absurd (h.busy (List.cons_ne_nil _ _)) (Nat.succ_ne_zero free)

/-- After a new ticket has asked, the gate is in order. -/
lemma Orderly.ask (h : g.Orderly capacity) (hnew : ¬g.Knows t) : (g.ask t).Orderly capacity := by
  have hpermits := h.permits
  rw [Knows, not_or] at hnew
  rcases h.ask_cases t with ⟨free, hfree, hqueue, hask⟩ | ⟨hfree, hask⟩
  · rw [hask]
    exact
      { permits := by
          simp only [List.length_cons]
          omega
        held := List.nodup_cons.mpr ⟨hnew.1, h.held⟩
        queue := h.queue
        apart := fun u hu => by simp [hqueue] at hu
        busy := fun hne => absurd hqueue hne }
  · rw [hask]
    exact
      { permits := hpermits
        held := h.held
        queue := List.nodup_append.mpr ⟨h.queue, List.nodup_singleton t, fun a ha b hb heq =>
          hnew.2 (List.mem_singleton.mp hb ▸ heq ▸ ha)⟩
        apart := fun u hu => by
          rcases List.mem_append.mp hu with hu | hu
          · exact h.apart u hu
          · exact List.mem_singleton.mp hu ▸ hnew.1
        busy := fun _ => hfree }

/-- A ticket that has asked is known, and so are all that were before. -/
theorem Orderly.knows_ask (h : g.Orderly capacity) (t u : Nat) :
    (g.ask t).Knows u ↔ g.Knows u ∨ u = t := by
  rcases h.ask_cases t with ⟨free, -, -, hask⟩ | ⟨-, hask⟩
  · simp only [hask, Knows, List.mem_cons]
    tauto
  · simp only [hask, Knows, List.mem_append, List.mem_singleton]
    tauto

/-- A ticket that asks takes no permit from another one. -/
theorem Orderly.mem_held_ask (h : g.Orderly capacity) (hu : u ∈ g.held) : u ∈ (g.ask t).held := by
  rcases h.ask_cases t with ⟨free, -, -, hask⟩ | ⟨-, hask⟩
  · exact hask ▸ List.mem_cons_of_mem _ hu
  · exact hask ▸ hu

/-! ### Leaving -/

/-- The permit of a ticket that leaves becomes free, or it goes to the first in the queue; a ticket
without permit leaves the queue. -/
lemma leave_cases (g : Gate) (t : Nat) :
    (t ∈ g.held ∧ g.queue = [] ∧
        g.leave t = { g with free := g.free + 1, held := g.held.erase t }) ∨
      (∃ next queue, t ∈ g.held ∧ g.queue = next :: queue ∧
        g.leave t = { g with held := next :: g.held.erase t, queue := queue }) ∨
      t ∉ g.held ∧ g.leave t = { g with queue := g.queue.erase t } := by
  by_cases hholds : t ∈ g.held
  · rw [Gate.leave, if_pos (holds_iff.mpr hholds), release]
    cases g.queue with
    | nil => exact Or.inl ⟨hholds, rfl, rfl⟩
    | cons next queue => exact Or.inr (Or.inl ⟨next, queue, hholds, rfl, rfl⟩)
  · rw [Gate.leave, if_neg (mt holds_iff.mp hholds)]
    exact Or.inr (Or.inr ⟨hholds, rfl⟩)

/-- Nothing happens when a ticket leaves that is not known. -/
lemma leave_eq_self (h : ¬g.Knows t) : g.leave t = g := by
  rw [Knows, not_or] at h
  rw [leave, if_neg (mt holds_iff.mp h.1), List.erase_of_not_mem h.2]

/-- After a ticket has left, the gate is in order. -/
lemma Orderly.leave (h : g.Orderly capacity) (t : Nat) : (g.leave t).Orderly capacity := by
  have hpermits := h.permits
  rcases g.leave_cases t with ⟨hholds, hqueue, hleave⟩ | ⟨next, queue, hholds, hqueue, hleave⟩ |
    ⟨hholds, hleave⟩
  · have hone : 0 < g.held.length := List.length_pos_of_mem hholds
    rw [hleave]
    exact
      { permits := by
          simp only [List.length_erase_of_mem hholds]
          omega
        held := h.held.erase t
        queue := h.queue
        apart := fun u hu => by simp [hqueue] at hu
        busy := fun hne => absurd hqueue hne }
  · have hone : 0 < g.held.length := List.length_pos_of_mem hholds
    have hnodup := hqueue ▸ h.queue
    rw [List.nodup_cons] at hnodup
    rw [hleave]
    exact
      { permits := by
          simp only [List.length_cons, List.length_erase_of_mem hholds]
          omega
        held := by
          refine List.nodup_cons.mpr ⟨fun hmem => ?_, h.held.erase t⟩
          exact h.apart next (hqueue ▸ List.mem_cons_self) (List.mem_of_mem_erase hmem)
        queue := hnodup.2
        apart := fun u hu hmem => by
          rcases List.mem_cons.mp hmem with rfl | hmem
          · exact hnodup.1 hu
          · exact h.apart u (hqueue ▸ List.mem_cons_of_mem _ hu) (List.mem_of_mem_erase hmem)
        busy := fun _ => h.busy (hqueue ▸ List.cons_ne_nil _ _) }
  · rw [hleave]
    exact
      { permits := hpermits
        held := h.held
        queue := h.queue.erase t
        apart := fun u hu => h.apart u (List.mem_of_mem_erase hu)
        busy := fun hne => h.busy fun hempty => hne (by simp [hempty]) }

/-- A ticket that has left is forgotten, and no other one is. -/
theorem Orderly.knows_leave (h : g.Orderly capacity) (t u : Nat) :
    (g.leave t).Knows u ↔ g.Knows u ∧ u ≠ t := by
  rcases g.leave_cases t with ⟨hholds, hqueue, hleave⟩ | ⟨next, queue, hholds, hqueue, hleave⟩ |
    ⟨hholds, hleave⟩
  · simp only [hleave, Knows, h.held.mem_erase_iff, hqueue, List.not_mem_nil, or_false]
    tauto
  · have happart : ∀ v ∈ next :: queue, v ≠ t := fun v hv heq =>
      h.apart v (hqueue ▸ hv) (heq ▸ hholds)
    simp only [hleave, Knows, h.held.mem_erase_iff, hqueue, List.mem_cons]
    constructor
    · rintro ((rfl | ⟨hut, hu⟩) | hu)
      · exact ⟨Or.inr (Or.inl rfl), happart u List.mem_cons_self⟩
      · exact ⟨Or.inl hu, hut⟩
      · exact ⟨Or.inr (Or.inr hu), happart u (List.mem_cons_of_mem _ hu)⟩
    · tauto
  · simp only [hleave, Knows, h.queue.mem_erase_iff]
    constructor
    · rintro (hu | ⟨hut, hu⟩)
      · exact ⟨Or.inl hu, fun heq => hholds (heq ▸ hu)⟩
      · exact ⟨Or.inr hu, hut⟩
    · tauto

/-- A ticket that leaves takes no permit from another one. -/
theorem mem_held_leave (hu : u ∈ g.held) (hne : u ≠ t) : u ∈ (g.leave t).held := by
  rcases g.leave_cases t with ⟨-, -, hleave⟩ | ⟨next, queue, -, -, hleave⟩ | ⟨-, hleave⟩
  · exact hleave ▸ (List.mem_erase_of_ne hne).mpr hu
  · exact hleave ▸ List.mem_cons_of_mem _ ((List.mem_erase_of_ne hne).mpr hu)
  · exact hleave ▸ hu

end Gate

end PowLedger
