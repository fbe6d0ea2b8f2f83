import Timetable.Proofs.Ordering
import Timetable.Proofs.Returned
import Timetable.Slot

/-! Slots in the order of time. An agenda made of entries is chronological, and whatever is left out of
a chronological agenda, the rest of it is chronological too. -/

namespace Timetable.Proofs.Chronology
open Returned

variable {α : Type} {agenda : Agenda α} {slot next : Slot}

theorem isAtMost_iff {a b : Slot} : a.isAtMost b = true ↔ a.day < b.day ∨ a.day = b.day ∧ a.number ≤ b.number := by
  simp [Slot.isAtMost]

theorem linear_slot : Ordering.Linear Slot.isAtMost where
  total a b := by
    rw [isAtMost_iff, isAtMost_iff]
    omega
  trans a b c := by
    rw [isAtMost_iff, isAtMost_iff, isAtMost_iff]
    omega
  antisymm a b := by
    rw [isAtMost_iff, isAtMost_iff]
    intro first second
    cases a
    cases b
    simp only [Slot.mk.injEq] at *
    omega

theorem next_iff : slot.next = .ok next ↔ slot.number + 1 < numberLimit ∧ next = ⟨slot.day, slot.number + 1⟩ := by
  constructor
  · intro found
    obtain ⟨number, within, found⟩ := bind_ok found
    obtain rfl := pure_ok found
    obtain rfl := numberOf_ok within
    unfold numberOf at within
    split at within
    · rename_i below
      exact ⟨below, rfl⟩
    · cases within
  · rintro ⟨below, rfl⟩
    simp [Slot.next, numberOf, below]

def Precedes (first second : Slot) : Prop :=
  first.day < second.day ∨ first.day = second.day ∧ first.number < second.number

instance (first second : Slot) : Decidable (Precedes first second) :=
  inferInstanceAs (Decidable (_ ∨ _))

theorem Precedes.ne {first second : Slot} (before : Precedes first second) : first ≠ second := by
  rintro rfl
  unfold Precedes at before
  omega

theorem Precedes.asymm {first second : Slot} (before : Precedes first second) : ¬ Precedes second first := by
  unfold Precedes at *
  omega

theorem precedes_next (found : slot.next = .ok next) : Precedes slot next := by
  obtain ⟨-, rfl⟩ := next_iff.mp found
  exact .inr ⟨rfl, Nat.lt_succ_self _⟩

/-- The slots of an agenda stand in the order of time, each once. -/
def Chronological (agenda : Agenda α) : Prop := (agenda.map (·.1)).Pairwise Precedes

instance (agenda : Agenda α) : Decidable (Chronological agenda) :=
  inferInstanceAs (Decidable (List.Pairwise _ _))

theorem chronological_cons {item : Slot × List α} :
    Chronological (item :: agenda) ↔ (∀ later ∈ agenda.map (·.1), Precedes item.1 later) ∧ Chronological agenda :=
  List.pairwise_cons

theorem Chronological.slots (chronological : Chronological agenda) : (agenda.map (·.1)).Nodup :=
  chronological.imp Precedes.ne

theorem Chronological.filter (chronological : Chronological agenda) (kept : Slot × List α → Bool) :
    Chronological (agenda.filter kept) :=
  chronological.sublist (List.filter_sublist.map _)

theorem Chronological.eq_of_perm {other : Agenda α} (first : Chronological agenda) (second : Chronological other)
    (same : agenda.Perm other) : agenda = other :=
  same.eq_of_pairwise (fun _ _ _ _ before after => absurd after before.asymm) (List.pairwise_map.mp first)
    (List.pairwise_map.mp second)

theorem precedes_of_sorted {slots : List Slot} (sorted : slots.Pairwise fun a b => a.isAtMost b = true)
    (distinct : slots.Nodup) : slots.Pairwise Precedes := by
  apply (sorted.and distinct).imp
  rintro ⟨day, number⟩ ⟨other, later⟩ ⟨atMost, differs⟩
  rw [isAtMost_iff] at atMost
  rw [ne_eq, Slot.mk.injEq] at differs
  unfold Precedes
  dsimp only at *
  omega

/-- Slots in the order of time are told by which they are. -/
theorem eq_of_precedes {slots others : List Slot} (first : slots.Pairwise Precedes) (second : others.Pairwise Precedes)
    (same : ∀ slot, slot ∈ slots ↔ slot ∈ others) : slots = others := by
  apply List.Perm.eq_of_pairwise (fun _ _ _ _ before after => absurd after before.asymm) first second
  exact (List.perm_ext_iff_of_nodup (first.imp Precedes.ne) (second.imp Precedes.ne)).mpr same

theorem mem_slotsOf {slots : List Slot} : slot ∈ Agenda.slotsOf slots ↔ slot ∈ slots := by
  rw [Agenda.slotsOf, Ordering.mem_stableSort, List.mem_eraseDups]

theorem slotsOf_nodup (slots : List Slot) : (Agenda.slotsOf slots).Nodup :=
  (Ordering.stableSort_perm _).nodup_iff.mpr (Ordering.eraseDups_nodup _)

theorem slots_ofEntries (entries : List (Slot × α)) :
    (Agenda.ofEntries entries).map (·.1) = Agenda.slotsOf (entries.map (·.1)) := by
  rw [Agenda.ofEntries, List.map_map]
  exact List.map_id _

theorem chronological_ofEntries (entries : List (Slot × α)) : Chronological (Agenda.ofEntries entries) := by
  have total : Std.Total fun a b => Slot.isAtMost a b = true := ⟨linear_slot.total⟩
  have trans : IsTrans Slot fun a b => Slot.isAtMost a b = true := ⟨linear_slot.trans⟩
  have sorted : (Agenda.slotsOf (entries.map (·.1))).Pairwise fun a b => a.isAtMost b = true :=
    Ordering.stableSort_pairwise _
  rw [Chronological, slots_ofEntries]
  exact precedes_of_sorted sorted (slotsOf_nodup _)

end Timetable.Proofs.Chronology
