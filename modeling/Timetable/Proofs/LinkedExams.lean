import Timetable.Proofs.GroupMembership
import Timetable.Proofs.Roots

/-! Exams that same-slot links bring together. Two exams are members of one list exactly if links lead from
one to the other, in whatever order and direction they are written down. -/

namespace Timetable.Proofs.LinkedExams
open Grouping GroupMembership Partitions Roots

variable {exams : List Exam} {exam other : Exam} {members : List Exam} {i j : Nat} {ancode linked : Ancode}

def placeLinks (exams : List Exam) : List (Nat × Nat) :=
  exams.zipIdx.flatMap fun (exam, place) => exam.constraints.sameSlot.filterMap fun linked =>
    (indexOf? exams linked).map (place, ·)

private theorem partition_eq (exams : List Exam) : partition exams =
    (placeLinks exams).foldl (fun joined pair => joined.union pair.1 pair.2) (.discrete exams.length) := by
  rw [partition, placeLinks, List.foldl_flatMap]
  congr 1
  funext joined ⟨exam, place⟩
  rw [List.foldl_filterMap]
  dsimp only
  congr 1
  funext joined linked
  cases indexOf? exams linked <;> rfl

private theorem mem_placeLinks {pair : Nat × Nat} : pair ∈ placeLinks exams ↔
    ∃ exam, exams[pair.1]? = some exam ∧ ∃ linked ∈ exam.constraints.sameSlot, indexOf? exams linked = some pair.2 := by
  obtain ⟨first, second⟩ := pair
  simp only [placeLinks, List.mem_flatMap, List.mem_filterMap, Option.map_eq_some_iff, Prod.mk.injEq, Prod.exists,
    List.mk_mem_zipIdx_iff_getElem?]
  constructor
  · rintro ⟨exam, place, present, linked, listed, target, found, rfl, rfl⟩
    exact ⟨exam, present, linked, listed, found⟩
  · rintro ⟨exam, present, linked, listed, found⟩
    exact ⟨exam, first, present, linked, listed, second, found, rfl, rfl⟩

private theorem indexOf?_some (found : indexOf? exams ancode = some i) :
    ∃ exam, exams[i]? = some exam ∧ exam.ancode = ancode := by
  obtain ⟨⟨exam, place⟩, last, rfl⟩ := Option.map_eq_some_iff.mp found
  obtain ⟨listed, same⟩ := List.mem_filter.mp (List.mem_of_getLast? last)
  exact ⟨exam, List.mk_mem_zipIdx_iff_getElem?.mp listed, of_decide_eq_true same⟩

private theorem indexOf?_place (distinct : (exams.map (·.ancode)).Nodup) (present : exams[i]? = some exam) :
    indexOf? exams exam.ancode = some i := by
  rw [indexOf?, Lookups.place_key distinct present, Option.map_some]

/-- An exam has a link to another, known or not. -/
def Links (exams : List Exam) (ancode linked : Ancode) : Prop :=
  ∃ exam ∈ exams, exam.ancode = ancode ∧ linked ∈ exam.constraints.sameSlot

/-- A way of links leads from one exam to another. -/
def Together (exams : List Exam) : Ancode → Ancode → Prop :=
  Relation.EqvGen fun ancode linked => Links exams ancode linked ∧ ∃ exam ∈ exams, exam.ancode = linked

private theorem placeLinks_inside : ∀ pair ∈ placeLinks exams, pair.1 < exams.length ∧ pair.2 < exams.length := by
  intro pair listed
  obtain ⟨exam, present, linked, -, found⟩ := mem_placeLinks.mp listed
  obtain ⟨other, there, -⟩ := indexOf?_some found
  exact ⟨(List.getElem?_eq_some_iff.mp present).1, (List.getElem?_eq_some_iff.mp there).1⟩

def ancodeAt (exams : List Exam) (place : Nat) : Ancode := ((exams[place]?).map (·.ancode)).getD 0

def placeOf (exams : List Exam) (ancode : Ancode) : Nat := (indexOf? exams ancode).getD 0

private theorem ancodeAt_eq (present : exams[i]? = some exam) : ancodeAt exams i = exam.ancode := by
  rw [ancodeAt, present, Option.map_some, Option.getD_some]

private theorem placeOf_eq (distinct : (exams.map (·.ancode)).Nodup) (present : exams[i]? = some exam) :
    placeOf exams exam.ancode = i := by
  rw [placeOf, indexOf?_place distinct present, Option.getD_some]

private theorem together_of_places (joined : Relation.EqvGen (fun a b => a = b ∨ (a, b) ∈ placeLinks exams) i j) :
    Together exams (ancodeAt exams i) (ancodeAt exams j) := by
  refine closure_map ?_ joined
  rintro x y (rfl | listed)
  · exact .refl _
  · obtain ⟨exam, present, linked, inside, found⟩ := mem_placeLinks.mp listed
    obtain ⟨other, target, same⟩ := indexOf?_some found
    rw [ancodeAt_eq present, ancodeAt_eq target]
    exact .rel _ _ ⟨⟨exam, List.mem_of_getElem? present, rfl, same ▸ inside⟩, other, List.mem_of_getElem? target, rfl⟩

private theorem places_of_together (distinct : (exams.map (·.ancode)).Nodup) {first second : Ancode}
    (together : Together exams first second) :
    Relation.EqvGen (fun a b => a = b ∨ (a, b) ∈ placeLinks exams) (placeOf exams first) (placeOf exams second) := by
  refine closure_map ?_ together
  rintro _ _ ⟨⟨exam, member, rfl, inside⟩, other, target, rfl⟩
  obtain ⟨place, present⟩ := List.getElem?_of_mem member
  obtain ⟨there, found⟩ := List.getElem?_of_mem target
  rw [placeOf_eq distinct present, placeOf_eq distinct found]
  exact .rel _ _ (.inr (mem_placeLinks.mpr ⟨exam, present, other.ancode, inside, indexOf?_place distinct found⟩))

/-- Two exams have one root exactly if links lead from one to the other. -/
theorem root_iff (distinct : (exams.map (·.ancode)).Nodup) (here : exams[i]? = some exam)
    (there : exams[j]? = some other) :
    (partition exams).root i = (partition exams).root j ↔ Together exams exam.ancode other.ancode := by
  have size : (Partition.discrete exams.length).size = exams.length := by simp [Partition.discrete, Partition.size]
  rw [partition_eq, unions_root (discrete_descends _) (size.symm ▸ placeLinks_inside)]
  simp only [discrete_root]
  constructor
  · intro joined
    rw [← ancodeAt_eq here, ← ancodeAt_eq there]
    exact together_of_places joined
  · intro together
    rw [← placeOf_eq distinct here, ← placeOf_eq distinct there]
    exact places_of_together distinct together

/-- A list of members holds every exam that links lead to from one of them, and no others. -/
theorem members_iff (distinct : (exams.map (·.ancode)).Nodup) (listed : members ∈ memberLists exams)
    (inside : exam ∈ members) : other ∈ members ↔ other ∈ exams ∧ Together exams exam.ancode other.ancode := by
  obtain ⟨places, isClass, rfl⟩ := mem_memberLists.mp listed
  obtain ⟨top, -, -, rfl⟩ := mem_classes.mp isClass
  obtain ⟨-, size⟩ := partition_kept exams
  have member (item : Exam) : item ∈ ((List.range (partition exams).size).filter fun x =>
        (partition exams).root x = top).filterMap (exams[·]?) ↔
      ∃ place, exams[place]? = some item ∧ (partition exams).root place = top := by
    simp only [List.mem_filterMap, List.mem_filter, List.mem_range, decide_eq_true_eq, size]
    constructor
    · rintro ⟨place, ⟨-, root⟩, present⟩
      exact ⟨place, present, root⟩
    · rintro ⟨place, present, root⟩
      exact ⟨place, ⟨(List.getElem?_eq_some_iff.mp present).1, root⟩, present⟩
  obtain ⟨i, here, root⟩ := (member exam).mp inside
  rw [member]
  constructor
  · rintro ⟨j, there, same⟩
    exact ⟨List.mem_of_getElem? there, (root_iff distinct here there).mp (root.trans same.symm)⟩
  · rintro ⟨known, together⟩
    obtain ⟨j, there⟩ := List.getElem?_of_mem known
    exact ⟨j, there, ((root_iff distinct here there).mpr together).symm.trans root⟩

def unlinked (exam : Exam) : Exam := { exam with constraints := { exam.constraints with sameSlot := [] } }

@[simp] theorem unlinked_ancode (exam : Exam) : (unlinked exam).ancode = exam.ancode := rfl

theorem ancode_eq (alike : unlinked other = unlinked exam) : other.ancode = exam.ancode := by
  change (unlinked other).ancode = (unlinked exam).ancode
  rw [alike]

@[simp] theorem ancodes_unlinked (exams : List Exam) :
    (exams.map unlinked).map (·.ancode) = exams.map (·.ancode) := by
  rw [List.map_map]
  rfl

end Timetable.Proofs.LinkedExams
