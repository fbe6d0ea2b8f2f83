import Timetable.Grouping.Basic
import Timetable.Proofs.Lookups
import Timetable.Proofs.Ordering
import Timetable.Proofs.Partitions
import Timetable.Proofs.StudentPairs

/-! Every exam is in a group, and where exams have distinct numbers it is in one group only. Groups
are named by a member, so their codes are distinct as well. -/

namespace Timetable.Proofs.GroupMembership
open Grouping Partitions Returned StudentPairs Tallies

theorem partition_kept (exams : List Exam) :
    Descends (partition exams) ∧ (partition exams).size = exams.length := by
  refine List.foldlRecOn (motive := fun joined : Partition => Descends joined ∧ joined.size = exams.length)
    _ _ ⟨discrete_descends _, by simp [Partition.discrete, Partition.size]⟩ ?_
  rintro joined kept ⟨exam, place⟩ -
  refine List.foldlRecOn (motive := fun joined : Partition => Descends joined ∧ joined.size = exams.length)
    _ _ kept ?_
  rintro joined kept linked -
  split
  · have united := union_kept kept.1
    exact ⟨(united _ _).1, (united _ _).2.trans kept.2⟩
  · exact kept

section
variable {exams : List Exam}

theorem mem_memberLists {members : List Exam} : members ∈ memberLists exams ↔
    ∃ places ∈ (partition exams).classes, places.filterMap (exams[·]?) = members := by
  rw [memberLists, List.mem_map]

theorem exists_members {exam : Exam} (member : exam ∈ exams) :
    ∃ members ∈ memberLists exams, exam ∈ members := by
  obtain ⟨place, inside, here⟩ := List.getElem_of_mem member
  obtain ⟨descends, size⟩ := partition_kept exams
  obtain ⟨places, listed, within⟩ := exists_class descends (x := place) (by omega)
  refine ⟨_, mem_memberLists.mpr ⟨places, listed, rfl⟩, ?_⟩
  exact List.mem_filterMap.mpr ⟨place, within, by rw [List.getElem?_eq_getElem inside, here]⟩

theorem members_ne_nil {members : List Exam} (listed : members ∈ memberLists exams) :
    members ≠ [] := by
  obtain ⟨places, isClass, rfl⟩ := mem_memberLists.mp listed
  obtain ⟨place, rest, rfl⟩ := List.exists_cons_of_ne_nil (class_ne_nil isClass)
  obtain ⟨top, -, -, same⟩ := mem_classes.mp isClass
  have inside : place < exams.length := by
    have member : place ∈ (List.range (partition exams).size).filter
        fun x => (partition exams).root x = top := same ▸ List.mem_cons_self
    rw [← (partition_kept exams).2]
    exact List.mem_range.mp (List.mem_filter.mp member).1
  apply List.ne_nil_of_mem (a := exams[place])
  exact List.mem_filterMap.mpr ⟨place, List.mem_cons_self, List.getElem?_eq_getElem inside⟩

theorem members_known {members : List Exam} (listed : members ∈ memberLists exams) :
    ∀ exam ∈ members, exam ∈ exams := by
  obtain ⟨places, -, rfl⟩ := mem_memberLists.mp listed
  intro exam member
  obtain ⟨place, -, here⟩ := List.mem_filterMap.mp member
  exact List.mem_of_getElem? here

/-- Members stand at different places, so they have different numbers. -/
theorem members_distinct (distinct : (exams.map (·.ancode)).Nodup) {members : List Exam}
    (listed : members ∈ memberLists exams) : (members.map (·.ancode)).Nodup := by
  obtain ⟨places, isClass, rfl⟩ := mem_memberLists.mp listed
  obtain ⟨top, -, -, rfl⟩ := mem_classes.mp isClass
  rw [List.Nodup, List.pairwise_map]
  refine List.Pairwise.filterMap _ ?_ (List.nodup_range.filter _)
  intro i j different exam here other there same
  exact different (Lookups.place_of_key distinct here there same)

private theorem members_apart (distinct : (exams.map (·.ancode)).Nodup) :
    (memberLists exams).Pairwise fun first second =>
      ∀ exam ∈ first, ∀ other ∈ second, exam.ancode ≠ other.ancode := by
  rw [memberLists, List.pairwise_map]
  refine (classes_apart (partition exams)).imp ?_
  intro first second apart exam one other two same
  obtain ⟨i, within, here⟩ := List.mem_filterMap.mp one
  obtain ⟨j, inside, there⟩ := List.mem_filterMap.mp two
  have equal := Lookups.place_of_key distinct here there same
  exact apart i within (equal ▸ inside)

end

/-- The group of some exams, its students counted without a limit. -/
def countedGroup (calendar : Calendar) (committed : List Placement) (members : List Exam) : ExamGroup :=
  bareGroup calendar committed members (total (members.map headCount))

section
variable {calendar : Calendar} {committed : List Placement} {members : List Exam}

theorem mem_commonSlots {slot : Slot} (present : members ≠ []) :
    slot ∈ commonSlots calendar members ↔ ∀ exam ∈ members, slot ∈ calendar.allowedSlots exam := by
  cases members with
  | nil => exact absurd rfl present
  | cons first others => simp [commonSlots]

theorem mem_group_exams {ancode : Ancode} :
    ancode ∈ (countedGroup calendar committed members).exams ↔
      ∃ exam ∈ members, exam.ancode = ancode := by
  rw [countedGroup, bareGroup, Ordering.mem_stableSort, List.mem_map]

/-- Ancodes are distinct, so a member with the ancode of an exam is that exam. -/
theorem ancode_mem_iff {exams : List Exam} {exam : Exam} (distinct : (exams.map (·.ancode)).Nodup)
    (listed : members ∈ memberLists exams) (known : exam ∈ exams) :
    exam.ancode ∈ (countedGroup calendar committed members).exams ↔ exam ∈ members := by
  rw [mem_group_exams]
  constructor
  · rintro ⟨member, inside, same⟩
    exact Lookups.eq_of_key distinct (members_known listed member inside) known same ▸ inside
  · intro member
    exact ⟨exam, member, rfl⟩

theorem code_mem_exams (present : members ≠ []) :
    (countedGroup calendar committed members).code ∈
      (countedGroup calendar committed members).exams := by
  obtain ⟨exam, rest, rfl⟩ := List.exists_cons_of_ne_nil present
  have member : exam.ancode ∈ (countedGroup calendar committed (exam :: rest)).exams :=
    mem_group_exams.mpr ⟨exam, List.mem_cons_self, rfl⟩
  change List.headD (countedGroup calendar committed (exam :: rest)).exams 0 ∈ _
  cases sorted : (countedGroup calendar committed (exam :: rest)).exams with
  | nil => rw [sorted] at member; cases member
  | cons first others => exact List.mem_cons_self

/-- Exams of a group are in order, and it is named by the first one. -/
theorem code_le {ancode : Ancode} (member : ancode ∈ (countedGroup calendar committed members).exams) :
    (countedGroup calendar committed members).code ≤ ancode := by
  have sorted : (countedGroup calendar committed members).exams.Pairwise (· ≤ ·) :=
    Ordering.stableSort_ascending _
  change (countedGroup calendar committed members).exams.headD 0 ≤ ancode
  cases listed : (countedGroup calendar committed members).exams with
  | nil =>
    rw [listed] at member
    cases member
  | cons first rest =>
    rw [listed] at member sorted
    cases member with
    | head => exact Nat.le_refl _
    | tail _ later => exact (List.pairwise_cons.mp sorted).1 ancode later

end

/-- The groups as they are found, before they are sorted and get their conflicts. -/
def found (calendar : Calendar) (exams : List Exam) (committed : List Placement) : List ExamGroup :=
  (memberLists exams).map (countedGroup calendar committed)

section
variable {calendar : Calendar} {exams : List Exam} {committed : List Placement}

theorem found_apart (distinct : (exams.map (·.ancode)).Nodup) :
    (found calendar exams committed).Pairwise fun first second =>
      ∀ ancode ∈ first.exams, ancode ∉ second.exams := by
  rw [found, List.pairwise_map]
  refine (members_apart distinct).imp ?_
  intro first second apart ancode one two
  obtain ⟨exam, member, rfl⟩ := mem_group_exams.mp one
  obtain ⟨other, present, same⟩ := mem_group_exams.mp two
  exact apart exam member other present same.symm

theorem found_code_mem {group : ExamGroup} (listed : group ∈ found calendar exams committed) :
    group.code ∈ group.exams := by
  obtain ⟨members, isList, rfl⟩ := List.mem_map.mp listed
  exact code_mem_exams (members_ne_nil isList)

theorem found_code_le {group : ExamGroup} (listed : group ∈ found calendar exams committed) {ancode : Ancode}
    (member : ancode ∈ group.exams) :
    group.code ≤ ancode := by
  obtain ⟨members, -, rfl⟩ := List.mem_map.mp listed
  exact code_le member

theorem found_eq_of_shared (distinct : (exams.map (·.ancode)).Nodup) {first second : ExamGroup}
    (one : first ∈ found calendar exams committed) (other : second ∈ found calendar exams committed)
    {ancode : Ancode} (here : ancode ∈ first.exams) (there : ancode ∈ second.exams) :
    first = second := by
  by_contra different
  have apart := (@found_apart calendar exams committed distinct).imp
    (S := fun a b : ExamGroup => ∀ x, ¬ (x ∈ a.exams ∧ x ∈ b.exams))
    (fun apart x shared => apart x shared.1 shared.2)
  have symmetric : Std.Symm fun a b : ExamGroup => ∀ x, ¬ (x ∈ a.exams ∧ x ∈ b.exams) :=
    ⟨fun a b apart x shared => apart x shared.symm⟩
  exact apart.forall one other different ancode ⟨here, there⟩

theorem found_codes_nodup (distinct : (exams.map (·.ancode)).Nodup) :
    ((found calendar exams committed).map (·.code)).Nodup := by
  rw [List.Nodup, List.pairwise_map]
  refine (@found_apart calendar exams committed distinct).imp_of_mem ?_
  intro first second one other apart same
  exact apart _ (found_code_mem one) (same ▸ found_code_mem other)

theorem codeOf?_found (distinct : (exams.map (·.ancode)).Nodup) {group : ExamGroup}
    (listed : group ∈ found calendar exams committed) {ancode : Ancode} (member : ancode ∈ group.exams) :
    codeOf? (found calendar exams committed) ancode = some group.code := by
  have last := Lookups.getLast?_filter (p := fun other : ExamGroup => other.exams.contains ancode)
    listed (by simpa using member) (fun other present holds =>
      found_eq_of_shared distinct present listed (by simpa using holds) member)
  rw [codeOf?, last, Option.map_some]

end

theorem exists_of_codeOf? {groups : List ExamGroup} {ancode : Ancode} {code : GroupCode}
    (named : codeOf? groups ancode = some code) : ∃ group ∈ groups, group.code = code := by
  obtain ⟨group, last, same⟩ := Option.map_eq_some_iff.mp named
  exact ⟨group, (List.mem_filter.mp (List.mem_of_getLast? last)).1, same⟩

private theorem withConflicts_eq {weights : Tally} {groups : List ExamGroup} (distinct : (groups.map (·.code)).Nodup) :
    withConflicts weights groups =
      groups.map fun group => { group with conflicts := conflictsOf weights group.code } := by
  induction groups with
  | nil => rfl
  | cons group rest ih =>
    rw [List.map_cons, List.nodup_cons] at distinct
    have last : rest.any (·.code = group.code) = false := by
      simpa [List.any_eq_false] using distinct.1
    rw [withConflicts, List.map_cons, ih distinct.2, last]
    rfl

def groupLinks (groups : List ExamGroup) (conflicts : Tally) : List ((GroupCode × GroupCode) × Nat) :=
  conflicts.flatMap fun ((a, b), students) =>
    match codeOf? groups a, codeOf? groups b with
    | some first, some second =>
      if first = second then [] else [((first, second), students), ((second, first), students)]
    | _, _ => []

/-- The conflicts of all exams as links between the groups found. -/
def links (calendar : Calendar) (exams : List Exam) (committed : List Placement) :
    List ((GroupCode × GroupCode) × Nat) :=
  groupLinks (found calendar exams committed) (tallied (countedPairs exams))

def weights (calendar : Calendar) (exams : List Exam) (committed : List Placement) : Tally :=
  tallied (links calendar exams committed)

/-- All that is added up for groups are numbers: registrations, students of two exams, and conflicts. -/
structure SumsFit (calendar : Calendar) (exams : List Exam) (committed : List Placement) : Prop where
  students : ∀ members ∈ memberLists exams, total (members.map headCount) < numberLimit
  pairs : Fits (countedPairs exams)
  links : Fits (links calendar exams committed)

/-- What is built if no number is too large. -/
def grouped (calendar : Calendar) (exams : List Exam) (committed : List Placement) : Grouping :=
  ofFound exams (found calendar exams committed) (weights calendar exams committed)

section
variable {calendar : Calendar} {exams : List Exam} {committed : List Placement} {grouping : Grouping}

private theorem groupWeights_eq (groups : List ExamGroup) (conflicts : Tally) :
    groupWeights groups conflicts = addAll [] (groupLinks groups conflicts) := by
  rw [groupLinks, ← addAll_flatMap, groupWeights]
  congr 1
  funext weights ⟨⟨a, b⟩, students⟩
  dsimp only
  cases codeOf? groups a with
  | none => rfl
  | some first =>
    cases codeOf? groups b with
    | none => rfl
    | some second =>
      by_cases same : first = second
      · simp only [if_pos same]
        rfl
      · simp only [if_neg same, addAll, List.foldlM_cons, List.foldlM_nil, bind_pure]

private theorem groupOfMembers_eq (calendar : Calendar) (committed : List Placement) (members : List Exam) :
    groupOfMembers calendar committed members =
      (numberOf (total (members.map headCount))).map (bareGroup calendar committed members) := by
  rw [groupOfMembers, numberSum_eq]
  cases numberOf (total (members.map headCount)) <;> rfl

private theorem counted_eq (calendar : Calendar) (committed : List Placement)
    (students : ∀ members ∈ memberLists exams, total (members.map headCount) < numberLimit) :
    (memberLists exams).mapM (groupOfMembers calendar committed) = .ok (found calendar exams committed) := by
  apply mapM_eq
  intro members listed
  rw [groupOfMembers_eq, numberOf_of_lt (students members listed)]
  rfl

private theorem counted_overflows (calendar : Calendar) (committed : List Placement) {members : List Exam}
    (listed : members ∈ memberLists exams) (large : ¬ total (members.map headCount) < numberLimit) :
    (memberLists exams).mapM (groupOfMembers calendar committed) = .error .overflow := by
  cases counted : (memberLists exams).mapM (groupOfMembers calendar committed) with
  | ok groups =>
    obtain ⟨group, -, returned⟩ := exists_result counted listed
    rw [groupOfMembers_eq, numberOf_overflows large] at returned
    cases returned
  | error fault =>
    obtain ⟨others, -, stopped⟩ := exists_fault counted
    rw [groupOfMembers_eq, numberOf] at stopped
    split at stopped <;> cases stopped
    rfl

private theorem build_of_fits (fits : SumsFit calendar exams committed) :
    build calendar exams committed = .ok (grouped calendar exams committed) := by
  have conflicts : examConflicts exams = .ok (tallied (countedPairs exams)) :=
    (examConflicts_eq exams).trans ((addAll_eq _).1 fits.pairs)
  have weighed : groupWeights (found calendar exams committed) (tallied (countedPairs exams))
      = .ok (weights calendar exams committed) := (groupWeights_eq _ _).trans ((addAll_eq _).1 fits.links)
  rw [build, ok_bind (counted_eq calendar committed fits.students), ok_bind conflicts, ok_bind weighed]
  rfl

theorem build_overflows (large : ¬ SumsFit calendar exams committed) :
    build calendar exams committed = .error .overflow := by
  by_cases students : ∀ members ∈ memberLists exams, total (members.map headCount) < numberLimit
  · rw [build, ok_bind (counted_eq calendar committed students)]
    by_cases pairs : Fits (countedPairs exams)
    · have stopped : groupWeights (found calendar exams committed) (tallied (countedPairs exams)) = .error .overflow :=
        (groupWeights_eq _ _).trans ((addAll_eq _).2 fun fits => large ⟨students, pairs, fits⟩)
      rw [examConflicts_eq, ok_bind ((addAll_eq _).1 pairs), stopped]
      rfl
    · rw [examConflicts_eq, (addAll_eq _).2 pairs]
      rfl
  · push Not at students
    obtain ⟨members, listed, large⟩ := students
    rw [build, counted_overflows calendar committed listed (Nat.not_lt.mpr large)]
    rfl

/-- Groups are built exactly if all that is added up for them are numbers. -/
theorem build_ok_iff : build calendar exams committed = .ok grouping ↔
    SumsFit calendar exams committed ∧ grouping = grouped calendar exams committed := by
  by_cases fits : SumsFit calendar exams committed
  · rw [build_of_fits fits, Except.ok.injEq, eq_comm, and_iff_right fits]
  · rw [build_overflows fits]
    exact ⟨nofun, fun both => absurd both.1 fits⟩

theorem grouped_groups_eq (distinct : (exams.map (·.ancode)).Nodup) :
    (grouped calendar exams committed).groups =
      (stableSort (fun a b => a.code ≤ b.code) (found calendar exams committed)).map fun group =>
        { group with conflicts := conflictsOf (weights calendar exams committed) group.code } := by
  apply withConflicts_eq
  exact ((Ordering.stableSort_perm _).map _).nodup_iff.mpr (found_codes_nodup distinct)

theorem mem_grouped {group : ExamGroup} (distinct : (exams.map (·.ancode)).Nodup) :
    group ∈ (grouped calendar exams committed).groups ↔
      ∃ bare ∈ found calendar exams committed,
        group = { bare with conflicts := conflictsOf (weights calendar exams committed) bare.code } := by
  rw [grouped_groups_eq distinct, List.mem_map]
  simp only [Ordering.mem_stableSort, eq_comm]

/-- A group is that of some exams, with conflicts to others. -/
theorem group_members {group : ExamGroup} (distinct : (exams.map (·.ancode)).Nodup)
    (listed : group ∈ (grouped calendar exams committed).groups) :
    ∃ members ∈ memberLists exams, group.code = (countedGroup calendar committed members).code ∧
      group.exams = (countedGroup calendar committed members).exams ∧
      group.state = (countedGroup calendar committed members).state ∧
      group.allowedSlots = (countedGroup calendar committed members).allowedSlots := by
  obtain ⟨bare, found, rfl⟩ := (mem_grouped distinct).mp listed
  obtain ⟨members, isList, rfl⟩ := List.mem_map.mp found
  exact ⟨members, isList, rfl, rfl, rfl, rfl⟩

theorem grouped_codes_nodup (distinct : (exams.map (·.ancode)).Nodup) :
    ((grouped calendar exams committed).groups.map (·.code)).Nodup := by
  rw [grouped_groups_eq distinct, List.map_map]
  exact ((Ordering.stableSort_perm _).map _).nodup_iff.mpr (found_codes_nodup distinct)

theorem grouped_codes_ascending (distinct : (exams.map (·.ancode)).Nodup) :
    ((grouped calendar exams committed).groups.map (·.code)).Pairwise (· < ·) := by
  refine Ordering.increasing_of_nodup ?_ (grouped_codes_nodup distinct)
  rw [grouped_groups_eq distinct, List.map_map]
  exact Ordering.stableSort_keys_ascending ExamGroup.code _

theorem grouped_eq_of_shared (distinct : (exams.map (·.ancode)).Nodup) {first second : ExamGroup}
    (one : first ∈ (grouped calendar exams committed).groups) (other : second ∈ (grouped calendar exams committed).groups)
    {ancode : Ancode} (here : ancode ∈ first.exams) (there : ancode ∈ second.exams) : first = second := by
  obtain ⟨bare, isFirst, rfl⟩ := (mem_grouped distinct).mp one
  obtain ⟨rest, isSecond, rfl⟩ := (mem_grouped distinct).mp other
  rw [found_eq_of_shared distinct isFirst isSecond here there]

theorem grouped_exams_nodup (distinct : (exams.map (·.ancode)).Nodup) :
    ((grouped calendar exams committed).groups.flatMap (·.exams)).Nodup := by
  rw [grouped_groups_eq distinct, List.flatMap_map]
  refine ((Ordering.stableSort_perm _).flatMap_right _).nodup_iff.mpr ?_
  rw [List.Nodup, List.pairwise_flatMap]
  constructor
  · intro group listed
    obtain ⟨members, isList, rfl⟩ := List.mem_map.mp listed
    exact (Ordering.stableSort_perm _).nodup_iff.mpr (members_distinct distinct isList)
  · refine (found_apart distinct).imp ?_
    intro first second apart ancode one other two same
    exact apart ancode one (same ▸ two)

theorem exists_group (distinct : (exams.map (·.ancode)).Nodup) {exam : Exam} (member : exam ∈ exams) :
    ∃ group ∈ (grouped calendar exams committed).groups, exam.ancode ∈ group.exams := by
  obtain ⟨members, listed, within⟩ := exists_members member
  have held : exam.ancode ∈ (countedGroup calendar committed members).exams :=
    mem_group_exams.mpr ⟨exam, within, rfl⟩
  exact ⟨_, (mem_grouped distinct).mpr ⟨_, List.mem_map_of_mem listed, rfl⟩, held⟩

end

theorem placeable_of_internal {groups : List ExamGroup} {group : ExamGroup} (member : group ∈ groups)
    (internal : group.isExternal = false) : group ∈ groups.filter ExamGroup.isPlaceable := by
  refine List.mem_filter.mpr ⟨member, ?_⟩
  change group.state.isExternal = false at internal
  change group.state.isPlaceable = true
  cases state : group.state with
  | scheduled => rfl
  | locked slot => rfl
  | external slot =>
    rw [state] at internal
    cases internal

end Timetable.Proofs.GroupMembership
