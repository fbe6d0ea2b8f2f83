import Mathlib.Data.List.Nodup
import Mathlib.Data.List.Perm.Basic
import Timetable.Seating.Allocation

/-! The entries of a seating plan. Merging an entry adds its students to the entry with the same
key, or else puts it at the end; nobody else moves. -/

namespace Timetable.Proofs.SeatEntries

/-- All that tells one entry from another: everything but its students. -/
def key (entry : Seating) : Seating := { entry with students := [] }

def studentsOf (kind : Seating → Bool) (entries : List Seating) : List StudentId :=
  (entries.filter kind).flatMap (·.students)

def ofExam (ancode : Ancode) (entry : Seating) : Bool := entry.ancode = ancode

variable {kind : Seating → Bool} {entry : Seating} {entries : List Seating} {ancode : Ancode}

@[simp] theorem studentsOf_nil : studentsOf kind [] = [] := rfl

theorem studentsOf_append (first second : List Seating) :
    studentsOf kind (first ++ second) = studentsOf kind first ++ studentsOf kind second := by
  simp [studentsOf]

theorem studentsOf_congr {first second : List Seating} (same : first.filter kind = second.filter kind) :
    studentsOf kind first = studentsOf kind second := by
  rw [studentsOf, studentsOf, same]

/-- Entries that are not of a kind may be left out. -/
theorem studentsOf_within (part : Seating → Bool) (within : ∀ entry, kind entry = true → part entry = true)
    (entries : List Seating) : studentsOf kind (entries.filter part) = studentsOf kind entries := by
  refine studentsOf_congr ?_
  rw [List.filter_filter]
  refine List.filter_congr fun entry _ => ?_
  rw [Bool.and_eq_left_iff_imp]
  exact within entry

theorem studentsOf_cons (entry : Seating) (entries : List Seating) :
    studentsOf kind (entry :: entries) = studentsOf kind [entry] ++ studentsOf kind entries :=
  studentsOf_append [entry] entries

theorem studentsOf_chosen (chosen : kind entry = true) : studentsOf kind [entry] = entry.students := by
  simp [studentsOf, chosen]

theorem studentsOf_other (other : kind entry = false) : studentsOf kind [entry] = [] := by
  simp [studentsOf, other]

theorem mem_studentsOf {student : StudentId} :
    student ∈ studentsOf kind entries ↔
      ∃ entry ∈ entries, kind entry = true ∧ student ∈ entry.students := by
  simp [studentsOf, and_assoc]

theorem studentsOf_none (none : ∀ entry ∈ entries, kind entry = true → entry.students = []) :
    studentsOf kind entries = [] := by
  rw [List.eq_nil_iff_forall_not_mem]
  intro student present
  obtain ⟨entry, member, chosen, seated⟩ := mem_studentsOf.mp present
  rw [none entry member chosen] at seated
  cases seated

theorem key_with (entry : Seating) (students : List StudentId) :
    key { entry with students } = key entry := rfl

theorem ancode_of_key {first second : Seating} (same : key first = key second) :
    first.ancode = second.ancode := by
  have ancodes := congrArg Seating.ancode same
  exact ancodes

theorem room_of_key {first second : Seating} (same : key first = key second) : first.room = second.room := by
  have rooms := congrArg Seating.room same
  exact rooms

/-- Either no entry has the key yet, or the first that has it takes the students in. -/
theorem merge_cases (plain : entry.reserve = false) (entries : List Seating) :
    (key entry ∉ entries.map key ∧ Round.merge entry entries = entries ++ [entry]) ∨
      ∃ front first back, entries = front ++ first :: back ∧ key first = key entry ∧
        Round.merge entry entries
          = front ++ { first with students := first.students ++ entry.students } :: back := by
  induction entries with
  | nil => exact .inl ⟨by simp, rfl⟩
  | cons head rest ih =>
    have matched : (head.slot = entry.slot ∧ head.room = entry.room ∧ head.ancode = entry.ancode
        ∧ head.duration = entry.duration ∧ head.accommodated = entry.accommodated
        ∧ head.reserve = false) ↔ key head = key entry := by
      simp [key, plain]
    simp only [Round.merge, matched]
    split
    · rename_i same
      exact .inr ⟨[], head, rest, rfl, same, rfl⟩
    · rename_i differs
      rcases ih with ⟨absent, merged⟩ | ⟨front, first, back, rfl, same, merged⟩
      · refine .inl ⟨?_, by rw [merged, List.cons_append]⟩
        rw [List.map_cons, List.mem_cons, not_or]
        exact ⟨fun equal => differs equal.symm, absent⟩
      · exact .inr ⟨head :: front, first, back, rfl, same, by rw [merged, List.cons_append]⟩

theorem kind_of_key (blind : ∀ entry, kind (key entry) = kind entry) {first second : Seating}
    (same : key first = key second) : kind first = kind second := by
  rw [← blind first, same, blind]

theorem studentsOf_merge (blind : ∀ entry, kind (key entry) = kind entry)
    (plain : entry.reserve = false) (entries : List Seating) :
    (studentsOf kind (Round.merge entry entries)).Perm
      (studentsOf kind entries ++ studentsOf kind [entry]) := by
  rcases merge_cases plain entries with ⟨-, merged⟩ | ⟨front, first, back, rfl, same, merged⟩
  · rw [merged, studentsOf_append]
  · rw [merged, studentsOf_append, studentsOf_append, List.append_assoc,
      studentsOf_cons _ back, studentsOf_cons first back]
    refine .append_left _ ?_
    have alike := kind_of_key blind same
    have widened := kind_of_key blind (key_with first (first.students ++ entry.students))
    cases chosen : kind first with
    | false =>
      rw [studentsOf_other chosen, studentsOf_other (widened.trans chosen),
        studentsOf_other (alike.symm.trans chosen), List.append_nil]
    | true =>
      rw [studentsOf_chosen chosen, studentsOf_chosen (widened.trans chosen),
        studentsOf_chosen (alike.symm.trans chosen), List.append_assoc, List.append_assoc]
      exact .append_left _ List.perm_append_comm

theorem mem_keys_merge (plain : entry.reserve = false) {other : Seating} :
    other ∈ (Round.merge entry entries).map key ↔ other ∈ entries.map key ∨ other = key entry := by
  rcases merge_cases plain entries with ⟨-, merged⟩ | ⟨front, first, back, rfl, same, merged⟩
  · simp [merged]
  · simp only [merged, List.map_append, List.map_cons, key_with, List.mem_append, List.mem_cons]
    refine ⟨Or.inl, ?_⟩
    rintro (present | rfl)
    · exact present
    · exact .inr (.inl same.symm)

theorem keys_merge_nodup (plain : entry.reserve = false) (distinct : (entries.map key).Nodup) :
    ((Round.merge entry entries).map key).Nodup := by
  rcases merge_cases plain entries with ⟨absent, merged⟩ | ⟨front, first, back, rfl, -, merged⟩
  · rw [merged, List.map_append]
    refine List.nodup_append.mpr ⟨distinct, List.nodup_singleton _, ?_⟩
    rintro other present _ single rfl
    rw [List.map_singleton, List.mem_singleton] at single
    exact absent (single ▸ present)
  · rw [merged, List.map_append, List.map_cons, key_with]
    simpa using distinct

theorem merge_filled (plain : entry.reserve = false) (filled : entry.students ≠ [])
    (all : ∀ other ∈ entries, other.students ≠ []) :
    ∀ other ∈ Round.merge entry entries, other.students ≠ [] := by
  intro other present
  rcases merge_cases plain entries with ⟨-, merged⟩ | ⟨front, first, back, rfl, -, merged⟩
  · rw [merged, List.mem_append, List.mem_singleton] at present
    rcases present with present | rfl
    · exact all other present
    · exact filled
  · rw [merged, List.mem_append, List.mem_cons] at present
    rcases present with present | rfl | present
    · exact all other (List.mem_append_left _ present)
    · simp [filled]
    · exact all other (List.mem_append_right _ (List.mem_cons_of_mem _ present))

/-- Entries of other kinds stay as they are. -/
theorem merge_other (blind : ∀ entry, kind (key entry) = kind entry) (plain : entry.reserve = false)
    (other : kind entry = false) (entries : List Seating) :
    (Round.merge entry entries).filter kind = entries.filter kind := by
  rcases merge_cases plain entries with ⟨-, merged⟩ | ⟨front, first, back, rfl, same, merged⟩
  · rw [merged, List.filter_append, List.filter_cons_of_neg (by simp [other]), List.filter_nil, List.append_nil]
  · have unchosen : kind first = false := (kind_of_key blind same).trans other
    have widened : kind { first with students := first.students ++ entry.students } = false :=
      (kind_of_key blind (key_with first _)).trans unchosen
    simp only [merged, List.filter_append, List.filter_cons, widened, unchosen, Bool.false_eq_true, if_false]

theorem merge_reserves (plain : entry.reserve = false) (entries : List Seating) :
    (Round.merge entry entries).filter (·.reserve) = entries.filter (·.reserve) ++ [entry].filter (·.reserve) := by
  rw [merge_other (fun _ => rfl) plain plain, List.filter_singleton, plain, cond_false, List.append_nil]

/-- An entry that stood before is still there, or it is the one that has taken the students in. -/
theorem mem_merge (plain : entry.reserve = false) {other : Seating} (member : other ∈ Round.merge entry entries) :
    other ∈ entries ∨ key other = key entry ∧ ∀ student ∈ other.students, student ∈ entry.students ∨
      ∃ first ∈ entries, key first = key entry ∧ student ∈ first.students := by
  rcases merge_cases plain entries with ⟨-, merged⟩ | ⟨front, first, back, rfl, same, merged⟩
  · rw [merged, List.mem_append, List.mem_singleton] at member
    rcases member with before | rfl
    · exact .inl before
    · exact .inr ⟨rfl, fun _ seated => .inl seated⟩
  · rw [merged, List.mem_append, List.mem_cons] at member
    rcases member with before | rfl | before
    · exact .inl (List.mem_append_left _ before)
    · refine .inr ⟨same, fun student seated => ?_⟩
      rcases List.mem_append.mp seated with seated | seated
      · exact .inr ⟨first, List.mem_append_right _ List.mem_cons_self, same, seated⟩
      · exact .inl seated
    · exact .inl (List.mem_append_right _ (List.mem_cons_of_mem _ before))

/-- What holds of entries and of entries put together holds after merging. -/
theorem merge_all {good : Seating → Prop} (plain : entry.reserve = false)
    (together : ∀ first, key first = key entry → good first →
      good { first with students := first.students ++ entry.students })
    (own : good entry) (all : ∀ other ∈ entries, good other) : ∀ other ∈ Round.merge entry entries, good other := by
  rcases merge_cases plain entries with ⟨-, merged⟩ | ⟨front, first, back, rfl, same, merged⟩
  · rw [merged, List.forall_mem_append, List.forall_mem_singleton]
    exact ⟨all, own⟩
  · rw [List.forall_mem_append, List.forall_mem_cons] at all
    rw [merged, List.forall_mem_append, List.forall_mem_cons]
    exact ⟨all.1, together first same all.2.1, all.2.2⟩

/-- A relation between entries and those after them outlasts merging if the new entry stands in it to all before,
and if it depends on the students of the later entry at most in a way that those put together keep. -/
theorem merge_pairwise {R : Seating → Seating → Prop} (plain : entry.reserve = false)
    (blind : ∀ first students other, R first other → R { first with students := students } other)
    (together : ∀ first ∈ entries, key first = key entry → ∀ other, R other first →
      R other { first with students := first.students ++ entry.students })
    (own : ∀ other ∈ entries, R other entry) (apart : entries.Pairwise R) :
    (Round.merge entry entries).Pairwise R := by
  rcases merge_cases plain entries with ⟨-, merged⟩ | ⟨front, first, back, rfl, same, merged⟩
  · rw [merged, List.pairwise_append]
    exact ⟨apart, List.pairwise_singleton _ _, by simpa using own⟩
  · rw [List.pairwise_append, List.pairwise_cons] at apart
    obtain ⟨before, ⟨next, after⟩, across⟩ := apart
    rw [merged, List.pairwise_append, List.pairwise_cons]
    refine ⟨before, ⟨fun other later => blind first _ other (next other later), after⟩, fun other early => ?_⟩
    have beyond := List.forall_mem_cons.mp (across other early)
    exact List.forall_mem_cons.mpr ⟨together first (by simp) same other beyond.1, beyond.2⟩

theorem merge_fresh (plain : entry.reserve = false) (absent : key entry ∉ entries.map key) :
    Round.merge entry entries = entries ++ [entry] := by
  rcases merge_cases plain entries with ⟨-, merged⟩ | ⟨front, first, back, rfl, same, -⟩
  · exact merged
  · exact absurd (by simp [same]) absent

end Timetable.Proofs.SeatEntries
