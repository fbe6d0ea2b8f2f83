import Timetable.Document.Rooms
import Timetable.Document.Groups
import Timetable.Proofs.JsonRecords
import Timetable.Proofs.DoubleSizes

/-! Documents that are planned with again. What is written for a group, a placement or a seating is read back as the
same, and so are its versions, as long as what was added to the state of a group can be held back. -/

namespace Timetable.Proofs.DocumentsAgain
open Json JsonScans JsonTexts JsonRecords

variable {allowed : Json → Prop} {json : Json} {slot : Slot} {state : GroupState}

section Numbers

structure SlotNumbered (slot : Slot) : Prop where
  day : slot.day < numberLimit
  number : slot.number < numberLimit

def StateNumbered (state : GroupState) : Prop := ∀ slot, state.recorded? = some slot → SlotNumbered slot

structure ConflictNumbered (conflict : GroupConflict) : Prop where
  group : conflict.group < numberLimit
  students : conflict.students < numberLimit

structure GroupNumbered (group : ExamGroup) : Prop where
  code : group.code < numberLimit
  exams : ∀ ancode ∈ group.exams, ancode < numberLimit
  studentCount : group.studentCount < numberLimit
  maxDuration : group.maxDuration < numberLimit
  allowedSlots : ∀ slot ∈ group.allowedSlots, SlotNumbered slot
  conflicts : ∀ conflict ∈ group.conflicts, ConflictNumbered conflict
  state : StateNumbered group.state

structure PlacementNumbered (placement : Placement) : Prop where
  group : placement.group < numberLimit
  slot : SlotNumbered placement.slot

structure SeatingNumbered (seating : Seating) : Prop where
  slot : SlotNumbered seating.slot
  ancode : seating.ancode < numberLimit
  duration : seating.duration < numberLimit

end Numbers

section Readers

private theorem slot_back (numbered : SlotNumbered slot) : ReadsBack allowed Slot.ofJson? slot.toJson slot := by
  intro json enriched
  obtain ⟨_, record, -, read, -, holds⟩ := @read_record _ _ ["day", "slot"] _ (by decide) rfl enriched
  have day : record.required? "day" number? = some slot.day :=
    holds.required (by simp) (number_back numbered.day)
  have number : record.required? "slot" number? = some slot.number :=
    holds.required (by simp) (number_back numbered.number)
  unfold Slot.ofJson?
  simp only [read, Option.bind_eq_bind, Option.bind_some, day, number]
  rfl

private theorem conflict_back {conflict : GroupConflict} (numbered : ConflictNumbered conflict) :
    ReadsBack allowed GroupConflict.ofJson? conflict.toJson conflict := by
  intro json enriched
  obtain ⟨_, record, -, read, -, holds⟩ := @read_record _ _ ["group", "students"] _ (by decide) rfl enriched
  have group : record.required? "group" number? = some conflict.group :=
    holds.required (by simp) (number_back numbered.group)
  have students : record.required? "students" number? = some conflict.students :=
    holds.required (by simp) (number_back numbered.students)
  unfold GroupConflict.ofJson?
  simp only [read, Option.bind_eq_bind, Option.bind_some, group, students]
  rfl

private theorem placement_back {placement : Placement} (numbered : PlacementNumbered placement) :
    ReadsBack allowed Placement.ofJson? placement.toJson placement := by
  intro json enriched
  obtain ⟨_, record, -, read, -, holds⟩ := @read_record _ _ ["group", "slot"] _ (by decide) rfl enriched
  have group : record.required? "group" number? = some placement.group :=
    holds.required (by simp) (number_back numbered.group)
  have slot : record.required? "slot" Slot.ofJson? = some placement.slot :=
    holds.required (by simp) (slot_back numbered.slot)
  unfold Placement.ofJson?
  simp only [read, Option.bind_eq_bind, Option.bind_some, group, slot]
  rfl

private theorem seating_back {seating : Seating} (numbered : SeatingNumbered seating) :
    ReadsBack allowed Seating.ofJson? seating.toJson seating := by
  intro json enriched
  obtain ⟨_, record, -, read, -, holds⟩ := @read_record _ _
    ["slot", "room", "ancode", "duration", "students", "nta", "reserve"] _ (by decide) rfl enriched
  have slot : record.required? "slot" Slot.ofJson? = some seating.slot :=
    holds.required (by simp) (slot_back numbered.slot)
  have room : record.required? "room" text? = some seating.room :=
    holds.required (by simp) (text_back seating.room)
  have ancode : record.required? "ancode" number? = some seating.ancode :=
    holds.required (by simp) (number_back numbered.ancode)
  have duration : record.required? "duration" number? = some seating.duration :=
    holds.required (by simp) (number_back numbered.duration)
  have students : record.list? "students" text? = some seating.students :=
    holds.withDefault (by simp) (list_back fun student _ => text_back student) []
  have accommodated : record.flag? "nta" = some seating.accommodated :=
    holds.withDefault (by simp) (bool_back seating.accommodated) false
  have reserve : record.flag? "reserve" = some seating.reserve :=
    holds.withDefault (by simp) (bool_back seating.reserve) false
  unfold Seating.ofJson?
  simp only [read, Option.bind_eq_bind, Option.bind_some, slot, room, ancode, duration, students, accommodated, reserve]
  rfl

/-- What has to be held back of a state is its members, until its kind is known. -/
theorem state_back (numbered : StateNumbered state) (enriched : Enriched allowed state.toJson json)
    (held : json.retainable (nestingLimit - 1) = true) : GroupState.ofJson? json = some state := by
  cases state with
  | scheduled =>
    have kind : ∃ fields, json.tagged? "state" (nestingLimit - 2) = some ("scheduled", fields) ∧
        Enriched allowed (.record []) fields := tagged_record (by simp) enriched held
    obtain ⟨fields, tagged, version⟩ := kind
    obtain ⟨_, _, found, rfl, -⟩ := enriched_record version
    unfold GroupState.ofJson?
    rw [tagged]
    rfl
  | locked slot =>
    have kind : ∃ fields, json.tagged? "state" (nestingLimit - 2) = some ("locked", fields) ∧
        Enriched allowed (.record [("slot", slot.toJson)]) fields := tagged_record (by simp) enriched held
    obtain ⟨fields, tagged, version⟩ := kind
    obtain ⟨_, record, -, read, -, holds⟩ := @read_record _ _ ["slot"] _ (by decide) rfl version
    have found : record.required? "slot" Slot.ofJson? = some slot :=
      holds.required List.mem_cons_self (slot_back (numbered slot rfl))
    unfold GroupState.ofJson?
    simp only [tagged, read, Option.bind_eq_bind, Option.bind_some, found]
    rfl
  | external slot =>
    have kind : ∃ fields, json.tagged? "state" (nestingLimit - 2) = some ("externallyManaged", fields) ∧
        Enriched allowed (.record [("slot", .ofOption Slot.toJson slot)]) fields :=
      tagged_record (by simp) enriched held
    obtain ⟨fields, tagged, version⟩ := kind
    obtain ⟨_, record, -, read, -, holds⟩ := @read_record _ _ ["slot"] _ (by decide) rfl version
    have back : ReadsBack allowed (Json.nullable? Slot.ofJson?) (.ofOption Slot.toJson slot) slot :=
      nullable_back (fun _ _ => Json.noConfusion) fun known same => slot_back (numbered known same)
    have found : record.nullable? "slot" Slot.ofJson? = some slot := holds.nullable List.mem_cons_self back
    unfold GroupState.ofJson?
    simp only [tagged, read, Option.bind_eq_bind, Option.bind_some, found]
    rfl

private theorem group_back {group : ExamGroup} (numbered : GroupNumbered group)
    (enriched : Enriched allowed group.toJson json)
    (held : ∀ state, Enriched allowed group.state.toJson state → ∀ members, json = .object members →
      (some "state", state) ∈ members → state.retainable (nestingLimit - 1) = true) :
    ExamGroup.ofJson? json = some group := by
  obtain ⟨found, record, rfl, read, present, holds⟩ := @read_record _ _
    ["code", "exams", "studentCount", "maxDuration", "allowedSlots", "conflicts", "state"] _ (by decide) rfl enriched
  have code : record.required? "code" number? = some group.code :=
    holds.required (by simp) (number_back numbered.code)
  have exams : record.required? "exams" (Json.list? number?) = some group.exams :=
    holds.required (by simp) (list_back fun ancode listed => number_back (numbered.exams ancode listed))
  have studentCount : record.required? "studentCount" number? = some group.studentCount :=
    holds.required (by simp) (number_back numbered.studentCount)
  have maxDuration : record.required? "maxDuration" number? = some group.maxDuration :=
    holds.required (by simp) (number_back numbered.maxDuration)
  have allowedSlots : record.required? "allowedSlots" (Json.list? Slot.ofJson?) = some group.allowedSlots :=
    holds.required (by simp) (list_back fun slot listed => slot_back (numbered.allowedSlots slot listed))
  have conflicts : record.required? "conflicts" (Json.list? GroupConflict.ofJson?) = some group.conflicts :=
    holds.required (by simp) (list_back fun conflict listed => conflict_back (numbered.conflicts conflict listed))
  have state : record.required? "state" GroupState.ofJson? = some group.state := by
    obtain ⟨other, here, version⟩ := holds "state" group.state.toJson (by simp)
    rw [Record.required?, here]
    apply state_back numbered.state version
    obtain ⟨front, back, same, -⟩ := List.lookup_eq_some_iff.mp here
    have inside : ("state", other) ∈ record.fields := same ▸ List.mem_append_right _ List.mem_cons_self
    exact held other version _ rfl (List.mem_map_of_mem (present _ inside))
  unfold ExamGroup.ofJson?
  simp only [read, Option.bind_eq_bind, Option.bind_some, code, exams, studentCount, maxDuration, allowedSlots,
    conflicts, state]
  rfl

end Readers

section Held

/-- Numbers of documents are in range of doubles. -/
theorem double_ofNat {n : Nat} (inside : n < numberLimit) : (Numeral.ofNat n).double?.isSome = true := by
  rcases Nat.eq_zero_or_pos n with rfl | positive
  · decide
  · have limit : numberLimit = 2 ^ 32 := rfl
    have short : (Nat.toDigits 10 n).length ≤ 10 :=
      (Nat.length_toDigits_le_iff (by decide) (by decide)).mpr (inside.trans (by decide))
    obtain ⟨first, others, digits, nonzero⟩ := toDigits_positive positive
    have significand : (Numeral.ofNat n).significand.dropWhile (· == '0') = Nat.toDigits 10 n := by
      have all : (Numeral.ofNat n).significand = Nat.toDigits 10 n := List.append_nil _
      rw [all, digits]
      exact List.dropWhile_cons_of_neg (by simpa using nonzero)
    have scale : (Numeral.ofNat n).scale = 0 := rfl
    have some : ((Nat.toDigits 10 n).isEmpty || decide (((Nat.toDigits 10 n).length : Int) + 0 < -400)) = false := by
      rw [digits, List.isEmpty_cons, Bool.false_or, decide_eq_false_iff_not]
      omega
    have few : ¬ (400 : Int) < (Nat.toDigits 10 n).length + 0 := by omega
    have finite : (OfScientific.ofScientific n (decide ((0 : Int) < 0)) (Int.natAbs 0) : Double).isFinite = true :=
      DoubleSizes.scientific_finite (by omega)
    unfold Numeral.double?
    simp only [significand, scale, digitsValue_toDigits, some, Bool.false_eq_true, if_false, if_neg few, if_pos finite]
    rfl

private theorem number_held {n depth : Nat} (inside : n < numberLimit) : (Json.ofNat n).retainable depth = true := by
  unfold Json.ofNat retainable
  exact double_ofNat inside

private theorem slot_held (numbered : SlotNumbered slot) : slot.toJson.retainable 1 = true := by
  apply retainable_record.mpr
  simp [number_held numbered.day, number_held numbered.number]

private theorem state_held (numbered : StateNumbered state) : state.toJson.retainable 2 = true := by
  cases state with
  | scheduled =>
    apply retainable_record.mpr
    simp [ofText, retainable]
  | locked slot =>
    apply retainable_record.mpr
    simp [ofText, retainable, slot_held (numbered slot rfl)]
  | external slot =>
    apply retainable_record.mpr
    cases slot with
    | none => simp [ofText, ofOption, retainable]
    | some slot => simp [ofText, ofOption, retainable, slot_held (numbered slot rfl)]

end Held

section Spelling

private theorem slot_spelled (slot : Slot) : Spelled slot.toJson := by
  apply spelled_record
  simp [spelled_natural]

private theorem state_spelled (state : GroupState) : Spelled state.toJson := by
  have text (word : String) : Spelled (.ofText word) := .string _
  cases state with
  | scheduled =>
    apply spelled_record
    simp [text]
  | locked slot =>
    apply spelled_record
    simp [text, slot_spelled]
  | external slot =>
    apply spelled_record
    cases slot with
    | none => simp [text, ofOption, Spelled.null]
    | some slot => simp [text, ofOption, slot_spelled]

private theorem conflict_spelled (conflict : GroupConflict) : Spelled conflict.toJson := by
  apply spelled_record
  simp [spelled_natural]

private theorem group_spelled (group : ExamGroup) : Spelled group.toJson := by
  have exams : Spelled (.ofList .ofNat group.exams) := spelled_list fun ancode _ => spelled_natural ancode
  have slots : Spelled (.ofList Slot.toJson group.allowedSlots) := spelled_list fun slot _ => slot_spelled slot
  have conflicts : Spelled (.ofList GroupConflict.toJson group.conflicts) :=
    spelled_list fun conflict _ => conflict_spelled conflict
  apply spelled_record
  simp [spelled_natural, exams, slots, conflicts, state_spelled]

private theorem placement_spelled (placement : Placement) : Spelled placement.toJson := by
  apply spelled_record
  simp [spelled_natural, slot_spelled]

private theorem seating_spelled (seating : Seating) : Spelled seating.toJson := by
  have text (word : String) : Spelled (.ofText word) := .string _
  have students : Spelled (.ofList .ofText seating.students) := spelled_list fun student _ => text student
  apply spelled_record
  simp [spelled_natural, slot_spelled, text, students, Spelled.bool]

end Spelling

section Documents

variable {α : Type} {read : Json → Option α} {written : Json} {value : α}

def StateHeld (json : Json) : Prop :=
  ∀ members, json = .object members → ∀ state, (some "state", state) ∈ members →
    state.retainable (nestingLimit - 1) = true

/-- A value comes back from what is written for it, and from every text of a version of this that meets a condition. The
condition is not needed where members are only rearranged, or what is added can be held back three containers down. -/
structure ComesBack (read : Json → Option α) (held : Json → Prop) (written : Json) (value : α) : Prop where
  pretty : (parse? written.pretty >>= read) = some value
  compact : (parse? written.compact >>= read) = some value
  versions : ∀ text json, parse? text = some json → Enriched (fun _ => True) written json → held json →
    (parse? text >>= read) = some value
  additions : ∀ allowed : Json → Prop, (∀ added, allowed added → added.retainable (nestingLimit - 3) = true) →
    ∀ text json, parse? text = some json → Enriched allowed written json → (parse? text >>= read) = some value

private theorem comesBack {held : Json → Prop} (spelled : Spelled written)
    (versions : ∀ json, Enriched (fun _ => True) written json → held json → read json = some value)
    (additions : ∀ allowed : Json → Prop, (∀ added, allowed added → added.retainable (nestingLimit - 3) = true) →
      ReadsBack allowed read written value) : ComesBack read held written value where
  pretty := by
    rw [parse_pretty spelled]
    exact additions (fun _ => False) (fun _ => False.elim) written (enriched_self spelled)
  compact := by
    rw [parse_compact spelled]
    exact additions (fun _ => False) (fun _ => False.elim) written (enriched_self spelled)
  versions text json parsed enriched condition := by
    rw [parsed]
    exact versions json enriched condition
  additions allowed shallow text json parsed enriched := by
    rw [parsed]
    exact additions allowed shallow json enriched

private theorem group_comesBack {group : ExamGroup} (numbered : GroupNumbered group) :
    ComesBack ExamGroup.ofJson? StateHeld group.toJson group := by
  refine comesBack (group_spelled group) ?_ ?_
  · intro json enriched held
    exact group_back numbered enriched fun state _ members same listed => held members same state listed
  · intro allowed shallow json enriched
    exact group_back numbered enriched fun state version _ _ _ =>
      retainable_enriched shallow (state_held numbered.state) version

end Documents

section MissingSlot

variable {found : List (String × Json)}

private theorem read_slotless (slotless : ∀ member ∈ found, member.1 ≠ "slot") :
    Record.read? ["slot"] (.record found) = some ⟨[], false⟩ := by
  have none : (found.filter fun member => ["slot"].contains member.1) = [] := by
    rw [List.filter_eq_nil_iff]
    simpa using slotless
  rw [read_eq] <;> rw [none]
  exact List.nodup_nil

private theorem slotless_rest (slotless : ∀ member ∈ found, member.1 ≠ "slot") :
    ∀ member ∈ found.filter (·.1 ≠ "state"), member.1 ≠ "slot" :=
  fun member listed => slotless member (List.mem_filter.mp listed).1

private theorem external_slotless (alone : found.filter (·.1 = "state") = [("state", .ofText "externallyManaged")])
    (slotless : ∀ member ∈ found, member.1 ≠ "slot")
    (held : (Json.record found).retainable (nestingLimit - 1) = true) :
    GroupState.ofJson? (.record found) = some (.external none) := by
  have tagged : (Json.record found).tagged? "state" (nestingLimit - 2) =
      some ("externallyManaged", .record (found.filter (·.1 ≠ "state"))) := tagged_held alone held
  unfold GroupState.ofJson?
  rw [tagged]
  simp only [Option.bind_eq_bind, Option.bind_some, read_slotless (slotless_rest slotless)]
  rfl

private theorem locked_slotless (alone : found.filter (·.1 = "state") = [("state", .ofText "locked")])
    (slotless : ∀ member ∈ found, member.1 ≠ "slot") : GroupState.ofJson? (.record found) = none := by
  unfold GroupState.ofJson?
  rw [tagged_eq alone]
  split
  · simp only [Option.bind_eq_bind, Option.bind_some, read_slotless (slotless_rest slotless)]
    rfl
  · rfl

end MissingSlot

/-- Groups, placements and seatings come back from their documents and from the versions of these. States can be held
back unless something is added that cannot; two of them have no such version in common, and only an external one may
leave its slot out. -/
theorem documents_come_back :
    (∀ group, GroupNumbered group → ComesBack ExamGroup.ofJson? StateHeld group.toJson group) ∧
    (∀ placement, PlacementNumbered placement →
      ComesBack Placement.ofJson? (fun _ => True) placement.toJson placement) ∧
    (∀ seating, SeatingNumbered seating → ComesBack Seating.ofJson? (fun _ => True) seating.toJson seating) ∧
    (∀ json, Spelled json → parse? json.pretty = some json ∧ parse? json.compact = some json) ∧
    (∀ state, StateNumbered state → ∀ allowed : Json → Prop,
      (∀ added, allowed added → added.retainable (nestingLimit - 3) = true) →
      ∀ json, Enriched allowed state.toJson json → json.retainable (nestingLimit - 1) = true) ∧
    (∀ first second json, StateNumbered first → StateNumbered second → Enriched (fun _ => True) first.toJson json →
      Enriched (fun _ => True) second.toJson json → json.retainable (nestingLimit - 1) = true → first = second) ∧
    (∀ found : List (String × Json), found.filter (·.1 = "state") = [("state", .ofText "externallyManaged")] →
      (∀ member ∈ found, member.1 ≠ "slot") → (Json.record found).retainable (nestingLimit - 1) = true →
      GroupState.ofJson? (.record found) = some (.external none)) ∧
    (∀ found : List (String × Json), found.filter (·.1 = "state") = [("state", .ofText "locked")] →
      (∀ member ∈ found, member.1 ≠ "slot") → GroupState.ofJson? (.record found) = none) := by
  refine ⟨fun group => group_comesBack, ?_, ?_, ?_, ?_, ?_, fun found => external_slotless,
    fun found => locked_slotless⟩
  · intro placement numbered
    exact comesBack (placement_spelled placement) (fun json enriched _ => placement_back numbered json enriched)
      fun _ _ => placement_back numbered
  · intro seating numbered
    exact comesBack (seating_spelled seating) (fun json enriched _ => seating_back numbered json enriched)
      fun _ _ => seating_back numbered
  · exact fun json spelled => ⟨parse_pretty spelled, parse_compact spelled⟩
  · exact fun state numbered allowed shallow json => retainable_enriched shallow (state_held numbered)
  · intro first second json numbered numbered' enriched enriched' held
    have read := state_back numbered enriched held
    rw [state_back numbered' enriched' held] at read
    exact (Option.some.inj read).symm

def lockedGroup : ExamGroup := ⟨1, [1, 4], 20, 90, [⟨1, 2⟩], [⟨3, 5⟩], .locked ⟨1, 2⟩⟩

/-- The slot of its state, backwards and with a remark. -/
def annotatedSlot : Json := .record [("weekday", .null), ("slot", .ofNat 2), ("day", .ofNat 1)]

def annotatedState : Json :=
  .record [("remark", .ofText "confirmed"), ("slot", annotatedSlot), ("state", .ofText "locked")]

def annotatedGroup : Json :=
  .record [
    ("remarks", .ofList .ofText ["moved", "confirmed"]),
    ("state", annotatedState),
    ("conflicts", .ofList GroupConflict.toJson [⟨3, 5⟩]),
    ("allowedSlots", .ofList Slot.toJson [⟨1, 2⟩]),
    ("maxDuration", .ofNat 90),
    ("studentCount", .ofNat 20),
    ("exams", .ofList .ofNat [1, 4]),
    ("code", .ofNat 1)]

private theorem enriched_backwards {members : List (String × Json)} (kept added : List (String × Json))
    (names : kept.map Prod.fst = members.map Prod.fst)
    (values : List.Forall₂ (Enriched allowed) (members.map Prod.snd) (kept.map Prod.snd))
    (others : ∀ member ∈ added, member.1 ∉ members.map Prod.fst ∧ allowed member.2) :
    Enriched allowed (.record members) (.record (kept ++ added).reverse) :=
  Widened.enriched ⟨names, values, others, List.reverse_perm _⟩

private theorem annotated_version : Enriched (fun _ => True) lockedGroup.toJson annotatedGroup := by
  have number (n : Nat) : Enriched (fun _ => True) (.ofNat n) (.ofNat n) := enriched_self (spelled_natural n)
  have slot : Enriched (fun _ => True) (Slot.toJson ⟨1, 2⟩) annotatedSlot :=
    enriched_backwards [("day", .ofNat 1), ("slot", .ofNat 2)] [("weekday", .null)] rfl
      (.cons (number 1) (.cons (number 2) .nil)) (by simp)
  have state : Enriched (fun _ => True) lockedGroup.state.toJson annotatedState :=
    enriched_backwards [("state", .ofText "locked"), ("slot", annotatedSlot)] [("remark", .ofText "confirmed")] rfl
      (.cons (.string _) (.cons slot .nil)) (by simp)
  have exams : Spelled (.ofList .ofNat lockedGroup.exams) := spelled_list fun ancode _ => spelled_natural ancode
  have slots : Spelled (.ofList Slot.toJson lockedGroup.allowedSlots) := spelled_list fun slot _ => slot_spelled slot
  have conflicts : Spelled (.ofList GroupConflict.toJson lockedGroup.conflicts) :=
    spelled_list fun conflict _ => conflict_spelled conflict
  exact enriched_backwards
    [("code", .ofNat 1), ("exams", .ofList .ofNat [1, 4]), ("studentCount", .ofNat 20), ("maxDuration", .ofNat 90),
      ("allowedSlots", .ofList Slot.toJson [⟨1, 2⟩]), ("conflicts", .ofList GroupConflict.toJson [⟨3, 5⟩]),
      ("state", annotatedState)]
    [("remarks", .ofList .ofText ["moved", "confirmed"])] rfl
    (.cons (number 1) (.cons (enriched_self exams) (.cons (number 20) (.cons (number 90) (.cons (enriched_self slots)
      (.cons (enriched_self conflicts) (.cons state .nil))))))) (by simp)

private theorem annotated_held : StateHeld annotatedGroup := by
  intro members same state listed
  cases same
  obtain rfl : state = annotatedState := by simpa using listed
  decide +kernel

private theorem annotated_spelled : Spelled annotatedGroup := by
  have text (word : String) : Spelled (.ofText word) := .string _
  have slot : Spelled annotatedSlot := by
    apply spelled_record
    simp [spelled_natural, Spelled.null]
  have state : Spelled annotatedState := by
    apply spelled_record
    simp [text, slot]
  apply spelled_record
  simp [spelled_natural, spelled_list, text, state, slot_spelled, conflict_spelled]

private theorem lockedGroup_numbered : GroupNumbered lockedGroup := by
  have slot : SlotNumbered ⟨1, 2⟩ := ⟨by decide, by decide⟩
  refine ⟨by decide, by decide, by decide, by decide, ?_, ?_, ?_⟩
  · intro other listed
    obtain rfl := List.mem_singleton.mp listed
    exact slot
  · intro other listed
    obtain rfl := List.mem_singleton.mp listed
    exact ⟨by decide, by decide⟩
  · rintro other ⟨⟩
    exact slot

/-- A group is read back from its annotated document. -/
theorem annotated_group_comes_back : GroupNumbered lockedGroup ∧ Spelled annotatedGroup ∧ StateHeld annotatedGroup ∧
    Enriched (fun _ => True) lockedGroup.toJson annotatedGroup ∧
    (parse? annotatedGroup.pretty >>= ExamGroup.ofJson?) = some lockedGroup := by
  obtain ⟨groups, -, -, texts, -⟩ := documents_come_back
  have parsed := (texts annotatedGroup annotated_spelled).1
  have read := (groups lockedGroup lockedGroup_numbered).versions _ _ parsed annotated_version annotated_held
  exact ⟨lockedGroup_numbered, annotated_spelled, annotated_held, annotated_version, read⟩

def openGroup : ExamGroup := ⟨1, [1], 1, 90, [], [], .scheduled⟩

def remarkedMembers (inside : List (String × Json)) : List (String × Json) :=
  [("code", .ofNat 1),
    ("exams", .ofList .ofNat [1]),
    ("studentCount", .ofNat 1),
    ("maxDuration", .ofNat 90),
    ("allowedSlots", .ofList Slot.toJson []),
    ("conflicts", .ofList GroupConflict.toJson []),
    ("state", .record (("state", .ofText "scheduled") :: inside))]

def remarkedGroup (inside beside : List (String × Json)) : Json := .record (remarkedMembers inside ++ beside)

private theorem remarked_spelled {inside beside : List (String × Json)} (own : ∀ member ∈ inside, Spelled member.2)
    (others : ∀ member ∈ beside, Spelled member.2) : Spelled (remarkedGroup inside beside) := by
  have state : Spelled (.record (("state", .ofText "scheduled") :: inside)) :=
    spelled_record (List.forall_mem_cons.mpr ⟨.string _, own⟩)
  have members : ∀ member ∈ remarkedMembers inside, Spelled member.2 := by
    simp [remarkedMembers, spelled_natural, spelled_list, state]
  exact spelled_record fun member listed => (List.mem_append.mp listed).elim (members member) (others member)

private theorem remarked_version {inside beside : List (String × Json)} (own : ∀ member ∈ inside, member.1 ≠ "state")
    (others : ∀ member ∈ beside, member.1 ∉ (remarkedMembers []).map Prod.fst) :
    Enriched (fun _ => True) openGroup.toJson (remarkedGroup inside beside) := by
  have number (n : Nat) : Enriched (fun _ => True) (.ofNat n) (.ofNat n) := enriched_self (spelled_natural n)
  have exams : Spelled (.ofList .ofNat openGroup.exams) := spelled_list fun ancode _ => spelled_natural ancode
  have state : Widened (fun _ => True) [("state", .ofText "scheduled")] [("state", .ofText "scheduled")] inside
      (("state", .ofText "scheduled") :: inside) :=
    ⟨rfl, .cons (.string _) .nil, by simpa using own, List.Perm.refl _⟩
  have group : Widened (fun _ => True) (remarkedMembers []) (remarkedMembers inside) beside
      (remarkedMembers inside ++ beside) := by
    refine ⟨rfl, ?_, fun member listed => ⟨others member listed, trivial⟩, List.Perm.refl _⟩
    exact .cons (number 1) (.cons (enriched_self exams) (.cons (number 1) (.cons (number 90) (.cons (.array .nil)
      (.cons (.array .nil) (.cons state.enriched .nil))))))
  exact group.enriched

/-- A numeral that the grammar allows and no double is near to. -/
def beyondRange : Numeral := ⟨false, ['1'], none, some ⟨.unsigned, ['4', '0', '0']⟩⟩

def note : List (String × Json) := [("note", .number beyondRange)]

private theorem note_spelled : ∀ member ∈ note, Spelled member.2 := by
  intro member listed
  obtain rfl := List.mem_singleton.mp listed
  have whole : Digits ['1'] := ⟨by simp, by simp⟩
  have power : Digits ['4', '0', '0'] := ⟨by simp, by simp⟩
  refine .number ⟨whole, ?_, ?_, ?_⟩
  · rintro rest ⟨⟩
  · rintro digits ⟨⟩
  · rintro exponent ⟨⟩
    exact power

/-- A number out of range is passed over beside a state, but refused inside it. -/
theorem note_in_state_is_refused : GroupNumbered openGroup ∧
    Enriched (fun _ => True) openGroup.toJson (remarkedGroup [] note) ∧
    (parse? (remarkedGroup [] note).compact >>= ExamGroup.ofJson?) = some openGroup ∧
    Enriched (fun _ => True) openGroup.toJson (remarkedGroup note []) ∧
    (parse? (remarkedGroup note []).compact >>= ExamGroup.ofJson?) = none := by
  have none {goal : String × Json → Prop} : ∀ member ∈ ([] : List (String × Json)), goal member :=
    fun _ listed => nomatch listed
  have numbered : GroupNumbered openGroup := by
    refine ⟨by decide, by decide, by decide, by decide, ?_, ?_, ?_⟩
    · exact fun _ listed => nomatch listed
    · exact fun _ listed => nomatch listed
    · rintro slot ⟨⟩
  refine ⟨numbered, remarked_version none (by decide), ?_, remarked_version (by decide) none, ?_⟩
  · rw [parse_compact (remarked_spelled none note_spelled)]
    decide +kernel
  · rw [parse_compact (remarked_spelled note_spelled none)]
    decide +kernel

end Timetable.Proofs.DocumentsAgain
