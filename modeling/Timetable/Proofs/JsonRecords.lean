import Timetable.Document.Record
import Timetable.Proofs.JsonTexts
import Timetable.Proofs.Lookups
import Timetable.Proofs.Returned

/-! Records that have been rearranged and added to. A reader of named members finds each of them, wherever it stands
and whatever else there is. -/

namespace Timetable.Proofs.JsonRecords
open Json JsonTexts Lookups Returned

/-- The same value, except that the members of its objects may stand in any order and among others, which have names of
their own and values that are allowed. -/
inductive Enriched (allowed : Json → Prop) : Json → Json → Prop where
  | null : Enriched allowed .null .null
  | bool (value : Bool) : Enriched allowed (.bool value) (.bool value)
  | number (value : Numeral) : Enriched allowed (.number value) (.number value)
  | string (text : Option String) : Enriched allowed (.string text) (.string text)
  | array {items others : List Json} : List.Forall₂ (Enriched allowed) items others →
      Enriched allowed (.array items) (.array others)
  | object {members kept added found : List (Option String × Json)} : kept.map Prod.fst = members.map Prod.fst →
      List.Forall₂ (Enriched allowed) (members.map Prod.snd) (kept.map Prod.snd) →
      (∀ member ∈ added, ∃ name, member.1 = some name ∧ some name ∉ members.map Prod.fst ∧ allowed member.2) →
      found.Perm (kept ++ added) → Enriched allowed (.object members) (.object found)

variable {α : Type} {allowed : Json → Prop} {written json : Json} {name : String} {names : List String}
  {members found kept added fields : List (String × Json)}

/-- Every value is a version of itself. -/
theorem enriched_self (spelled : Spelled written) : Enriched allowed written written := by
  induction spelled with
  | null => exact .null
  | bool value => exact .bool value
  | number => exact .number _
  | string text => exact .string text
  | array _ ih => exact .array (List.forall₂_same.mpr ih)
  | @object members _ ih =>
    refine @Enriched.object allowed members members [] members rfl (List.forall₂_same.mpr ?_) ?_ ?_
    · intro item inside
      obtain ⟨member, listed, rfl⟩ := List.mem_map.mp inside
      exact ih member listed
    · intro _ none
      cases none
    · rw [List.append_nil]

section Records

/-- What becomes of a record: its own members, in their order, and others, all of them mixed. -/
structure Widened (allowed : Json → Prop) (members kept added found : List (String × Json)) : Prop where
  names : kept.map Prod.fst = members.map Prod.fst
  values : List.Forall₂ (Enriched allowed) (members.map Prod.snd) (kept.map Prod.snd)
  others : ∀ member ∈ added, member.1 ∉ members.map Prod.fst ∧ allowed member.2
  mixed : found.Perm (kept ++ added)

def named (member : Option String × Json) : String × Json := (member.1.getD "", member.2)

private theorem map_named {unnamed : List (Option String × Json)}
    (each : ∀ member ∈ unnamed, ∃ name, member.1 = some name) :
    (unnamed.map named).map (fun member => (some member.1, member.2)) = unnamed := by
  rw [List.map_map]
  refine (List.map_congr_left ?_).trans (List.map_id unnamed)
  intro member listed
  obtain ⟨key, value⟩ := member
  obtain ⟨name, same⟩ := each _ listed
  dsimp only at same
  subst same
  rfl

theorem enriched_record (enriched : Enriched allowed (.record members) json) :
    ∃ kept added found, json = .record found ∧ Widened allowed members kept added found := by
  unfold Json.record at enriched
  cases enriched with
  | @object _ kept added found names values others mixed =>
    rw [List.map_map] at names values others
    have keptNames : ∀ member ∈ kept, ∃ name, member.1 = some name := by
      intro member listed
      have key := List.mem_map_of_mem listed (f := Prod.fst)
      rw [names] at key
      obtain ⟨own, -, same⟩ := List.mem_map.mp key
      exact ⟨own.1, same.symm⟩
    have foundNames : ∀ member ∈ found, ∃ name, member.1 = some name := by
      intro member listed
      rcases List.mem_append.mp (mixed.mem_iff.mp listed) with listed | listed
      · exact keptNames member listed
      · obtain ⟨name, same, -⟩ := others member listed
        exact ⟨name, same⟩
    refine ⟨kept.map named, added.map named, found.map named, ?_, ?_⟩
    · rw [Json.record, map_named foundNames]
    · constructor
      · have keys := congrArg (List.map fun key => key.getD "") names
        simpa [Function.comp_def, named] using keys
      · simpa [Function.comp_def, named] using values
      · intro member listed
        obtain ⟨other, inside, rfl⟩ := List.mem_map.mp listed
        obtain ⟨name, same, apart, allows⟩ := others other inside
        refine ⟨?_, allows⟩
        intro own
        obtain ⟨known, listed, equal⟩ := List.mem_map.mp own
        apply apart
        refine List.mem_map.mpr ⟨known, listed, ?_⟩
        rw [named, same] at equal
        exact congrArg some equal
      · rw [← List.map_append]
        exact mixed.map named

private theorem members_record (found : List (String × Json)) : (Json.record found).members? = some found := by
  unfold Json.members? Json.record
  apply mapM_some
  rw [List.forall₂_map_left_iff, List.forall₂_same]
  intro member _
  rfl

theorem Widened.member (widened : Widened allowed members kept added found) (listed : (name, written) ∈ members) :
    ∃ other, (name, other) ∈ kept ∧ Enriched allowed written other := by
  have names := widened.names
  have values := widened.values
  clear widened
  induction members generalizing kept with
  | nil => cases listed
  | cons first members ih =>
    cases kept with
    | nil => cases names
    | cons one kept =>
      obtain ⟨same, names⟩ := List.cons.inj names
      cases values with
      | cons value values =>
        rcases List.mem_cons.mp listed with rfl | listed
        · refine ⟨one.2, ?_, value⟩
          have whole : (name, one.2) = one := congrArg (·, one.2) same.symm
          rw [whole]
          exact List.mem_cons_self
        · obtain ⟨other, inside, version⟩ := ih listed names values
          exact ⟨other, List.mem_cons_of_mem _ inside, version⟩

def Holds (allowed : Json → Prop) (members fields : List (String × Json)) : Prop :=
  ∀ name written, (name, written) ∈ members →
    ∃ other, fields.lookup name = some other ∧ Enriched allowed written other

theorem read_eq (unique : ((found.filter fun member => names.contains member.1).map Prod.fst).Nodup) :
    Record.read? names (.record found) = some ⟨found.filter fun member => names.contains member.1, false⟩ := by
  have read : Record.read? names (.record found) = (Json.record found).members? >>= fun members =>
      if ((members.filter fun member => names.contains member.1).map (·.1)).Nodup then
        some ⟨members.filter fun member => names.contains member.1, false⟩ else none := rfl
  rw [read, members_record]
  exact if_pos unique

theorem read_record (distinct : names.Nodup) (same : members.map Prod.fst = names)
    (enriched : Enriched allowed (.record members) json) :
    ∃ found record, json = .record found ∧ Record.read? names json = some record ∧
      (∀ field ∈ record.fields, field ∈ found) ∧ Holds allowed members record.fields := by
  obtain ⟨kept, added, found, rfl, widened⟩ := enriched_record enriched
  have keys : kept.map Prod.fst = names := widened.names.trans same
  have own : ∀ member ∈ kept, names.contains member.1 = true := by
    intro member listed
    rw [List.contains_iff_mem, ← keys]
    exact List.mem_map_of_mem listed
  have others : ∀ member ∈ added, ¬ names.contains member.1 = true := by
    intro member listed
    rw [List.contains_iff_mem, ← same]
    exact (widened.others member listed).1
  have known : (found.filter fun member => names.contains member.1).Perm kept := by
    have chosen := widened.mixed.filter fun member => names.contains member.1
    rwa [List.filter_append, List.filter_eq_self.mpr own, List.filter_eq_nil_iff.mpr others, List.append_nil] at chosen
  have unique : ((found.filter fun member => names.contains member.1).map Prod.fst).Nodup := by
    rw [(known.map Prod.fst).nodup_iff, keys]
    exact distinct
  refine ⟨found, _, rfl, read_eq unique, ?_, ?_⟩
  · intro field inside
    exact (List.mem_filter.mp inside).1
  · intro name written listed
    obtain ⟨other, inside, version⟩ := widened.member listed
    exact ⟨other, lookup_key unique (known.mem_iff.mpr inside), version⟩

theorem Widened.enriched (widened : Widened allowed members kept added found) :
    Enriched allowed (.record members) (.record found) := by
  let some (member : String × Json) : Option String × Json := (Option.some member.1, member.2)
  refine @Enriched.object allowed (members.map some) (kept.map some) (added.map some) (found.map some) ?_ ?_ ?_ ?_
  · have names := congrArg (List.map Option.some) widened.names
    rwa [List.map_map, List.map_map] at names ⊢
  · rw [List.map_map, List.map_map]
    exact widened.values
  · intro member listed
    obtain ⟨own, inside, rfl⟩ := List.mem_map.mp listed
    obtain ⟨apart, allows⟩ := widened.others own inside
    refine ⟨own.1, rfl, ?_, allows⟩
    rw [List.map_map]
    intro known
    obtain ⟨other, listed, same⟩ := List.mem_map.mp known
    exact apart (List.mem_map.mpr ⟨other, listed, Option.some.inj same⟩)
  · rw [← List.map_append]
    exact widened.mixed.map some

end Records

section HeldBack
open retainable

variable {depth extra : Nat}

private theorem retainableItems_iff {items : List Json} :
    retainableItems depth items = true ↔ ∀ item ∈ items, item.retainable depth = true := by
  induction items with
  | nil => simp [retainableItems]
  | cons item items ih => simp [retainableItems, ih]

private theorem retainableMembers_iff {members : List (Option String × Json)} : retainableMembers depth members = true ↔
    ∀ member ∈ members, member.1.isSome = true ∧ member.2.retainable depth = true := by
  induction members with
  | nil => simp [retainableMembers]
  | cons member members ih => simp [retainableMembers, ih]

theorem retainable_record :
    (Json.record found).retainable (depth + 1) = true ↔ ∀ member ∈ found, member.2.retainable depth = true := by
  change retainableMembers depth (found.map _) = true ↔ _
  rw [retainableMembers_iff, List.forall_mem_map]
  simp

private theorem retainable_mono {value : Json} (held : value.retainable depth = true) :
    value.retainable (depth + extra) = true := by
  induction depth generalizing value with
  | zero =>
    unfold retainable at held ⊢
    cases value with
    | array | object => cases held
    | _ => exact held
  | succ depth ih =>
    rw [Nat.succ_add]
    unfold retainable at held ⊢
    cases value with
    | array items =>
      rw [retainableItems_iff] at held ⊢
      exact fun item listed => ih (held item listed)
    | object members =>
      rw [retainableMembers_iff] at held ⊢
      exact fun member listed => ⟨(held member listed).1, ih (held member listed).2⟩
    | _ => exact held

private theorem exists_source {items others : List Json} {other : Json}
    (versions : List.Forall₂ (Enriched allowed) items others) (listed : other ∈ others) :
    ∃ item ∈ items, Enriched allowed item other := by
  induction versions with
  | nil => cases listed
  | cons version _ ih =>
    rcases List.mem_cons.mp listed with rfl | listed
    · exact ⟨_, List.mem_cons_self, version⟩
    · obtain ⟨item, inside, version⟩ := ih listed
      exact ⟨item, List.mem_cons_of_mem _ inside, version⟩

/-- Additions nest as deep as they do inside what they are added to. -/
theorem retainable_enriched (additions : ∀ value, allowed value → value.retainable extra = true)
    (held : written.retainable depth = true) (enriched : Enriched allowed written json) :
    json.retainable (depth + extra) = true := by
  induction depth generalizing written json with
  | zero =>
    cases enriched with
    | array | object =>
      unfold retainable at held
      cases held
    | _ =>
      unfold retainable at held ⊢
      exact held
  | succ depth ih =>
    rw [Nat.succ_add]
    cases enriched with
    | array versions =>
      unfold retainable at held ⊢
      rw [retainableItems_iff] at held ⊢
      intro other listed
      obtain ⟨item, inside, version⟩ := exists_source versions listed
      exact ih (held item inside) version
    | @object members kept added _ names values others mixed =>
      unfold retainable at held ⊢
      rw [retainableMembers_iff] at held ⊢
      intro other listed
      rcases List.mem_append.mp (mixed.mem_iff.mp listed) with listed | listed
      · have key := List.mem_map_of_mem listed (f := Prod.fst)
        rw [names] at key
        obtain ⟨own, inside, same⟩ := List.mem_map.mp key
        obtain ⟨value, valued, version⟩ := exists_source values (List.mem_map_of_mem listed)
        obtain ⟨source, present, rfl⟩ := List.mem_map.mp valued
        exact ⟨same ▸ (held own inside).1, ih (held source present).2 version⟩
      · obtain ⟨name, same, -, allows⟩ := others other listed
        rw [same, Nat.add_comm]
        exact ⟨rfl, retainable_mono (additions _ allows)⟩
    | _ =>
      unfold retainable at held ⊢
      exact held

theorem tagged_eq {tag kind : String} (alone : found.filter (·.1 = tag) = [(tag, .ofText kind)]) :
    (Json.record found).tagged? tag depth =
      if (found.filter (·.1 ≠ tag)).all fun member => member.2.retainable depth then
        some (kind, .record (found.filter (·.1 ≠ tag))) else none := by
  have members := members_record found
  unfold Json.record at members
  unfold Json.record tagged?
  simp only [members, Option.bind_eq_bind, Option.bind_some, alone]
  rfl

theorem tagged_held {tag kind : String} (alone : found.filter (·.1 = tag) = [(tag, .ofText kind)])
    (held : (Json.record found).retainable (depth + 1) = true) :
    (Json.record found).tagged? tag depth = some (kind, .record (found.filter (·.1 ≠ tag))) := by
  rw [tagged_eq alone, if_pos]
  rw [List.all_eq_true]
  intro member listed
  exact retainable_record.mp held member (List.mem_filter.mp listed).1

private theorem filter_alone {tag : String} {value : Json} {rest : List (String × Json)}
    (mixed : found.Perm ((tag, value) :: rest)) (apart : ∀ member ∈ rest, member.1 ≠ tag) :
    found.filter (·.1 = tag) = [(tag, value)] ∧ (found.filter (·.1 ≠ tag)).Perm rest := by
  have none : rest.filter (·.1 = tag) = [] := List.filter_eq_nil_iff.mpr (by simpa using apart)
  have all : rest.filter (·.1 ≠ tag) = rest := List.filter_eq_self.mpr (by simpa using apart)
  constructor
  · have chosen := mixed.filter fun member => decide (member.1 = tag)
    rw [List.filter_cons_of_pos (by simp), none] at chosen
    exact List.perm_singleton.mp chosen
  · have left := mixed.filter fun member => decide (member.1 ≠ tag)
    rwa [List.filter_cons_of_neg (by simp), all] at left

/-- The name of a kind is found among the members, and what is left is a version of the others. -/
theorem tagged_record {tag kind : String} (apart : tag ∉ members.map Prod.fst)
    (enriched : Enriched allowed (.record ((tag, .ofText kind) :: members)) json)
    (held : json.retainable (depth + 1) = true) :
    ∃ fields, json.tagged? tag depth = some (kind, fields) ∧ Enriched allowed (.record members) fields := by
  obtain ⟨kept, added, found, rfl, widened⟩ := enriched_record enriched
  obtain ⟨names, values, others, mixed⟩ := widened
  cases kept with
  | nil => cases names
  | cons first kept =>
    obtain ⟨same, keys⟩ := List.cons.inj names
    cases values with
    | cons kindly values =>
      obtain ⟨key, value⟩ := first
      dsimp only at same kindly
      obtain rfl := same.symm
      cases kindly
      have own : ∀ member ∈ kept, member.1 ≠ tag := by
        rintro member listed rfl
        exact apart (keys ▸ List.mem_map_of_mem listed)
      have new : ∀ member ∈ added, member.1 ≠ tag := by
        rintro member listed rfl
        exact (others member listed).1 List.mem_cons_self
      have rest : ∀ member ∈ kept ++ added, member.1 ≠ tag := by
        intro member listed
        exact (List.mem_append.mp listed).elim (own member) (new member)
      obtain ⟨alone, left⟩ := filter_alone mixed rest
      have widened : Widened allowed members kept added (found.filter (·.1 ≠ tag)) := by
        refine ⟨keys, values, ?_, left⟩
        intro member listed
        obtain ⟨apart, allows⟩ := others member listed
        exact ⟨fun known => apart (List.mem_cons_of_mem _ known), allows⟩
      exact ⟨_, tagged_held alone held, widened.enriched⟩

end HeldBack

section Readers

/-- A reader gives the value back from every version of what is written. -/
def ReadsBack (allowed : Json → Prop) (read : Json → Option α) (written : Json) (value : α) : Prop :=
  ∀ json, Enriched allowed written json → read json = some value

theorem number_back {n : Nat} (inside : n < numberLimit) : ReadsBack allowed number? (.ofNat n) n := by
  intro json enriched
  cases enriched
  change (Numeral.ofNat n).nat?.filter (· < numberLimit) = some n
  rw [JsonScans.nat_ofNat, Option.filter_some, if_pos (decide_eq_true inside)]

theorem text_back (text : String) : ReadsBack allowed text? (.ofText text) text := by
  intro json enriched
  cases enriched
  rfl

theorem bool_back (value : Bool) : ReadsBack allowed bool? (.bool value) value := by
  intro json enriched
  cases enriched
  rfl

theorem list_back {read : Json → Option α} {write : α → Json} {values : List α}
    (each : ∀ value ∈ values, ReadsBack allowed read (write value) value) :
    ReadsBack allowed (list? read) (.ofList write values) values := by
  intro json enriched
  unfold Json.ofList at enriched
  cases enriched with
  | array versions =>
    unfold list?
    apply mapM_some
    rw [List.forall₂_map_left_iff] at versions
    induction versions with
    | nil => exact .nil
    | cons version _ ih =>
      refine .cons (each _ List.mem_cons_self _ version) (ih ?_)
      exact fun value listed => each value (List.mem_cons_of_mem _ listed)

/-- A value that may be missing is written as what is no `null`. -/
theorem nullable_back {read : Json → Option α} {write : α → Json} {option : Option α}
    (inked : ∀ value, option = some value → write value ≠ .null)
    (back : ∀ value, option = some value → ReadsBack allowed read (write value) value) :
    ReadsBack allowed (Json.nullable? read) (.ofOption write option) option := by
  intro json enriched
  cases option with
  | none =>
    cases enriched
    rfl
  | some value =>
    have read := back value rfl json enriched
    have inked := inked value rfl
    unfold Json.ofOption at enriched
    dsimp only at enriched
    unfold Json.nullable?
    generalize write value = written at enriched inked
    cases enriched with
    | null => exact absurd rfl inked
    | _ => exact congrArg (Option.map some) read

variable {read : Json → Option α} {value : α} {record : Record}

theorem Holds.required (holds : Holds allowed members record.fields) (listed : (name, written) ∈ members)
    (back : ReadsBack allowed read written value) : record.required? name read = some value := by
  obtain ⟨other, found, version⟩ := holds name written listed
  rw [Record.required?, found]
  exact back other version

theorem Holds.withDefault (holds : Holds allowed members record.fields) (listed : (name, written) ∈ members)
    (back : ReadsBack allowed read written value) (missing : α) :
    record.withDefault? name read missing = some value := by
  obtain ⟨other, found, version⟩ := holds name written listed
  rw [Record.withDefault?, found]
  exact back other version

theorem Holds.nullable {option : Option α} (holds : Holds allowed members record.fields)
    (listed : (name, written) ∈ members) (back : ReadsBack allowed (Json.nullable? read) written option) :
    record.nullable? name read = some option := by
  obtain ⟨other, found, version⟩ := holds name written listed
  rw [Record.nullable?, found]
  exact back other version

end Readers

end Timetable.Proofs.JsonRecords
