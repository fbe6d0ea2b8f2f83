import Mathlib.Data.List.Nodup
import Timetable.Proofs.Lookups
import Timetable.Proofs.Ordering
import Timetable.Seating.Pool

/-! The rooms of one slot. A room stands in a pool at most once, free or used, and what a search
offers is such a room. -/

namespace Timetable.Proofs.SeatPool

/-- No room is free and used at once, and all of them are rooms of the inventory. -/
structure Sound (pool : Pool) : Prop where
  distinct : (pool.places.map (·.position)).Nodup
  apart : (pool.free.map (·.position) ++ pool.used.map (·.place.position)).Nodup
  free_known : ∀ place ∈ pool.free, place ∈ pool.places
  used_known : ∀ room ∈ pool.used, room.place ∈ pool.places

/-- A search offers a room in use as it is, and a free one with all its seats open. -/
inductive Offers (pool : Pool) : Place → Pool → Prop where
  | inUse {room : UsedRoom} (present : room ∈ pool.used) : Offers pool room.place pool
  | opened {place : Place} (free : place ∈ pool.free) : Offers pool place (pool.openRoom place)

variable {pool after : Pool} {place : Place} {room : UsedRoom} {needs : RoomNeeds}

theorem mem_places {rooms : List Room} : place ∈ Place.ofRooms rooms ↔ rooms[place.position]? = some place.room := by
  rw [Place.ofRooms, List.mem_map]
  constructor
  · rintro ⟨item, present, rfl⟩
    exact List.mk_mem_zipIdx_iff_getElem?.mp present
  · intro present
    exact ⟨(place.room, place.position), List.mk_mem_zipIdx_iff_getElem?.mpr present, rfl⟩

theorem ofRooms_positions (rooms : List Room) : (Place.ofRooms rooms).map (·.position) = List.range rooms.length := by
  have positions : (Place.ofRooms rooms).map (·.position) = rooms.zipIdx.map (·.2) := by
    simp [Place.ofRooms, Function.comp_def]
  rw [positions, List.zipIdx_map_snd, List.range_eq_range']

theorem ofRooms_distinct (rooms : List Room) : ((Place.ofRooms rooms).map (·.position)).Nodup := by
  rw [ofRooms_positions]
  exact List.nodup_range

theorem ofRooms_rooms (rooms : List Room) : (Place.ofRooms rooms).map (·.room) = rooms := by
  have same : (Place.ofRooms rooms).map (·.room) = rooms.zipIdx.map (·.1) := by
    simp [Place.ofRooms, Function.comp_def]
  rw [same, List.zipIdx_map_fst]

theorem sound_ofPlaces {places : List Place} (distinct : (places.map (·.position)).Nodup)
    (available : Place → Bool) : Sound (.ofPlaces places available) where
  distinct := distinct
  apart := by
    simpa [Pool.ofPlaces] using distinct.sublist (List.filter_sublist.map _)
  free_known _ free := (List.mem_filter.mp free).1
  used_known _ used := by cases used

namespace Sound

theorem place_eq (sound : Sound pool) {first second : Place} (one : first ∈ pool.places)
    (other : second ∈ pool.places) (same : first.position = second.position) : first = second :=
  Lookups.eq_of_key sound.distinct one other same

theorem used_eq (sound : Sound pool) {first second : UsedRoom} (one : first ∈ pool.used)
    (other : second ∈ pool.used) (same : first.place.position = second.place.position) :
    first = second :=
  List.inj_on_of_nodup_map (List.nodup_append.mp sound.apart).2.1 one other same

theorem not_used (sound : Sound pool) (free : place ∈ pool.free) (used : room ∈ pool.used) :
    place.position ≠ room.place.position :=
  (List.nodup_append.mp sound.apart).2.2 _ (List.mem_map_of_mem free) _ (List.mem_map_of_mem used)

private theorem find?_used (sound : Sound pool) (used : room ∈ pool.used) :
    pool.find? room.place = some room :=
  Lookups.find?_key (List.nodup_append.mp sound.apart).2.1 used

theorem seatsLeft_used (sound : Sound pool) (used : room ∈ pool.used) :
    pool.seatsLeft room.place = room.seatsLeft := by
  rw [Pool.seatsLeft, sound.find?_used used]

theorem take (sound : Sound pool) (place : Place) : Sound (pool.take place) where
  distinct := sound.distinct
  apart := sound.apart.sublist ((List.filter_sublist.map _).append (List.Sublist.refl _))
  free_known _ free := sound.free_known _ (List.mem_filter.mp free).1
  used_known := sound.used_known

theorem openRoom (sound : Sound pool) (free : place ∈ pool.free) : Sound (pool.openRoom place) where
  distinct := sound.distinct
  apart := by
    have taken := (sound.take place).apart
    simp only [Pool.openRoom, List.map_append, List.map_cons, List.map_nil, ← List.append_assoc]
    refine List.nodup_append.mpr ⟨taken, List.nodup_singleton _, ?_⟩
    rintro position present other single rfl
    rw [List.mem_singleton] at single
    rcases List.mem_append.mp present with present | present
    · obtain ⟨other, remains, same⟩ := List.mem_map.mp present
      have differs := (List.mem_filter.mp remains).2
      simp [same, single] at differs
    · obtain ⟨room, used, same⟩ := List.mem_map.mp present
      exact sound.not_used free used (single.symm.trans same.symm)
  free_known _ remains := sound.free_known _ (List.mem_filter.mp remains).1
  used_known room used := by
    rcases List.mem_append.mp used with used | used
    · exact sound.used_known _ used
    · rw [List.mem_singleton.mp used]
      exact sound.free_known _ free

theorem update (sound : Sound pool) (place : Place) {change : UsedRoom → UsedRoom}
    (fixed : ∀ room, (change room).place = room.place) : Sound (pool.update place change) where
  distinct := sound.distinct
  apart := by
    have same : (pool.update place change).used.map (·.place.position)
        = pool.used.map (·.place.position) := by
      rw [Pool.update, List.map_map]
      apply List.map_congr_left
      intro room _
      simp only [Function.comp_apply]
      split <;> simp [fixed]
    rw [same]
    exact sound.apart
  free_known := sound.free_known
  used_known room used := by
    obtain ⟨before, present, rfl⟩ := List.mem_map.mp used
    have same : (if before.place.position = place.position then change before else before).place
        = before.place := by
      split <;> simp [fixed]
    rw [same]
    exact sound.used_known _ present

end Sound

namespace Offers

theorem exists_used (offered : Offers pool place after) : ∃ room ∈ after.used, room.place = place := by
  cases offered with
  | inUse present => exact ⟨_, present, rfl⟩
  | opened free => exact ⟨_, List.mem_append_right _ List.mem_cons_self, rfl⟩

theorem stays (offered : Offers pool place after) (used : room ∈ pool.used) : room ∈ after.used := by
  cases offered with
  | inUse => exact used
  | opened => exact List.mem_append_left _ used

theorem sound (offered : Offers pool place after) (kept : Sound pool) : Sound after := by
  cases offered with
  | inUse => exact kept
  | opened free => exact kept.openRoom free

theorem places_eq (offered : Offers pool place after) : after.places = pool.places := by
  cases offered <;> rfl

theorem known (offered : Offers pool place after) (kept : Sound pool) : place ∈ pool.places := by
  cases offered with
  | inUse present => exact kept.used_known _ present
  | opened free => exact kept.free_known _ free

end Offers

theorem openRoom_seats (sound : Sound pool) (free : place ∈ pool.free) :
    (pool.openRoom place).seatsLeft place = place.room.seats :=
  (sound.openRoom free).seatsLeft_used (List.mem_append_right _ List.mem_cons_self)

def Holds (pool : Pool) (place : Place) : Prop :=
  place ∈ pool.free ∨ ∃ room ∈ pool.used, room.place = place

theorem Holds.known (held : Holds pool place) (sound : Sound pool) : place ∈ pool.places := by
  rcases held with free | ⟨room, used, rfl⟩
  · exact sound.free_known _ free
  · exact sound.used_known _ used

theorem Offers.holds (offered : Offers pool place after) : Holds pool place := by
  cases offered with
  | inUse present => exact .inr ⟨_, present, rfl⟩
  | opened free => exact .inl free

private theorem holds_openRoom (sound : Sound pool) (free : place ∈ pool.free) {other : Place} :
    Holds (pool.openRoom place) other ↔ Holds pool other := by
  constructor
  · rintro (remains | ⟨room, used, rfl⟩)
    · exact .inl (List.mem_filter.mp remains).1
    · rcases List.mem_append.mp used with used | used
      · exact .inr ⟨room, used, rfl⟩
      · rw [List.mem_singleton.mp used]
        exact .inl free
  · rintro (present | ⟨room, used, rfl⟩)
    · by_cases same : other.position = place.position
      · rw [sound.place_eq (sound.free_known _ present) (sound.free_known _ free) same]
        exact .inr (Offers.opened free).exists_used
      · exact .inl (List.mem_filter.mpr ⟨present, by simpa using same⟩)
    · exact .inr ⟨room, List.mem_append_left _ used, rfl⟩

theorem Offers.holds_iff (offered : Offers pool place after) (sound : Sound pool) {other : Place} :
    Holds after other ↔ Holds pool other := by
  cases offered with
  | inUse => rfl
  | opened free => exact holds_openRoom sound free

theorem Holds.of_take {other : Place} (held : Holds (pool.take place) other) : Holds pool other :=
  held.imp_left fun free => (List.mem_filter.mp free).1

/-- A room that is taken as a whole is out of reach. -/
theorem not_holds_take (sound : Sound pool) (free : place ∈ pool.free) : ¬ Holds (pool.take place) place := by
  rintro (remains | ⟨room, used, same⟩)
  · simpa using (List.mem_filter.mp remains).2
  · exact sound.not_used free used (congrArg Place.position same.symm)

private theorem holds_update {change : UsedRoom → UsedRoom} (fixed : ∀ room, (change room).place = room.place)
    {other : Place} : Holds (pool.update place change) other ↔ Holds pool other := by
  refine or_congr_right ⟨?_, ?_⟩
  · rintro ⟨room, used, rfl⟩
    obtain ⟨before, present, rfl⟩ := List.mem_map.mp used
    exact ⟨before, present, by split <;> simp [fixed]⟩
  · rintro ⟨room, used, rfl⟩
    exact ⟨_, List.mem_map_of_mem used, by split <;> simp [fixed]⟩

theorem holds_occupy {sitting : Sitting} {students : Nat} {other : Place} :
    Holds (pool.occupy place sitting students) other ↔ Holds pool other := by
  refine holds_update ?_
  exact fun _ => rfl

theorem holds_close {other : Place} : Holds (pool.close place) other ↔ Holds pool other := by
  refine holds_update ?_
  exact fun _ => rfl

theorem offers_named {name : RoomName} (sound : Sound pool)
    (found : pool.openNamed? name = some (place, after)) :
    Offers pool place after ∧ place.room.name = name := by
  rw [Pool.openNamed?, Option.bind_eq_bind, Option.bind_eq_some_iff] at found
  obtain ⟨first, named, found⟩ := found
  have right : first.room.name = name := by simpa using List.find?_some named
  split at found
  · rename_i present
    obtain ⟨room, held⟩ := Option.isSome_iff_exists.mp present
    obtain ⟨rfl, rfl⟩ : first = place ∧ pool = after := by simpa using found
    have used := List.mem_of_find?_eq_some held
    have same : room.place = first :=
      sound.place_eq (sound.used_known _ used) (List.mem_of_find?_eq_some named)
        (by simpa using List.find?_some held)
    exact ⟨same ▸ .inUse used, right⟩
  · split at found
    · rename_i free
      obtain ⟨rfl, rfl⟩ : first = place ∧ pool.openRoom first = after := by simpa using found
      obtain ⟨other, present, same⟩ := List.any_eq_true.mp free
      have equal := sound.place_eq (sound.free_known _ present) (List.mem_of_find?_eq_some named)
        (by simpa using same)
      exact ⟨.opened (equal ▸ present), right⟩
    · cases found

theorem exists_named (named : (pool.places.map (·.room.name)).Nodup) (known : place ∈ pool.places)
    (held : Holds pool place) : ∃ after, pool.openNamed? place.room.name = some (place, after) := by
  have found : pool.places.find? (·.room.name = place.room.name) = some place :=
    Lookups.find?_key named known
  rw [Pool.openNamed?, found, Option.bind_eq_bind, Option.bind_some]
  split
  · exact ⟨_, rfl⟩
  · rename_i absent
    rcases held with free | ⟨room, used, same⟩
    · rw [if_pos (List.any_eq_true.mpr ⟨place, free, by simp⟩)]
      exact ⟨_, rfl⟩
    · refine absurd (List.find?_isSome.mpr ⟨room, used, ?_⟩) absent
      simp [same]

/-- A room in use keeps its sittings and gives no seat back; the one that is occupied takes in the sitting. -/
theorem occupied {sitting : Sitting} {students : Nat} (used : room ∈ pool.used) :
    ∃ taken ∈ (pool.occupy place sitting students).used, taken.place = room.place ∧
      (∀ other ∈ room.sittings, other ∈ taken.sittings) ∧ taken.seatsLeft ≤ room.seatsLeft ∧
      (room.place.position = place.position →
        sitting ∈ taken.sittings ∧ taken.seatsLeft = room.seatsLeft - students) := by
  refine ⟨_, List.mem_map_of_mem used, ?_⟩
  split
  · rename_i same
    refine ⟨rfl, fun other sits => ?_, Nat.sub_le _ _, fun _ => ⟨?_, rfl⟩⟩
    · dsimp only
      split
      · exact sits
      · exact List.mem_append_left _ sits
    · dsimp only
      split
      · rename_i contained
        exact List.contains_iff_mem.mp contained
      · exact List.mem_append_right _ (List.mem_singleton_self _)
  · rename_i elsewhere
    exact ⟨rfl, fun _ => id, Nat.le_refl _, fun same => absurd same elsewhere⟩

/-- A room in use after seats are given was in use before, with no other sittings but the new one. -/
theorem occupied_before {sitting : Sitting} {students : Nat}
    (used : room ∈ (pool.occupy place sitting students).used) :
    ∃ before ∈ pool.used, before.place = room.place ∧ ∀ other ∈ room.sittings,
      other ∈ before.sittings ∨ other = sitting ∧ before.place.position = place.position := by
  obtain ⟨before, present, rfl⟩ := List.mem_map.mp used
  refine ⟨before, present, ?_⟩
  split
  · rename_i same
    refine ⟨rfl, fun other sits => ?_⟩
    dsimp only at sits
    split at sits
    · exact .inl sits
    · exact (List.mem_append.mp sits).imp_right fun single => ⟨List.mem_singleton.mp single, same⟩
  · exact ⟨rfl, fun _ => .inl⟩

private theorem compatible_seats (fitting : Pool.isCompatible needs place = true) : 0 < place.room.seats := by
  simp only [Pool.isCompatible, Bool.and_eq_true, decide_eq_true_eq] at fitting
  exact fitting.1

theorem smallestFree?_mem (found : pool.smallestFree? needs = some place) :
    place ∈ pool.free ∧ 0 < place.room.seats :=
  ⟨by simpa using List.mem_of_find?_eq_some found, compatible_seats (List.find?_some found)⟩

theorem offers_fresh (found : pool.fresh? needs = some (place, after)) :
    place ∈ pool.free ∧ after = pool.openRoom place ∧ 0 < place.room.seats := by
  obtain ⟨first, largest, same⟩ := Option.map_eq_some_iff.mp found
  obtain ⟨rfl, rfl⟩ := Prod.mk.injEq .. ▸ same
  exact ⟨List.mem_of_find?_eq_some largest, rfl, compatible_seats (List.find?_some largest)⟩

theorem offers_freshSmallest (found : pool.freshSmallest? needs = some (place, after)) :
    place ∈ pool.free ∧ after = pool.openRoom place ∧ 0 < place.room.seats := by
  obtain ⟨first, smallest, same⟩ := Option.map_eq_some_iff.mp found
  obtain ⟨rfl, rfl⟩ := Prod.mk.injEq .. ▸ same
  exact ⟨(smallestFree?_mem smallest).1, rfl, (smallestFree?_mem smallest).2⟩

theorem takeSmallest_ok (found : pool.takeSmallest? needs = some (place, after)) :
    place ∈ pool.free ∧ after = pool.take place ∧ 0 < place.room.seats := by
  obtain ⟨first, smallest, same⟩ := Option.map_eq_some_iff.mp found
  obtain ⟨rfl, rfl⟩ := Prod.mk.injEq .. ▸ same
  exact ⟨(smallestFree?_mem smallest).1, rfl, (smallestFree?_mem smallest).2⟩

theorem shareable?_spec {duration students : Nat}
    (found : pool.shareable? needs duration students = some place) :
    ∃ room ∈ pool.used, room.place = place ∧ students ≤ room.seatsLeft ∧ room.sittings ≠ [] ∧
      (∀ sitting ∈ room.sittings, sitting.duration = duration) ∧ needs.satisfiedBy place.room = true := by
  obtain ⟨room, least, rfl⟩ := Option.map_eq_some_iff.mp found
  obtain ⟨used, fitting⟩ := List.mem_filter.mp (Ordering.firstMin?_mem least)
  simp only [Pool.isShareable, Bool.and_eq_true, Bool.not_eq_true', List.isEmpty_eq_false_iff, decide_eq_true_eq,
    List.all_eq_true] at fitting
  obtain ⟨⟨⟨company, fits⟩, alike⟩, suits⟩ := fitting
  exact ⟨room, used, rfl, fits, company, alike, suits⟩

theorem withSpaceFor_used {ancode : Ancode}
    (found : pool.withSpaceFor? ancode needs = some place) :
    ∃ room ∈ pool.used, room.place = place ∧ 0 < room.seatsLeft := by
  have roomy : ∃ room, room.place = place ∧ room ∈ pool.used.filter fun used =>
      0 < used.seatsLeft && needs.satisfiedBy used.place.room := by
    simp only [Pool.withSpaceFor?] at found
    split at found
    · rename_i room chosen
      exact ⟨room, Option.some.inj found, List.mem_of_find?_eq_some chosen⟩
    · obtain ⟨room, chosen, same⟩ := Option.map_eq_some_iff.mp found
      exact ⟨room, same, List.mem_of_find?_eq_some chosen⟩
  obtain ⟨room, same, chosen⟩ := roomy
  have fitting := List.mem_filter.mp chosen
  simp only [Bool.and_eq_true, decide_eq_true_eq] at fitting
  exact ⟨room, fitting.1, same, fitting.2.1⟩

end Timetable.Proofs.SeatPool
