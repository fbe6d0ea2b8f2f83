import Timetable.Proofs.SeatReasons
import Timetable.Proofs.SlotRounds

/-! What the rooms of a slot answer, whatever they are asked for. A room leaves the free ones when it is handed out
and never comes back. The free ones keep the order of the inventory, so the first of them that fits has the most
seats and the last one the fewest. -/

namespace Timetable.Proofs.HandedRooms
open SeatPool SeatReasons

inductive Request where
  | named (name : RoomName)
  | fresh (needs : RoomNeeds)
  | freshSmallest (needs : RoomNeeds)
  | takeSmallest (needs : RoomNeeds)
  | occupy (place : Place) (sitting : Sitting) (students : Nat)
  | close (place : Place)

/-- A pool and the rooms it has handed out. -/
structure History where
  pool : Pool
  handed : List Place

namespace History

def note (history : History) : Option (Place × Pool) → History
  | some (place, pool) => ⟨pool, place :: history.handed⟩
  | none => history

def serve (history : History) : Request → History
  | .named name => history.note (history.pool.openNamed? name)
  | .fresh needs => history.note (history.pool.fresh? needs)
  | .freshSmallest needs => history.note (history.pool.freshSmallest? needs)
  | .takeSmallest needs => history.note (history.pool.takeSmallest? needs)
  | .occupy place sitting students => { history with pool := history.pool.occupy place sitting students }
  | .close place => { history with pool := history.pool.close place }

end History

def served (rooms : List Room) (available : Place → Bool) (requests : List Request) : History :=
  requests.foldl History.serve ⟨.ofPlaces (Place.ofRooms rooms) available, []⟩

structure Kept (rooms : List Room) (available : Place → Bool) (history : History) : Prop where
  sound : Sound history.pool
  places : history.pool.places = Place.ofRooms rooms
  ascending : (history.pool.free.map (·.position)).Pairwise (· < ·)
  free_iff : ∀ place, place ∈ history.pool.free ↔
    place ∈ Place.ofRooms rooms ∧ available place = true ∧ place ∉ history.handed
  used_handed : ∀ room ∈ history.pool.used, room.place ∈ history.handed
  within : ∀ room ∈ history.pool.used, room.seatsLeft ≤ room.place.room.seats

variable {rooms : List Room} {available : Place → Bool} {history : History} {place : Place} {room : UsedRoom}
  {needs : RoomNeeds} {pool : Pool}

private theorem kept_start (rooms : List Room) (available : Place → Bool) :
    Kept rooms available ⟨.ofPlaces (Place.ofRooms rooms) available, []⟩ where
  sound := sound_ofPlaces (ofRooms_distinct rooms) available
  places := rfl
  ascending := by
    have positions : ((Place.ofRooms rooms).map (·.position)).Pairwise (· < ·) := by
      rw [ofRooms_positions]
      exact List.pairwise_lt_range
    exact positions.sublist (List.filter_sublist.map _)
  free_iff place := by simp [Pool.ofPlaces, List.mem_filter]
  used_handed _ used := by cases used
  within _ used := by cases used

namespace Kept

theorem take (kept : Kept rooms available history) (free : place ∈ history.pool.free) :
    Kept rooms available ⟨history.pool.take place, place :: history.handed⟩ where
  sound := kept.sound.take place
  places := kept.places
  ascending := kept.ascending.sublist (List.filter_sublist.map _)
  free_iff other := by
    rw [Pool.take, List.mem_filter, decide_eq_true_eq, List.mem_cons, not_or]
    constructor
    · rintro ⟨present, apart⟩
      obtain ⟨known, ready, unhanded⟩ := (kept.free_iff other).mp present
      exact ⟨known, ready, fun same => apart (congrArg Place.position same), unhanded⟩
    · rintro ⟨known, ready, apart, unhanded⟩
      have present := (kept.free_iff other).mpr ⟨known, ready, unhanded⟩
      refine ⟨present, fun same => apart ?_⟩
      exact kept.sound.place_eq (kept.sound.free_known _ present) (kept.sound.free_known _ free) same
  used_handed room used := List.mem_cons_of_mem _ (kept.used_handed room used)
  within := kept.within

/-- A room that is opened is taken, and stands among the used ones with all its seats. -/
theorem openRoom (kept : Kept rooms available history) (free : place ∈ history.pool.free) :
    Kept rooms available ⟨history.pool.openRoom place, place :: history.handed⟩ := by
  have taken := kept.take free
  refine ⟨kept.sound.openRoom free, taken.places, taken.ascending, taken.free_iff, ?_, ?_⟩
  · intro room used
    rcases List.mem_append.mp used with used | used
    · exact taken.used_handed room used
    · obtain rfl := List.mem_singleton.mp used
      exact List.mem_cons_self
  · intro room used
    rcases List.mem_append.mp used with used | used
    · exact taken.within room used
    · obtain rfl := List.mem_singleton.mp used
      exact Nat.le_refl _

/-- A room in use may be handed out again. -/
theorem again (kept : Kept rooms available history) (used : room ∈ history.pool.used) :
    Kept rooms available ⟨history.pool, room.place :: history.handed⟩ where
  sound := kept.sound
  places := kept.places
  ascending := kept.ascending
  free_iff other := by
    have before := kept.used_handed room used
    rw [kept.free_iff, List.mem_cons, not_or]
    refine ⟨fun ⟨known, ready, unhanded⟩ => ⟨known, ready, ?_, unhanded⟩,
      fun ⟨known, ready, _, unhanded⟩ => ⟨known, ready, unhanded⟩⟩
    rintro rfl
    exact unhanded before
  used_handed other used := List.mem_cons_of_mem _ (kept.used_handed other used)
  within := kept.within

theorem offer (kept : Kept rooms available history) (offered : Offers history.pool place pool) :
    Kept rooms available ⟨pool, place :: history.handed⟩ := by
  cases offered with
  | inUse used => exact kept.again used
  | opened free => exact kept.openRoom free

theorem update (kept : Kept rooms available history) (place : Place) {change : UsedRoom → UsedRoom}
    (fixed : ∀ room, (change room).place = room.place) (fewer : ∀ room, (change room).seatsLeft ≤ room.seatsLeft) :
    Kept rooms available { history with pool := history.pool.update place change } where
  sound := kept.sound.update place fixed
  places := kept.places
  ascending := kept.ascending
  free_iff := kept.free_iff
  used_handed room used := by
    obtain ⟨before, present, rfl⟩ := List.mem_map.mp used
    have handed := kept.used_handed before present
    split
    · rwa [fixed]
    · exact handed
  within room used := by
    obtain ⟨before, present, rfl⟩ := List.mem_map.mp used
    have within := kept.within before present
    split
    · rw [fixed]
      exact Nat.le_trans (fewer before) within
    · exact within

theorem note {answer : Option (Place × Pool)} (kept : Kept rooms available history)
    (answered : ∀ place pool, answer = some (place, pool) → Kept rooms available ⟨pool, place :: history.handed⟩) :
    Kept rooms available (history.note answer) := by
  cases answer with
  | none => exact kept
  | some answer => exact answered answer.1 answer.2 rfl

theorem serve (kept : Kept rooms available history) (request : Request) :
    Kept rooms available (history.serve request) := by
  cases request with
  | named name => exact kept.note fun place pool found => kept.offer (offers_named kept.sound found).1
  | fresh needs =>
    refine kept.note fun place pool found => ?_
    obtain ⟨free, rfl, -⟩ := offers_fresh found
    exact kept.openRoom free
  | freshSmallest needs =>
    refine kept.note fun place pool found => ?_
    obtain ⟨free, rfl, -⟩ := offers_freshSmallest found
    exact kept.openRoom free
  | takeSmallest needs =>
    refine kept.note fun place pool found => ?_
    obtain ⟨free, rfl, -⟩ := takeSmallest_ok found
    exact kept.take free
  | occupy place sitting students => exact kept.update place (fun _ => rfl) fun _ => Nat.sub_le _ _
  | close place => exact kept.update place (fun _ => rfl) fun _ => Nat.zero_le _

theorem serves (kept : Kept rooms available history) (requests : List Request) :
    Kept rooms available (requests.foldl History.serve history) := by
  induction requests generalizing history with
  | nil => exact kept
  | cons request requests ih => exact ih (kept.serve request)

end Kept

structure Fits (pool : Pool) (needs : RoomNeeds) (place : Place) : Prop where
  free : place ∈ pool.free
  roomy : 0 < place.room.seats
  suits : needs.satisfiedBy place.room = true

private theorem fits_iff : Fits pool needs place ↔ place ∈ pool.free ∧ Pool.isCompatible needs place = true := by
  simp only [Pool.isCompatible, Bool.and_eq_true, decide_eq_true_eq]
  constructor
  · intro fits
    exact ⟨fits.free, fits.roomy, fits.suits⟩
  · rintro ⟨free, roomy, suits⟩
    exact ⟨free, roomy, suits⟩

/-- An answer with a room that fits and was never handed out, and whose seats compare to those of every room that
fits; it is only missing if no room fits. -/
structure Picks (history : History) (needs : RoomNeeds) (compare : Nat → Nat → Prop)
    (answer : Option (Place × Pool)) : Prop where
  found : ∀ place after, answer = some (place, after) → Fits history.pool needs place ∧ place ∉ history.handed ∧
    ∀ other, Fits history.pool needs other → compare place.room.seats other.room.seats
  none_iff : answer = none ↔ ∀ place, ¬ Fits history.pool needs place

/-- A search through the free rooms in an order of seats picks the best of those that fit. -/
theorem picks_of_sorted (kept : Kept rooms available history) (compare : Nat → Nat → Prop)
    (refl : ∀ seats, compare seats seats) {places : List Place} (same : ∀ place, place ∈ places ↔ place ∈ history.pool.free)
    (sorted : places.Pairwise fun a b => compare a.room.seats b.room.seats) (change : Place → Pool) :
    Picks history needs compare ((places.find? (Pool.isCompatible needs)).map fun place => (place, change place)) where
  found place after answered := by
    obtain ⟨first, found, equal⟩ := Option.map_eq_some_iff.mp answered
    obtain rfl : first = place := congrArg Prod.fst equal
    have free := (same first).mp (List.mem_of_find?_eq_some found)
    refine ⟨fits_iff.mpr ⟨free, List.find?_some found⟩, ((kept.free_iff first).mp free).2.2, ?_⟩
    intro other fits
    obtain ⟨present, compatible⟩ := fits_iff.mp fits
    obtain ⟨-, before, later, rfl, unfit⟩ := List.find?_eq_some_iff_append.mp found
    rcases List.mem_append.mp ((same other).mpr present) with earlier | rest
    · have unfit := unfit other earlier
      simp [compatible] at unfit
    · rcases List.mem_cons.mp rest with rfl | behind
      · exact refl _
      · exact (List.pairwise_cons.mp (List.pairwise_append.mp sorted).2.1).1 other behind
  none_iff := by
    rw [Option.map_eq_none_iff, List.find?_eq_none]
    refine ⟨fun none place fits => ?_, fun none place listed compatible => ?_⟩
    · obtain ⟨present, compatible⟩ := fits_iff.mp fits
      exact none place ((same place).mpr present) compatible
    · exact none place (fits_iff.mpr ⟨(same place).mp listed, compatible⟩)

/-- The free rooms stand in the order of the inventory. -/
theorem free_descending (kept : Kept rooms available history)
    (descending : rooms.Pairwise fun a b => b.seats ≤ a.seats) :
    history.pool.free.Pairwise fun a b => b.room.seats ≤ a.room.seats := by
  refine (List.pairwise_map.mp kept.ascending).imp_of_mem fun {a b} here there ahead => ?_
  obtain ⟨inside, first⟩ := List.getElem?_eq_some_iff.mp (mem_places.mp ((kept.free_iff a).mp here).1)
  obtain ⟨within, second⟩ := List.getElem?_eq_some_iff.mp (mem_places.mp ((kept.free_iff b).mp there).1)
  rw [← first, ← second]
  exact List.pairwise_iff_getElem.mp descending _ _ inside within ahead

/-- A used room that can be shared: it has company, all of one duration, and seats for so many more. -/
structure Shareable (needs : RoomNeeds) (duration students : Nat) (room : UsedRoom) : Prop where
  company : room.sittings ≠ []
  fits : students ≤ room.seatsLeft
  alike : ∀ sitting ∈ room.sittings, sitting.duration = duration
  suits : needs.satisfiedBy room.place.room = true

private theorem isShareable_iff {duration students : Nat} :
    Pool.isShareable needs duration students room = true ↔ Shareable needs duration students room := by
  simp only [Pool.isShareable, Bool.and_eq_true, Bool.not_eq_true', List.isEmpty_eq_false_iff, decide_eq_true_eq,
    List.all_eq_true]
  constructor
  · rintro ⟨⟨⟨company, fits⟩, alike⟩, suits⟩
    exact ⟨company, fits, alike, suits⟩
  · intro shareable
    exact ⟨⟨⟨shareable.company, shareable.fits⟩, shareable.alike⟩, shareable.suits⟩

/-- An answer with the room to share that has the fewest seats left; it is only missing if none can be shared. -/
structure Shares (pool : Pool) (needs : RoomNeeds) (duration students : Nat) (answer : Option Place) : Prop where
  found : ∀ place, answer = some place → ∃ room ∈ pool.used, room.place = place ∧
    Shareable needs duration students room ∧
    ∀ other ∈ pool.used, Shareable needs duration students other → room.seatsLeft ≤ other.seatsLeft
  none_iff : answer = none ↔ ∀ room ∈ pool.used, ¬ Shareable needs duration students room

theorem shares (pool : Pool) (needs : RoomNeeds) (duration students : Nat) :
    Shares pool needs duration students (pool.shareable? needs duration students) where
  found place answered := by
    obtain ⟨room, least, rfl⟩ := Option.map_eq_some_iff.mp answered
    obtain ⟨used, shareable⟩ := List.mem_filter.mp (Ordering.firstMin?_mem least)
    refine ⟨room, used, rfl, isShareable_iff.mp shareable, fun other present fitting => ?_⟩
    have total : Std.Total fun a b : UsedRoom => (a.seatsLeft < b.seatsLeft
        || (a.seatsLeft = b.seatsLeft && a.place.position ≤ b.place.position) : Bool) = true := ⟨by grind⟩
    have trans : IsTrans UsedRoom fun a b => (a.seatsLeft < b.seatsLeft
        || (a.seatsLeft = b.seatsLeft && a.place.position ≤ b.place.position) : Bool) = true := ⟨by grind⟩
    have tight := Ordering.firstMin?_le least other (List.mem_filter.mpr ⟨present, isShareable_iff.mpr fitting⟩)
    simp only [Bool.or_eq_true, Bool.and_eq_true, decide_eq_true_eq] at tight
    omega
  none_iff := by
    rw [Pool.shareable?, Option.map_eq_none_iff, Ordering.firstMin?_eq_none, List.filter_eq_nil_iff]
    exact forall₂_congr fun room _ => not_congr isShareable_iff

structure Orderly (rooms : List Room) (available : Place → Bool) (history : History) : Prop where
  ascending : (history.pool.free.map (·.position)).Pairwise (· < ·)
  free_iff : ∀ place, place ∈ history.pool.free ↔
    place ∈ Place.ofRooms rooms ∧ available place = true ∧ place ∉ history.handed
  apart : ∀ place ∈ history.pool.free, ∀ room ∈ history.pool.used, place.position ≠ room.place.position
  used_once : (history.pool.used.map (·.place.position)).Nodup
  used_known : ∀ room ∈ history.pool.used, room.place ∈ Place.ofRooms rooms
  within : ∀ room ∈ history.pool.used, room.seatsLeft ≤ room.place.room.seats
  fresh : ∀ needs, Picks history needs (· ≥ ·) (history.pool.fresh? needs)
  freshSmallest : ∀ needs, Picks history needs (· ≤ ·) (history.pool.freshSmallest? needs)
  takeSmallest : ∀ needs, Picks history needs (· ≤ ·) (history.pool.takeSmallest? needs)
  shareable : ∀ needs duration students,
    Shares history.pool needs duration students (history.pool.shareable? needs duration students)

/-- Whatever the available rooms of an inventory in order are asked for, the free ones stay in that order and are
those that were never handed out. No room is free and used at once or used twice, and none in use has more seats left
than there are in it. A search for a free room answers with one that was not handed out before, the greatest or the smallest of
those that fit, if one fits at all; and the tightest room is shared. -/
theorem rooms_are_handed_out_once {rooms : List Room} (descending : rooms.Pairwise fun a b => b.seats ≤ a.seats)
    (available : Place → Bool) (requests : List Request) :
    Orderly rooms available (served rooms available requests) := by
  have kept : Kept rooms available (served rooms available requests) := (kept_start rooms available).serves requests
  generalize served rooms available requests = history at kept ⊢
  have sorted := free_descending kept descending
  have ascending : history.pool.free.reverse.Pairwise fun a b => a.room.seats ≤ b.room.seats :=
    List.pairwise_reverse.mpr sorted
  exact {
    ascending := kept.ascending
    free_iff := kept.free_iff
    apart := fun place free room used => kept.sound.not_used free used
    used_once := (List.nodup_append.mp kept.sound.apart).2.1
    used_known := fun room used => kept.places ▸ kept.sound.used_known room used
    within := kept.within
    fresh := fun needs => picks_of_sorted kept (· ≥ ·) Nat.le_refl (fun _ => .rfl) sorted _
    freshSmallest := fun needs =>
      picks_of_sorted kept (· ≤ ·) Nat.le_refl (fun _ => List.mem_reverse) ascending _
    takeSmallest := fun needs =>
      picks_of_sorted kept (· ≤ ·) Nat.le_refl (fun _ => List.mem_reverse) ascending _
    shareable := shares history.pool }

def fiveRooms : List Room :=
  [⟨"Mid", 20, false, false, false, false⟩, ⟨"Lab", 30, true, false, false, false⟩,
   ⟨"Ramp", 4, false, false, false, true⟩, ⟨"Big", 60, false, false, false, false⟩,
   ⟨"Small", 8, false, false, false, false⟩]

def plain : RoomNeeds := ⟨false, false, false, false⟩

/-- The greatest room is filled up to five seats, one is asked for by its name, and the accessible one is taken. -/
def fourRequests : List Request :=
  [.fresh plain, .occupy ⟨0, fiveRooms[3]⟩ ⟨1, 90⟩ 55, .named "Mid", .takeSmallest plain.withAccessible]

theorem small_room_is_left : (Allocator.inventory fiveRooms []).Pairwise (fun a b => b.seats ≤ a.seats) ∧
    ∃ place after, (served (Allocator.inventory fiveRooms []) (fun _ => true) fourRequests).pool.fresh? plain
      = some (place, after) ∧
      place ∉ (served (Allocator.inventory fiveRooms []) (fun _ => true) fourRequests).handed ∧
      8 ≤ place.room.seats := by
  have descending := SlotRounds.inventory_descending fiveRooms []
  have orderly := rooms_are_handed_out_once descending (fun _ => true) fourRequests
  have small : Fits (served (Allocator.inventory fiveRooms []) (fun _ => true) fourRequests).pool plain
      ⟨3, fiveRooms[4]⟩ := by
    refine ⟨(orderly.free_iff _).mpr ⟨?_, rfl, ?_⟩, ?_, ?_⟩ <;> decide +kernel
  refine ⟨descending, ?_⟩
  cases answer : (served (Allocator.inventory fiveRooms []) (fun _ => true) fourRequests).pool.fresh? plain with
  | none => exact absurd small ((orderly.fresh plain).none_iff.mp answer _)
  | some found =>
    obtain ⟨-, unhanded, greatest⟩ := (orderly.fresh plain).found found.1 found.2 answer
    exact ⟨found.1, found.2, rfl, unhanded, greatest _ small⟩

end Timetable.Proofs.HandedRooms
