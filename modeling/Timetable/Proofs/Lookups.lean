import Mathlib.Data.List.Nodup
import Mathlib.Data.List.Pairwise

/-! Tables are lists searched by a key. Where keys are distinct, the first and the last entry of a
key are the only one, and its place is the only place. -/

namespace Timetable.Proofs.Lookups

variable {α κ : Type} {key : α → κ} {items : List α}

theorem getLast?_filter {p : α → Bool} {item : α} (member : item ∈ items) (chosen : p item = true)
    (only : ∀ other ∈ items, p other = true → other = item) :
    (items.filter p).getLast? = some item := by
  have kept : item ∈ items.filter p := List.mem_filter.mpr ⟨member, chosen⟩
  cases last : (items.filter p).getLast? with
  | none =>
    rw [List.getLast?_eq_none_iff.mp last] at kept
    cases kept
  | some other =>
    have found := List.mem_filter.mp (List.mem_of_getLast? last)
    rw [only other found.1 found.2]

theorem exists_at {β : Type} {others : List β} (length : others.length = items.length) {i : Nat} {item : α}
    (here : items[i]? = some item) : ∃ other, others[i]? = some other :=
  ⟨_, List.getElem?_eq_getElem (length ▸ (List.getElem?_eq_some_iff.mp here).1)⟩

theorem eq_of_key (distinct : (items.map key).Nodup) {first second : α} (one : first ∈ items)
    (other : second ∈ items) (same : key first = key second) : first = second :=
  List.inj_on_of_nodup_map distinct one other same

theorem place_of_key (distinct : (items.map key).Nodup) {i j : Nat} {first second : α}
    (one : items[i]? = some first) (other : items[j]? = some second)
    (same : key first = key second) : i = j := by
  have inside : i < (items.map key).length := by
    rw [List.length_map]
    exact (List.getElem?_eq_some_iff.mp one).1
  apply (List.getElem?_inj inside distinct).mp
  rw [List.getElem?_map, List.getElem?_map, one, other, Option.map_some, Option.map_some, same]

theorem filter_key [DecidableEq κ] (distinct : (items.map key).Nodup) {item : α}
    (member : item ∈ items) : (items.filter fun other => key other = key item) = [item] := by
  obtain ⟨front, back, rfl⟩ := List.append_of_mem member
  rw [List.map_append, List.map_cons, List.nodup_append, List.nodup_cons] at distinct
  have before : (front.filter fun other => key other = key item) = [] := by
    refine List.filter_eq_nil_iff.mpr fun other present same => ?_
    exact distinct.2.2 _ (List.mem_map_of_mem present) _ List.mem_cons_self (by simpa using same)
  have after : (back.filter fun other => key other = key item) = [] := by
    refine List.filter_eq_nil_iff.mpr fun other present same => distinct.2.1.1 ?_
    exact List.mem_map.mpr ⟨other, present, by simpa using same⟩
  rw [List.filter_append, List.filter_cons_of_pos (by simp), before, after]
  rfl

/-- Where at most one thing is meant, the order does not matter. -/
theorem filter_rearranged {p : α → Bool} {others : List α} (same : items.Perm others)
    (apart : items.Pairwise fun first second => ¬ (p first = true ∧ p second = true)) :
    items.filter p = others.filter p := by
  have alike := same.filter p
  cases kept : items.filter p with
  | nil =>
    rw [kept] at alike
    exact alike.nil_eq
  | cons item rest =>
    cases rest with
    | nil =>
      rw [kept] at alike
      exact List.singleton_perm.mp alike
    | cons other rest =>
      have chosen : ∀ x ∈ item :: other :: rest, p x = true := fun x member =>
        (List.mem_filter.mp (kept ▸ member)).2
      have pairs := apart.sublist (List.filter_sublist (p := p))
      rw [kept, List.pairwise_cons] at pairs
      exact absurd ⟨chosen item (by simp), chosen other (by simp)⟩ (pairs.1 other (by simp))

theorem filter_key_rearranged [DecidableEq κ] {others : List α} (same : items.Perm others)
    (distinct : (items.map key).Nodup) (k : κ) :
    (items.filter fun item => key item = k) = others.filter fun item => key item = k := by
  refine filter_rearranged same ?_
  rw [List.Nodup, List.pairwise_map] at distinct
  refine distinct.imp ?_
  intro first second apart both
  exact apart ((of_decide_eq_true both.1).trans (of_decide_eq_true both.2).symm)

theorem getLast?_key [DecidableEq κ] (distinct : (items.map key).Nodup) {item : α}
    (member : item ∈ items) :
    (items.filter fun other => key other = key item).getLast? = some item := by
  apply getLast?_filter member (by simp)
  intro other present same
  exact eq_of_key distinct present member (by simpa using same)

theorem find?_key [DecidableEq κ] (distinct : (items.map key).Nodup) {item : α}
    (member : item ∈ items) : (items.find? fun other => key other = key item) = some item := by
  cases found : items.find? fun other => key other = key item with
  | none => simpa using List.find?_eq_none.mp found item member
  | some other =>
    have same : key other = key item := by simpa using List.find?_some found
    rw [eq_of_key distinct (List.mem_of_find?_eq_some found) member same]

theorem lookup_key {β : Type} [BEq κ] [LawfulBEq κ] {entries : List (κ × β)} (distinct : (entries.map Prod.fst).Nodup)
    {k : κ} {value : β} (member : (k, value) ∈ entries) : entries.lookup k = some value := by
  obtain ⟨front, back, rfl⟩ := List.append_of_mem member
  rw [List.map_append, List.map_cons, List.nodup_append] at distinct
  apply List.lookup_eq_some_iff.mpr
  refine ⟨front, back, rfl, ?_⟩
  intro entry inside
  have apart := distinct.2.2 entry.1 (List.mem_map_of_mem inside) k List.mem_cons_self
  simpa using apart.symm

theorem map_zipIdx_key (key : α → κ) (items : List α) :
    (items.zipIdx.map fun pair => key pair.1) = items.map key := by
  conv_rhs => rw [← List.zipIdx_map_fst 0 items, List.map_map]
  rfl

theorem place_key [DecidableEq κ] (distinct : (items.map key).Nodup) {i : Nat} {item : α}
    (present : items[i]? = some item) :
    (items.zipIdx.filter fun (other, _) => key other = key item).getLast? = some (item, i) := by
  apply getLast?_filter (List.mk_mem_zipIdx_iff_getElem?.mpr present) (by simp)
  rintro ⟨other, j⟩ found same
  have here := List.mk_mem_zipIdx_iff_getElem?.mp found
  have equal : key other = key item := by simpa using same
  rw [eq_of_key distinct (List.mem_of_getElem? here) (List.mem_of_getElem? present) equal,
    place_of_key distinct here present equal]

/-- Things filed under their keys are all there, each once. -/
theorem flatMap_filter_perm [DecidableEq κ] {keys : List κ} (distinct : keys.Nodup)
    (covered : ∀ item ∈ items, key item ∈ keys) :
    (keys.flatMap fun k => items.filter (key · = k)).Perm items := by
  induction keys generalizing items with
  | nil =>
    rw [List.eq_nil_iff_forall_not_mem.mpr fun item member => List.not_mem_nil (covered item member)]
    exact .refl _
  | cons k keys ih =>
    obtain ⟨absent, distinct⟩ := List.nodup_cons.mp distinct
    have rest : (keys.flatMap fun other => items.filter (key · = other)) =
        keys.flatMap fun other => (items.filter fun item => !decide (key item = k)).filter (key · = other) := by
      refine List.flatMap_congr fun other listed => ?_
      rw [List.filter_filter]
      refine List.filter_congr fun item _ => ?_
      by_cases same : key item = other
      · have differs : other ≠ k := fun equal => absent (equal ▸ listed)
        simp [same, differs]
      · simp [same]
    rw [List.flatMap_cons, rest]
    refine ((ih distinct ?_).append_left _).trans (List.filter_append_perm _ _)
    intro item kept
    obtain ⟨member, differs⟩ := List.mem_filter.mp kept
    refine (List.mem_cons.mp (covered item member)).resolve_left ?_
    simpa using differs

end Timetable.Proofs.Lookups
