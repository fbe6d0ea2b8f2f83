import Timetable.Fault
import Mathlib.Data.List.Forall2

/-! Steps that may fault, once they have returned. Later proofs take a computation apart with these
facts and do not unfold its binds. -/

namespace Timetable.Proofs.Returned

variable {ε α β : Type}

theorem bind_ok {first : Except ε α} {next : α → Except ε β} {result : β}
    (returned : first >>= next = .ok result) :
    ∃ value, first = .ok value ∧ next value = .ok result := by
  cases first with
  | error fault => cases returned
  | ok value => exact ⟨value, rfl, returned⟩

theorem ok_bind {first : Except ε α} {next : α → Except ε β} {value : α} (returned : first = .ok value) :
    first >>= next = next value := by
  rw [returned]
  rfl

theorem bind_map {β' : Type} {first : Except ε α} {next : α → Except ε β} {again : α → Except ε β'} {g : β → β'}
    (step : ∀ value, again value = (next value).map g) : first >>= again = (first >>= next).map g := by
  cases first with
  | error fault => rfl
  | ok value => exact step value

theorem map_bind {α' : Type} {first : Except ε α} {f : α → α'} {next : α' → Except ε β} :
    first.map f >>= next = first >>= fun value => next (f value) := by
  cases first <;> rfl

theorem map_bind_map {α' β' : Type} {first : Except ε α} {next : α → Except ε β} {again : α' → Except ε β'}
    {f : α → α'} {g : β → β'} (step : ∀ value, again (f value) = (next value).map g) :
    first.map f >>= again = (first >>= next).map g :=
  map_bind.trans (bind_map step)

theorem foldlM_map {σ : Type} {f again : σ → α → Except ε σ} {g : σ → σ}
    (step : ∀ state item, again (g state) item = (f state item).map g) (items : List α) (state : σ) :
    items.foldlM again (g state) = (items.foldlM f state).map g := by
  induction items generalizing state with
  | nil => rfl
  | cons item rest ih =>
    rw [List.foldlM_cons, List.foldlM_cons, step]
    exact map_bind_map ih

theorem pure_ok {value result : α} (returned : (pure value : Except ε α) = .ok result) :
    value = result := by
  cases returned
  rfl

theorem toOption_map_some {first : Except ε α} {f : α → β} {result : β}
    (returned : first.toOption.map f = some result) : ∃ value, first = .ok value ∧ f value = result := by
  cases first with
  | error fault => cases returned
  | ok value => exact ⟨value, rfl, Option.some.inj returned⟩

theorem numberOf_ok {n m : Nat} (returned : numberOf n = .ok m) : m = n := by
  unfold numberOf at returned
  split at returned
  · exact (Except.ok.inj returned).symm
  · cases returned

theorem numberOf_of_lt {n : Nat} (below : n < numberLimit) : numberOf n = .ok n := if_pos below

theorem numberOf_overflows {n : Nat} (large : ¬ n < numberLimit) : numberOf n = .error .overflow := if_neg large

theorem numberOf_returns {n : Nat} : (∃ number, numberOf n = .ok number) ↔ n < numberLimit := by
  by_cases below : n < numberLimit <;> simp [numberOf, below]

theorem mapError_ok {ε' : Type} {first : Except ε α} {f : ε → ε'} {result : α}
    (returned : first.mapError f = .ok result) : first = .ok result := by
  cases first with
  | error fault => cases returned
  | ok value => cases returned; rfl

theorem mapM_ok_iff {f : α → Except ε β} {items : List α} {results : List β} :
    items.mapM f = .ok results ↔ List.Forall₂ (fun item result => f item = .ok result) items results := by
  induction items generalizing results with
  | nil =>
    rw [List.mapM_nil, List.forall₂_nil_left_iff]
    exact ⟨fun returned => (pure_ok returned).symm, fun empty => empty ▸ rfl⟩
  | cons item items ih =>
    rw [List.mapM_cons]
    constructor
    · intro returned
      obtain ⟨head, first, returned⟩ := bind_ok returned
      obtain ⟨tail, rest, returned⟩ := bind_ok returned
      rw [← pure_ok returned]
      exact .cons first (ih.mp rest)
    · intro matched
      cases matched with
      | cons first rest =>
        rw [first, ih.mpr rest]
        rfl

theorem mapM_some {f : α → Option β} {items : List α} {results : List β}
    (matched : List.Forall₂ (fun item result => f item = some result) items results) :
    items.mapM f = some results := by
  induction matched with
  | nil => rfl
  | cons first _ ih =>
    rw [List.mapM_cons, first, ih]
    rfl

theorem mapM_eq {f : α → Except ε β} {g : α → β} {items : List α} (each : ∀ item ∈ items, f item = .ok (g item)) :
    items.mapM f = .ok (items.map g) := by
  rw [mapM_ok_iff, List.forall₂_map_right_iff, List.forall₂_same]
  exact each

theorem exists_result {f : α → Except ε β} {items : List α} {results : List β}
    (returned : items.mapM f = .ok results) {item : α} (member : item ∈ items) :
    ∃ result ∈ results, f item = .ok result := by
  have matched := mapM_ok_iff.mp returned
  clear returned
  induction matched with
  | nil => cases member
  | cons first rest ih =>
    rcases List.mem_cons.mp member with rfl | member
    · exact ⟨_, List.mem_cons_self, first⟩
    · obtain ⟨result, inside, same⟩ := ih member
      exact ⟨result, List.mem_cons_of_mem _ inside, same⟩

theorem exists_fault {f : α → Except ε β} {items : List α} {fault : ε} (stopped : items.mapM f = .error fault) :
    ∃ item ∈ items, f item = .error fault := by
  induction items with
  | nil => cases stopped
  | cons item rest ih =>
    rw [List.mapM_cons] at stopped
    cases first : f item with
    | error other =>
      rw [first] at stopped
      cases stopped
      exact ⟨item, List.mem_cons_self, first⟩
    | ok value =>
      rw [ok_bind first] at stopped
      cases later : rest.mapM f with
      | error other =>
        rw [later] at stopped
        cases stopped
        obtain ⟨other, inside, same⟩ := ih later
        exact ⟨other, List.mem_cons_of_mem _ inside, same⟩
      | ok values =>
        rw [later] at stopped
        cases stopped

theorem exists_item {f : α → Except ε β} {items : List α} {results : List β}
    (returned : items.mapM f = .ok results) {result : β} (member : result ∈ results) :
    ∃ item ∈ items, f item = .ok result := by
  have matched := mapM_ok_iff.mp returned
  clear returned
  induction matched with
  | nil => cases member
  | cons first rest ih =>
    rcases List.mem_cons.mp member with rfl | member
    · exact ⟨_, List.mem_cons_self, first⟩
    · obtain ⟨item, inside, same⟩ := ih member
      exact ⟨item, List.mem_cons_of_mem _ inside, same⟩

theorem exists_mapM_iff {f : α → Except ε β} {items : List α} :
    (∃ results, items.mapM f = .ok results) ↔ ∀ item ∈ items, ∃ result, f item = .ok result := by
  constructor
  · rintro ⟨results, returned⟩ item member
    obtain ⟨result, -, same⟩ := exists_result returned member
    exact ⟨result, same⟩
  · intro each
    induction items with
    | nil => exact ⟨[], rfl⟩
    | cons item rest ih =>
      rw [List.forall_mem_cons] at each
      obtain ⟨result, first⟩ := each.1
      obtain ⟨results, others⟩ := ih each.2
      exact ⟨result :: results, mapM_ok_iff.mpr (.cons first (mapM_ok_iff.mp others))⟩

theorem foldlM_keeps_each {σ : Type} {f : σ → α → Except ε σ} {items : List α} {state result : σ} (kept : σ → Prop)
    (step : ∀ item ∈ items, ∀ state next, kept state → f state item = .ok next → kept next) (start : kept state)
    (returned : items.foldlM f state = .ok result) : kept result := by
  induction items generalizing state with
  | nil => exact pure_ok returned ▸ start
  | cons item rest ih =>
    rw [List.foldlM_cons] at returned
    obtain ⟨middle, first, returned⟩ := bind_ok returned
    rw [List.forall_mem_cons] at step
    exact ih step.2 (step.1 state middle start first) returned

theorem foldlM_keeps {σ : Type} {f : σ → α → Except ε σ} {items : List α} {state result : σ} (kept : σ → Prop)
    (step : ∀ state item next, kept state → f state item = .ok next → kept next) (start : kept state)
    (returned : items.foldlM f state = .ok result) : kept result :=
  foldlM_keeps_each kept (fun item _ state next => step state item next) start returned

/-- A step that does not fault, and whose result satisfies something. -/
def Returns (first : Except ε α) (holds : α → Prop) : Prop := ∃ value, first = .ok value ∧ holds value

theorem Returns.bind {first : Except ε α} {next : α → Except ε β} {holds : α → Prop} {after : β → Prop}
    (returns : Returns first holds) (rest : ∀ value, holds value → Returns (next value) after) :
    Returns (first >>= next) after := by
  obtain ⟨value, returned, held⟩ := returns
  rw [ok_bind returned]
  exact rest value held

theorem Returns.mono {first : Except ε α} {holds after : α → Prop} (returns : Returns first holds)
    (implies : ∀ value, holds value → after value) : Returns first after :=
  returns.imp fun _ ⟨returned, held⟩ => ⟨returned, implies _ held⟩

/-- A fold returns if each of its steps does with the items that are left to it. -/
theorem returns_foldlM_rest {σ : Type} {f : σ → α → Except ε σ} {items : List α} {state : σ}
    (kept : σ → List α → Prop)
    (step : ∀ item rest state, kept state (item :: rest) → Returns (f state item) (kept · rest))
    (start : kept state items) : Returns (items.foldlM f state) (kept · []) := by
  induction items generalizing state with
  | nil => exact ⟨state, rfl, start⟩
  | cons item rest ih =>
    rw [List.foldlM_cons]
    exact (step item rest state start).bind fun _ held => ih held

end Timetable.Proofs.Returned
