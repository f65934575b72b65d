import Mathlib.Data.List.Basic

/-!
A table that keeps what was first put under each key. A request for a known key is
answered from the table, so the answers go by the keys alone, whatever the requests
stand for by the time they are made again.
-/

namespace FirstWins

variable {ρ κ α ε : Type}

abbrev Table (κ α : Type) := List (κ × α)

/-- What requests stand for. A known value may still refuse to be taken for a request. -/
structure Source (ρ κ α ε : Type) where
  key : ρ → Except ε κ
  fetch : ρ → Except ε α
  accept : α → ρ → Except ε Unit

variable [DecidableEq κ]

def get (table : Table κ α) (key : κ) : Option α :=
  (table.find? fun entry => entry.1 = key).map Prod.snd

def Extends (table later : Table κ α) : Prop :=
  ∀ key value, get table key = some value → get later key = some value

def take (source : Source ρ κ α ε) (table : Table κ α) (request : ρ) :
    Except ε (Table κ α × α) := do
  let key ← source.key request
  match get table key with
  | some value => do
    source.accept value request
    return (table, value)
  | none => do
    let value ← source.fetch request
    return (table ++ [(key, value)], value)

def takeAll (source : Source ρ κ α ε) (table : Table κ α) :
    List ρ → Table κ α × Except ε (List α)
  | [] => (table, .ok [])
  | request :: rest =>
    match take source table request with
    | .error thrown => (table, .error thrown)
    | .ok (next, value) =>
      let (last, values) := takeAll source next rest
      (last, (value :: ·) <$> values)

variable {source : Source ρ κ α ε} {table later : Table κ α}

theorem Extends.refl (table : Table κ α) : Extends table table := fun _ _ known => known

theorem Extends.trans {first second third : Table κ α} (before : Extends first second)
    (after : Extends second third) : Extends first third :=
  fun key value known => after key value (before key value known)

theorem Extends.map_get {keys : List κ} {values : List α} (grown : Extends table later)
    (kept : keys.map (get table) = values.map some) : keys.map (get later) = values.map some := by
  rw [← kept]
  refine List.map_congr_left fun key listed => ?_
  have answered : get table key ∈ values.map some := kept ▸ List.mem_map_of_mem listed
  obtain ⟨value, -, same⟩ := List.mem_map.mp answered
  rw [← same]
  exact grown key value same.symm

theorem extends_append (table : Table κ α) (entry : κ × α) : Extends table (table ++ [entry]) := by
  intro key value known
  obtain ⟨found, listed, same⟩ := Option.map_eq_some_iff.mp known
  exact Option.map_eq_some_iff.mpr ⟨found, by rw [List.find?_append, listed, Option.some_or], same⟩

theorem get_append_new {key : κ} (unknown : get table key = none) (value : α) :
    get (table ++ [(key, value)]) key = some value := by
  have missing := Option.map_eq_none_iff.mp unknown
  rw [get, List.find?_append, missing]
  simp

theorem take_ok {request : ρ} {next : Table κ α} {value : α}
    (taken : take source table request = .ok (next, value)) :
    Extends table next ∧ ∃ key, source.key request = .ok key ∧ get next key = some value := by
  cases asked : source.key request with
  | error thrown => simp [take, asked, bind, Except.bind] at taken
  | ok key =>
      cases known : get table key with
      | some kept =>
          cases accepted : source.accept kept request with
          | error thrown => simp [take, asked, known, accepted, bind, Except.bind] at taken
          | ok =>
              simp only [take, asked, known, accepted, bind, Except.bind, pure, Except.pure,
                Except.ok.injEq, Prod.mk.injEq] at taken
              obtain ⟨rfl, rfl⟩ := taken
              exact ⟨Extends.refl table, key, rfl, known⟩
      | none =>
          cases fetched : source.fetch request with
          | error thrown => simp [take, asked, known, fetched, bind, Except.bind] at taken
          | ok kept =>
              simp only [take, asked, known, fetched, bind, Except.bind, pure, Except.pure,
                Except.ok.injEq, Prod.mk.injEq] at taken
              obtain ⟨rfl, rfl⟩ := taken
              exact ⟨extends_append table _, key, rfl, get_append_new known kept⟩

theorem takeAll_extends (requests : List ρ) : Extends table (takeAll source table requests).1 := by
  induction requests generalizing table with
  | nil => exact Extends.refl table
  | cons request rest ih =>
      rw [takeAll]
      cases taken : take source table request with
      | error thrown => exact Extends.refl table
      | ok result => exact (take_ok taken).1.trans ih

theorem takeAll_ok {requests : List ρ} {values : List α}
    (taken : (takeAll source table requests).2 = .ok values) :
    ∃ keys, requests.mapM source.key = .ok keys ∧
      keys.map (get (takeAll source table requests).1) = values.map some := by
  induction requests generalizing table values with
  | nil =>
      cases taken
      exact ⟨[], rfl, rfl⟩
  | cons request rest ih =>
      rw [takeAll] at taken ⊢
      cases first : take source table request with
      | error thrown => simp [first] at taken
      | ok result =>
          obtain ⟨next, value⟩ := result
          simp only [first] at taken ⊢
          cases later : (takeAll source next rest).2 with
          | error thrown => simp [later, Functor.map, Except.map] at taken
          | ok others =>
              obtain ⟨keys, asked, kept⟩ := ih later
              obtain ⟨-, key, known, here⟩ := take_ok first
              have all : value :: others = values := by
                simpa [later, Functor.map, Except.map] using taken
              refine ⟨key :: keys, ?_, ?_⟩
              · rw [List.mapM_cons, known, asked]
                rfl
              · rw [← all, List.map_cons, List.map_cons, kept]
                rw [takeAll_extends rest key value here]

/-- What was taken before is taken again for the same keys later. -/
theorem takeAll_again {source' : Source ρ κ α ε} {requests requests' : List ρ} {keys keys' : List κ}
    {values values' : List α} (taken : (takeAll source table requests).2 = .ok values)
    (asked : requests.mapM source.key = .ok keys)
    (grown : Extends (takeAll source table requests).1 later)
    (taken' : (takeAll source' later requests').2 = .ok values')
    (asked' : requests'.mapM source'.key = .ok keys') :
    ∃ last, keys.map (get last) = values.map some ∧ keys'.map (get last) = values'.map some := by
  obtain ⟨known, same, kept⟩ := takeAll_ok taken
  obtain ⟨known', same', kept'⟩ := takeAll_ok taken'
  cases asked.symm.trans same
  cases asked'.symm.trans same'
  exact ⟨_, (grown.trans (takeAll_extends requests')).map_get kept, kept'⟩

theorem mem_of_keys {keys keys' : List κ} {values values' : List α}
    (kept : keys.map (get table) = values.map some)
    (kept' : keys'.map (get table) = values'.map some) (within : ∀ key ∈ keys, key ∈ keys')
    {value : α} (listed : value ∈ values) : value ∈ values' := by
  have answered : some value ∈ keys.map (get table) := kept ▸ List.mem_map_of_mem listed
  obtain ⟨key, asked, same⟩ := List.mem_map.mp answered
  have again : get table key ∈ values'.map some := kept' ▸ List.mem_map_of_mem (within key asked)
  rw [same] at again
  obtain ⟨value', listed', same'⟩ := List.mem_map.mp again
  rw [← Option.some.inj same']
  exact listed'

theorem eq_of_keys {keys : List κ} {values values' : List α}
    (kept : keys.map (get table) = values.map some)
    (kept' : keys.map (get table) = values'.map some) : values' = values :=
  List.map_injective_iff.mpr (fun _ _ => Option.some.inj) (kept'.symm.trans kept)

end FirstWins
