/-!
# Ordered entries

A list of named values in which each name is meant to occur once. The first
entry under a name is the one that counts, and a name keeps the position at
which it was first put.
-/

namespace ComponentSchema.Entries

variable {α : Type}

/-- The value under `name`, if there is one. -/
def get? : List (String × α) → String → Option α
  | [], _ => none
  | (key, value) :: rest, name => if key = name then some value else get? rest name

/-- Whether `name` has an entry. -/
def contains (entries : List (String × α)) (name : String) : Bool :=
  (get? entries name).isSome

/-- Replace the value under `name` where it stands, or add a new last entry. -/
def put : List (String × α) → String → α → List (String × α)
  | [], name, value => [(name, value)]
  | (key, old) :: rest, name, value =>
      if key = name then (key, value) :: rest else (key, old) :: put rest name value

/-- Remove the first entry under `name`. -/
def erase : List (String × α) → String → List (String × α)
  | [], _ => []
  | (key, value) :: rest, name => if key = name then rest else (key, value) :: erase rest name

/-- The names in order. -/
def names (entries : List (String × α)) : List String :=
  entries.map Prod.fst

@[simp] theorem get?_nil (name : String) : get? ([] : List (String × α)) name = none := rfl

theorem get?_cons (key name : String) (value : α) (rest : List (String × α)) :
    get? ((key, value) :: rest) name = if key = name then some value else get? rest name := rfl

theorem get?_put_self (entries : List (String × α)) (name : String) (value : α) :
    get? (put entries name value) name = some value := by
  induction entries with
  | nil => simp [put, get?]
  | cons entry rest ih =>
    obtain ⟨key, old⟩ := entry
    by_cases h : key = name <;> simp [put, get?, h, ih]

theorem get?_put_ne (entries : List (String × α)) {name other : String} (value : α)
    (h : other ≠ name) : get? (put entries name value) other = get? entries other := by
  induction entries with
  | nil => simp [put, get?, Ne.symm h]
  | cons entry rest ih =>
    obtain ⟨key, old⟩ := entry
    by_cases hk : key = name
    · simp [put, get?, hk, Ne.symm h]
    · rw [put, if_neg hk, get?_cons, get?_cons, ih]

theorem get?_erase_ne (entries : List (String × α)) {name other : String} (h : other ≠ name) :
    get? (erase entries name) other = get? entries other := by
  induction entries with
  | nil => rfl
  | cons entry rest ih =>
    obtain ⟨key, old⟩ := entry
    by_cases hk : key = name
    · simp [erase, get?, hk, Ne.symm h]
    · rw [erase, if_neg hk, get?_cons, get?_cons, ih]

end ComponentSchema.Entries
