/-! Tables from names to values, as lists of pairs in which each name is written once. Frames,
fields, methods and scopes are such tables; nothing depends on their order. -/
namespace LoxLang

abbrev Table (α : Type) := List (String × α)

namespace Table

variable {α : Type}

def get? : Table α → String → Option α
  | [], _ => none
  | (key, a) :: rest, name => if name = key then some a else get? rest name

def contains (t : Table α) (name : String) : Bool := (t.get? name).isSome

/-- Gives `name` the value `a`, in the place of an earlier value if it has one. -/
def set : Table α → String → α → Table α
  | [], name, a => [(name, a)]
  | (key, b) :: rest, name, a =>
    if name = key then (key, a) :: rest else (key, b) :: set rest name a

/-- The table of a list of pairs, of which a later one overrides an earlier one. -/
def ofList (pairs : List (String × α)) : Table α :=
  pairs.foldl (fun t (name, a) => t.set name a) []

theorem get?_set (t : Table α) (name other : String) (a : α) :
    (t.set name a).get? other = if other = name then some a else t.get? other := by
  induction t with
  | nil => rfl
  | cons pair rest ih =>
    obtain ⟨key, b⟩ := pair
    by_cases same : name = key
    · subst same
      simp only [set, if_true, get?]
      split <;> rfl
    · simp only [set, same, if_false, get?, ih]
      by_cases hit : other = key
      · subst hit
        have different : other ≠ name := fun equal => same equal.symm
        simp [different]
      · simp [hit]

theorem eq_of_get?_singleton {key name : String} {a b : α} (found : get? [(key, a)] name = some b) :
    name = key ∧ a = b := by
  simp only [get?] at found
  split at found
  · next same => exact ⟨same, Option.some.inj found⟩
  · cases found

end Table
end LoxLang
