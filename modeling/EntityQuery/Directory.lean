/-! # Directories

A directory assigns something to each of finitely many names. Names keep the order in which they
were first entered; entering a name again replaces what it stands for and moves nothing. -/
namespace EntityQuery

/-- A finite map from names, in the order in which the names were first entered. -/
abbrev Directory (α : Type) := List (String × α)

namespace Directory

variable {α : Type}

/-- What the name stands for. -/
def at? (d : Directory α) (name : String) : Option α := List.lookup name d

/-- The directory in which the name stands for `a`. -/
def put : Directory α → String → α → Directory α
  | [], name, a => [(name, a)]
  | (n, b) :: rest, name, a => if n = name then (name, a) :: rest else (n, b) :: put rest name a

/-- The names, in order. -/
def names (d : Directory α) : List String := d.map (·.1)

/-- The directory in which what the name stands for is changed by `f`, starting from `a`. -/
def update (d : Directory α) (name : String) (a : α) (f : α → α) : Directory α :=
  d.put name (f ((d.at? name).getD a))

@[simp] theorem at?_nil (name : String) : at? ([] : Directory α) name = none := rfl

theorem at?_cons (n name : String) (a : α) (d : Directory α) :
    at? ((n, a) :: d) name = if name = n then some a else at? d name := by
  by_cases h : name = n
  · simp [at?, h]
  · rw [at?, List.lookup_cons, beq_false_of_ne h, if_neg h]; rfl

@[simp] theorem at?_put_self (d : Directory α) (name : String) (a : α) :
    (d.put name a).at? name = some a := by
  induction d with
  | nil => simp [put, at?_cons]
  | cons e d ih =>
    obtain ⟨n, b⟩ := e
    by_cases h : n = name
    · simp [put, h, at?_cons]
    · simp [put, h, at?_cons, Ne.symm h, ih]

theorem at?_put_of_ne {d : Directory α} {n name : String} {a : α} (h : n ≠ name) :
    (d.put name a).at? n = d.at? n := by
  induction d with
  | nil => simp [put, at?_cons, h]
  | cons e d ih =>
    obtain ⟨m, b⟩ := e
    by_cases hm : m = name
    · simp [put, hm, at?_cons, h]
    · simp [put, hm, at?_cons, ih]

@[simp] theorem names_nil : names ([] : Directory α) = [] := rfl

@[simp] theorem names_cons (e : String × α) (d : Directory α) :
    names (e :: d) = e.1 :: names d := rfl

theorem names_put (d : Directory α) (name : String) (a : α) :
    (d.put name a).names = if name ∈ d.names then d.names else d.names ++ [name] := by
  induction d with
  | nil => simp [put]
  | cons e d ih =>
    obtain ⟨n, b⟩ := e
    by_cases h : n = name
    · simp [put, h]
    · by_cases hd : name ∈ names d
      · simp [put, h, hd, ih]
      · simp [put, h, hd, Ne.symm h, ih]

/-- A name is in the directory exactly when it stands for something. -/
theorem at?_eq_none_iff {d : Directory α} {name : String} :
    d.at? name = none ↔ name ∉ d.names := by
  induction d with
  | nil => simp
  | cons e d ih =>
    obtain ⟨n, b⟩ := e
    by_cases h : name = n <;> simp [at?_cons, h, ih]

/-- No name is entered twice. -/
theorem nodup_names_put {d : Directory α} {name : String} {a : α} (h : d.names.Nodup) :
    (d.put name a).names.Nodup := by
  rw [names_put]
  split
  · exact h
  · next hn =>
    refine List.nodup_append.mpr ⟨h, by simp, ?_⟩
    rintro x hx y hy rfl
    simp at hy
    exact hn (hy ▸ hx)

end Directory

end EntityQuery
