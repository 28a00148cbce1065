/-!
# Tables that keep their order

A table is a list of entries with different keys in the order in which the keys were first put in.
Putting in a key again changes its value and leaves its place.
-/

namespace EscapeRoom

abbrev Table (κ ν : Type) := List (κ × ν)

namespace Table

variable {κ ν : Type} [DecidableEq κ]

def get? (t : Table κ ν) (k : κ) : Option ν :=
  (t.find? fun e => decide (e.1 = k)).map (·.2)

def getD (t : Table κ ν) (k : κ) (default : ν) : ν :=
  (t.get? k).getD default

def has (t : Table κ ν) (k : κ) : Bool :=
  (t.get? k).isSome

def keys (t : Table κ ν) : List κ :=
  t.map (·.1)

def values (t : Table κ ν) : List ν :=
  t.map (·.2)

def put : Table κ ν → κ → ν → Table κ ν
  | [], k, v => [(k, v)]
  | e :: t, k, v => if e.1 = k then (k, v) :: t else e :: put t k v

/-- The table of a list of entries, a later entry for a key taking the place of an earlier one. -/
def ofEntries (entries : List (κ × ν)) : Table κ ν :=
  entries.foldl (fun t e => put t e.1 e.2) []

def putAll (t : Table κ ν) (entries : List (κ × ν)) : Table κ ν :=
  entries.foldl (fun t e => put t e.1 e.2) t

@[simp] theorem get?_nil (j : κ) : get? ([] : Table κ ν) j = none := rfl

theorem get?_cons (e : κ × ν) (t : Table κ ν) (j : κ) :
    get? (e :: t) j = if e.1 = j then some e.2 else get? t j := by
  by_cases h : e.1 = j <;> simp [get?, h]

theorem get?_put (t : Table κ ν) (k : κ) (v : ν) (j : κ) :
    get? (put t k v) j = if k = j then some v else get? t j := by
  induction t with
  | nil => simp [put, get?_cons]
  | cons e t ih =>
    by_cases he : e.1 = k
    · by_cases h : k = j <;> simp [put, get?_cons, he, h]
    · by_cases hj : e.1 = j
      · subst hj
        simp [put, get?_cons, he, Ne.symm he]
      · simp [put, get?_cons, he, hj, ih]

end Table

end EscapeRoom
