/-
  YamlDocs.Bindings
  ────────────────────────────────
  **NAMED VALUES IN ORDER.**

  Directories, tables and settings bind keys to values.  All of them are
  lists of pairs in which the first pair with a key counts; `set` keeps the
  place of a key that is bound already and puts a new one at the end.
-/

namespace YamlDocs.Bindings

/-- The bindings with `key` bound to `value`, in its old place if it was bound. -/
def set {κ α : Type} [DecidableEq κ] (key : κ) (value : α) : List (κ × α) → List (κ × α)
  | [] => [(key, value)]
  | (other, old) :: rest =>
    if other = key then (key, value) :: rest else (other, old) :: set key value rest

/-- Setting a key changes what this key is bound to and nothing else. -/
theorem lookup_set {κ α : Type} [DecidableEq κ] [BEq κ] [LawfulBEq κ] (key other : κ)
    (value : α) (entries : List (κ × α)) :
    (set key value entries).lookup other =
      if other = key then some value else entries.lookup other := by
  induction entries with
  | nil => by_cases h : other = key <;> simp [set, List.lookup_cons, h, beq_false_of_ne]
  | cons entry rest ih =>
    obtain ⟨name, old⟩ := entry
    by_cases hn : name = key
    · by_cases h : other = key <;> simp [set, List.lookup_cons, hn, h, beq_false_of_ne]
    · by_cases h : other = name
      · simp [set, h, hn]
      · simp [set, List.lookup_cons, hn, h, ih, beq_false_of_ne]

end YamlDocs.Bindings
