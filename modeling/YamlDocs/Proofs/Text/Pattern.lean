/-
  YamlDocs.Proofs.Text.Pattern
  ────────────────────────────────
  **PATTERNS AND THEIR PREFERRED READINGS.**

  A pattern is a list of parts: fixed texts, runs of characters that pass a
  test, and the end of the text.  A run may be of any length, so a text can
  be read in several ways; a run that prefers to be long tries them in one
  order, a run that prefers to be short in the other.  Parts in front change
  their choice last.  `Pattern.read?` is the way that comes first in this
  order.

  Two laws make readings computable without trying:

    * a run that cannot be followed by one of its own characters has one
      length only, whatever it prefers (`ways_run`);
    * a run that prefers to be short is empty if what follows can be read
      there, and goes on by one character otherwise (`read?_shortest`,
      `read?_shortest_cons`).
-/
import YamlDocs.Proofs.Text.Trim
import Mathlib.Data.List.Basic
import Mathlib.Data.List.TakeDrop
import Mathlib.Data.List.TakeWhile

namespace YamlDocs.Text

/-! ## §1. Patterns. -/

/-- Which length a run tries first. -/
inductive Preference where
  | longest
  | shortest
deriving DecidableEq, Repr

/-- One part of a pattern. -/
inductive PatternPart where
  /-- This text. -/
  | exactly (word : Text)
  /-- At least so many characters, all of which pass a test. -/
  | run (test : Char → Bool) (least : Nat) (preference : Preference)
  /-- The end of the text. -/
  | finish

/-- The parts of a pattern, one behind the other. -/
abbrev Pattern := List PatternPart

/-- The beginnings of a text that pass a test, and what each of them leaves, the shortest first. -/
def runs (test : Char → Bool) : Text → List (Text × Text)
  | [] => [([], [])]
  | c :: rest =>
    ([], c :: rest) ::
      if test c then (runs test rest).map fun (run, left) => (c :: run, left) else []

/-- What a part can take off the front of a text, and what it leaves, the preferred way first. -/
def PatternPart.ways (text : Text) : PatternPart → List (Text × Text)
  | .exactly word => ((word.isPrefixOf? text).map (word, ·)).toList
  | .run test least .shortest => (runs test text).filter (least ≤ ·.1.length)
  | .run test least .longest => ((runs test text).filter (least ≤ ·.1.length)).reverse
  | .finish => if text = [] then [([], [])] else []

namespace Pattern

/-- What the parts can take off the front of a text, the preferred way first. -/
def ways : Pattern → Text → List (List Text)
  | [], _ => [[]]
  | part :: rest, text =>
    (part.ways text).flatMap fun (taken, left) => (ways rest left).map (taken :: ·)

/-- What the parts take off the front of a text in the preferred way. -/
def read? (pattern : Pattern) (text : Text) : Option (List Text) := (pattern.ways text).head?

/-! ## §2. Runs of one length. -/

/-- All runs but the longest are followed by a character that passes the test. -/
theorem exists_runs_eq (test : Char → Bool) (text : Text) :
    ∃ shorter, runs test text = shorter ++ [(text.takeWhile test, text.dropWhile test)] ∧
      ∀ way ∈ shorter, ∃ c left, way.2 = c :: left ∧ test c = true := by
  induction text with
  | nil => exact ⟨[], rfl, fun _ h => absurd h List.not_mem_nil⟩
  | cons c rest ih =>
      obtain ⟨shorter, hruns, hshorter⟩ := ih
      unfold runs
      cases hc : test c with
      | false => exact ⟨[], by simp [hc], fun _ h => absurd h List.not_mem_nil⟩
      | true =>
          refine ⟨([], c :: rest) :: shorter.map fun (run, left) => (c :: run, left), ?_, ?_⟩
          · simp [hruns, hc]
          · intro way hway
            rcases List.mem_cons.mp hway with rfl | hway
            · exact ⟨c, rest, rfl, hc⟩
            · obtain ⟨first, hfirst, rfl⟩ := List.mem_map.mp hway
              exact hshorter first hfirst

variable {test : Char → Bool} {rest : Pattern}

/-- **A run that cannot be followed by one of its own characters** takes all of them. -/
theorem ways_run (hstop : ∀ c left, test c = true → rest.ways (c :: left) = []) (least : Nat)
    (preference : Preference) (text : Text) :
    ways (.run test least preference :: rest) text =
      if least ≤ (text.takeWhile test).length then
        (rest.ways (text.dropWhile test)).map (text.takeWhile test :: ·)
      else [] := by
  obtain ⟨shorter, hruns, hshorter⟩ := exists_runs_eq test text
  -- A shorter run leaves one of its own characters, where nothing else can be read.
  have hnone : ∀ way ∈ shorter.filter (least ≤ ·.1.length),
      (rest.ways way.2).map (way.1 :: ·) = [] := by
    intro way hway
    obtain ⟨c, left, hleft, hc⟩ := hshorter way (List.mem_of_mem_filter hway)
    rw [hleft, hstop c left hc, List.map_nil]
  cases preference with
  | shortest =>
      rw [ways, PatternPart.ways, hruns, List.filter_append, List.flatMap_append,
        List.flatMap_eq_nil_iff.mpr hnone]
      split <;> simp_all
  | longest =>
      rw [ways, PatternPart.ways, hruns, List.filter_append, List.reverse_append,
        List.flatMap_append]
      have hnone' : ∀ way ∈ (shorter.filter (least ≤ ·.1.length)).reverse,
          (rest.ways way.2).map (way.1 :: ·) = [] := fun way hway =>
        hnone way (List.mem_reverse.mp hway)
      rw [List.flatMap_eq_nil_iff.mpr hnone']
      split <;> simp_all

/-- Such a run takes just its characters from a text that goes on with another one. -/
theorem ways_run_append (hstop : ∀ c left, test c = true → rest.ways (c :: left) = [])
    {least : Nat} {preference : Preference} {run left : Text} (hrun : ∀ c ∈ run, test c = true)
    (hleft : ∀ c ∈ left.head?, test c = false) (hleast : least ≤ run.length) :
    ways (.run test least preference :: rest) (run ++ left) = (rest.ways left).map (run :: ·) := by
  have hspan := span_append hrun hleft
  rw [List.span_eq_takeWhile_dropWhile, Prod.mk.injEq] at hspan
  rw [ways_run hstop, hspan.1, hspan.2, if_pos hleast]

/-- A run that must not be empty begins with a character that passes the test. -/
theorem ways_run_eq_nil {least : Nat} {preference : Preference} {c : Char} {left : Text}
    (hc : test c = false) :
    ways (.run test (least + 1) preference :: rest) (c :: left) = [] := by
  have hruns : runs test (c :: left) = [([], c :: left)] := by simp [runs, hc]
  cases preference <;> simp [ways, PatternPart.ways, hruns]

/-- A fixed text is taken if the text begins with it. -/
theorem ways_exactly (word text : Text) :
    ways (.exactly word :: rest) text =
      match word.isPrefixOf? text with
      | none => []
      | some left => (rest.ways left).map (word :: ·) := by
  rw [ways, PatternPart.ways]
  cases word.isPrefixOf? text with
  | none => rfl
  | some left => simp

/-- A fixed text that begins with a character outside a test does not stand where one inside it
does. -/
theorem ways_exactly_of_test {first c : Char} {word left : Text} (hfirst : test first = false)
    (hc : test c = true) : ways (.exactly (first :: word) :: rest) (c :: left) = [] := by
  have hne : first ≠ c := by
    rintro rfl
    exact Bool.false_ne_true (hfirst.symm.trans hc)
  have hnone : (first :: word).isPrefixOf? (c :: left) = none := by simp [List.isPrefixOf?, hne]
  rw [ways_exactly, hnone]

/-! ## §3. Runs that prefer to be short. -/

/-- The reading with one more character in front of what the first part takes. -/
def lengthenFirst (c : Char) : List Text → List Text
  | [] => []
  | taken :: rest => (c :: taken) :: rest

/-- All runs but the empty one take a character. -/
theorem exists_runs_eq_cons (test : Char → Bool) (text : Text) :
    ∃ longer, runs test text = ([], text) :: longer ∧ ∀ way ∈ longer, 1 ≤ way.1.length := by
  cases text with
  | nil => exact ⟨[], rfl, fun _ h => absurd h List.not_mem_nil⟩
  | cons c rest =>
      refine ⟨_, rfl, fun way hway => ?_⟩
      split at hway
      case isTrue =>
        obtain ⟨first, -, rfl⟩ := List.mem_map.mp hway
        exact Nat.le_add_left 1 _
      case isFalse => exact absurd hway List.not_mem_nil

theorem ways_shortest (text : Text) :
    ways (.run test 0 .shortest :: rest) text =
      (runs test text).flatMap fun (taken, left) => (rest.ways left).map (taken :: ·) := by
  rw [ways, PatternPart.ways, List.filter_eq_self.mpr fun _ _ => decide_eq_true (Nat.zero_le _)]

theorem ways_shortest_one {text : Text} {longer : List (Text × Text)}
    (hruns : runs test text = ([], text) :: longer) (hlonger : ∀ way ∈ longer, 1 ≤ way.1.length) :
    ways (.run test 1 .shortest :: rest) text =
      longer.flatMap fun (taken, left) => (rest.ways left).map (taken :: ·) := by
  rw [ways, PatternPart.ways, hruns, List.filter_cons_of_neg (by simp),
    List.filter_eq_self.mpr fun way hway => decide_eq_true (hlonger way hway)]

/-- **A run that prefers to be short is empty if what follows can be read there.** -/
theorem read?_shortest (text : Text) :
    read? (.run test 0 .shortest :: rest) text =
      ((rest.read? text).map ([] :: ·)).or (read? (.run test 1 .shortest :: rest) text) := by
  obtain ⟨longer, hruns, hlonger⟩ := exists_runs_eq_cons test text
  unfold read?
  rw [ways_shortest, ways_shortest_one hruns hlonger, hruns, List.flatMap_cons, List.head?_append,
    List.head?_map]

/-- A run that prefers to be short and must not be empty takes one character first. -/
theorem read?_shortest_cons (c : Char) (text : Text) :
    read? (.run test 1 .shortest :: rest) (c :: text) =
      if test c then (read? (.run test 0 .shortest :: rest) text).map (lengthenFirst c) else none := by
  obtain ⟨longer, hruns, hlonger⟩ := exists_runs_eq_cons test (c :: text)
  unfold read?
  rw [ways_shortest, ways_shortest_one hruns hlonger]
  unfold runs at hruns
  obtain rfl := (List.cons.inj hruns).2
  cases test c with
  | false => rfl
  | true =>
      rw [if_pos rfl, if_pos rfl, ← List.head?_map, List.flatMap_map, List.map_flatMap]
      simp only [List.map_map]
      rfl

end Pattern

end YamlDocs.Text
