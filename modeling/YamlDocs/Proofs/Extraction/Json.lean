/-
  YamlDocs.Proofs.Extraction.Json
  ────────────────────────────────
  **THE JSON FORMAT LOSES NOTHING.**

  An entry is written as an object with its four fields (`Entry.IsObject`):
  the text as it is, the path as the text that spells it, the line as a
  decimal numeral and the kind by its name.  Each field is read off its
  spelling, so an object belongs to one entry (`Entry.leftUnique_isObject`), and
  an entry has one exactly if its path is UTF-8
  (`Entry.exists_isObject_iff`).  With the reader of JSON as the inverse of
  its printer, the format fails for a path that is not UTF-8 and for nothing
  else, and what it writes is read back entry by entry
  (`json_loses_nothing`).
-/
import YamlDocs.Extraction.Format
import YamlDocs.Proofs.Json.Reading

namespace YamlDocs

/-! ## §1. The object of an entry. -/

/-- The object that holds the four fields of an entry. -/
def Entry.IsObject (entry : Entry) (value : Json) : Prop :=
  ∃ source : Text, Path.ofText source = entry.source ∧
    value = .object [("text".toList, .string entry.text), ("source".toList, .string source),
      ("line".toList, .number (Text.ofNat entry.line)),
      ("kind".toList, .string entry.kind.text)]

namespace Entry

theorem entryJson?_eq_some_iff {entry : Entry} {value : Json} :
    Format.entryJson? entry = some value ↔ entry.IsObject value := by
  unfold Format.entryJson? IsObject
  simp only [Option.map_eq_some_iff, Path.toText?_eq_some_iff, @eq_comm Json value]

theorem exists_isObject_iff {entry : Entry} :
    (∃ value, entry.IsObject value) ↔ entry.source.IsUtf8 := by
  constructor
  · rintro ⟨value, source, hsource, -⟩
    exact ⟨source, hsource⟩
  · rintro ⟨source, hsource⟩
    exact ⟨_, source, hsource, rfl⟩

/-- **An object belongs to one entry.** -/
theorem leftUnique_isObject : Relator.LeftUnique IsObject := by
  intro entry other value h hother
  obtain ⟨source, hsource, rfl⟩ := h
  obtain ⟨source', hsource', heq⟩ := hother
  simp only [Json.object.injEq, List.cons.injEq, Prod.mk.injEq, Json.string.injEq,
    Json.number.injEq, true_and, and_true] at heq
  obtain ⟨htext, rfl, hline, hkind⟩ := heq
  obtain ⟨text, path, line, kind⟩ := entry
  obtain ⟨text', path', line', kind'⟩ := other
  simp only at *
  rw [htext, Text.ofNat_injective hline, LineKind.text_injective hkind, ← hsource, ← hsource']

theorem IsObject.hasNumerals {entry : Entry} {value : Json} (h : entry.IsObject value) :
    value.HasNumerals := by
  obtain ⟨source, -, rfl⟩ := h
  refine .object fun member hmember => ?_
  simp only [List.mem_cons, List.not_mem_nil, or_false] at hmember
  rcases hmember with rfl | rfl | rfl | rfl
  · exact .string _
  · exact .string _
  · exact .number _
  · exact .string _

end Entry

/-! ## §2. Buffers. -/

/-- A buffer is written as the array of its objects. -/
theorem toJson_eq_ok_iff {buffer : Buffer} {output : Text} :
    Format.toJson buffer = .ok output ↔
      ∃ items, List.Forall₂ Entry.IsObject buffer items ∧
        (Json.array items).pretty 0 = output := by
  have hitems (items : List Json) :
      buffer.mapM Format.entryJson? = some items ↔ List.Forall₂ Entry.IsObject buffer items := by
    rw [mapM_eq_some_iff]
    simp only [Entry.entryJson?_eq_some_iff]
  simp only [← hitems]
  unfold Format.toJson
  cases buffer.mapM Format.entryJson? with
  | none => simp
  | some items => simp

/-- A buffer cannot be written if some entry has no object. -/
theorem toJson_eq_error_iff {buffer : Buffer} {error : FormatError} :
    Format.toJson buffer = .error error ↔
      error = .sourceNotUtf8 ∧ ∃ entry ∈ buffer, ¬ entry.source.IsUtf8 := by
  have hnone (entry : Entry) : Format.entryJson? entry = none ↔ ¬ entry.source.IsUtf8 := by
    rw [← Entry.exists_isObject_iff]
    simp only [← Entry.entryJson?_eq_some_iff]
    cases Format.entryJson? entry <;> simp
  simp only [← hnone, ← mapM_eq_none_iff]
  unfold Format.toJson
  cases buffer.mapM Format.entryJson? with
  | none => simp [eq_comm]
  | some items => simp

/-- What a buffer writes is read back. -/
theorem parse?_of_toJson {buffer : Buffer} {output : Text} (h : Format.toJson buffer = .ok output) :
    ∃ items, Json.parse? output = some (.array items) ∧
      List.Forall₂ Entry.IsObject buffer items := by
  obtain ⟨items, hitems, rfl⟩ := toJson_eq_ok_iff.mp h
  have hnumerals : ∀ item ∈ items, item.HasNumerals := by
    clear h
    induction hitems with
    | nil => exact fun item hitem => absurd hitem List.not_mem_nil
    | cons hobject _ ih => exact List.forall_mem_cons.mpr ⟨hobject.hasNumerals, ih⟩
  exact ⟨items, Json.parse?_pretty (.array hnumerals) 0, hitems⟩

/-- **Different buffers are written differently.** -/
theorem toJson_injective {buffer other : Buffer} {output : Text}
    (h : Format.toJson buffer = .ok output) (hother : Format.toJson other = .ok output) :
    buffer = other := by
  obtain ⟨items, hread, hitems⟩ := parse?_of_toJson h
  obtain ⟨items', hread', hitems'⟩ := parse?_of_toJson hother
  rw [hread, Option.some.injEq, Json.array.injEq] at hread'
  subst hread'
  exact Entry.leftUnique_isObject.forall₂ hitems hitems'

/-- **The json format loses nothing.** It fails exactly if some entry comes from a path that is not
UTF-8. Otherwise its output is read as the array of the objects of the entries, in order, and it is
the output of no other buffer. -/
theorem json_loses_nothing (buffer : Buffer) :
    ((∃ error, Format.serialize .json buffer = .error error) ↔
      ∃ entry ∈ buffer, ¬ entry.source.IsUtf8) ∧
    ((∀ entry ∈ buffer, entry.source.IsUtf8) →
      ∃ output items, Format.serialize .json buffer = .ok output ∧
        Json.parse? output = some (.array items) ∧ List.Forall₂ Entry.IsObject buffer items ∧
        ∀ other, Format.serialize .json other = .ok output → other = buffer) := by
  have hfails : (∃ error, Format.toJson buffer = .error error) ↔
      ∃ entry ∈ buffer, ¬ entry.source.IsUtf8 := by
    simp only [toJson_eq_error_iff, exists_eq_left]
  refine ⟨hfails, fun hsources => ?_⟩
  cases houtput : Format.toJson buffer with
  | error error =>
      obtain ⟨entry, hentry, hsource⟩ := hfails.mp ⟨error, houtput⟩
      exact absurd (hsources entry hentry) hsource
  | ok output =>
      obtain ⟨items, hread, hitems⟩ := parse?_of_toJson houtput
      exact ⟨output, items, houtput, hread, hitems,
        fun other hother => toJson_injective hother houtput⟩

/-- An entry stands on lines of its own, with two blanks for each container around it. -/
example :
    Format.serialize .json [⟨"a\t\x1b".toList, .ofText "a.yaml".toList, 10, .comment⟩] =
      .ok ("[\n  \x7b\n    \"text\": \"a\\t\\u001b\",\n    \"source\": \"a.yaml\",\n".toList ++
        "    \"line\": 10,\n    \"kind\": \"comment\"\n  \x7d\n]".toList) := by
  decide +kernel

/-- Two entries of one line, with quotes, a backslash and control characters in a text and a path
outside ASCII. -/
def awkwardBuffer : Buffer :=
  [⟨[], .ofText "größe.yaml".toList, 12, .separator⟩,
    ⟨"say \"\\n\"\t\x07\u0085".toList, .ofText "größe.yaml".toList, 12, .parameterContinuation⟩]

/-- The awkward buffer is written and read back. -/
theorem json_loses_nothing_awkward :
    (∀ entry ∈ awkwardBuffer, entry.source.IsUtf8) ∧
    (∃ output items, Format.serialize .json awkwardBuffer = .ok output ∧
      Json.parse? output = some (.array items) ∧ List.Forall₂ Entry.IsObject awkwardBuffer items ∧
      ∀ other, Format.serialize .json other = .ok output → other = awkwardBuffer) := by
  have hsources : ∀ entry ∈ awkwardBuffer, entry.source.IsUtf8 := by
    intro entry hentry
    simp only [awkwardBuffer, List.mem_cons, List.not_mem_nil, or_false] at hentry
    rcases hentry with rfl | rfl
    · exact ⟨_, rfl⟩
    · exact ⟨_, rfl⟩
  exact ⟨hsources, (json_loses_nothing awkwardBuffer).2 hsources⟩

end YamlDocs
