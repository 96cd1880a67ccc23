/-
  YamlDocs.Proofs.Path.Join
  ────────────────────────────────
  **PATHS THAT ARE PUT TOGETHER.**

  A path with a slash and more behind it has its own components and then
  those of the rest: of what stands behind a slash, further slashes and dots
  count for nothing (`components_append_slash`).  Joining looks at the front
  of the right side only, so it does not matter whether a path is extended
  before it is joined or afterwards (`join_append`), and behind a base that is
  not empty a relative path adds its own components (`components_join`).
-/
import YamlDocs.Path.Basic
import YamlDocs.Proofs.Text.Utf8
import Mathlib.Data.List.Basic

namespace YamlDocs

/-! ## §1. Texts as bytes. -/

namespace Utf8

/-- The slash is encoded by its own byte, and no other character begins with that byte. -/
theorem head?_encodeChar_eq_slash_iff {c : Char} :
    (encodeChar c).head? = some Path.slash ↔ c = '/' := by
  have hslash : (0x2F : UInt8).toNat = 47 := rfl
  constructor
  · intro h
    unfold encodeChar Path.slash at h
    simp only at h
    split at h
    case isTrue hascii =>
      have hbyte := congrArg UInt8.toNat (Option.some.inj h)
      rw [UInt8.toNat_ofNat', hslash] at hbyte
      have hcode : c.toNat = 47 := by omega
      exact Char.ext (UInt32.toNat_inj.mp hcode)
    case isFalse =>
      -- The first of several bytes is at least 0xC0.
      have hlarge : ∀ n : Nat, 0xC0 ≤ n → n < 0x100 → UInt8.ofNat n ≠ 0x2F := by
        intro n hlow hhigh heq
        have hbyte := congrArg UInt8.toNat heq
        rw [UInt8.toNat_ofNat', hslash] at hbyte
        omega
      have hc : c.toNat < 0x110000 := by
        have hvalid : c.toNat.isValidChar := c.valid
        unfold Nat.isValidChar at hvalid
        omega
      split at h
      case isTrue => exact absurd (Option.some.inj h) (hlarge _ (by omega) (by omega))
      case isFalse =>
        split at h
        case isTrue => exact absurd (Option.some.inj h) (hlarge _ (by omega) (by omega))
        case isFalse => exact absurd (Option.some.inj h) (hlarge _ (by omega) (by omega))
  · rintro rfl
    rfl

end Utf8

namespace Path

/-- The path that two texts with a slash between them spell. -/
theorem ofText_append_slash (first second : Text) :
    ofText (first ++ '/' :: second) = ⟨(ofText first).bytes ++ slash :: (ofText second).bytes⟩ := by
  show (⟨Utf8.encode (first ++ '/' :: second)⟩ : Path) = _
  rw [Utf8.encode_append]
  rfl

/-- A text spells an absolute path if and only if it begins with a slash. -/
theorem isAbsolute_ofText_iff {text : Text} :
    (ofText text).isAbsolute = true ↔ text.head? = some '/' := by
  cases text with
  | nil => exact iff_of_false nofun nofun
  | cons c rest =>
      have hfirst : (ofText (c :: rest)).bytes.head? = (Utf8.encodeChar c).head? :=
        List.head?_append_of_ne_nil _ (Utf8.encodeChar_ne_nil c)
      unfold isAbsolute
      rw [hfirst, beq_iff_eq, Utf8.head?_encodeChar_eq_slash_iff, List.head?_cons,
        Option.some.injEq]

/-! ## §2. Joining. -/

variable {base path : Path} {tail : Bytes}

theorem isAbsolute_append (h : path.bytes ≠ []) :
    (⟨path.bytes ++ tail⟩ : Path).isAbsolute = path.isAbsolute := by
  unfold isAbsolute
  rw [List.head?_append_of_ne_nil _ h]

/-- **What stands at the end of a path stays there when the path is joined.** -/
theorem join_append (h : path.bytes ≠ []) :
    base.join ⟨path.bytes ++ tail⟩ = ⟨(base.join path).bytes ++ tail⟩ := by
  unfold join
  rw [isAbsolute_append h]
  split
  case isTrue => rfl
  case isFalse =>
    split
    case isTrue => rw [← List.append_assoc]
    case isFalse => rw [List.append_assoc, List.cons_append]

theorem join_bytes_ne_nil (h : path.bytes ≠ []) : (base.join path).bytes ≠ [] := by
  unfold join
  split
  case isTrue => exact h
  case isFalse => split <;> simp [h]

theorem bytes_ne_nil_of_isAbsolute (h : path.isAbsolute = true) : path.bytes ≠ [] := by
  intro hnil
  unfold isAbsolute at h
  rw [hnil] at h
  exact nomatch h

/-- A path that is joined to an absolute one is absolute. -/
theorem isAbsolute_join (h : base.isAbsolute = true) : (base.join path).isAbsolute = true := by
  have hne : base.bytes ≠ [] := bytes_ne_nil_of_isAbsolute h
  unfold join
  split
  case isTrue habsolute => exact habsolute
  case isFalse => split <;> rw [isAbsolute_append hne, h]

/-! ## §3. Components. -/

/-- What the segments of a path stand for: its components without the leading one. -/
def inner (path : Path) : List Component := path.segments.filterMap segmentComponent?

theorem segments_append_slash (first second : Bytes) :
    (⟨first ++ slash :: second⟩ : Path).segments =
      (⟨first⟩ : Path).segments ++ (⟨second⟩ : Path).segments :=
  List.splitOnP_append_cons first second (beq_self_eq_true slash)

theorem inner_append_slash (first second : Bytes) :
    (⟨first ++ slash :: second⟩ : Path).inner =
      (⟨first⟩ : Path).inner ++ (⟨second⟩ : Path).inner := by
  unfold inner
  rw [segments_append_slash, List.filterMap_append]

/-- **Behind a slash** a path has the inner components of the rest. -/
theorem components_append_slash (h : path.bytes ≠ []) (rest : Bytes) :
    (⟨path.bytes ++ slash :: rest⟩ : Path).components =
      path.components ++ (⟨rest⟩ : Path).inner := by
  have hsegments : path.segments ≠ [] := List.splitOn_ne_nil slash path.bytes
  have hleading : (⟨path.bytes ++ slash :: rest⟩ : Path).leading = path.leading := by
    unfold leading
    rw [isAbsolute_append h, segments_append_slash, List.head?_append_of_ne_nil _ hsegments]
  show leading _ ++ inner _ = path.leading ++ path.inner ++ _
  rw [hleading, inner_append_slash, List.append_assoc]

/-- A segment stands for a name or for `..`. -/
theorem ne_root_and_ne_here_of_mem_inner {component : Component} (h : component ∈ path.inner) :
    component ≠ .root ∧ component ≠ .here := by
  obtain ⟨segment, -, hsegment⟩ := List.mem_filterMap.mp h
  unfold segmentComponent? at hsegment
  split at hsegment
  case isTrue => exact nomatch hsegment
  case isFalse =>
    split at hsegment <;> obtain rfl := Option.some.inj hsegment <;> exact ⟨nofun, nofun⟩

theorem mem_leading {component : Component} (h : component ∈ path.leading) :
    component = .root ∨ component = .here := by
  unfold leading at h
  split at h
  case isTrue => exact Or.inl (List.mem_singleton.mp h)
  case isFalse =>
    split at h
    case isTrue => exact Or.inr (List.mem_singleton.mp h)
    case isFalse => exact nomatch h

/-- The inner components are those apart from the root and the dot in front. -/
theorem filter_components (path : Path) :
    path.components.filter (fun c => c ≠ .root ∧ c ≠ .here) = path.inner := by
  have hleading : path.leading.filter (fun c => c ≠ .root ∧ c ≠ .here) = [] := by
    rw [List.filter_eq_nil_iff]
    intro c hc
    rcases mem_leading hc with rfl | rfl <;> simp
  have hinner : path.inner.filter (fun c => c ≠ .root ∧ c ≠ .here) = path.inner := by
    rw [List.filter_eq_self]
    intro c hc
    simpa using ne_root_and_ne_here_of_mem_inner hc
  show (path.leading ++ path.inner).filter _ = _
  rw [List.filter_append, hleading, hinner, List.nil_append]

/-! ## §4. Components behind a base. -/

theorem components_of_isAbsolute (h : path.isAbsolute = true) :
    path.components = .root :: path.inner := by
  unfold components leading
  rw [if_pos h]
  rfl

/-- A slash at the end gives no component of its own. -/
theorem inner_append_slash_nil (front : Bytes) :
    (⟨front ++ [slash]⟩ : Path).inner = (⟨front⟩ : Path).inner := by
  rw [inner_append_slash]
  simp [inner, segments, segmentComponent?]

/-- **A relative path that is joined** to a base which is not empty adds its inner components to
those of the base. -/
theorem components_join (hbase : base.bytes ≠ []) (hpath : path.isAbsolute = false) :
    (base.join path).components = base.components ++ path.inner := by
  unfold join
  rw [hpath, if_neg Bool.false_ne_true]
  split
  case isFalse => exact components_append_slash hbase path.bytes
  case isTrue hend =>
    -- The slash at the end of the base takes the place of the one between the two.
    obtain ⟨front, hfront⟩ := List.getLast?_eq_some_iff.mp (hend.resolve_left hbase)
    obtain ⟨bytes⟩ := base
    obtain rfl : bytes = front ++ [slash] := hfront
    have hjoined : (⟨front ++ [slash] ++ path.bytes⟩ : Path).inner =
        (⟨front ++ [slash]⟩ : Path).inner ++ path.inner := by
      rw [inner_append_slash_nil, List.append_assoc, List.singleton_append, inner_append_slash]
    have hleading : (⟨front ++ [slash] ++ path.bytes⟩ : Path).leading =
        (⟨front ++ [slash]⟩ : Path).leading := by
      have hfirst : (⟨front⟩ : Path).segments ≠ [] := List.splitOn_ne_nil slash front
      have habsolute : (⟨front ++ [slash] ++ path.bytes⟩ : Path).isAbsolute =
          (⟨front ++ [slash]⟩ : Path).isAbsolute := isAbsolute_append hbase
      unfold leading
      rw [habsolute, List.append_assoc, List.singleton_append, segments_append_slash,
        segments_append_slash,
        List.head?_append_of_ne_nil _ hfirst, List.head?_append_of_ne_nil _ hfirst]
    show leading _ ++ inner _ = leading _ ++ inner _ ++ _
    rw [hleading, hjoined, List.append_assoc]

/-- A relative path that is joined to an absolute one has the components of that one and then its
own inner ones. -/
theorem components_join_of_isAbsolute (hbase : base.isAbsolute = true)
    (hpath : path.isAbsolute = false) :
    (base.join path).components = base.components ++ path.inner :=
  components_join (bytes_ne_nil_of_isAbsolute hbase) hpath

end Path

end YamlDocs
