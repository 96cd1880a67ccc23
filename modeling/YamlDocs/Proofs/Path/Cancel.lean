/-
  YamlDocs.Proofs.Path.Cancel
  ────────────────────────────────
  **NAMES THAT ARE TAKEN BACK.**

  Said without a stack, a `..` cancels the name directly in front of it, and
  the gap closes (`CancelStep`).  Components that never climb above where
  they start (`StaysInside`) can be cancelled down to names alone, and the
  stack of the normalization does just that on top of whatever lies below
  (`foldl_pushComponent_inside`).  Others leave some `..` besides, and there
  too the stack cancels (`cancels_foldl_pushComponent`).  Whatever is left
  stands in the order in which it stood before (`sublist_of_cancels`).
-/
import YamlDocs.Path.Normal
import Mathlib.Data.List.Infix
import Mathlib.Logic.Relation

namespace YamlDocs

open YamlDocs.Path (pushComponent)

/-! ## §1. Cancelling. -/

/-- Whether a component is a name. -/
def Component.isName : Component → Bool
  | .name _ => true
  | _ => false

/-- A name and the `..` behind it are left out. -/
inductive CancelStep : List Component → List Component → Prop
  | pair (before : List Component) (bytes : Bytes) (after : List Component) :
      CancelStep (before ++ .name bytes :: .parent :: after) (before ++ after)

/-- No beginning of the components has more `..` than names. -/
def StaysInside (components : List Component) : Prop :=
  ∀ before, before <+: components → before.count .parent ≤ before.countP Component.isName

instance (components : List Component) : Decidable (StaysInside components) :=
  decidable_of_iff
    (∀ before ∈ components.inits, before.count .parent ≤ before.countP Component.isName)
    (by simp only [List.mem_inits, StaysInside])

/-- What is neither a `..` nor a name in front makes no difference. -/
theorem StaysInside.of_append {front components : List Component}
    (hfront : ∀ c ∈ front, c.isName = false) (h : StaysInside (front ++ components)) :
    StaysInside components := by
  intro before hbefore
  have hcount := h (front ++ before) ((List.prefix_append_right_inj front).mpr hbefore)
  have hnames : front.countP Component.isName = 0 := by
    rw [List.countP_eq_zero]
    intro c hc
    simp [hfront c hc]
  rw [List.count_append, List.countP_append, hnames] at hcount
  omega

/-! ## §2. The stack. -/

/-- The names of a run with a `..` behind: the last one is cancelled. -/
theorem exists_cancelStep {names : List Component} (hnames : ∀ c ∈ names, c.isName = true)
    (hne : names ≠ []) (after : List Component) :
    ∃ kept bytes, names = kept ++ [.name bytes] ∧
      CancelStep (names ++ .parent :: after) (kept ++ after) := by
  obtain ⟨kept, last, rfl⟩ : ∃ kept last, names = kept ++ [last] :=
    ⟨names.dropLast, names.getLast hne, (List.dropLast_append_getLast hne).symm⟩
  cases last with
  | name bytes =>
      refine ⟨kept, bytes, rfl, ?_⟩
      rw [List.append_assoc]
      exact .pair kept bytes after
  | root => exact nomatch hnames .root (by simp)
  | here => exact nomatch hnames .here (by simp)
  | parent => exact nomatch hnames .parent (by simp)

/-- **The stack cancels**: over the names already read and whatever lies below them, components
that take back no more than these names leave the names that cancelling leaves. -/
theorem foldl_pushComponent_names (components : List Component)
    (hinner : ∀ c ∈ components, c ≠ .root ∧ c ≠ .here) :
    ∀ names stack : List Component, (∀ c ∈ names, c.isName = true) →
      (∀ before, before <+: components →
        before.count .parent ≤ names.length + before.countP Component.isName) →
      ∃ rest, (∀ c ∈ rest, c.isName = true) ∧
        Relation.ReflTransGen CancelStep (names ++ components) rest ∧
        components.foldl pushComponent (names.reverse ++ stack) = rest.reverse ++ stack := by
  induction components with
  | nil =>
      intro names stack hnames _
      rw [List.append_nil]
      exact ⟨names, hnames, .refl, rfl⟩
  | cons component components ih =>
      intro names stack hnames hbound
      obtain ⟨⟨hroot, hhere⟩, hothers⟩ := List.forall_mem_cons.mp hinner
      have hnext : ∀ before, before <+: components →
          (component :: before).count .parent ≤
            names.length + (component :: before).countP Component.isName :=
        fun before hbefore => hbound _ ((List.prefix_cons_inj component).mpr hbefore)
      cases component with
      | root => exact absurd rfl hroot
      | here => exact absurd rfl hhere
      | name bytes =>
          obtain ⟨rest, hrest, hcancel, hfold⟩ := ih hothers (names ++ [.name bytes]) stack
            (by simpa [or_imp, forall_and] using ⟨hnames, rfl⟩)
            (fun before hbefore => by
              have hcount := hnext before hbefore
              rw [List.count_cons_of_ne (by simp), List.countP_cons_of_pos rfl] at hcount
              rw [List.length_append, List.length_singleton]
              omega)
          refine ⟨rest, hrest, ?_, ?_⟩
          · simpa using hcancel
          · rw [List.reverse_append] at hfold
            exact hfold
      | parent =>
          have hne : names ≠ [] := by
            rintro rfl
            have hcount := hnext [] (List.nil_prefix)
            simp [Component.isName] at hcount
          obtain ⟨kept, bytes, rfl, hstep⟩ := exists_cancelStep hnames hne components
          obtain ⟨rest, hrest, hcancel, hfold⟩ := ih hothers kept stack
            (fun c hc => hnames c (List.mem_append_left _ hc))
            (fun before hbefore => by
              have hcount := hnext before hbefore
              rw [List.count_cons_self, List.countP_cons_of_neg (by simp [Component.isName]),
                List.length_append, List.length_singleton] at hcount
              omega)
          refine ⟨rest, hrest, .head hstep hcancel, ?_⟩
          rw [List.reverse_append]
          exact hfold

/-- **Components that stay inside leave what lies below the stack alone**, and on top of it the
names that cancelling leaves. -/
theorem foldl_pushComponent_inside {components : List Component}
    (hinner : ∀ c ∈ components, c ≠ .root ∧ c ≠ .here) (hinside : StaysInside components)
    (stack : List Component) :
    ∃ rest, (∀ c ∈ rest, c.isName = true) ∧ Relation.ReflTransGen CancelStep components rest ∧
      components.foldl pushComponent stack = rest.reverse ++ stack := by
  refine foldl_pushComponent_names components hinner [] stack (fun c hc => nomatch hc) ?_
  intro before hbefore
  have hcount := hinside before hbefore
  rw [List.length_nil]
  omega

/-! ## §3. What is left. -/

theorem CancelStep.sublist {before after : List Component} (h : CancelStep before after) :
    after.Sublist before := by
  cases h with
  | pair front bytes rest =>
      refine (List.Sublist.refl front).append ?_
      exact ((List.Sublist.refl rest).cons .parent).cons (.name bytes)

/-- **Cancelling invents nothing and keeps the order.** -/
theorem sublist_of_cancels {components rest : List Component}
    (h : Relation.ReflTransGen CancelStep components rest) : rest.Sublist components := by
  induction h with
  | refl => exact .refl _
  | tail _ hstep ih => exact hstep.sublist.trans ih

/-- **The stack cancels**: what it has kept and what is still to come, without a root, cancels down
to what it keeps in the end. -/
theorem cancels_foldl_pushComponent (components : List Component)
    (hinner : ∀ c ∈ components, c ≠ .root ∧ c ≠ .here) :
    ∀ stack : List Component, .root ∉ stack →
      Relation.ReflTransGen CancelStep (stack.reverse ++ components)
        (components.foldl pushComponent stack).reverse := by
  induction components with
  | nil =>
      intro stack _
      rw [List.append_nil]
      exact .refl
  | cons component rest ih =>
      intro stack hstack
      obtain ⟨⟨hroot, hhere⟩, hrest⟩ := List.forall_mem_cons.mp hinner
      -- A component that is kept moves to the stack.
      have hkept : .root ∉ component :: stack →
          Relation.ReflTransGen CancelStep (stack.reverse ++ component :: rest)
            (rest.foldl pushComponent (component :: stack)).reverse := by
        intro hnext
        have hcancel := ih hrest (component :: stack) hnext
        rw [List.reverse_cons, List.append_assoc] at hcancel
        exact hcancel
      have hnext : .root ∉ component :: stack := by simp [hroot.symm, hstack]
      cases component with
      | root => exact absurd rfl hroot
      | here => exact absurd rfl hhere
      | name bytes => exact hkept hnext
      | parent =>
          cases stack with
          | nil => exact hkept hnext
          | cons top below =>
              cases top with
              | root => exact absurd List.mem_cons_self hstack
              | here => exact hkept hnext
              | parent => exact hkept hnext
              | name bytes =>
                  -- The name on top is taken back.
                  have hstep : CancelStep ((Component.name bytes :: below).reverse ++ .parent :: rest)
                      (below.reverse ++ rest) := by
                    rw [List.reverse_cons, List.append_assoc]
                    exact .pair below.reverse bytes rest
                  have hbelow : .root ∉ below := fun h => hstack (List.mem_cons_of_mem _ h)
                  exact .head hstep (ih hrest below hbelow)

end YamlDocs
