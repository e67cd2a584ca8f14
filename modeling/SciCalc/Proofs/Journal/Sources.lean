import Mathlib.Data.List.Induction
import Mathlib.Data.List.TakeWhile
import SciCalc.Journal.Basic
import SciCalc.Proofs.Runs

/-! # Sources below the parts

A source whose name begins with that of another source, up to a point, stands below it. The
journal looks for the part that a source belongs to in one pass over its name; here the same is
said step by step, as the chain of sources that a record is handed up. For names without two
points next to each other the chain does not depend on the sources that have been met: it ends
at the part, if any, that is the name up to its first point.
-/

namespace SciCalc

namespace Component

theorem named?_name (component : Component) : named? component.name = some component := by
  cases component <;> decide

theorem eq_name_of_named?_eq_some {name : String} {component : Component}
    (hnamed : named? name = some component) : name = component.name :=
  (beq_iff_eq.mp (List.find?_some (p := fun part : Component => part.name == name) hnamed)).symm

theorem not_mem_name (component : Component) : '.' ∉ component.name.toList := by
  cases component <;> decide

end Component

namespace Journal

/-- The names at which the source above a name is looked for, the longest first. The name is
given from its end. -/
def namesAbove : List Char → List String
  | [] => []
  | '.' :: c :: rest => String.ofList (c :: rest).reverse :: namesAbove rest
  | _ :: rest => namesAbove rest

/-- Whether a source has a name: a part, or one of the sources that have been met. -/
def isSource (sources : List String) (name : String) : Bool :=
  (Component.named? name).isSome || sources.contains name

/-- The source that a source hands its records to: the longest of the names above it that a source
has. -/
def above? (sources : List String) (source : String) : Option String :=
  (namesAbove source.toList.reverse).find? (isSource sources)

/-- A source is under a part if it is the part, or if the source above it is under the part. -/
inductive IsUnder (sources : List String) : String → Component → Prop where
  | itself (component : Component) : IsUnder sources component.name component
  | handedUp {source name : String} {component : Component}
      (habove : above? sources source = some name) (hname : IsUnder sources name component) :
      IsUnder sources source component

/-- Nothing stands above a name without points. -/
theorem namesAbove_eq_nil {reversed : List Char} (hpoint : '.' ∉ reversed) :
    namesAbove reversed = [] := by
  fun_induction namesAbove reversed with
  | case1 => rfl
  | case2 => exact absurd List.mem_cons_self hpoint
  | case3 c rest _ ih => exact ih fun hrest => hpoint (List.mem_cons_of_mem _ hrest)

variable {sources : List String} {source : String} {component : Component}

/-- A part is under no other part. -/
theorem isUnder_name_iff {other : Component} :
    IsUnder sources other.name component ↔ component = other := by
  constructor
  · intro hunder
    generalize hname : other.name = name at hunder
    cases hunder with
    | itself =>
        have hsame := Component.named?_name component
        rw [← hname, Component.named?_name] at hsame
        exact (Option.some.inj hsame).symm
    | handedUp habove _ =>
        have hpoint : '.' ∉ name.toList.reverse := by
          rw [List.mem_reverse, ← hname]
          exact other.not_mem_name
        rw [above?, namesAbove_eq_nil hpoint] at habove
        exact absurd habove (by simp)
  · rintro rfl
    exact .itself component

/-- A source that is no part is under a part through the source above it. -/
theorem isUnder_iff_of_named?_eq_none (hnamed : Component.named? source = none) :
    IsUnder sources source component ↔
      ∃ name, above? sources source = some name ∧ IsUnder sources name component := by
  constructor
  · intro hunder
    cases hunder with
    | itself => exact absurd (Component.named?_name component) (by simp [hnamed])
    | handedUp habove hname => exact ⟨_, habove, hname⟩
  · rintro ⟨name, habove, hname⟩
    exact .handedUp habove hname

/-- The one pass over a name finds the end of the chain of sources above it. -/
theorem partAbove?_eq_some_iff {reversed : List Char} :
    partAbove? sources reversed = some component ↔
      ∃ name, (namesAbove reversed).find? (isSource sources) = some name ∧
        IsUnder sources name component := by
  fun_induction partAbove? sources reversed with
  | case1 => simp [namesAbove]
  | case2 c rest name other hnamed =>
      have hfound : (namesAbove ('.' :: c :: rest)).find? (isSource sources) = some name :=
        List.find?_cons_of_pos (by rw [isSource, hnamed]; rfl)
      rw [hfound, Component.eq_name_of_named?_eq_some hnamed]
      simp only [Option.some.injEq, exists_eq_left', isUnder_name_iff]
      exact eq_comm
  | case3 c rest name hnamed hmet ih =>
      have hfound : (namesAbove ('.' :: c :: rest)).find? (isSource sources) = some name :=
        List.find?_cons_of_pos (by rw [isSource, hmet, Bool.or_true])
      have habove : above? sources name = (namesAbove (c :: rest)).find? (isSource sources) := by
        rw [above?, String.toList_ofList, List.reverse_reverse]
      rw [ih, hfound, ← habove, ← isUnder_iff_of_named?_eq_none hnamed]
      simp only [Option.some.injEq, exists_eq_left']
  | case4 c rest name hnamed hmet ih =>
      rw [namesAbove, List.find?_cons_of_neg]
      · exact ih
      · rw [isSource, hnamed, Bool.not_eq_true]
        exact Bool.eq_false_iff.mpr hmet
  | case5 c rest hpoint ih =>
      rw [namesAbove]
      · exact ih
      · exact hpoint

/-- The part that a source belongs to is the one that it is under. -/
theorem componentOf?_eq_some_iff :
    componentOf? sources source = some component ↔ IsUnder sources source component := by
  cases hnamed : Component.named? source with
  | some other =>
      rw [Component.eq_name_of_named?_eq_some hnamed, componentOf?, Component.named?_name,
        isUnder_name_iff, Option.some.injEq, eq_comm]
  | none =>
      rw [componentOf?, hnamed, isUnder_iff_of_named?_eq_none hnamed]
      exact partAbove?_eq_some_iff

/-- A source belongs to the calculator if it is under one of its parts. -/
def Belongs (sources : List String) (source : String) : Prop :=
  ∃ component, IsUnder sources source component

theorem isSome_componentOf?_iff :
    (componentOf? sources source).isSome ↔ Belongs sources source := by
  simp only [Option.isSome_iff_exists, componentOf?_eq_some_iff, Belongs]

instance : Decidable (Belongs sources source) := decidable_of_iff _ isSome_componentOf?_iff

/-! ## Names without two points next to each other -/

/-- The beginning of a name up to its first point. -/
def stem (cs : List Char) : List Char := cs.takeWhile (· != '.')

theorem stem_of_not_mem {cs : List Char} (hpoint : '.' ∉ cs) : stem cs = cs :=
  List.takeWhile_eq_self_iff.mpr fun _ hc => bne_iff_ne.mpr fun heq => hpoint (heq ▸ hc)

theorem stem_append_of_mem {cs : List Char} (hpoint : '.' ∈ cs) (tail : List Char) :
    stem (cs ++ tail) = stem cs :=
  takeWhile_append_of_mem (by decide) hpoint tail

theorem stem_concat_point (cs : List Char) : stem (cs ++ ['.']) = stem cs :=
  takeWhile_append_cons (by decide) cs []

theorem partAbove?_cons_of_ne {c : Char} (hc : c ≠ '.') (rest : List Char) :
    partAbove? sources (c :: rest) = partAbove? sources rest := by
  rw [partAbove?]
  exact fun _ _ hpoint _ => hc hpoint

theorem partAbove?_of_not_mem {reversed : List Char} (hpoint : '.' ∉ reversed) :
    partAbove? sources reversed = none := by
  induction reversed with
  | nil => rfl
  | cons c rest ih =>
      rw [List.mem_cons, not_or] at hpoint
      rw [partAbove?_cons_of_ne (Ne.symm hpoint.1), ih hpoint.2]

/-- A name with a point is that of no part. -/
theorem componentOf?_of_mem (hpoint : '.' ∈ source.toList) :
    componentOf? sources source = partAbove? sources source.toList.reverse := by
  cases hnamed : Component.named? source with
  | some other =>
      rw [Component.eq_name_of_named?_eq_some hnamed] at hpoint
      exact absurd hpoint other.not_mem_name
  | none => rw [componentOf?, hnamed]

/-- Behind a point that stands alone the name before it decides, whether it has been met or not. -/
theorem partAbove?_point {c : Char} (hc : c ≠ '.') (rest : List Char) :
    partAbove? sources ('.' :: c :: rest) =
      componentOf? sources (String.ofList (c :: rest).reverse) := by
  rw [partAbove?, componentOf?, String.toList_ofList, List.reverse_reverse,
    partAbove?_cons_of_ne hc, ite_self]

/-- For a name without two points next to each other it does not matter which sources have been
met: it belongs to the part whose name is its beginning up to the first point. -/
theorem componentOf?_eq_named?_stem (hpoints : ¬ ['.', '.'] <:+: source.toList) :
    componentOf? sources source = Component.named? (String.ofList (stem source.toList)) := by
  suffices hchars : ∀ cs : List Char, ¬ ['.', '.'] <:+: cs →
      componentOf? sources (String.ofList cs) = Component.named? (String.ofList (stem cs)) by
    rw [← hchars _ hpoints, String.ofList_toList]
  intro cs hcs
  -- From the end, as the sources above a name are found.
  induction cs using List.reverseRecOn with
  | nil => rfl
  | append_singleton cs last ih =>
      have hfront := ih fun hinside => hcs (hinside.trans (List.prefix_append _ _).isInfix)
      by_cases hlast : last = '.'
      · subst hlast
        rw [stem_concat_point, ← hfront]
        cases cs using List.reverseRecOn with
        | nil => rfl
        | append_singleton cs c _ =>
            have hc : c ≠ '.' := by
              rintro rfl
              exact hcs ⟨cs, [], by simp⟩
            rw [componentOf?_of_mem (by simp)]
            simpa using partAbove?_point hc cs.reverse
      · by_cases hpoint : '.' ∈ cs
        · rw [stem_append_of_mem hpoint, ← hfront, componentOf?_of_mem (by simp [hpoint]),
            componentOf?_of_mem (by simpa using hpoint)]
          simpa using partAbove?_cons_of_ne hlast cs.reverse
        · have hname : '.' ∉ cs ++ [last] := by simp [hpoint, Ne.symm hlast]
          rw [stem_of_not_mem hname, componentOf?, String.toList_ofList,
            partAbove?_of_not_mem (mt List.mem_reverse.mp hname)]
          cases Component.named? (String.ofList (cs ++ [last])) <;> rfl

-- Between two points there is no name, and the one before both is looked at only from there.
example : componentOf? [] "calculadora..x" = none ∧
    componentOf? ["calculadora."] "calculadora..x" = some .application := by
  decide

/-- Whether such a name belongs to the calculator can be read off the name. -/
theorem belongs_iff_named?_stem (hpoints : ¬ ['.', '.'] <:+: source.toList) :
    Belongs sources source ↔
      (Component.named? (String.ofList (stem source.toList))).isSome := by
  rw [← isSome_componentOf?_iff, componentOf?_eq_named?_stem hpoints]

end Journal

end SciCalc
