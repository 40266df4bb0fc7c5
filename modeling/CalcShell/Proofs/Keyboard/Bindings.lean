import CalcShell.Keyboard.Binding
import Mathlib.Tactic.Lemma

/-! Which keys a configuration can bind: those with a name, and so none that stands for itself. -/
namespace CalcShell

namespace Key

lemma width_of_isPrintable {key : Bytes} (printable : isPrintable key) : Utf8.width key = 1 := by
  cases key with
  | nil => cases printable
  | cons b rest =>
    simp only [isPrintable, Bool.and_eq_true, beq_iff_eq] at printable
    exact printable.2

lemma not_isPrintable_of_modified {key : Bytes} (modified : isModified key) :
    isPrintable key = false := by
  match key, modified with
  | [modifier, dash, letter], modified =>
    rw [Bool.eq_false_iff]
    intro printable
    have width : Utf8.width ([modifier, dash] ++ [letter]) = 1 := width_of_isPrintable printable
    simp only [isModified, Bool.and_eq_true, Bool.or_eq_true, beq_iff_eq] at modified
    have two : Utf8.width [modifier, dash] = 2 := by
      obtain ⟨⟨rfl | rfl, rfl⟩, -⟩ := modified <;> decide
    rw [Utf8.width_append] at width
    omega

lemma not_isPrintable_of_known {key : Bytes} (known : isKnown key) : isPrintable key = false := by
  rw [isKnown, Bool.or_eq_true, Bool.or_eq_true] at known
  obtain (name | modified) | function := known
  · have named : ∀ key ∈ named, isPrintable key = false := by decide
    exact named key (List.contains_iff_mem.1 name)
  · exact not_isPrintable_of_modified modified
  · have numbered : ∀ key ∈ functionKeys, isPrintable key = false := by decide
    exact numbered key (List.contains_iff_mem.1 function)

end Key

namespace KeyMap

/-- The maps that bindings lead to, from nothing or from the defaults. -/
inductive IsBuilt : KeyMap → Prop where
  | empty : IsBuilt .empty
  | defaults : IsBuilt .defaults
  | bind {map next : KeyMap} {action : Action} {keys : List Bytes} (built : IsBuilt map)
    (bound : map.bind action keys = .ok next) : IsBuilt next

lemma IsBuilt.known {map : KeyMap} (built : map.IsBuilt) :
    ∀ binding ∈ map.bindings, ∀ key ∈ binding.2, Key.isKnown key := by
  induction built with
  | empty => nofun
  | defaults => decide
  | @bind map next action keys built bound ih =>
    rw [KeyMap.bind] at bound
    split at bound
    · cases bound
    · rename_i none
      cases bound
      rw [List.find?_eq_none] at none
      intro binding mem key bound
      rcases List.mem_cons.1 mem with rfl | mem
      · simpa using none key bound
      · obtain ⟨⟨other, theirs⟩, kept, rfl⟩ := List.mem_map.1 mem
        exact ih _ ((List.mem_filter.1 kept).1) key ((List.mem_filter.1 bound).1)

/-- A printable key is bound to nothing. -/
theorem IsBuilt.lookup_of_printable {map : KeyMap} (built : map.IsBuilt) {key : Bytes}
    (printable : Key.isPrintable key) : map.lookup key = .ignore := by
  have unbound : map.bindings.find? (·.2.contains key) = none := by
    rw [List.find?_eq_none]
    intro binding mem bound
    have known := built.known binding mem key (List.contains_iff_mem.1 bound)
    rw [Key.not_isPrintable_of_known known] at printable
    cases printable
  rw [lookup, unbound]
  rfl

end KeyMap
end CalcShell
