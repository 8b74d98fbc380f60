import BlockScript.Proofs.Tree.Spelling
import BlockScript.Proofs.Typing.Alike
/-!
# Checking reads both spellings alike

Checking looks at the spelling of a logical operator only to name it in a fault. A tree is accepted
if it is accepted in words, its nodes get the same types, and the scopes are filled alike.
-/
namespace BlockScript

open Check

/-- Two faults are the same in words. -/
def Fault.SameInWords (fault fault' : Fault) : Prop := fault'.inWords = fault.inWords

theorem Fault.SameInWords.refl (fault : Fault) : fault.SameInWords fault := rfl

theorem checksAlike_binaryType (n : Nat) (operator : String) (left right : StaticType) :
    ChecksAlike Fault.SameInWords n (lift (binaryType operator left right))
      (lift (binaryType (inWords operator) left right)) fun _ t t' => t' = t := by
  have hsame (x : Check StaticType) :
      ChecksAlike Fault.SameInWords n x x fun _ t t' => t' = t :=
    checksAlike_refl Fault.SameInWords.refl x fun _ _ => rfl
  have hlogical : (conjunctions.contains (inWords operator) ||
      disjunctions.contains (inWords operator)) =
        (conjunctions.contains operator || disjunctions.contains operator) := by
    rw [conjunctions_inWords, disjunctions_inWords]
  by_cases h : (conjunctions.contains operator || disjunctions.contains operator) = true
  · unfold binaryType
    rw [hlogical, if_pos h, if_pos h]
    split
    · exact hsame _
    · refine fun c => .error ?_
      simp only [Fault.SameInWords, Fault.inWords, TypeFault.inWords, inWords_inWords]
  · obtain ⟨hand, hor⟩ := Bool.or_eq_false_iff.mp (Bool.eq_false_iff.mpr h)
    rw [inWords_of_other hand hor]
    exact hsame _

theorem readAlike_inWords : ReadAlike Fault.SameInWords inWords id :=
  ⟨.refl, checksAlike_binaryType, fun _ => rfl⟩

theorem maps_inWords : Node.Maps inWords id Node.inWords := by
  constructor <;> simp [Node.inWords, Node.inWordsAll_eq_map]

/-- A tree and the tree in words are checked alike. -/
theorem check_inWords (c : Checker) (tree : Node) :
    SameChecks Fault.SameInWords (fun a b => b = a.inWords) (c.check tree)
      (c.check tree.inWords) :=
  sameChecks_map readAlike_inWords maps_inWords c tree

end BlockScript
