import NamingDirectory.Proofs.Fault
import NamingDirectory.Proofs.Memory.Graph

/-!
# Names below a context

A name leads the same way, whether it is followed from the start or, from a context on the way, by the
segments that are left: what was passed before shows in the names of faults only (`sameButName_follow`). So
every operation on the rest of a name does at the context what the operation on the whole name does at the
start. A creation needs that both contexts read names with one separator, because the new context takes its
own from where the operation starts.

The induction is on the path above the context (`follow_append`). As a new context takes its separator from
one that is there, all that grew from one root is uniform in this sense.
-/

namespace NamingDirectory.Memory

/-- Whether all contexts of a heap read names with one separator. -/
def Heap.IsUniform (h : Heap) : Prop :=
  ∀ id < h.size, ∀ c < h.size, (h.context c).separator = (h.context id).separator

variable {h : Heap} {id c : Nat} {p q : List Segment} {n above below : Name}

theorem sameButName_follow (passed passed' : List Segment) :
    SameButName (follow h passed id p) (follow h passed' id p) := by
  induction p generalizing passed passed' id with
  | nil => exact .ok id
  | cons s p ih =>
    rw [follow, follow]
    split
    · exact .error rfl
    · exact ih _ _
    · exact .error rfl

/-- A path in two parts is followed from where the first part ends, and the faults of the second part still
name all that was passed. -/
theorem follow_append (passed : List Segment) (id : Nat) (p q : List Segment) :
    follow h passed id (p ++ q) = follow h passed id p >>= fun c => follow h (passed ++ p) c q := by
  induction p generalizing passed id with
  | nil => rw [List.nil_append, List.append_nil]; rfl
  | cons s p ih =>
    rw [List.cons_append, follow, follow]
    split
    · rfl
    · rw [ih, List.append_assoc, List.singleton_append]
    · rfl

section Below

variable (hc : h.at? (.context id) above.segments = some (.context c))
  (hn : n.segments = above.segments ++ below.segments)

include hc hn

/-- The rest of a name gets to the context that the whole name gets to. -/
theorem sameButName_parentOf : SameButName (parentOf h c below) (parentOf h id n) := by
  have hfollow : follow h [] id above.segments = .ok c := follow_eq_ok_iff.mpr hc
  rw [parentOf, parentOf, Name.parents_of_segments hn, follow_append, hfollow]
  exact sameButName_follow _ _

theorem sameButName_lookup : SameButName (lookup h c (.name below)) (lookup h id (.name n)) := by
  refine (sameButName_parentOf hc hn).bind fun parent => ?_
  rw [Name.leaf_of_segments hn]
  split
  · exact .refl _
  · exact .error rfl

theorem sameButName_rebind (v : Value) :
    SameButName (rebind h c (.name below) v) (rebind h id (.name n) v) := by
  refine (sameButName_parentOf hc hn).bind fun parent => ?_
  rw [Name.leaf_of_segments hn]
  exact .refl _

/-- The new context takes its separator from where the creation starts, hence the hypothesis. -/
theorem sameButName_create (hseparator : (h.context c).separator = (h.context id).separator) :
    SameButName (create h c (.name below)) (create h id (.name n)) := by
  refine (sameButName_parentOf hc hn).bind fun parent => ?_
  rw [Name.leaf_of_segments hn, hseparator]
  split
  · refine .error ?_
    rw [alreadyBound, alreadyBound, Name.leaf_of_segments hn]
    rfl
  · exact .refl _

theorem sameButName_unbind : SameButName (unbind h c (.name below)) (unbind h id (.name n)) := by
  refine (sameButName_parentOf hc hn).bind fun parent => ?_
  rw [Name.leaf_of_segments hn]
  exact .refl _

end Below

end NamingDirectory.Memory
