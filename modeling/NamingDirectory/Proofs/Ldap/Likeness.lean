import NamingDirectory.Proofs.Client.Course
import NamingDirectory.Proofs.Fault
import NamingDirectory.Proofs.Ldap.Operation

/-!
# Operations that ask the same

An operation asks the server for what its distinguished name and its attributes make it ask. From where and by
which segments the name leads to its entry is not seen, and neither is the style that the segments are written
in. So two operations that come to one distinguished name ask the same of any server (`AsksAlike`), and end in
results that differ at most in the name of a fault: `asksAlike_lookup`, `asksAlike_rebind` and
`asksAlike_createContext`.

The two operations are taken apart side by side, as `lookup_eq`, `rebind_eq` and `createContext_eq` give them.
Where something is worked out from the distinguished name, both have the same; where the name itself goes in,
it goes into a fault, and the results are the same but for it.
-/

namespace NamingDirectory.Ldap

open Dialogue

/-- A directory with another name style. -/
def Directory.styled (d : Directory) (style : NameStyle) : Directory :=
  { d with settings := { d.settings with nameStyle := style } }

/-- Whether two operations ask the same of any server, and end alike. -/
abbrev AsksAlike {α : Type} (op op' : Op α) : Prop := Alike SameButName op.run op'.run

section Sessions

variable {α β : Type} {op op' : Op α} {result result' : Except Fault α} {d : Directory}

theorem asksAlike_refl (op : Op α) : AsksAlike op op := .refl .refl op.run

/-- What is worked out asks for nothing, so only the results are to be compared. -/
theorem asksAlike_lift (h : SameButName result result') : AsksAlike (lift result) (lift result') := .done h

theorem AsksAlike.bind (h : AsksAlike op op') {next next' : α → Op β}
    (hnext : ∀ a, AsksAlike (next a) (next' a)) : AsksAlike (op >>= next) (op' >>= next') := by
  refine Alike.bind h fun result result' hsame => ?_
  cases hsame with
  | ok a => exact hnext a
  | error he => exact .done (.error he)

theorem asksAlike_close (h : SameButName result result') : AsksAlike (close result) (close result') := by
  refine .ask fun reply => ?_
  split
  · exact .done h
  · split
    · exact .note (.done h)
    · exact .done (.refl _)

/-- Faults of the protocol have no names, and no other is turned into a refusal. -/
theorem sameButName_mapError_asRefusal (h : SameButName result result') :
    SameButName (result.mapError asRefusal) (result'.mapError asRefusal) := by
  cases h with
  | ok a => exact .ok a
  | @error e e' he =>
    rcases Fault.eq_of_nameless he with rfl | ⟨hplain, hplain'⟩
    · exact .refl _
    · refine .error ?_
      rw [asRefusal, asRefusal, hplain, hplain']
      exact he

/-- A session asks the same before and after, whatever is done in it. -/
theorem asksAlike_session (h : AsksAlike op op') : AsksAlike (session d op) (session d op') := by
  have hopening : Alike (· = ·) (openConnection d).run (openConnection d).run := .refl (fun _ => rfl) _
  refine .note (hopening.bind ?_)
  rintro opened _ rfl
  cases opened with
  | error e => exact .done (.refl _)
  | ok _ =>
    have hheld := (asksAlike_refl authenticate).bind fun _ => h
    exact Alike.bind hheld fun result result' hsame => asksAlike_close (sameButName_mapError_asRefusal hsame)

end Sessions

/-! ### Faults of operations

The name itself stands in the faults of an operation only. -/

section Faults

variable {d : Directory} {dn : String} {n m : Name}

/-- What a lookup makes of a reply has the name in its faults only. -/
theorem sameButName_foundIn (answer : Reply × Outcome) :
    SameButName (foundIn d dn m answer) (foundIn d dn n answer) := by
  rw [foundIn, foundIn]
  split
  · split
    · exact .error rfl
    · refine (SameButName.refl _).bind fun isContext => ?_
      split
      · exact .refl _
      · refine SameButName.bind ?_ fun v => .refl _
        refine (SameButName.refl _).bind fun key => ?_
        dsimp only
        split
        · exact .refl _
        · refine (SameButName.refl _).bind fun first => ?_
          split
          · exact .refl _
          · exact .error rfl
  · split
    · exact .error rfl
    · exact .error rfl

theorem sameButName_encode (value : Value) (n m : Name) :
    SameButName (encode value m) (encode value n) := by
  rw [encode, encode]
  cases Json.text value with
  | ok text => exact .ok text
  | error p => exact .error rfl

theorem sameButName_storedAfter (refused? : Option Outcome) :
    SameButName (storedAfter dn m refused?) (storedAfter dn n refused?) := by
  cases refused? with
  | none => exact .refl _
  | some outcome =>
    rw [storedAfter, storedAfter]
    split
    · exact .error rfl
    · exact .error rfl

theorem sameButName_createdAfter (answer : Reply × Outcome) :
    SameButName (createdAfter dn m answer) (createdAfter dn n answer) := by
  rw [createdAfter, createdAfter]
  split
  · exact .refl _
  · refine .error ?_
    split
    · rfl
    · split
      · rfl
      · rfl

end Faults

/-! ### Requests

Each operation with one style from one entry, and with another style or from another entry. -/

section Requests

variable {d : Directory} {style style' : NameStyle} {own own' value : Value} {dn text : String} {n m : Name}

/-- A lookup asks what its distinguished name makes it ask. -/
theorem asksAlike_lookup (hdn : entryDn (d.styled style) own m = entryDn (d.styled style') own' n) :
    AsksAlike (lookup (d.styled style) own (.name m)) (lookup (d.styled style') own' (.name n)) := by
  rw [lookup_eq, lookup_eq]
  change AsksAlike (lift (entryDn _ own m) >>= _) (lift (entryDn _ own' n) >>= _)
  rw [hdn]
  refine (asksAlike_refl _).bind fun dn => ?_
  -- How names are written matters to a session only through what is done in it.
  change AsksAlike (session (d.styled style') _ >>= _) _
  exact (asksAlike_refl _).bind fun answer => asksAlike_lift (sameButName_foundIn answer)

/-- A creation asks what its distinguished name and its attributes make it ask. Directories that agree on
these need not agree on anything else that names are made of. -/
theorem asksAlike_createContext
    (hdn : entryDn (d.styled style) own m = entryDn (d.styled style') own' n)
    (hattributes : contextAttributes (d.styled style) m = contextAttributes (d.styled style') n) :
    AsksAlike (createContext (d.styled style) own (.name m))
      (createContext (d.styled style') own' (.name n)) := by
  rw [createContext_eq, createContext_eq]
  change AsksAlike (lift (entryDn _ own m) >>= _) (lift (entryDn _ own' n) >>= _)
  rw [hdn, hattributes]
  refine (asksAlike_refl _).bind fun dn => (asksAlike_refl _).bind fun attributes => ?_
  change AsksAlike (session (d.styled style') _ >>= _) _
  exact (asksAlike_refl _).bind fun answer => asksAlike_lift (sameButName_createdAfter answer)

/-- Storing a text asks for the attributes of a new entry besides the distinguished name. -/
theorem asksAlike_store
    (hattributes : leafAttributes (d.styled style) m text = leafAttributes (d.styled style') n text) :
    AsksAlike (store (d.styled style) dn m text) (store (d.styled style') dn n text) := by
  rw [store, store, hattributes]
  refine (asksAlike_refl _).bind fun key => (asksAlike_refl _).bind fun modified => ?_
  split
  · exact asksAlike_refl _
  · refine (asksAlike_refl _).bind fun outcome => ?_
    split
    · exact asksAlike_refl _
    · exact asksAlike_lift (.error rfl)

/-- A rebind asks what its distinguished name and the attributes of a new entry make it ask. -/
theorem asksAlike_rebind (hdn : entryDn (d.styled style) own m = entryDn (d.styled style') own' n)
    (hattributes : ∀ text,
      leafAttributes (d.styled style) m text = leafAttributes (d.styled style') n text) :
    AsksAlike (rebind (d.styled style) own (.name m) value)
      (rebind (d.styled style') own' (.name n) value) := by
  rw [rebind_eq, rebind_eq]
  change AsksAlike (lift (entryDn _ own m) >>= _) (lift (entryDn _ own' n) >>= _)
  rw [hdn]
  refine (asksAlike_refl _).bind fun dn => ?_
  refine (asksAlike_lift (sameButName_encode value n m)).bind fun text => ?_
  change AsksAlike (session (d.styled style') _ >>= _) _
  refine (asksAlike_session (asksAlike_store (hattributes text))).bind fun refused? => ?_
  exact asksAlike_lift (sameButName_storedAfter refused?)

end Requests

end NamingDirectory.Ldap
