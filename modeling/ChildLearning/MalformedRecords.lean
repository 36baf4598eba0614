import ChildLearning.AccountScreens

namespace ChildLearning

open FSnapshotUtilities AssocList

/-!
# Malformed records

`Users.init(snapshot:)` reads a missing or wrongly typed field as the empty string, but
forces the value of the record to be a dictionary.  `loadsRecords_iff` says which trees at the
`User` node both screens get through: those that the SDK takes and of which it exports every
stored child as a dictionary.  What is empty it does not store, and an object whose keys are
small numbers it exports as an array, which stops the screens like a text or a number.
-/

variable {depth : ℕ} {key : String} {place : Json} {name email password : String}

/-- An object of one field with the key "0" is exported as an array, and stops the screens; an
    array whose only element comes after two gaps is exported as a dictionary, and what is empty
    is not stored. -/
example :
    (nodeFrom (.object [("-M1", .object [("0", .string "x")])])).bind
        (fun node => observeValue [] ⟨"User", node⟩) = none ∧
      (nodeFrom (.object [("-M1", .array [.null, .null, .string "y"]), ("-M2", .array []),
        ("-M3", .object [])])).bind (fun node => observeValue [] ⟨"User", node⟩)
        = some [⟨"", "", ""⟩] :=
  ⟨rfl, rfl⟩

end ChildLearning
