import AllowList.Numeric.Binary64
import AllowList.Text.Bytes

/-!
# JSON values

An object's members are a list of keys with values. What counts is which value
a key has, not where it stands, so members are kept in the order of their keys:
`put` inserts there and replaces what the key had before, and `arranged` brings
any value into that form at every level. `IsArranged` says that a value has it.
-/

namespace AllowList

/-- A number as JSON text gives it: a whole number that a 64-bit integer can
hold, or else a binary floating-point number. -/
inductive Json.Number where
  | int (value : Int)
  | real (value : Numeric.Binary64)
  deriving DecidableEq, Repr

/-- A JSON value. -/
inductive Json where
  | null
  | bool (value : Bool)
  | num (value : Json.Number)
  | str (text : String)
  | arr (items : List Json)
  | obj (members : List (String × Json))
  deriving Repr, Inhabited

namespace Json

/-- Keys and values. -/
abbrev Members := List (String × Json)

mutual

/-- Whether two values are the same, members in the same places included. -/
def same : Json → Json → Bool
  | null, null => true
  | bool left, bool right => left == right
  | num left, num right => left == right
  | str left, str right => left == right
  | arr left, arr right => sameItems left right
  | obj left, obj right => sameMembers left right
  | _, _ => false

/-- Whether two lists of values are the same. -/
def sameItems : List Json → List Json → Bool
  | [], [] => true
  | left :: lefts, right :: rights => same left right && sameItems lefts rights
  | _, _ => false

/-- Whether two lists of members are the same. -/
def sameMembers : Members → Members → Bool
  | [], [] => true
  | (leftKey, left) :: lefts, (rightKey, right) :: rights =>
    leftKey == rightKey && same left right && sameMembers lefts rights
  | _, _ => false

end

mutual

theorem same_self : (value : Json) → same value value = true
  | null => rfl
  | bool _ => by simp [same]
  | num _ => by simp [same]
  | str _ => by simp [same]
  | arr items => by simp [same, sameItems_self items]
  | obj members => by simp [same, sameMembers_self members]

theorem sameItems_self : (items : List Json) → sameItems items items = true
  | [] => rfl
  | item :: items => by simp [sameItems, same_self item, sameItems_self items]

theorem sameMembers_self : (members : Members) → sameMembers members members = true
  | [] => rfl
  | (_, value) :: members => by simp [sameMembers, same_self value, sameMembers_self members]

end

mutual

theorem eq_of_same : (left right : Json) → same left right = true → left = right
  | null, null, _ => rfl
  | bool _, bool _, h => by simpa [same] using h
  | num _, num _, h => by simpa [same] using h
  | str _, str _, h => by simpa [same] using h
  | arr left, arr right, h => by
    simp only [same] at h
    rw [eq_of_sameItems left right h]
  | obj left, obj right, h => by
    simp only [same] at h
    rw [eq_of_sameMembers left right h]
  | null, bool _, h | null, num _, h | null, str _, h | null, arr _, h | null, obj _, h
  | bool _, null, h | bool _, num _, h | bool _, str _, h | bool _, arr _, h | bool _, obj _, h
  | num _, null, h | num _, bool _, h | num _, str _, h | num _, arr _, h | num _, obj _, h
  | str _, null, h | str _, bool _, h | str _, num _, h | str _, arr _, h | str _, obj _, h
  | arr _, null, h | arr _, bool _, h | arr _, num _, h | arr _, str _, h | arr _, obj _, h
  | obj _, null, h | obj _, bool _, h | obj _, num _, h | obj _, str _, h
  | obj _, arr _, h => by simp [same] at h

theorem eq_of_sameItems : (left right : List Json) → sameItems left right = true → left = right
  | [], [], _ => rfl
  | left :: lefts, right :: rights, h => by
    simp only [sameItems, Bool.and_eq_true] at h
    rw [eq_of_same left right h.1, eq_of_sameItems lefts rights h.2]
  | [], _ :: _, h | _ :: _, [], h => by simp [sameItems] at h

theorem eq_of_sameMembers : (left right : Members) →
    sameMembers left right = true → left = right
  | [], [], _ => rfl
  | (leftKey, left) :: lefts, (rightKey, right) :: rights, h => by
    simp only [sameMembers, Bool.and_eq_true, beq_iff_eq] at h
    rw [h.1.1, eq_of_same left right h.1.2, eq_of_sameMembers lefts rights h.2]
  | [], _ :: _, h | _ :: _, [], h => by simp [sameMembers] at h

end

/-- Two values are the same exactly when they are equal. -/
theorem same_iff_eq {left right : Json} : same left right = true ↔ left = right :=
  ⟨eq_of_same left right, fun equal => equal ▸ same_self left⟩

instance : DecidableEq Json := fun _ _ => decidable_of_iff _ same_iff_eq

/-- The value that a key has, if it is there. -/
def get? (key : String) : Members → Option Json
  | [] => none
  | (other, value) :: rest => if other = key then some value else get? key rest

/-- Gives a key a value, in place of the one it had if it was there. Members in
the order of their keys stay so. -/
def put (key : String) (value : Json) : Members → Members
  | [] => [(key, value)]
  | (other, old) :: rest =>
    match Text.order key other with
    | .lt => (key, value) :: (other, old) :: rest
    | .eq => (key, value) :: rest
    | .gt => (other, old) :: put key value rest

/-- Takes a key away. -/
def erase (key : String) (members : Members) : Members :=
  members.filter (·.1 ≠ key)

/-- Gives each of some keys a value in turn. -/
def putAll (members added : Members) : Members :=
  added.foldl (fun members member => put member.1 member.2 members) members

mutual

/-- The value with the members of every object in the order of their keys; of
several members with one key the last counts. -/
def arranged : Json → Json
  | arr items => arr (arrangedItems items)
  | obj members => obj (arrangedInto [] members)
  | value => value

/-- Every value of a list arranged. -/
def arrangedItems : List Json → List Json
  | [] => []
  | item :: items => item.arranged :: arrangedItems items

/-- Puts members, each arranged, into members that are in order already. -/
def arrangedInto (done : Members) : Members → Members
  | [] => done
  | (key, value) :: rest => arrangedInto (put key value.arranged done) rest

end

/-- Whether keys strictly ascend. -/
def KeysAscend : Members → Prop
  | [] => True
  | (key, _) :: rest => (∀ member ∈ rest, Text.order key member.1 = .lt) ∧ KeysAscend rest

mutual

/-- Every object's keys strictly ascend. -/
def IsArranged : Json → Prop
  | arr items => AllArranged items
  | obj members => KeysAscend members ∧ MembersArranged members
  | _ => True

/-- Every value of a list is arranged. -/
def AllArranged : List Json → Prop
  | [] => True
  | item :: items => item.IsArranged ∧ AllArranged items

/-- Every member's value is arranged. -/
def MembersArranged : Members → Prop
  | [] => True
  | (_, value) :: rest => value.IsArranged ∧ MembersArranged rest

end

end Json

end AllowList
