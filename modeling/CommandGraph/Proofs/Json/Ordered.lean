import CommandGraph.Json.Basic

/-!
# Values as properties hold them

The members of a JSON object may be listed in any order where a value is built to be written. A
value that a property holds has them in ascending order of their keys, in every object at whatever
depth (`Json.Ordered`). `PropertyValue` is the type of such values.
-/

namespace CommandGraph

namespace Json

mutual

/-- The members of every object in a value ascend strictly by their keys. -/
def Ordered : Json → Prop
  | array items => OrderedItems items
  | object members => Entries.Ascending members ∧ OrderedMembers members
  | _ => True

/-- Every item is ordered. -/
def OrderedItems : List Json → Prop
  | [] => True
  | item :: rest => Ordered item ∧ OrderedItems rest

/-- The value of every member is ordered. -/
def OrderedMembers : List (String × Json) → Prop
  | [] => True
  | (_, value) :: rest => Ordered value ∧ OrderedMembers rest

end

/-- Members are ordered when the value of each of them is. -/
theorem orderedMembers_iff {members : List (String × Json)} :
    OrderedMembers members ↔ ∀ member ∈ members, member.2.Ordered := by
  induction members with
  | nil => simp [OrderedMembers]
  | cons member rest ih =>
    obtain ⟨key, value⟩ := member
    rw [OrderedMembers, ih, List.forall_mem_cons]

mutual

/-- The doubles that occur in a value, in the order in which they are written. -/
def doubles : Json → List Double.Finite
  | double x => [x]
  | array items => doublesOfItems items
  | object members => doublesOfMembers members
  | _ => []

/-- The doubles that occur in the items of an array. -/
def doublesOfItems : List Json → List Double.Finite
  | [] => []
  | item :: rest => doubles item ++ doublesOfItems rest

/-- The doubles that occur in the members of an object. -/
def doublesOfMembers : List (String × Json) → List Double.Finite
  | [] => []
  | (_, value) :: rest => doubles value ++ doublesOfMembers rest

end

/-- A double occurs in items if it occurs in one of them. -/
theorem mem_doublesOfItems {x : Double.Finite} {items : List Json} :
    x ∈ doublesOfItems items ↔ ∃ item ∈ items, x ∈ item.doubles := by
  induction items with
  | nil => simp [doublesOfItems]
  | cons item rest ih =>
    rw [doublesOfItems, List.mem_append, ih]
    simp

/-- A double occurs in members if it occurs in the value of one of them. -/
theorem mem_doublesOfMembers {x : Double.Finite} {members : List (String × Json)} :
    x ∈ doublesOfMembers members ↔ ∃ member ∈ members, x ∈ member.2.doubles := by
  induction members with
  | nil => simp [doublesOfMembers]
  | cons member rest ih =>
    obtain ⟨key, value⟩ := member
    rw [doublesOfMembers, List.mem_append, ih]
    simp

/-- Members nest no deeper than a limit if the value of each of them does not. -/
theorem depthOfMembers_le_iff {members : List (String × Json)} {limit : Nat} :
    depthOfMembers members ≤ limit ↔ ∀ member ∈ members, member.2.depth ≤ limit := by
  induction members with
  | nil => simp [depthOfMembers]
  | cons member rest ih =>
    obtain ⟨key, value⟩ := member
    rw [depthOfMembers, Nat.max_le, ih, List.forall_mem_cons]

end Json

/-- A JSON value that a property can hold. -/
structure PropertyValue where
  /-- The value. -/
  json : Json
  /-- Its objects list their members by key. -/
  ordered : json.Ordered

end CommandGraph
