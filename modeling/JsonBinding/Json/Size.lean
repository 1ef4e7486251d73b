import JsonBinding.Json.Basic

/-!
# The size of JSON values

The size of a value is the number of containers in it. The parts of a container are smaller than the
container.
-/

namespace JsonBinding.Json

mutual

/-- How many arrays and objects a value holds, itself included. -/
def size : Json → Nat
  | .arr items => sizeItems items + 1
  | .obj members => sizeMembers members + 1
  | .null | .bool _ | .num _ | .str _ => 0

/-- The size of some values. -/
def sizeItems : List Json → Nat
  | [] => 0
  | v :: rest => size v + sizeItems rest

/-- The size of the values of some members. -/
def sizeMembers : Members → Nat
  | [] => 0
  | (_, v) :: rest => size v + sizeMembers rest

end

theorem size_le_sizeItems {v : Json} {items : List Json} (h : v ∈ items) :
    v.size ≤ sizeItems items := by
  induction items with
  | nil => cases h
  | cons w rest ih =>
    rw [sizeItems]
    rcases List.mem_cons.mp h with rfl | h
    · exact Nat.le_add_right _ _
    · exact Nat.le_trans (ih h) (Nat.le_add_left _ _)

theorem size_le_sizeMembers {m : String × Json} {members : Members} (h : m ∈ members) :
    m.2.size ≤ sizeMembers members := by
  induction members with
  | nil => cases h
  | cons n rest ih =>
    rw [sizeMembers]
    rcases List.mem_cons.mp h with rfl | h
    · exact Nat.le_add_right _ _
    · exact Nat.le_trans (ih h) (Nat.le_add_left _ _)

theorem size_item_lt {v : Json} {items : List Json} (h : v ∈ items) : v.size < (arr items).size :=
  Nat.lt_succ_of_le (size_le_sizeItems h)

theorem size_member_lt {m : String × Json} {members : Members} (h : m ∈ members) :
    m.2.size < (obj members).size :=
  Nat.lt_succ_of_le (size_le_sizeMembers h)

/-- The member of an object under a key is smaller than the object, as null is when there is none. -/
theorem size_lookup_lt (members : Members) (key : String) :
    ((lookup members key).getD .null).size < (obj members).size := by
  cases h : lookup members key with
  | none => exact Nat.succ_pos _
  | some v => exact size_member_lt (m := (key, v)) (mem_of_lookup h)

end JsonBinding.Json
