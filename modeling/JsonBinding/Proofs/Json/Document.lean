import JsonBinding.Json.Writer

/-!
# Values as documents

A writer at which a value may begin takes all events of a value and has then its text.

* `Writer.Ready`, `Writer.Inside`: writers at which a value, an item or a member may begin.
* `Writer.leadItems`, `Writer.leadMembers`: the text of items and members behind some others.
* **`Writer.writeAll_events`**: what the events of a value write.
* `Writer.Ready.startArray`, `Writer.Ready.startObject`, `Writer.Inside.items`,
  `Writer.Inside.members`, `Writer.Inside.key`: where a writer is when it has taken some events.
-/

namespace JsonBinding.Json

theorem itemEvents_append (xs ys : List Json) :
    itemEvents (xs ++ ys) = itemEvents xs ++ itemEvents ys := by
  induction xs with
  | nil => rfl
  | cons v xs ih => rw [List.cons_append, itemEvents, itemEvents, ih, List.append_assoc]

theorem memberEvents_append (xs ys : Members) :
    memberEvents (xs ++ ys) = memberEvents xs ++ memberEvents ys := by
  induction xs with
  | nil => rfl
  | cons m xs ih =>
    rw [List.cons_append, memberEvents, memberEvents, ih, List.cons_append, List.append_assoc]

namespace Writer

variable {w w' : Writer} {scope : Scope} {n : Nat} {rest : List Frame}

/-- Whether a value may begin. -/
def Ready (w : Writer) : Prop := ∃ w', w.beforeValue = .ok w'

/-- Whether the innermost open container is of a kind, with no key that waits for its value. -/
def Inside (scope : Scope) (w : Writer) : Prop :=
  w.afterKey = false ∧ ∃ n rest, w.frames = ⟨scope, n⟩ :: rest

theorem writeAll_append {es fs : List Event} (h : w.writeAll es = (w', none)) :
    w.writeAll (es ++ fs) = w'.writeAll fs := by
  induction es generalizing w with
  | nil =>
    cases h
    rfl
  | cons e es ih =>
    rw [writeAll] at h
    rw [List.cons_append, writeAll]
    rcases hw : w.write e with ⟨w₁, _ | m⟩
    · rw [hw] at h
      exact ih h
    · rw [hw] at h
      cases h

theorem writeAll_cons {e : Event} {es : List Event} (h : w.write e = (w', none)) :
    w.writeAll (e :: es) = w'.writeAll es := by
  rw [writeAll, h]

theorem writeAll_singleton {e : Event} (h : w.write e = (w', none)) :
    w.writeAll [e] = (w', none) := writeAll_cons h

/-- The writer with more text and other open containers. -/
def opened (w : Writer) (s : String) (frames : List Frame) : Writer :=
  { w with text := w.text ++ s, frames }

theorem opened_nil : w.opened "" w.frames = w := by
  simp [opened]

theorem opened_opened (s s' : String) (frames frames' : List Frame) :
    (w.opened s frames).opened s' frames' = w.opened (s ++ s') frames' := by
  simp [opened, String.append_assoc]

/-! ## Before a value -/

theorem beforeValue_afterKey (h : w.afterKey = true) :
    w.beforeValue = .ok { w with afterKey := false } := by
  rw [beforeValue, if_pos h]

theorem beforeValue_array (hk : w.afterKey = false) (hf : w.frames = ⟨.array, n⟩ :: rest) :
    w.beforeValue = .ok { w.put (separator n) with frames := ⟨.array, n + 1⟩ :: rest } := by
  rw [beforeValue, hk, hf]
  rfl

theorem afterKey_of_beforeValue (h : w.beforeValue = .ok w') : w'.afterKey = false := by
  unfold beforeValue at h
  split at h
  · cases h
    rfl
  · rename_i hk
    have hk := Bool.eq_false_iff.mpr hk
    split at h
    · cases h
      exact hk
    · cases h
    · split at h <;> cases h
      exact hk

/-! ## The events of a value -/

/-- The text of some items behind `n` others. -/
def leadItems (n : Nat) (items : List Json) : String :=
  match items with
  | [] => ""
  | _ :: _ => separator n ++ itemsText items

/-- The text of some members behind `n` others. -/
def leadMembers (n : Nat) (members : Members) : String :=
  match members with
  | [] => ""
  | _ :: _ => separator n ++ membersText members

theorem leadItems_cons (n : Nat) (v : Json) (items : List Json) :
    leadItems n (v :: items) = separator n ++ v.text ++ leadItems (n + 1) items := by
  cases items with
  | nil => simp [leadItems, itemsText]
  | cons w rest => simp [leadItems, itemsText, separator, String.append_assoc]

theorem leadMembers_cons (n : Nat) (k : String) (v : Json) (members : Members) :
    leadMembers n ((k, v) :: members) =
      separator n ++ quoted k ++ ":" ++ v.text ++ leadMembers (n + 1) members := by
  cases members with
  | nil => simp [leadMembers, membersText, String.append_assoc]
  | cons m rest =>
    obtain ⟨k', v'⟩ := m
    simp [leadMembers, membersText, separator, String.append_assoc]

theorem leadItems_zero (items : List Json) : leadItems 0 items = itemsText items := by
  cases items with
  | nil => rfl
  | cons => simp [leadItems, separator]

theorem leadMembers_zero (members : Members) : leadMembers 0 members = membersText members := by
  cases members with
  | nil => rfl
  | cons => simp [leadMembers, separator]

theorem writeAll_scalar {e : Event} {s : String} (h : w.beforeValue = .ok w')
    (he : w.write e = w.scalar s) : w.writeAll [e] = (w'.put s, none) := by
  refine writeAll_singleton ?_
  rw [he, scalar, h]

theorem write_startArray (h : w.beforeValue = .ok w') :
    w.write .startArray = (w'.opened "[" (⟨.array, 0⟩ :: w'.frames), none) := by
  rw [write, start, h]
  rfl

theorem write_startObject (h : w.beforeValue = .ok w') :
    w.write .startObject = (w'.opened "\x7b" (⟨.object, 0⟩ :: w'.frames), none) := by
  rw [write, start, h]
  rfl

theorem close_opened {token t : String} (hk : w.afterKey = false) :
    (w.opened token (⟨scope, n⟩ :: w.frames)).close scope t = (w.put (token ++ t), none) := by
  simp [close, opened, put, hk, String.append_assoc]

theorem write_key (hk : w.afterKey = false) (hf : w.frames = ⟨.object, n⟩ :: rest)
    (name : String) : w.write (.key name) =
      ({ w.put (separator n ++ quoted name ++ ":") with
          frames := ⟨.object, n + 1⟩ :: rest, afterKey := true }, none) := by
  rw [write, key, hk, hf]
  rfl

mutual

/-- **What the events of a value write** is its text, wherever a value may begin. -/
theorem writeAll_events {w w' : Writer} (h : w.beforeValue = .ok w') (v : Json) :
    w.writeAll v.events = (w'.put v.text, none) := by
  match v with
  | .null | .num _ | .str _ => exact writeAll_scalar h rfl
  | .bool b => cases b <;> exact writeAll_scalar h rfl
  | .arr items =>
    have hk := afterKey_of_beforeValue h
    have hk' : (w'.opened "[" (⟨.array, 0⟩ :: w'.frames)).afterKey = false := hk
    rw [events, writeAll_cons (write_startArray h),
      writeAll_append (writeAll_itemEvents hk' rfl items), leadItems_zero, opened_opened]
    refine writeAll_singleton ?_
    rw [write, close_opened hk, Json.text]
  | .obj members =>
    have hk := afterKey_of_beforeValue h
    have hk' : (w'.opened "\x7b" (⟨.object, 0⟩ :: w'.frames)).afterKey = false := hk
    rw [events, writeAll_cons (write_startObject h),
      writeAll_append (writeAll_memberEvents hk' rfl members), leadMembers_zero, opened_opened]
    refine writeAll_singleton ?_
    rw [write, close_opened hk, Json.text]

theorem writeAll_itemEvents {w : Writer} {n : Nat} {rest : List Frame} (hk : w.afterKey = false)
    (hf : w.frames = ⟨.array, n⟩ :: rest) (items : List Json) :
    w.writeAll (itemEvents items) =
      (w.opened (leadItems n items) (⟨.array, n + items.length⟩ :: rest), none) := by
  match items with
  | [] => rw [itemEvents, writeAll, leadItems, List.length_nil, Nat.add_zero, ← hf, opened_nil]
  | v :: items =>
    rw [itemEvents, writeAll_append (writeAll_events (beforeValue_array hk hf) v)]
    rw [writeAll_itemEvents (by exact hk) rfl items, leadItems_cons]
    simp [opened, put, String.append_assoc, Nat.add_assoc, Nat.add_comm 1]

theorem writeAll_memberEvents {w : Writer} {n : Nat} {rest : List Frame} (hk : w.afterKey = false)
    (hf : w.frames = ⟨.object, n⟩ :: rest) (members : Members) :
    w.writeAll (memberEvents members) =
      (w.opened (leadMembers n members) (⟨.object, n + members.length⟩ :: rest), none) := by
  match members with
  | [] => rw [memberEvents, writeAll, leadMembers, List.length_nil, Nat.add_zero, ← hf, opened_nil]
  | (k, v) :: members =>
    rw [memberEvents, writeAll_cons (write_key hk hf k),
      writeAll_append (writeAll_events (beforeValue_afterKey rfl) v),
      writeAll_memberEvents rfl rfl members, leadMembers_cons]
    simp [opened, put, hk, String.append_assoc, Nat.add_assoc, Nat.add_comm 1]

end

/-! ## Where a writer is afterwards -/

theorem Inside.ready (h : w.Inside .array) : w.Ready := by
  obtain ⟨hk, n, rest, hf⟩ := h
  exact ⟨_, beforeValue_array hk hf⟩

theorem Ready.startArray (h : w.Ready) :
    ∃ w', w.write .startArray = (w', none) ∧ w'.Inside .array := by
  obtain ⟨w', h⟩ := h
  have hk := afterKey_of_beforeValue h
  exact ⟨_, write_startArray h, hk, 0, _, rfl⟩

theorem Ready.startObject (h : w.Ready) :
    ∃ w', w.write .startObject = (w', none) ∧ w'.Inside .object := by
  obtain ⟨w', h⟩ := h
  have hk := afterKey_of_beforeValue h
  exact ⟨_, write_startObject h, hk, 0, _, rfl⟩

theorem Inside.close (h : w.Inside scope) (token : String) :
    ∃ w', w.close scope token = (w', none) := by
  obtain ⟨hk, n, rest, hf⟩ := h
  exact ⟨_, by rw [Writer.close, hk, hf]; exact if_pos rfl⟩

theorem Inside.items (h : w.Inside .array) (items : List Json) :
    ∃ w', w.writeAll (itemEvents items) = (w', none) ∧ w'.Inside .array := by
  obtain ⟨hk, n, rest, hf⟩ := h
  exact ⟨_, writeAll_itemEvents hk hf items, hk, _, _, rfl⟩

theorem Inside.members (h : w.Inside .object) (members : Members) :
    ∃ w', w.writeAll (memberEvents members) = (w', none) ∧ w'.Inside .object := by
  obtain ⟨hk, n, rest, hf⟩ := h
  exact ⟨_, writeAll_memberEvents hk hf members, hk, _, _, rfl⟩

theorem Inside.key (h : w.Inside .object) (name : String) :
    ∃ w', w.write (.key name) = (w', none) ∧ w'.Ready := by
  obtain ⟨hk, n, rest, hf⟩ := h
  exact ⟨_, write_key hk hf name, _, beforeValue_afterKey rfl⟩

end Writer

end JsonBinding.Json
