import JsonBinding.Proofs.Bean
import JsonBinding.Proofs.Inspection.Discovery
import JsonBinding.Proofs.Reflection.Keys

/-!
# Members named like properties

The result of a getter is written under the name of its property when its instance is written as one
of a class, and when the instance is written by its shape, under the name that the getter gives to
the member.

* `Inspection.name_of_getter`: a property with a getter has the name that its getter asks for.
* **`Schema.memberKey_eq_iff`**: when both names are the same.
* `Schema.Row.rows`: a class with getters of both kinds.
-/

namespace JsonBinding

/-! ## Names of properties -/

/-- A property with a getter has the name that its getter asks for. -/
theorem Inspection.name_of_getter {ix : Index} {c : ClassInfo} {settings : Settings} {p : Property}
    {m : Method} {n : String} (hp : p ∈ (ix.inspect c).properties settings)
    (ha : p.accessor = .getter m.name) (h : Bean.property? m = some n) : p.name = n := by
  have ht : ∃ t, ix.target c = .ok t := by
    cases ht : ix.target c with
    | ok t => exact ⟨t, rfl⟩
    | error i =>
      have hp := mem_registered_of_mem_properties hp
      rw [Index.inspect, ht] at hp
      simp [registered] at hp
  obtain ⟨t, ht⟩ := ht
  rcases List.mem_append.mp (mem_registered_of_mem_properties hp) with hp | hp
  · obtain ⟨g, hg, rfl⟩ := List.mem_map.mp hp
    have hgetter := ((discovers_of_target ht).backed g hg).1
    have hn : Bean.property? g.getter = some g.name := by simpa using List.find?_some hgetter
    exact Bean.property?_unique hn h (Accessor.getter.inj ha)
  · obtain ⟨f, -, rfl⟩ := List.mem_map.mp hp
    cases ha

/-! ## Members of values that are written by their shape -/

namespace Schema

/-- **When a member is written by its shape like the property of its getter.** It gets the name of
the property just when no underscore follows the word in the name of the getter; else it keeps the
name of the getter, of which the property has the part behind the word. So it is with every instance
that holds the result of the getter, whatever class has a property with that getter. -/
theorem memberKey_eq_iff {m : Method} {n : String} (h : Bean.property? m = some n) :
    (Bean.memberKey m.name = n ↔ ¬ Bean.Underscored m.name) ∧
    (Bean.Underscored m.name → Bean.memberKey m.name = m.name ∧ Bean.Stem m.name n.toList) ∧
    ∀ (s : Schema) (c : ClassInfo) (p : Property) (members : Members) (v : Json),
      p ∈ s.properties (s.index.inspect c) → p.accessor = .getter m.name →
      Json.lookup members Host.optionalMarker = none → (m.name, v) ∈ s.shown members →
      ∃ named, s.plain (.obj members) = .obj named ∧
        (¬ Bean.Underscored m.name → (p.name, s.plain v) ∈ named) ∧
        (Bean.Underscored m.name → (m.name, s.plain v) ∈ named) := by
  have hunder : Bean.Underscored m.name → Bean.memberKey m.name = m.name ∧
      Bean.Stem m.name n.toList := fun hu =>
    (Bean.memberKey_cases h).elim (fun hn => absurd hu hn.1) (·.2)
  have hiff : Bean.memberKey m.name = n ↔ ¬ Bean.Underscored m.name := by
    refine ⟨fun he hu => ?_, fun hu => ?_⟩
    · obtain ⟨hkey, hstem⟩ := hunder hu
      exact hstem.ne (hkey.symm.trans he)
    · exact (Bean.memberKey_cases h).elim (·.2) fun hn => absurd hn.1 hu
  refine ⟨hiff, hunder, fun s c p members v hp ha ho hv => ?_⟩
  obtain ⟨named, hplain, hperm⟩ := plain_members (s := s) ho
  have hmem : (Bean.memberKey m.name, s.plain v) ∈ named :=
    hperm.mem_iff.mpr (List.mem_map.mpr ⟨(m.name, v), hv, rfl⟩)
  have hpn := Inspection.name_of_getter hp ha h
  refine ⟨named, hplain, fun hu => ?_, fun hu => ?_⟩
  · rwa [hpn, ← hiff.mpr hu]
  · rwa [← (hunder hu).1]

/-! ## A class with getters of both kinds -/

namespace Row

/-- A getter with a capital behind its word. -/
def getURL : Method := { name := "getURL", result := .cls ⟨"java.lang.String"⟩ }

/-- A getter with an underscore behind its word. -/
def getId : Method := { name := "get_id", result := .prim .int }

/-- A class with both getters. -/
def row : ClassInfo where
  name := ⟨"com.acme.Row"⟩
  methods := [getURL, getId]

/-- The class alone. -/
def rows : Schema where
  index := { classes := [row], nodup_names := by decide }

/-- What the getters of a row return. -/
def members : Members := [("getURL", .str "u"), ("get_id", .num (.int 7))]

/-- The property of a row that is named with capitals. -/
def named : Property := ⟨"URL", "URL", false, getURL.result, .getter "getURL", []⟩

/-- The property of a row that is named with an underscore. -/
def underscored : Property := ⟨"_id", "_id", false, getId.result, .getter "get_id", []⟩

theorem properties_row : rows.properties (rows.index.inspect row) = [named, underscored] := by cbv

/-- A member that is written by its shape like the property of its getter. -/
theorem memberKey_getURL :
    Bean.property? getURL = some "URL" ∧ Bean.memberKey "getURL" = "URL" ∧
    named ∈ rows.properties (rows.index.inspect row) ∧
    ∃ written, rows.plain (.obj members) = .obj written ∧ ("URL", .str "u") ∈ written := by
  have h : Bean.property? getURL = some "URL" := by decide
  have hnamed : named ∈ rows.properties (rows.index.inspect row) := by
    rw [properties_row]
    exact List.mem_cons_self
  obtain ⟨hkey, -, hplain⟩ := memberKey_eq_iff h
  have hstem : Bean.Stem getURL.name ['U', 'R', 'L'] := .inl (by decide)
  have hu : ¬ Bean.Underscored getURL.name := by
    rw [Bean.underscored_iff hstem]
    decide
  obtain ⟨written, hwritten, hmem, -⟩ :=
    hplain rows row named members (.str "u") hnamed rfl rfl (List.mem_filter.mpr ⟨.head _, rfl⟩)
  exact ⟨h, hkey.mpr hu, hnamed, written, hwritten, hmem hu⟩

theorem document_row : rows.document (.obj members) (some (.cls row.name)) none =
    .ok (.obj [("URL", .str "u"), ("_id", .num (.int 7))]) := by
  have htext : rows.document (.str "u") (some getURL.result) (some []) = .ok (.str "u") := by cbv
  have hnumber : rows.document (.num (.int 7)) (some getId.result) (some []) =
      .ok (.num (.int 7)) := by cbv
  have hpresent : isAbsent getURL.result (.str "u") = .ok false ∧
      isAbsent getId.result (.num (.int 7)) = .ok false := by constructor <;> cbv
  rw [document_instance (c := row) rfl (by cbv) (by decide) (by decide) rfl (by decide) (by cbv)
    (by cbv), properties_row]
  simp only [assemble]
  rw [membersOf_eq, membersOf_eq]
  simp [members, named, underscored, Host.property, Host.invoke, Host.member, Json.lookup, bind,
    Except.bind, Except.map, hpresent, htext, hnumber]

theorem plain_row :
    rows.plain (.obj members) = .obj [("URL", .str "u"), ("get_id", .num (.int 7))] := by
  have hURL : Bean.memberKey "getURL" = "URL" := by decide
  have hId : Bean.memberKey "get_id" = "get_id" := by decide
  have hshown : rows.shown members = members := rfl
  refine plain_of_sorted rfl rfl ?_ (by decide)
  rw [hshown]
  simp [members, hURL, hId, plain]

/-- **The result of a getter is written under two keys**: under the name of its property when its
instance is one of a class that the index describes, and under the name of the getter when it is
not. -/
theorem two_keys : Bean.property? getId = some "_id" ∧ Bean.memberKey getId.name = "get_id" ∧
    (rows.reflect (.obj members) (.cls row.name) none).written.1 =
      .complete "\x7b\"URL\":\"u\",\"_id\":7\x7d" ∧
    (rows.reflect (.obj members) (.cls ⟨"com.other.Row"⟩) none).written.1 =
      .complete "\x7b\"URL\":\"u\",\"get_id\":7\x7d" := by
  have hkind : (TypeRef.cls ⟨"com.other.Row"⟩).kind = .plainClass := by cbv
  have hshape : rows.document (.obj members) (some (.cls ⟨"com.other.Row"⟩)) none =
      .ok (rows.plain (.obj members)) := by
    rw [document_eq rfl, hkind]
    rfl
  refine ⟨by decide, by decide, written_complete_iff.mpr ?_, written_complete_iff.mpr ?_⟩
  · rw [document_row]
    exact congrArg some (by decide)
  · rw [hshape, plain_row]
    exact congrArg some (by decide)

end Row

end Schema

end JsonBinding
