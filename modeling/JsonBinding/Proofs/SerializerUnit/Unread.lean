import JsonBinding.Proofs.Program.Executions
import JsonBinding.Proofs.Program.Resemblance
import JsonBinding.Proofs.Reflection.Document
import JsonBinding.Proofs.SerializerUnit.Faithful

/-!
# What a unit does not look at

* `Stmt.runAll_generic`: a block that leaves nothing to the generic writer runs alike with any.
* `leaves_of_fully`: a unit that is fully supported leaves nothing to it.
* **`reads_exposed`**: what a fully supported unit writes depends neither on the generic writer nor
  on members of instances that no property of their class reads.
* `Sharing.shared_member`: a member of an instance that another property reads as a map shows.
-/

namespace JsonBinding

open Writing

attribute [local simp] List.filterMap_cons

/-! ## Blocks without leaves -/

namespace Stmt

variable {call : ClassName → Json → Writing Unit} (g g' : Json → TypeRef → Writing Unit)
  {root : Json}

mutual

theorem run_generic {ls : Locals} (st : Stmt) (h : (all st).filterMap unhandled? = []) :
    run ⟨call, g⟩ root st ls = run ⟨call, g'⟩ root st ls := by
  match st with
  | .beginObject | .endObject | .beginArray | .endArray | .writeKey _ | .writeNull
  | .writeDynamicKey _ | .writeScalar _ _ | .writeDate _ _ | .bind _ _ | .callObject _ _ => rfl
  | .ifNotNull e yes no | .ifPresent e n yes no =>
    obtain ⟨hyes, hno⟩ : leaves yes = [] ∧ leaves no = [] := by simpa using h
    simp only [run, runAll_generic yes hyes, runAll_generic no hno]
  | .forEachElement e n body | .forEachEntry e k n body =>
    have hbody : leaves body = [] := by simpa using h
    simp only [run, runAll_generic body hbody]
  | .writeUnhandled e t => simp at h

theorem runAll_generic {ls : Locals} (body : List Stmt) (h : leaves body = []) :
    runAll ⟨call, g⟩ root body ls = runAll ⟨call, g'⟩ root body ls := by
  match body with
  | [] => rfl
  | st :: rest =>
    rw [leaves, gather_cons, List.append_eq_nil_iff] at h
    simp only [runAll, run_generic st h.1, runAll_generic rest h.2]

end

end Stmt

namespace Schema

variable {s : Schema} {memo : Memo} {root : TypeRef} {id : UnitId} {u : SerializerUnit}
  {v v' : Json}

/-! ## Units without leaves -/

theorem leaves_of_fully (hr : s.Reached memo) (hu : (s.unit root id memo).1 = .ok (some u))
    (hs : u.support = .fully) : Stmt.leaves u.program.entry = [] ∧
      ∀ f ∈ u.program.functions, Stmt.leaves f.body = [] := by
  obtain ⟨p, hp, rfl⟩ := unit_eq_some hr hu
  have hcount : p.unhandledCount = 0 := Nat.eq_zero_of_not_pos fun hpos =>
    ((hr.exact_resolve root).fully.mp hs).2 (hp.unhandledCount_pos_iff.mp hpos)
  rw [Program.unhandledCount, leaves_statements, List.length_eq_zero_iff, List.append_eq_nil_iff,
    List.flatMap_eq_nil_iff] at hcount
  exact hcount

theorem callWithin_generic (s s' : Schema)
    (hf : ∀ f ∈ u.program.functions, Stmt.leaves f.body = []) (depth : Nat) :
    s'.callWithin u depth = s.callWithin u depth := by
  induction depth with
  | zero => rfl
  | succ depth ih =>
    funext k x
    rw [callWithin, callWithin, ih]
    cases h : u.program.function? k with
    | none => rfl
    | some f =>
      dsimp only
      rw [Stmt.runAll_generic s'.writeUnhandled s.writeUnhandled f.body
        (hf f (List.mem_of_find?_eq_some h))]

theorem run_generic (s s' : Schema) (he : Stmt.leaves u.program.entry = [])
    (hf : ∀ f ∈ u.program.functions, Stmt.leaves f.body = []) : s'.run u v = s.run u v := by
  rw [run, run, callWithin_generic s s' hf,
    Stmt.runAll_generic s'.writeUnhandled s.writeUnhandled u.program.entry he]

/-- **A unit that is fully supported reads nothing but what the accessors expose.** Whatever schema
the generic writer goes by, the unit does the same; and it makes the same document of values that
resemble each other, or fails for both. -/
theorem reads_exposed (hr : s.Reached memo) (hu : (s.unit root id memo).1 = .ok (some u))
    (hs : u.support = .fully) :
    (∀ (s' : Schema) (v : Json), s'.run u v = s.run u v) ∧
    ∀ v v', s.Resembles root v v' →
      ((s.run u v {}).1.isOk ↔ (s.run u v' {}).1.isOk) ∧
      ∀ text, (s.run u v).written.1 = .complete text ↔ (s.run u v').written.1 = .complete text := by
  obtain ⟨he, hf⟩ := leaves_of_fully hr hu hs
  obtain ⟨rfl, hp⟩ := programCode_of_unit hr hu
  refine ⟨fun s' v => run_generic s s' he hf, fun v v' h => ?_⟩
  have halike := Resembles.run hp h
  exact ⟨halike.outcome.1, halike.complete⟩

/-! ## A member that is two properties -/

namespace Sharing

/-- A class with one number. -/
def part : ClassInfo where
  name := ⟨"com.acme.Part"⟩
  fields := [{ name := "b", type := .prim .int, visibility := .anywhere }]

/-- Maps from strings to numbers. -/
abbrev counts : TypeRef :=
  .app ⟨"java.util.Map"⟩ [.cls ⟨"java.lang.String"⟩, .cls ⟨"java.lang.Integer"⟩]

/-- A class with a getter of the name of a field. -/
def holder : ClassInfo where
  name := ⟨"com.acme.Holder"⟩
  methods := [{ name := "getX", result := counts }]
  fields := [{ name := "getX", type := .cls part.name, visibility := .anywhere }]

end Sharing

/-- A schema in which one member of an instance is read as two properties. -/
def sharing : Schema := {
  index := { classes := [Sharing.holder, Sharing.part], nodup_names := by decide } }

namespace Sharing

theorem class?_holder : sharing.index.class? holder.name = some holder := rfl

theorem class?_part : sharing.index.class? part.name = some part := rfl

theorem variant?_holder : sharing.variant? (.cls holder.name) = some .object :=
  variant?_of_own (by simp [holder, ClassName.isPlatform]) rfl

theorem variant?_part : sharing.variant? (.cls part.name) = some .object :=
  variant?_of_own (by simp [part, ClassName.isPlatform]) rfl

theorem impossibility?_holder : (sharing.index.inspect holder).impossibility? = none := by cbv

theorem impossibility?_part : (sharing.index.inspect part).impossibility? = none := by cbv

theorem properties_holder : sharing.properties (sharing.index.inspect holder) = [
    ⟨"getX", "getX", false, .cls part.name, .field "getX", []⟩,
    ⟨"x", "x", false, counts, .getter "getX", []⟩] := by
  cbv

theorem properties_part : sharing.properties (sharing.index.inspect part) =
    [⟨"b", "b", false, .prim .int, .field "b", []⟩] := by
  cbv

theorem not_blocked_part : ¬ sharing.Blocked (.cls part.name) := by
  refine not_blocked_of_properties variant?_part class?_part impossibility?_part ?_
  rw [properties_part]
  exact List.forall_mem_singleton.mpr (not_blocked_of_primitive rfl)

theorem not_blocked_counts : ¬ sharing.Blocked counts := by
  have hkey : sharing.isWritableKey (.cls ⟨"java.lang.String"⟩) = true := by cbv
  exact not_blocked_of_map rfl rfl hkey rfl (not_blocked_of_leaf (v := .boxed) rfl (by decide))

theorem not_blocked_of_property {n : ClassName} {c : ClassInfo} {p : Property}
    (hc : sharing.index.class? n = some c) (hp : p ∈ sharing.properties (sharing.index.inspect c)) :
    ¬ sharing.Blocked p.type := by
  have hmem := Index.mem_of_class? hc
  simp only [sharing, List.mem_cons, List.not_mem_nil, or_false] at hmem
  rcases hmem with rfl | rfl
  · rw [properties_holder] at hp
    simp only [List.mem_cons, List.not_mem_nil, or_false] at hp
    rcases hp with rfl | rfl
    · exact not_blocked_part
    · exact not_blocked_counts
  · rw [properties_part, List.mem_singleton] at hp
    subst hp
    exact not_blocked_of_primitive rfl

theorem not_defers {t : TypeRef} {p : Property} : ¬ sharing.Defers t p :=
  fun ⟨⟨_, _, _, _, hc, hp⟩, _, hb⟩ => not_blocked_of_property hc hp hb

theorem formOf_holder : sharing.formOf (.cls holder.name) = some .object :=
  formOf_eq_some_iff.mpr ⟨not_blocked_of_properties variant?_holder class?_holder
    impossibility?_holder fun _ => not_blocked_of_property class?_holder, variant?_holder⟩

theorem enumsApart : sharing.EnumsApart := enumsApart_of_classes (by decide)

theorem exists_unit : ∃ u,
    (sharing.unit (.cls holder.name) ⟨"HolderSerializer"⟩ {}).1 = .ok (some u) ∧
      u.support = .fully := by
  have hb := not_blocked_of_formOf formOf_holder
  have hdated : sharing.Dated :=
    dated_of_hasDates fun a ha => by simp [Index.Bears, sharing, holder, part] at ha
  obtain ⟨p, -, hu⟩ := unit_of_dated hdated .start hb ⟨"HolderSerializer"⟩
  refine ⟨_, hu, (Reached.start.exact_resolve _).fully.mpr ⟨hb, ?_⟩⟩
  rintro ⟨_, _, _, hd⟩
  exact not_defers hd

/-! ### What is written -/

variable {a? : Option AnnotationSet}

/-- A holder. -/
def holding (x : Json) : Json := .obj [("getX", x)]

/-- A part. -/
def piece : Json := .obj [("b", .num (.int 1))]

/-- The part with a member that its class does not read. -/
def marked : Json := .obj [("b", .num (.int 1)), ("c", .num (.int 2))]

theorem document_number (n : Number) :
    sharing.document (.num n) (some (.cls ⟨"java.lang.Integer"⟩)) a? = .ok (.num n) := by
  have hkind : (TypeRef.cls ⟨"java.lang.Integer"⟩).kind = .boxed := by
    rw [TypeRef.kind, if_pos (by decide)]
  rw [document_eq rfl, hkind]
  rfl

theorem document_part {ms : Members} {n : Number} (hb : Json.lookup ms "b" = some (.num n)) :
    sharing.document (.obj ms) (some (.cls part.name)) a? = .ok (.obj [("b", .num n)]) := by
  have hkind : (TypeRef.cls part.name).kind = .plainClass :=
    kind_plainClass (by decide) (by decide)
  have hread : Host.property (.obj ms) (.field "b") = .ok (.num n) := by
    show Except.ok _ = _
    rw [hb]
    rfl
  have hint : sharing.document (.num n) (some (.prim .int)) (some []) = .ok (.num n) := by
    rw [document_eq rfl]
    rfl
  rw [document_instance rfl hkind (by decide) (by decide) class?_part (by decide) (by cbv) (by cbv),
    properties_part]
  simp only [assemble]
  rw [membersOf_eq, hread]
  simp [bind, Except.bind, isAbsent, Json.isNull, TypeRef.kind, Except.map, hint]

theorem document_counts {ms : Members} (h : ∀ m ∈ ms, ∃ n, m.2 = .num n) :
    sharing.document (.obj ms) (some counts) a? = .ok (.obj ms) := by
  have hentries : assemble ms (fun m _ => (sharing.document m.2 (some (.cls ⟨"java.lang.Integer"⟩))
      a?).map fun j => [(m.1, j)]) = .ok ms := by
    induction ms with
    | nil => rfl
    | cons m ms ih =>
      obtain ⟨key, w⟩ := m
      obtain ⟨n, rfl⟩ : ∃ n, w = .num n := h (key, w) List.mem_cons_self
      rw [assemble, document_number, ih fun m hm => h m (List.mem_cons_of_mem _ hm)]
      rfl
  rw [document_eq rfl, kind_of_value? rfl]
  show (assemble ms _).map Json.obj = _
  exact congrArg (Except.map Json.obj) hentries

theorem document_holding {ms : Members} {n : Number} (hb : Json.lookup ms "b" = some (.num n))
    (h : ∀ m ∈ ms, ∃ n, m.2 = .num n) :
    sharing.document (holding (.obj ms)) (some (.cls holder.name)) none =
      .ok (.obj [("getX", .obj [("b", .num n)]), ("x", .obj ms)]) := by
  have hkind : (TypeRef.cls holder.name).kind = .plainClass :=
    kind_plainClass (by decide) (by decide)
  have hpart : (TypeRef.cls part.name).kind = .plainClass :=
    kind_plainClass (by decide) (by decide)
  have hfield : Host.property (holding (.obj ms)) (.field "getX") = .ok (.obj ms) := rfl
  have hgetter : Host.property (holding (.obj ms)) (.getter "getX") = .ok (.obj ms) := rfl
  rw [document_instance rfl hkind (by decide) (by decide) class?_holder (by decide) (by cbv)
    (by cbv), properties_holder]
  simp only [assemble]
  rw [membersOf_eq, membersOf_eq, hfield, hgetter]
  simp [bind, Except.bind, isAbsent, Json.isNull, hpart, Except.map, document_part hb,
    document_counts h, kind_of_value? (t := counts) rfl]

theorem written_holding {u : SerializerUnit} (ms : Members) {n : Number}
    (hu : (sharing.unit (.cls holder.name) ⟨"HolderSerializer"⟩ {}).1 = .ok (some u))
    (hb : Json.lookup ms "b" = some (.num n)) (h : ∀ m ∈ ms, ∃ n, m.2 = .num n) :
    (sharing.run u (holding (.obj ms))).written.1 =
      .complete (Json.obj [("getX", .obj [("b", .num n)]), ("x", .obj ms)]).text := by
  have halike := alike_unit enumsApart .start hu (fun _ _ _ hd => absurd hd not_defers)
    (v := holding (.obj ms)) rfl
  rw [halike.complete, written_complete_iff, document_holding hb h]
  rfl

theorem formOf_part : sharing.formOf (.cls part.name) = some .object :=
  formOf_eq_some_iff.mpr ⟨not_blocked_part, variant?_part⟩

theorem exists_holder {u : SerializerUnit}
    (hu : (sharing.unit (.cls holder.name) ⟨"HolderSerializer"⟩ {}).1 = .ok (some u)) :
    ∃ f n rest, u.program.function? holder.name = some f ∧
      f.body = .beginObject :: .bind n (.field .root "getX") ::
        .ifNotNull (.var n) [.writeKey "getX", .callObject part.name (.var n)] [] :: rest := by
  obtain ⟨-, hp⟩ := programCode_of_unit .start hu
  obtain ⟨-, f, hf, hname⟩ := hp.object_function .refl variant?_holder
  obtain ⟨f, hfind, hmem⟩ := function?_of_mem (List.mem_map.mpr ⟨f, hf, hname⟩)
  have hname : f.name = holder.name := by simpa using List.find?_some hfind
  obtain ⟨n, m, hcode⟩ := hp.function hmem
  refine ⟨f, n, ?_⟩
  cases hcode with
  | narrowed hc _ hsome _ =>
    cases hname
    cases class?_holder.symm.trans hc
    have hown : (sharing.index.inspect holder).concrete? = none := by cbv
    cases hown.symm.trans hsome
  | own hc _ _ hw =>
    cases hname
    cases class?_holder.symm.trans hc
    rw [properties_holder] at hw
    cases hw with
    | cons hfirst _ =>
      cases hfirst with
      | primitive h => cases h
      | nillable _ h => cases h
      | present _ _ h =>
        cases h with
        | optional hf => cases formOf_part.symm.trans hf
        | unhandled hf => cases formOf_part.symm.trans hf
        | handled hf _ hc =>
          cases formOf_part.symm.trans hf
          cases hc
          exact ⟨_, hfind, rfl⟩

theorem executes_part {u : SerializerUnit}
    (hu : (sharing.unit (.cls holder.name) ⟨"HolderSerializer"⟩ {}).1 = .ok (some u)) :
    ∃ depth before, sharing.Executes u (holding piece) depth ⟨part.name, piece, before⟩ := by
  obtain ⟨f, n, rest, hf, hbody⟩ := exists_holder hu
  have hroot := (programCode_of_unit .start hu).2.executes_root formOf_holder (holding piece)
  have hcomes : ∀ around, ∃ before,
      Stmt.Comes around (holding piece) ⟨part.name, piece, before⟩ f.body [] {} := by
    intro around
    rw [hbody]
    exact ⟨_, .later rfl (.later rfl (.notNull Expr.eval_var rfl
      (.later rfl (.call Expr.eval_var))))⟩
  obtain ⟨before, hcomes⟩ := hcomes _
  exact ⟨_, before, .nested hroot hf hcomes⟩

/-- A holder of the part with a member that its class does not read. -/
def labelled : Json := .obj [("getX", piece), ("label", .str "old")]

theorem reads_exposed_holder : sharing.Reached {} ∧
    ∃ u, (sharing.unit (.cls holder.name) ⟨"HolderSerializer"⟩ {}).1 = .ok (some u) ∧
      u.support = .fully ∧ sharing.Resembles (.cls holder.name) (holding piece) labelled ∧
      tree.run u labelled = sharing.run u labelled ∧
      (sharing.run u labelled).written.1 =
        .complete "\x7b\"getX\":\x7b\"b\":1\x7d,\"x\":\x7b\"b\":1\x7d\x7d" := by
  obtain ⟨u, hu, hs⟩ := exists_unit
  have hlabel : sharing.Resembles (.cls holder.name) (holding piece) labelled := by
    refine .of_unread formOf_holder class?_holder fun name hname => ?_
    rw [properties_holder] at hname
    obtain rfl | rfl : name = Host.typeMarker ∨ name = "getX" := by simpa [eq_comm] using hname
    · rfl
    · rfl
  obtain ⟨hgeneric, hsame⟩ := reads_exposed .start hu hs
  refine ⟨.start, u, hu, hs, hlabel, hgeneric _ _, ?_⟩
  rw [← (hsame _ _ hlabel).2]
  exact written_holding [("b", .num (.int 1))] hu rfl (by simp)

/-- A member that the function of a class does not read shows where another property of the holder
reads the same instance as a map. -/
theorem shared_member : ∃ u,
    (sharing.unit (.cls holder.name) ⟨"HolderSerializer"⟩ {}).1 = .ok (some u) ∧
    u.support = .fully ∧
    (∃ depth before, sharing.Executes u (holding piece) depth ⟨part.name, piece, before⟩) ∧
    (∀ p ∈ sharing.properties (sharing.index.inspect part), p.accessor ≠ .getter "c" ∧
      p.accessor ≠ .field "c") ∧
    (sharing.run u (holding piece)).written.1 =
      .complete "\x7b\"getX\":\x7b\"b\":1\x7d,\"x\":\x7b\"b\":1\x7d\x7d" ∧
    (sharing.run u (holding marked)).written.1 =
      .complete "\x7b\"getX\":\x7b\"b\":1\x7d,\"x\":\x7b\"b\":1,\"c\":2\x7d\x7d" := by
  obtain ⟨u, hu, hs⟩ := exists_unit
  refine ⟨u, hu, hs, executes_part hu, ?_, ?_, ?_⟩
  · rw [properties_part]
    simp
  · exact written_holding [("b", .num (.int 1))] hu rfl (by simp)
  · exact written_holding [("b", .num (.int 1)), ("c", .num (.int 2))] hu rfl (by simp)

end Sharing

end Schema

end JsonBinding
