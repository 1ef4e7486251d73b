import JsonBinding.Proofs.Index.Signatures
import JsonBinding.Proofs.SerializerUnit.Closed
import JsonBinding.Proofs.SerializerUnit.DeferredDates
import JsonBinding.Proofs.Support.Exactness

/-!
# Signatures in source files

In the source file of a unit, the type of a value that is left to the generic writer is written as a
signature, which is read again when the unit runs.

* `Source.stmt_within`, `Source.block_within`, **`source_within`**: the text of every statement of a
  unit stands in its source file.
* **`Schema.legible_leaf`**: signatures denote the types that a unit leaves to the generic writer.
* **`signatures_read_back`**: the text of such a type denotes it.
-/

namespace JsonBinding

/-! ## Statements in source files -/

/-- The statements inside of a statement. -/
def Stmt.inside : Stmt → List Stmt
  | .ifNotNull _ yes no | .ifPresent _ _ yes no => allOf yes ++ allOf no
  | .forEachElement _ _ body | .forEachEntry _ _ _ body => allOf body
  | _ => []

theorem Stmt.all_eq (st : Stmt) : all st = st :: st.inside := by cases st <;> rfl

namespace Source

/-- The call that leaves a value to the generic writer by a signature. -/
def leaf (e : Expr) (signature : String) : String :=
  line ["ctx . write_unhandled_signature", arguments [expr e, literal signature], "? ;"]

/-- Whether a text stands in another one. -/
def Within (a b : String) : Prop := a.toList <:+: b.toList

variable {a b c token : String} {tokens texts : List String} {p : Program} {st : Stmt}

theorem Within.refl (a : String) : Within a a := List.infix_refl _

theorem Within.trans (h : Within a b) (h' : Within b c) : Within a c := List.IsInfix.trans h h'

theorem Within.left (h : Within a b) (c : String) : Within a (b ++ c) := by
  rw [Within, String.toList_append]
  exact List.infix_append_of_infix_left h

theorem Within.right (h : Within a b) (c : String) : Within a (c ++ b) := by
  rw [Within, String.toList_append]
  exact List.infix_append_of_infix_right h

theorem Within.line (h : Within a token) (ht : token ∈ tokens) : Within a (line tokens) := by
  refine h.trans ?_
  clear h
  rw [Within, Source.line, String.toList_intercalate]
  induction tokens with
  | nil => cases ht
  | cons t rest ih =>
    cases rest with
    | nil =>
      cases List.mem_singleton.mp ht
      rw [List.map_singleton, List.intercalate_singleton]
    | cons t' rest =>
      rw [List.map_cons, List.map_cons, List.intercalate_cons_cons]
      rcases List.mem_cons.mp ht with rfl | ht
      · rw [List.append_assoc]
        exact List.infix_append_left
      · exact List.infix_append_of_infix_right (ih ht)

theorem Within.braced (h : Within a token) (ht : token ∈ tokens) : Within a (braced tokens) :=
  h.line (List.mem_append_left _ (List.mem_cons_of_mem _ ht))

mutual

/-- The text of a statement inside of another one stands in the text of the latter. -/
theorem stmt_within (st' : Stmt) {text : String} (ht : stmt p st' = .ok text)
    (hst : st ∈ Stmt.all st') : ∃ t, stmt p st = .ok t ∧ Within t text := by
  rw [Stmt.all_eq] at hst
  rcases List.mem_cons.mp hst with rfl | hst
  · exact ⟨text, ht, .refl text⟩
  match st' with
  | .ifNotNull e yes no =>
    rw [stmt] at ht
    obtain ⟨present, hyes, ht⟩ := exists_of_bind ht
    rcases List.mem_append.mp hst with hst | hst
    · obtain ⟨t, hst, inner, hi, hw⟩ := block_within yes hyes hst
      refine ⟨t, hst, ?_⟩
      split_ifs at ht
      · cases ht
        exact (hw.braced hi).line (by simp)
      · obtain ⟨absent, -, ht⟩ := exists_of_bind ht
        cases ht
        exact (hw.braced hi).line (by simp)
    · have hno : no.isEmpty = false := by
        cases no with
        | nil => cases hst
        | cons _ _ => rfl
      rw [hno, if_neg Bool.false_ne_true] at ht
      obtain ⟨absent, hno, ht⟩ := exists_of_bind ht
      cases ht
      obtain ⟨t, hst, inner, hi, hw⟩ := block_within no hno hst
      exact ⟨t, hst, (hw.braced hi).line (by simp)⟩
  | .ifPresent e n yes no =>
    rw [stmt] at ht
    obtain ⟨present, hyes, ht⟩ := exists_of_bind ht
    obtain ⟨absent, hno, ht⟩ := exists_of_bind ht
    cases ht
    rcases List.mem_append.mp hst with hst | hst
    · obtain ⟨t, hst, inner, hi, hw⟩ := block_within yes hyes hst
      exact ⟨t, hst, (hw.braced hi).line (by simp)⟩
    · obtain ⟨t, hst, inner, hi, hw⟩ := block_within no hno hst
      exact ⟨t, hst, (hw.braced hi).line (by simp)⟩
  | .forEachElement e n body | .forEachEntry e k n body =>
    rw [stmt] at ht
    obtain ⟨texts, hbody, ht⟩ := exists_of_bind ht
    cases ht
    obtain ⟨t, hst, inner, hi, hw⟩ := block_within body hbody hst
    exact ⟨t, hst, (hw.braced hi).line (by simp)⟩
  | .beginObject | .endObject | .beginArray | .endArray | .writeKey _ | .writeDynamicKey _
  | .writeNull | .writeScalar _ _ | .writeDate _ _ | .bind _ _ | .callObject _ _
  | .writeUnhandled _ _ => cases hst

theorem block_within (body : List Stmt) {texts : List String} (ht : block p body = .ok texts)
    (hst : st ∈ Stmt.allOf body) : ∃ t, stmt p st = .ok t ∧ ∃ text ∈ texts, Within t text := by
  match body with
  | [] => cases hst
  | st' :: rest =>
    rw [block] at ht
    obtain ⟨first, hfirst, ht⟩ := exists_of_bind ht
    obtain ⟨others, hothers, ht⟩ := exists_of_bind ht
    cases ht
    rcases List.mem_append.mp hst with hst | hst
    · obtain ⟨t, hst, hw⟩ := stmt_within st' hfirst hst
      exact ⟨t, hst, first, List.mem_cons_self, hw⟩
    · obtain ⟨t, hst, text, htext, hw⟩ := block_within rest hothers hst
      exact ⟨t, hst, text, List.mem_cons_of_mem _ htext, hw⟩

end

theorem Within.function {name : String} {body : List String} (h : Within a token)
    (ht : token ∈ body) : Within a (function name body) :=
  (h.braced (List.mem_append_left ["Ok (())"] ht)).line (by simp)

theorem exists_function {fs : List ObjectFunction} {f : ObjectFunction}
    (h : (fs.mapM fun f => do
      let name ← callee p f.name
      pure (function name (← block p f.body)) : Except Fault (List String)) = .ok texts)
    (hf : f ∈ fs) : ∃ name body, block p f.body = .ok body ∧ function name body ∈ texts := by
  induction fs generalizing texts with
  | nil => cases hf
  | cons g fs ih =>
    rw [List.mapM_cons] at h
    obtain ⟨first, hfirst, h⟩ := exists_of_bind h
    obtain ⟨others, hothers, h⟩ := exists_of_bind h
    cases h
    rcases List.mem_cons.mp hf with rfl | hf
    · obtain ⟨name, -, hfirst⟩ := exists_of_bind hfirst
      obtain ⟨body, hbody, hfirst⟩ := exists_of_bind hfirst
      cases hfirst
      exact ⟨name, body, hbody, List.mem_cons_self⟩
    · obtain ⟨name, body, hbody, hmem⟩ := ih hothers hf
      exact ⟨name, body, hbody, List.mem_cons_of_mem _ hmem⟩

/-- The text of a source file is made of the blocks of its unit. -/
theorem exists_tokens {u : SerializerUnit} {file : SourceFile} (h : u.source = .ok file) :
    ∃ front tokens entry functions body, file.text = front ++ line tokens ++ "\n" ∧
      block u.program u.program.entry = .ok entry ∧
      (u.program.functions.mapM fun f => do
        let name ← callee u.program f.name
        pure (function name (← block u.program f.body)) : Except Fault (List String)) =
        .ok functions ∧
      "pub " ++ function "serialize" entry ∈ body ∧ braced body ∈ tokens ∧ functions ⊆ tokens := by
  rw [SerializerUnit.source] at h
  obtain ⟨_, -, h⟩ := exists_of_bind h
  obtain ⟨entry, hentry, h⟩ := exists_of_bind h
  obtain ⟨functions, hfunctions, h⟩ := exists_of_bind h
  exact ⟨_, _, entry, functions, _, congrArg SourceFile.text (Except.ok.inj h).symm, hentry,
    hfunctions, .tail _ (.tail _ (.tail _ (.tail _ (.tail _ (.head _))))),
    .tail _ (.tail _ (.head _)), List.subset_append_right _ _⟩

/-- **The text of every statement of a unit stands in its source file.** -/
theorem source_within {u : SerializerUnit} {file : SourceFile} (h : u.source = .ok file)
    (hst : st ∈ u.program.statements) :
    ∃ text, stmt u.program st = .ok text ∧ Within text file.text := by
  obtain ⟨front, tokens, entry, functions, body, htext, hentry, hfunctions, hin, hbody, hsub⟩ :=
    exists_tokens h
  have lift {a token : String} (ha : Within a token) (ht : token ∈ tokens) : Within a file.text :=
    htext ▸ ((ha.line ht).right front).left "\n"
  rcases List.mem_append.mp hst with hst | hst
  · obtain ⟨text, ht, inner, hi, hw⟩ := block_within _ hentry hst
    exact ⟨text, ht, lift (((hw.function hi).right "pub ").braced hin) hbody⟩
  · obtain ⟨f, hf, hst⟩ := List.mem_flatMap.mp hst
    obtain ⟨name, written, hwritten, hmem⟩ := exists_function hfunctions hf
    obtain ⟨text, ht, inner, hi, hw⟩ := block_within _ hwritten hst
    exact ⟨text, ht, lift (hw.function hi) (hsub hmem)⟩

end Source

namespace TypeRef

theorem isOpen_innermost (t : TypeRef) : t.innermost.isOpen = t.isOpen := by
  induction t using innermost.induct with
  | case1 c ih => rw [innermost, isOpen, ih]
  | case2 t ht =>
    cases t with
    | array c => exact absurd rfl (ht c)
    | _ => rfl

end TypeRef

namespace Schema

variable {s : Schema} {root t : TypeRef} {prog : Program}

/-! ## Deferred types -/

/-- Neither a type variable nor a wildcard occurs in what is left to the generic writer. -/
theorem isOpen_of_isDeferrable (h : s.isDeferrable t = true) : t.isOpen = false := by
  cases t with
  | cls n => rfl
  | array c =>
    have h := Bool.and_eq_true_iff.mp h
    rw [TypeRef.isOpen_innermost] at h
    simpa [TypeRef.isOpen] using h.2
  | prim _ | app _ _ | var _ | wildcard => cases h

/-- **Signatures denote the types that a program leaves to the generic writer.** -/
theorem legible_leaf (hix : s.index.Loaded) (h : s.ProgramCode root prog)
    (ht : t ∈ prog.statements.filterMap Stmt.unhandled?) : t.Legible := by
  obtain ⟨f, -, p, ⟨⟨name, c, -, -, hc, hp⟩, hd, -⟩, rfl⟩ := h.mem_leaves_iff.mp ht
  exact hix.legible (Index.mem_of_class? hc) hp (isOpen_of_isDeferrable hd)

/-- **Signatures read back.** The text of a type that a text denotes denotes it too, which is not so
of a type variable. The source file of a unit for an index that is read leaves values to the generic
writer by signatures that denote their declared types, and what is written by a signature is what is
written by the type. -/
theorem signatures_read_back :
    (∀ (text : String) (t : TypeRef), TypeRef.ofText text = .ok t →
      TypeRef.ofText t.text = .ok t) ∧
    (∀ name, TypeRef.ofText (TypeRef.var name).text ≠ .ok (.var name)) ∧
    ∀ {s : Schema} {memo : Memo} {root : TypeRef} {id : UnitId} {u : SerializerUnit},
      s.index.Loaded → s.Reached memo → (s.unit root id memo).1 = .ok (some u) →
      ∃ file, u.source = .ok file ∧ ∀ e t, .writeUnhandled e t ∈ u.program.statements →
        ∃ signature, Source.stmt u.program (.writeUnhandled e t) = .ok (Source.leaf e signature) ∧
          Source.Within (Source.leaf e signature) file.text ∧
          TypeRef.ofText signature = .ok t ∧
          ∀ v, s.writeUnhandledSignature v signature = s.writeUnhandled v t := by
  refine ⟨fun _ t h => TypeRef.ofText_text (TypeRef.legible_ofText h), fun name h => ?_, ?_⟩
  · cases TypeRef.legible_ofText h
  · intro s memo root id u hix hr hu
    obtain ⟨-, hcode⟩ := programCode_of_unit hr hu
    have hp := hcode.closed_program
    obtain ⟨file, hfile⟩ :=
      SerializerUnit.source_eq_ok (SerializerUnit.check_eq_ok hp.nodup hp.callees) hp.entry
        hp.bodies hp.callees_entry fun _ => hp.callees_body
    refine ⟨file, hfile, fun e t hst => ⟨t.text, rfl, ?_⟩⟩
    obtain ⟨text, htext, hw⟩ := Source.source_within hfile hst
    cases htext
    have hlegible := legible_leaf hix hcode (List.mem_filterMap.mpr ⟨_, hst, rfl⟩)
    have hread := TypeRef.ofText_text hlegible
    exact ⟨hw, hread, fun v => by rw [writeUnhandledSignature, hread]⟩

/-! ## A crew -/

namespace Crew

/-- The threads that work for a crew. -/
abbrev workers : TypeRef := .array (.cls ⟨"java.lang.Thread"⟩)

/-- A class whose instances hold threads, as it is declared. -/
def declared : ClassInfo where
  name := ⟨"com.acme.Crew"⟩
  fields := [Circle.holding "workers" workers]

/-- The class as it stands in the index. -/
def crew : ClassInfo := declared.resolved

/-- A document with the class of crews. -/
def document : Json := .obj [("classes", .arr [.obj [("name", .str "com.acme.Crew"),
  ("fields", .arr [.obj [("name", .str "workers"), ("type", .str "java.lang.Thread[]"),
    ("visibility", .str "public")]])]])]

end Crew

/-- The schema of crews. -/
def crews : Schema := { index := { classes := [Crew.crew], nodup_names := by decide } }

namespace Crew

theorem ofText_workers : TypeRef.ofText "java.lang.Thread[]" = .ok workers := by
  have hname : TypeRef.name? "java.lang.Thread".toList =
      some ("java.lang.Thread".toList, ⟨[], by decide⟩) := by
    decide +kernel
  have hthread : TypeRef.Legible (.cls ⟨"java.lang.Thread"⟩) :=
    .cls (TypeRef.name?_sound hname).1 fun p => by cases p <;> decide
  have htext : workers.text = "java.lang.Thread[]" := rfl
  rw [← htext]
  exact TypeRef.ofText_text (.array hthread)

open Json Json.Decoder in
theorem loaded : crews.index.Loaded := by
  have hread : ofJson? IndexDocument.decoder document = some { classes := [declared] } := by
    simp [document, declared, Circle.holding, ofJson?, Draft.ofJson, Draft.ofMembers,
      Draft.ofItems, Draft.depth, Draft.depthMembers, Draft.depthItems, IndexDocument.decoder,
      ClassInfo.decoder, ClassName.decoder, Field.decoder, Visibility.decoder, choice,
      Visibility.name, TypeRef.decoder, record, fieldsByName, field, list, Decoder.text, textWith,
      ofText_workers, Except.toOption]
  refine .json (v := document) ?_
  rw [Index.ofJson, hread]
  rfl

theorem properties_crew : crews.properties (crews.index.inspect crew) =
    [Circle.held "workers" workers] := by
  cbv

theorem class?_crew : crews.index.class? crew.name = some crew := rfl

theorem variant?_crew : crews.variant? (.cls crew.name) = some .object :=
  variant?_of_own (by simp [crew, declared, ClassInfo.resolved, ClassName.isPlatform]) rfl

theorem not_blocked_crew : ¬ crews.Blocked (.cls crew.name) := by
  refine not_blocked_of_firm variant?_crew class?_crew (by cbv) fun p hp hd => ?_
  rw [properties_crew, List.mem_singleton] at hp
  rw [hp] at hd
  cases hd

/-- Threads cannot be written, so that the workers of a crew are deferred. -/
theorem defers_workers : crews.Defers (.cls crew.name) (Circle.held "workers" workers) := by
  have hthread : crews.variant? (.cls ⟨"java.lang.Thread"⟩) = none := by
    rw [variant?_of_unknown (by decide) rfl]
    simp [ClassName.isPlatform]
  have hhopeless : crews.Hopeless (.cls ⟨"java.lang.Thread"⟩) :=
    .platform (by simp [ClassName.isPlatform]) (shape?_eq_none_of_variant? hthread)
  refine ⟨⟨_, crew, rfl, shape?_of_class? variant?_crew class?_crew, class?_crew,
    properties_crew ▸ .head _⟩, rfl, _, .single (.element (.inr rfl) rfl), hhopeless⟩

theorem signatures_read_back_crew : crews.index.Loaded ∧ crews.Reached {} ∧
    ∃ u file e signature,
      (crews.unit (.cls crew.name) ⟨"CrewSerializer"⟩ {}).1 = .ok (some u) ∧
      u.source = .ok file ∧ .writeUnhandled e workers ∈ u.program.statements ∧
      Source.Within (Source.leaf e signature) file.text ∧
      ∀ v, crews.writeUnhandledSignature v signature = crews.writeUnhandled v workers := by
  have hdates : crews.Dated := dated_of_hasDates fun a ha => by
    simp [Index.Bears, crews, crew, declared, ClassInfo.resolved, Circle.holding] at ha
  obtain ⟨p, hp, hu⟩ := unit_of_dated hdates .start not_blocked_crew ⟨"CrewSerializer"⟩
  obtain ⟨-, f, hf, hname⟩ := hp.object_function .refl variant?_crew
  obtain ⟨e, he⟩ := exists_leaf .start hu hf (hname ▸ defers_workers)
  have hleaf : .writeUnhandled e workers ∈ p.statements :=
    List.mem_append_right _ (List.mem_flatMap.mpr ⟨f, hf, he⟩)
  obtain ⟨file, hfile, hleaves⟩ := signatures_read_back.2.2 loaded .start hu
  obtain ⟨signature, -, hw, -, hsame⟩ := hleaves e workers hleaf
  exact ⟨loaded, .start, _, file, e, signature, hu, hfile, hleaf, hw, hsame⟩

end Crew

end Schema

end JsonBinding
