import JsonBinding.Files.Disk
import JsonBinding.Proofs.Generation.Partition
import JsonBinding.Proofs.Index.Endpoints
import JsonBinding.Publication

/-!
# Publications are not refused

The files of one publication have distinct paths, so that none of them is refused because it was
written before.

* `Text.slash_of_mem_lowerFrom`: lower case makes no slashes.
* `getLast?_pathNames`: the last name in a path.
* `UnitId.exists_parts`: a common front of unit names gives the names of their files a common front.
* `Outlet.writeUnchecked`, `Outlet.publishUnchecked`: a publication that does not look at what was
  written.
* **`Schema.naming_and_publication`**: root types get distinct names, and the outcome of a
  generation of the candidates of an index is published as if nothing was looked for.
-/

namespace JsonBinding

/-! ## Lower case -/

namespace Text

theorem slash_of_toLower {c : Char} (h : c.toLower = '/') : c = '/' := by
  rw [Char.toLower] at h
  split_ifs at h with hupper
  · have hfirst : 65 ≤ c.val.toNat := hupper.1
    have hlast : c.val.toNat ≤ 90 := hupper.2
    have hval : c.val + 32 = 47 := congrArg Char.val h
    have hnat := congrArg UInt32.toNat hval
    rw [UInt32.toNat_add] at hnat
    have h32 : (32 : UInt32).toNat = 32 := rfl
    have h47 : (47 : UInt32).toNat = 47 := rfl
    omega
  · exact h

theorem ne_slash_of_lower? {r : CaseRun} (hr : r ∈ caseRuns) {c d : Char}
    (h : r.lower? c = some d) : d ≠ '/' := by
  have hsmall : ∀ r ∈ caseRuns, 47 < r.small := by decide +kernel
  rintro rfl
  rw [CaseRun.lower?] at h
  split_ifs at h
  have hnat := congrArg Char.toNat (Option.some.inj h)
  rw [Char.toNat_ofNat] at hnat
  have hs := hsmall r hr
  have hslash : '/'.toNat = 47 := rfl
  split_ifs at hnat
  · omega
  · omega

theorem slash_of_mem_lowerChar {c : Char} (h : '/' ∈ lowerChar c) : c = '/' := by
  rw [lowerChar] at h
  split_ifs at h with hascii hdotted
  · exact slash_of_toLower (List.mem_singleton.mp h).symm
  · exact absurd h (by decide)
  · have hc := List.mem_singleton.mp h
    cases hf : caseRuns.findSome? (·.lower? c) with
    | none =>
      rw [hf] at hc
      exact hc.symm
    | some d =>
      rw [hf] at hc
      obtain ⟨r, hr, hd⟩ := List.exists_of_findSome?_eq_some hf
      exact absurd hc.symm (ne_slash_of_lower? hr hd)

theorem slash_of_mem_lowerFrom {before cs : List Char} (h : '/' ∈ lowerFrom before cs) :
    '/' ∈ cs := by
  induction cs generalizing before with
  | nil => cases h
  | cons c rest ih =>
    rw [lowerFrom] at h
    rcases List.mem_append.mp h with h | h
    · split_ifs at h with hs hw
      · exact absurd h (by decide)
      · exact absurd h (by decide)
      · rw [slash_of_mem_lowerChar h]
        exact List.mem_cons_self
    · exact List.mem_cons_of_mem _ (ih h)

/-- The lower-case form of a text ends in that of its last character, if this is no sigma. -/
theorem lowerFrom_concat {c : Char} (hs : c.toNat ≠ 0x3A3) (before xs : List Char) :
    ∃ ys, lowerFrom before (xs ++ [c]) = ys ++ lowerChar c := by
  induction xs generalizing before with
  | nil => exact ⟨[], by simp [lowerFrom, hs]⟩
  | cons x xs ih =>
    obtain ⟨ys, hys⟩ := ih (x :: before)
    rw [List.cons_append, lowerFrom, hys]
    exact ⟨_, (List.append_assoc _ _ _).symm⟩

end Text

/-! ## Paths -/

/-- Whether a name may follow on a text: the text is empty or ends in a slash. -/
def Leads (pre : List Char) : Prop := pre = [] ∨ ∃ p, pre = p ++ ['/']

variable {pre last : List Char} {path directory name : String}

theorem pathNames_eq {first : List Char} {rest : List (List Char)}
    (h : path.toList.splitOn '/' = first :: rest) (hne : first ≠ [] ∨ rest ≠ []) :
    pathNames path = first :: rest.filter fun name => name ≠ [] ∧ name ≠ ['.'] := by
  rw [pathNames, h]
  split
  · rename_i h
    cases h
  · rename_i h
    cases h
    simp at hne
  · rename_i h
    cases h
    rfl

theorem getLast?_pathNames (hpath : path.toList = pre ++ last) (hpre : Leads pre)
    (hs : '/' ∉ last) (hl : 1 < last.length) : (pathNames path).getLast? = some last := by
  have hempty : last ≠ [] := by
    rintro rfl
    cases hl
  have hdot : last ≠ ['.'] := by
    rintro rfl
    simp at hl
  have hsingle : last.splitOn '/' = [last] := List.splitOn_eq_singleton hs
  rcases hpre with rfl | ⟨p, rfl⟩
  · have hsplit : path.toList.splitOn '/' = last :: [] := by
      rw [hpath, List.nil_append, hsingle]
    rw [pathNames_eq hsplit (.inl hempty)]
    rfl
  · obtain ⟨first, rest, hfirst⟩ := List.exists_cons_of_ne_nil (List.splitOn_ne_nil '/' p)
    have hsplit : path.toList.splitOn '/' = first :: (rest ++ [last]) := by
      rw [hpath, List.append_assoc, List.singleton_append, List.splitOn_append_cons_self, hsingle,
        hfirst, List.cons_append]
    rw [pathNames_eq hsplit (.inr (by simp)), List.filter_append,
      List.filter_cons_of_pos (by simp [hempty, hdot]), List.filter_nil, ← List.cons_append]
    exact List.getLast?_concat

theorem Leads.append (hpre : Leads pre) {p : List Char} (hp : Leads p) : Leads (p ++ pre) := by
  rcases hpre with rfl | ⟨q, rfl⟩
  · rwa [List.append_nil]
  · exact .inr ⟨p ++ q, (List.append_assoc _ _ _).symm⟩

theorem exists_joinPath (directory : String) (hname : name.toList = pre ++ last)
    (hpre : Leads pre) : ∃ pre', (joinPath directory name).toList = pre' ++ last ∧ Leads pre' := by
  rw [joinPath]
  split_ifs with hd he
  · exact ⟨pre, hname, hpre⟩
  · rw [← String.endsWith_toSlice, String.Slice.endsWith_string_iff] at he
    obtain ⟨p, hp⟩ := he
    refine ⟨directory.toList ++ pre, ?_, hpre.append (.inr ⟨p, ?_⟩)⟩
    · rw [String.toList_append, hname, List.append_assoc]
    · simpa using hp.symm
  · refine ⟨directory.toList ++ ['/'] ++ pre, ?_, hpre.append (.inr ⟨_, rfl⟩)⟩
    simp [hname]

/-- Files whose names end differently have different paths. -/
theorem pathNames_joinPath (directory : String) (hname : name.toList = pre ++ last)
    (hpre : Leads pre) (hs : '/' ∉ last) (hl : 1 < last.length) :
    (pathNames (joinPath directory name)).getLast? = some last := by
  obtain ⟨pre', hpath, hpre'⟩ := exists_joinPath directory hname hpre
  exact getLast?_pathNames hpath hpre' hs hl

/-! ## Files of units -/

namespace UnitId

theorem slash_of_mem_mangled {cs : List Char} (h : '/' ∈ cs.map mangleChar) : '/' ∈ cs := by
  obtain ⟨c, hc, he⟩ := List.mem_map.mp h
  rw [mangleChar] at he
  split_ifs at he
  · cases he
  · exact he ▸ hc

/-- The names of files have a common front when those of units have one: what is in front of the
last slash, in lower case. -/
theorem exists_parts (front : String) : ∃ pre, Leads pre ∧ ∀ b : String, '/' ∉ b.toList →
    ∃ rest, '/' ∉ rest ∧ (fileStem ⟨front ++ b⟩).toList = pre ++ rest := by
  by_cases hslash : '/' ∈ front.toList
  · obtain ⟨q, p, hfront, hq⟩ := List.eq_append_cons_of_mem (List.mem_reverse.mpr hslash)
    have hfront : front.toList = p.reverse ++ '/' :: q.reverse := by
      rw [← List.reverse_reverse front.toList, hfront]
      simp
    obtain ⟨ys, hys⟩ := Text.lowerFrom_concat (c := '/') (by decide) [] (p.reverse.map mangleChar)
    refine ⟨ys ++ ['/'], .inr ⟨ys, rfl⟩, fun b hb => ?_⟩
    have hname : (front ++ b).toList.map mangleChar =
        p.reverse.map mangleChar ++ '/' :: (q.reverse ++ b.toList).map mangleChar := by
      rw [String.toList_append, hfront, List.append_assoc, List.cons_append, List.map_append,
        List.map_cons]
      rfl
    have hstem := toList_fileStem (front ++ b)
    rw [hname, Text.lowerFrom_append (by decide +kernel) (by decide), hys,
      show Text.lowerChar '/' = ['/'] from rfl] at hstem
    refine ⟨_, fun h => ?_, hstem⟩
    rcases List.mem_append.mp (slash_of_mem_mangled (Text.slash_of_mem_lowerFrom h)) with h | h
    · exact hq (List.mem_reverse.mp h)
    · exact hb h
  · refine ⟨[], .inl rfl, fun b hb =>
      ⟨(fileStem ⟨front ++ b⟩).toList, fun h => ?_, (List.nil_append _).symm⟩⟩
    rw [toList_fileStem, String.toList_append] at h
    rcases List.mem_append.mp (slash_of_mem_mangled (Text.slash_of_mem_lowerFrom h)) with h | h
    · exact hslash h
    · exact hb h

variable {rest : List Char}

theorem toList_file {stem : String} {pre : List Char} (h : stem.toList = pre ++ rest) :
    (stem ++ ".rs").toList = pre ++ (rest ++ ".rs".toList) := by
  rw [String.toList_append, h, List.append_assoc]

theorem slash_notMem_file (h : '/' ∉ rest) : '/' ∉ rest ++ ".rs".toList := by
  simp [h]

theorem length_file (rest : List Char) : 1 < (rest ++ ".rs".toList).length := by
  simp

variable {front b b' : String}

/-- Files in one directory whose unit names have a common front are told apart by their stems. -/
theorem fileStem_eq_of_pathNames (hb : '/' ∉ b.toList) (hb' : '/' ∉ b'.toList)
    (h : pathNames (joinPath directory (fileStem ⟨front ++ b⟩ ++ ".rs")) =
      pathNames (joinPath directory (fileStem ⟨front ++ b'⟩ ++ ".rs"))) :
    fileStem ⟨front ++ b⟩ = fileStem ⟨front ++ b'⟩ := by
  obtain ⟨pre, hpre, hparts⟩ := exists_parts front
  obtain ⟨rest, hs, hstem⟩ := hparts b hb
  obtain ⟨rest', hs', hstem'⟩ := hparts b' hb'
  have hlast : some (rest ++ ".rs".toList) = some (rest' ++ ".rs".toList) := by
    rw [← pathNames_joinPath directory (toList_file hstem) hpre (slash_notMem_file hs)
      (length_file rest), h, pathNames_joinPath directory (toList_file hstem') hpre
      (slash_notMem_file hs') (length_file rest')]
  refine String.toList_injective ?_
  rw [hstem, hstem', List.append_cancel_right (Option.some.inj hlast)]

theorem pathNames_ne_manifest (hb : '/' ∉ b.toList) :
    pathNames (joinPath directory (fileStem ⟨front ++ b⟩ ++ ".rs")) ≠
      pathNames (joinPath directory manifestName) := by
  intro h
  obtain ⟨pre, hpre, hparts⟩ := exists_parts front
  obtain ⟨rest, hs, hstem⟩ := hparts b hb
  have hlast : some (rest ++ ".rs".toList) = some manifestName.toList := by
    rw [← pathNames_joinPath directory (toList_file hstem) hpre (slash_notMem_file hs)
      (length_file rest), h, pathNames_joinPath directory (List.nil_append _).symm (.inl rfl)
      (by decide) (by decide)]
  have hend := congrArg List.getLast? (Option.some.inj hlast)
  rw [List.getLast?_append] at hend
  cases hend

/-! ## Root types of an index -/

theorem slash_notMem_of_nameLike {cs : List Char} (h : TypeRef.NameLike cs) : '/' ∉ cs := by
  intro hm
  rcases h _ hm with h | h
  · exact absurd h (by decide)
  · cases h

/-- The unit name of a class begins with the front and has no slash behind it. -/
theorem Named.exists_behind {n : ClassName} {others : List TypeRef} {taken : List String}
    {id : UnitId} (hn : TypeRef.NameLike n.text.toList)
    (h : Named (plain front others (.cls n)) taken id) :
    ∃ b : String, id = ⟨front ++ b⟩ ∧ '/' ∉ b.toList := by
  have hslash := slash_notMem_of_nameLike hn
  have hmangled : '/' ∉ n.mangled.toList := by
    rw [ClassName.mangled, ClassName.mangle, String.toList_ofList]
    exact fun h => hslash (slash_of_mem_mangled h)
  have hsimple : '/' ∉ n.simpleName.toList := by
    rw [ClassName.simpleName, String.toList_ofList, List.mem_reverse]
    exact fun h => hslash (List.mem_reverse.mp ((List.takeWhile_sublist _).subset h))
  obtain ⟨b, hplain, hb⟩ : ∃ b : String, plain front others (.cls n) = ⟨front ++ b⟩ ∧
      '/' ∉ b.toList := by
    refine ⟨_, congrArg UnitId.mk (String.append_assoc ..), ?_⟩
    rw [String.toList_append, List.mem_append, not_or]
    refine ⟨?_, by decide⟩
    split_ifs
    · exact hmangled
    · exact hsimple
  rw [hplain] at h
  cases h with
  | unnumbered => exact ⟨b, rfl, hb⟩
  | @numbered k =>
    refine ⟨b ++ toString k, congrArg UnitId.mk (String.append_assoc ..), ?_⟩
    rw [String.toList_append, List.mem_append, not_or]
    exact ⟨hb, fun h => absurd (isDigit_of_mem_toString h) (by decide)⟩

/-- **The files of classes and that of the manifest have distinct paths.** -/
theorem nodup_paths {roots : List TypeRef}
    (hroots : ∀ t ∈ roots, ∃ n, t = .cls n ∧ TypeRef.NameLike n.text.toList) (front : String)
    (directory : String) :
    ((((assign front roots).map fun x => x.2.fileStem ++ ".rs") ++ [manifestName]).map
      fun name => pathNames (joinPath directory name)).Nodup := by
  have hassigned := assigned_assign front roots
  have hbehind : ∀ x ∈ assign front roots, ∃ b : String, x.2 = ⟨front ++ b⟩ ∧ '/' ∉ b.toList := by
    intro x hx
    obtain ⟨before, after, hsplit⟩ := List.append_of_mem hx
    have hmem : x.1 ∈ roots := hassigned.map_fst ▸ List.mem_map_of_mem hx
    obtain ⟨n, hn, hname⟩ := hroots _ hmem
    have hnamed := hassigned.name before x after hsplit
    rw [hn] at hnamed
    exact hnamed.exists_behind hname
  rw [List.map_append, List.map_map, List.nodup_append]
  refine ⟨?_, List.nodup_singleton _, ?_⟩
  · refine List.pairwise_map.mpr ((List.pairwise_map.mp hassigned.nodup_stems).imp_of_mem ?_)
    intro x y hx hy hne h
    obtain ⟨b, hb, hs⟩ := hbehind x hx
    obtain ⟨b', hb', hs'⟩ := hbehind y hy
    rw [hb, hb'] at hne
    simp only [Function.comp_apply, hb, hb'] at h
    exact hne (fileStem_eq_of_pathNames hs hs' h)
  · intro path hpath path' hpath' h
    obtain ⟨x, hx, rfl⟩ := List.mem_map.mp hpath
    obtain ⟨b, hb, hs⟩ := hbehind x hx
    rw [List.map_singleton, List.mem_singleton] at hpath'
    simp only [Function.comp_apply, hb, hpath'] at h
    exact pathNames_ne_manifest hs h

end UnitId

/-! ## Publications -/

theorem SerializerUnit.name_source {u : SerializerUnit} {file : SourceFile}
    (h : u.source = .ok file) : file.name = u.id.fileStem ++ ".rs" := by
  simp only [source, bind, Except.bind] at h
  split at h
  · cases h
  · split at h
    · cases h
    · split at h
      · cases h
      · rw [← Except.ok.inj h]

namespace Outlet

variable {m : Type → Type} [Monad m] (files : Files m)

/-- Writes a file of the directory without a look at what was written before. -/
def writeUnchecked (name text : String) : Publishing m Unit := do
  let ol ← get
  let path := joinPath ol.directory name
  match ← (files.write path text : m (Except String Unit)) with
  | .error reason => throw (.fileFailed "write" path reason)
  | .ok () => set { ol with written := ol.written ++ [path] }

/-- Writes the units of an outcome and its manifest without a look at what was written before. -/
def publishUnchecked (o : Outcome) : Publishing m Unit := do
  for u in o.units do
    let file ← (u.source : Except Fault SourceFile)
    writeUnchecked files file.name file.text
  writeUnchecked files manifestName o.manifest.toJson.pretty

section Steps

variable {files} [LawfulMonad m] {ol : Outlet} {name text : String} {α : Type}

theorem publish_cons (u : SerializerUnit) (us : List SerializerUnit) (manifest : Manifest) :
    publish files ⟨u :: us, manifest⟩ = (do
      let file ← (u.source : Except Fault SourceFile)
      write files file.name file.text
      publish files ⟨us, manifest⟩) := by
  simp [publish]

theorem publishUnchecked_cons (u : SerializerUnit) (us : List SerializerUnit)
    (manifest : Manifest) : publishUnchecked files ⟨u :: us, manifest⟩ = (do
      let file ← (u.source : Except Fault SourceFile)
      writeUnchecked files file.name file.text
      publishUnchecked files ⟨us, manifest⟩) := by
  simp [publishUnchecked]

theorem run_get : (get : Publishing m Outlet).run.run ol = pure (.ok ol, ol) := by
  simp only [get, getThe, MonadStateOf.get, liftM, monadLift, MonadLift.monadLift, ExceptT.run_lift,
    StateT.run_map]
  exact map_pure (f := m) (fun p : Outlet × Outlet => (Except.ok p.1, p.2)) (ol, ol)

theorem run_get_bind (k : Outlet → Publishing m α) :
    (get >>= k).run.run ol = (k ol).run.run ol := by
  rw [ExceptT.run_bind, StateT.run_bind, run_get, pure_bind]

theorem run_set (ol' : Outlet) :
    (set ol' : Publishing m PUnit).run.run ol = pure (.ok ⟨⟩, ol') := by
  simp only [set, MonadStateOf.set, liftM, monadLift, MonadLift.monadLift, ExceptT.run_lift,
    StateT.run_map]
  exact map_pure (f := m) (fun p : PUnit × Outlet => (Except.ok p.1, p.2)) (⟨⟩, ol')

theorem run_lift (x : m α) :
    (liftM x : Publishing m α).run.run ol = (fun a => (.ok a, ol)) <$> x := by
  simp [liftM, monadLift, MonadLift.monadLift]

theorem run_except_bind (x : Except Fault α) (k : α → Publishing m Unit) :
    (do k (← (x : Publishing m α))).run.run ol =
      match x with
      | .error e => pure (.error e, ol)
      | .ok a => (k a).run.run ol := by
  cases x <;> simp [liftM, monadLift, MonadLift.monadLift]

/-- The outlet with one more path. -/
def adding (ol : Outlet) (name : String) : Outlet :=
  { ol with written := ol.written ++ [joinPath ol.directory name] }

/-- What follows on a file: nothing when it is refused. -/
theorem run_writeUnchecked_bind (k : Publishing m Unit) :
    (do writeUnchecked files name text; k).run.run ol =
      files.write (joinPath ol.directory name) text >>= fun
        | .error reason =>
          pure (.error (.fileFailed "write" (joinPath ol.directory name) reason), ol)
        | .ok () => k.run.run (ol.adding name) := by
  simp only [writeUnchecked, ExceptT.run_bind, StateT.run_bind, run_get, run_lift, bind_assoc,
    pure_bind, map_eq_pure_bind]
  refine congrArg _ (funext fun r => ?_)
  cases r with
  | error reason => simp
  | ok _ =>
    simp only [run_set, pure_bind]
    rfl

theorem run_write
    (h : ∀ path ∈ ol.written, pathNames path ≠ pathNames (joinPath ol.directory name)) :
    (write files name text).run.run ol = (writeUnchecked files name text).run.run ol := by
  have hfree : ¬ (ol.written.any fun path =>
      decide (pathNames path = pathNames (joinPath ol.directory name))) = true := by
    simpa using h
  rw [write, writeUnchecked, run_get_bind, run_get_bind]
  exact congrArg (fun x : Publishing m Unit => x.run.run ol) (if_neg hfree)

theorem run_write_bind (k : Publishing m Unit)
    (h : ∀ path ∈ ol.written, pathNames path ≠ pathNames (joinPath ol.directory name)) :
    (do write files name text; k).run.run ol =
      (do writeUnchecked files name text; k).run.run ol := by
  rw [ExceptT.run_bind, ExceptT.run_bind, StateT.run_bind, StateT.run_bind, run_write h]

/-- A publication whose files all have new paths goes on as it would without a look. -/
theorem run_publish (us : List SerializerUnit) (manifest : Manifest)
    (h : (ol.written.map pathNames ++ ((us.map fun u => u.id.fileStem ++ ".rs") ++
      [manifestName]).map fun name => pathNames (joinPath ol.directory name)).Nodup) :
    (publish files ⟨us, manifest⟩).run.run ol =
      (publishUnchecked files ⟨us, manifest⟩).run.run ol := by
  induction us generalizing ol with
  | nil =>
    have hfree : ∀ path ∈ ol.written,
        pathNames path ≠ pathNames (joinPath ol.directory manifestName) :=
      fun path hpath => (List.nodup_append.mp h).2.2 _ (List.mem_map_of_mem hpath) _
        List.mem_cons_self
    have hpublish : publish files ⟨[], manifest⟩ =
        write files manifestName manifest.toJson.pretty := by
      simp [publish]
    have hunchecked : publishUnchecked files ⟨[], manifest⟩ =
        writeUnchecked files manifestName manifest.toJson.pretty := by
      simp [publishUnchecked]
    rw [hpublish, hunchecked, run_write hfree]
  | cons u us ih =>
    rw [publish_cons, publishUnchecked_cons, run_except_bind, run_except_bind]
    cases hu : u.source with
    | error e => rfl
    | ok file =>
      rw [List.map_cons, ← SerializerUnit.name_source hu, List.cons_append, List.map_cons] at h
      have hfree : ∀ path ∈ ol.written,
          pathNames path ≠ pathNames (joinPath ol.directory file.name) :=
        fun path hpath => (List.nodup_append.mp h).2.2 _ (List.mem_map_of_mem hpath) _
          List.mem_cons_self
      have hnext : ((ol.adding file.name).written.map pathNames ++
          ((us.map fun u => u.id.fileStem ++ ".rs") ++ [manifestName]).map fun name =>
            pathNames (joinPath (ol.adding file.name).directory name)).Nodup := by
        rw [adding, List.map_append, List.append_assoc]
        exact h
      dsimp only
      rw [run_write_bind _ hfree, run_writeUnchecked_bind, run_writeUnchecked_bind, ih hnext]

end Steps

end Outlet

/-! ## Outcomes -/

namespace Schema

variable {s : Schema} {memo : Memo} {eager : Bool} {o : Outcome}

theorem sublist_units {c : Candidates} (hr : s.Reached memo)
    (ho : (s.generate c eager memo).1 = .ok o) :
    ∃ roots ⊆ c.roots, (o.units.map fun u => (u.root, u.id)).Sublist
      (UnitId.assign s.settings.unitPackage roots) := by
  cases hp : s.plan? c with
  | none =>
    rw [generate, hp] at ho
    cases ho
    exact ⟨[], List.nil_subset _, .slnil⟩
  | some plan =>
    obtain ⟨rs, memo', hrs, -, rfl⟩ := exists_results hr hp ho
    have hplan : plan.roots = UnitId.assign s.settings.unitPackage
        ((TypeRef.sortedSet c.roots).filter (!c.isCustom ·)) := by
      rw [plan?] at hp
      split_ifs at hp
      rw [List.partition_eq_filter_filter] at hp
      cases hp
      rfl
    have hsub := sublist_unitsOf (built_of_results hrs)
    rw [hplan] at hsub
    refine ⟨(TypeRef.sortedSet c.roots).filter (!c.isCustom ·),
      fun t ht => TypeRef.mem_sortedSet.mp (List.mem_filter.mp ht).1, ?_⟩
    rw [Outcome.including_eq]
    exact hsub

/-- **Root types get distinct names, and no publication is refused because of them.** A publication
of the outcome of a generation goes on as it would if files were written without a look at what was
written before. -/
theorem naming_and_publication :
    (∀ front roots, UnitId.Assigned front roots (UnitId.assign front roots)) ∧
    ∀ {s : Schema} {memo : Memo} {eager : Bool} {o : Outcome}, s.index.Loaded → s.Reached memo →
      (s.generate s.index.candidates eager memo).1 = .ok o →
      ∀ {m : Type → Type} [Monad m] [LawfulMonad m] (files : Files m) (directory : String),
        (Outlet.publish files o).run.run { directory } =
          (Outlet.publishUnchecked files o).run.run { directory } := by
  refine ⟨UnitId.assigned_assign, fun {s memo eager o} hix hr ho {m} _ _ files directory => ?_⟩
  obtain ⟨roots, hroots, hsub⟩ := sublist_units hr ho
  refine Outlet.run_publish o.units o.manifest ?_
  have hnames : ∀ t ∈ roots, ∃ n, t = .cls n ∧ TypeRef.NameLike n.text.toList := by
    intro t ht
    have hspelled := hix.spelled_candidates (hroots ht)
    obtain ⟨n, rfl⟩ := TypeRef.exists_cls_of_isOwnClass
      (Index.isOwnClass_of_mem_candidates (hroots ht))
    cases hspelled with
    | cls hn => exact ⟨n, rfl, hn⟩
  have hfiles := hsub.map fun x => x.2.fileStem ++ ".rs"
  rw [List.map_map] at hfiles
  exact (UnitId.nodup_paths hnames s.settings.unitPackage directory).sublist
    ((hfiles.append (.refl [manifestName])).map _)

/-! ## Classes whose names differ in case -/

namespace Twins

/-- A document with two classes whose simple names differ in case alone. -/
def document : Json := .obj [
  ("classes", .arr [.obj [("name", .str "com.a.Item")], .obj [("name", .str "com.b.ITEM")]]),
  ("endpoints", .arr [.obj [("return_type", .str "com.a.Item")],
    .obj [("return_type", .str "com.b.ITEM")]])]

end Twins

/-- Two classes whose simple names differ in case alone. -/
def twins : Schema := {
  index := {
    classes := [{ name := ⟨"com.a.Item"⟩ }, { name := ⟨"com.b.ITEM"⟩ }]
    endpoints := [⟨"", .cls ⟨"com.a.Item"⟩⟩, ⟨"", .cls ⟨"com.b.ITEM"⟩⟩]
    nodup_names := by decide } }

namespace Twins

theorem ofText_item : TypeRef.ofText "com.a.Item" = .ok (.cls ⟨"com.a.Item"⟩) := by
  have hname : TypeRef.name? "com.a.Item".toList = some ("com.a.Item".toList, ⟨[], by decide⟩) := by
    decide +kernel
  exact TypeRef.ofText_of_name? hname rfl

theorem ofText_other : TypeRef.ofText "com.b.ITEM" = .ok (.cls ⟨"com.b.ITEM"⟩) := by
  have hname : TypeRef.name? "com.b.ITEM".toList = some ("com.b.ITEM".toList, ⟨[], by decide⟩) := by
    decide +kernel
  exact TypeRef.ofText_of_name? hname rfl

open Json Json.Decoder in
theorem loaded : twins.index.Loaded := by
  have hread : ofJson? IndexDocument.decoder document =
      some { classes := twins.index.classes, endpoints := twins.index.endpoints } := by
    simp [document, twins, ofJson?, Draft.ofJson, Draft.ofMembers, Draft.ofItems, Draft.depth,
      Draft.depthMembers, Draft.depthItems, IndexDocument.decoder, ClassInfo.decoder,
      ClassName.decoder, Endpoint.decoder, TypeRef.decoder, record, fieldsByName, field, list,
      Decoder.text, textWith, ofText_item, ofText_other, Except.toOption]
  refine .json (v := document) ?_
  rw [Index.ofJson, hread]
  rfl

theorem plan?_candidates : twins.plan? twins.index.candidates = some
    ⟨[(.cls ⟨"com.a.Item"⟩, ⟨"jsonb.serializers.ItemSerializer"⟩),
      (.cls ⟨"com.b.ITEM"⟩, ⟨"jsonb.serializers.ITEMSerializer2"⟩)], { enabled := true }⟩ := by
  cbv

theorem dated : twins.Dated :=
  dated_of_hasDates fun a ha => by simp [Index.Bears, twins] at ha

theorem not_blocked {n : ClassName} (hn : n ∈ twins.index.classes.map (·.name)) :
    ¬ twins.Blocked (.cls n) := by
  simp only [twins, List.map_cons, List.map_nil, List.mem_cons, List.not_mem_nil, or_false] at hn
  rcases hn with rfl | rfl
  · refine not_blocked_of_properties (c := { name := ⟨"com.a.Item"⟩ })
      (variant?_of_own (by simp [ClassName.isPlatform]) rfl) rfl (by cbv) ?_
    have hproperties : twins.properties (twins.index.inspect { name := ⟨"com.a.Item"⟩ }) = [] := by
      cbv
    rw [hproperties]
    exact List.forall_mem_nil _
  · refine not_blocked_of_properties (c := { name := ⟨"com.b.ITEM"⟩ })
      (variant?_of_own (by simp [ClassName.isPlatform]) rfl) rfl (by cbv) ?_
    have hproperties : twins.properties (twins.index.inspect { name := ⟨"com.b.ITEM"⟩ }) = [] := by
      cbv
    rw [hproperties]
    exact List.forall_mem_nil _

theorem exists_outcome : ∃ o, (twins.generate twins.index.candidates false {}).1 = .ok o := by
  obtain ⟨p, -, hp⟩ := unit_of_dated dated .start (not_blocked List.mem_cons_self)
    ⟨"jsonb.serializers.ItemSerializer"⟩
  obtain ⟨q, -, hq⟩ := unit_of_dated dated .start
    (not_blocked (List.mem_cons_of_mem _ List.mem_cons_self)) ⟨"jsonb.serializers.ITEMSerializer2"⟩
  rw [generate_of_plan? .start plan?_candidates, results, List.map_cons, List.map_cons, attempt,
    attempt, hp, hq]
  exact ⟨_, rfl⟩

theorem naming_and_publication_twins :
    twins.index.Loaded ∧ twins.Reached {} ∧
      ∃ o, (twins.generate twins.index.candidates false {}).1 = .ok o ∧
        ∀ directory, (Outlet.publish Disk.files o).run.run { directory } =
          (Outlet.publishUnchecked Disk.files o).run.run { directory } := by
  obtain ⟨o, ho⟩ := exists_outcome
  exact ⟨loaded, .start, o, ho, naming_and_publication.2 loaded .start ho Disk.files⟩

end Twins

end Schema

end JsonBinding
