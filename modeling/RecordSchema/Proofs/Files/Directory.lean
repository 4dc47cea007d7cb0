import RecordSchema.Files.Tree
import RecordSchema.Proofs.Document.Joined
import RecordSchema.Schema.Load

/-!
# Loading a directory

A directory is listed in any order, and its schema files are read in that of their names. What is
loaded from them is the schema that the joined text of the files describes: it has the types of
all files, those of each behind those of the files in front of it. There is none if a file cannot
be read, does not describe a schema, or declares a type that is declared before; the error then
is about the first such file.

Main statement: `Schema.load_directory`, for any place that holds files. A directory in a tree of
files is one: `FileTree.showsDirectory`.
-/

namespace RecordSchema

/-- The path leads to a directory in which the names are listed in this order, and under each
of which a file reads as it says, all without a change. -/
structure Filesystem.ShowsDirectory {σ : Type} (filesystem : Filesystem (StateM σ)) (state : σ)
    (directory : String) (names : List String) (read : String → Except FileError String) :
    Prop where
  isDirectory : (filesystem.isDirectory directory).run state = (true, state)
  list : (filesystem.list directory).run state = (.ok names, state)
  readText : ∀ name ∈ names,
    (filesystem.readText (Path.join directory name)).run state = (read name, state)

theorem FileTree.showsDirectory {tree : FileTree} {directory : String} {working : List String}
    {entries : List (String × FileTree)}
    (h : tree.find directory working = .ok (.directory entries)) :
    (FileTree.filesystem working).ShowsDirectory tree directory (Entries.names entries)
      fun name => tree.readText (Path.join directory name) working where
  isDirectory := by
    change (tree.isDirectory directory working, tree) = _
    rw [FileTree.isDirectory, h]
  list := by
    change (tree.list directory working, tree) = _
    rw [FileTree.list, h]
    rfl
  readText _ _ := rfl

/-- A schema file has the extension behind a name that is not empty. -/
theorem Path.hasExtension_json_iff {name : String} :
    Path.hasExtension "json" name = true ↔ ∃ stem, stem ≠ "" ∧ name = stem ++ ".json" := by
  have happend (stem : String) :
      name = stem ++ ".json" ↔ stem.toList ++ '.' :: "json".toList = name.toList := by
    rw [← String.toList_inj, String.toList_append, eq_comm]
    rfl
  have hplain : (!"json".toList.contains '.') = true := rfl
  rw [Path.hasExtension, hplain, Bool.and_true, Bool.and_eq_true, List.isSuffixOf_iff_suffix,
    decide_eq_true_iff]
  constructor
  · rintro ⟨⟨stem, hstem⟩, hlength⟩
    refine ⟨String.ofList stem, fun hempty => ?_, (happend _).mpr (by rwa [String.toList_ofList])⟩
    rw [← hstem, String.ofList_eq_empty_iff.mp hempty] at hlength
    exact absurd hlength (Nat.lt_irrefl _)
  · rintro ⟨stem, hstem, hname⟩
    have hlist := (happend stem).mp hname
    refine ⟨⟨_, hlist⟩, ?_⟩
    rw [← hlist, List.length_append]
    exact Nat.lt_add_of_pos_left (List.length_pos_of_ne_nil (mt String.toList_eq_nil_iff.mp hstem))

namespace Schema

/-! ## The files of a directory -/

/-- The names of the schema files among the names in a directory, in order. -/
def fileNames (names : List String) : List String :=
  (names.filter (Path.hasExtension "json")).mergeSort fun a b => decide (a ≤ b)

theorem fileNames_perm (names : List String) :
    (fileNames names).Perm (names.filter (Path.hasExtension "json")) :=
  List.mergeSort_perm _ _

theorem fileNames_sorted (names : List String) : (fileNames names).Pairwise (· ≤ ·) := by
  have htrans : ∀ a b c : String, decide (a ≤ b) = true → decide (b ≤ c) = true →
      decide (a ≤ c) = true := by
    simpa using fun a b c : String => String.le_trans
  have htotal : ∀ a b : String, (decide (a ≤ b) || decide (b ≤ a)) = true := by
    simpa using String.le_total
  exact (List.pairwise_mergeSort htrans htotal _).imp of_decide_eq_true

theorem mem_of_mem_fileNames {names : List String} {name : String} (h : name ∈ fileNames names) :
    name ∈ names :=
  List.mem_of_mem_filter ((fileNames_perm names).mem_iff.mp h)

theorem fileNames_eq_of_sorted {names files : List String} (hsorted : files.Pairwise (· ≤ ·))
    (hperm : files.Perm (names.filter (Path.hasExtension "json"))) : fileNames names = files :=
  List.Perm.eq_of_pairwise (fun _ _ _ _ => String.le_antisymm) (fileNames_sorted names) hsorted
    ((fileNames_perm names).trans hperm.symm)

/-- The order in which a directory is listed does not matter. -/
theorem fileNames_eq_of_perm {names names' : List String} (h : names'.Perm names) :
    fileNames names' = fileNames names :=
  fileNames_eq_of_sorted (fileNames_sorted names)
    ((fileNames_perm names).trans (h.filter _).symm)

/-! ## Reading the files -/

/-- The schema in a file, from what is read of the file. -/
def ofRead (path : String) : Except FileError String → Logged SchemaError Schema
  | .error error => Logged.fail (.malformed (.unreadableFile path error))
  | .ok text => ofFileText path text

/-- The types that have been read, with those of one more file behind them. -/
def addRead (path : String) (found : Except FileError String) (front : Schema) :
    Logged SchemaError Schema :=
  (ofRead path found).bind fun schema => Logged.ofExcept (front.merge path schema)

/-- The types that have been read, with those of several files of a directory behind them. -/
def ofReads (directory : String) (read : String → Except FileError String) :
    List String → Schema → Logged SchemaError Schema
  | [], front => Logged.ok front
  | file :: rest, front =>
    (addRead (Path.join directory file) (read file) front).bind (ofReads directory read rest)

section

variable {σ : Type} {filesystem : Filesystem (StateM σ)} {state : σ} {directory : String}
  {names : List String} {read : String → Except FileError String}

theorem run_loadFile {path : String} {found : Except FileError String}
    (h : (filesystem.readText path).run state = (found, state)) :
    (loadFile filesystem path).run state = (ofRead path found, state) := by
  rw [loadFile, StateT.run_bind, h]
  cases found <;> rfl

theorem run_bindAction_eq_bind {ε α β : Type} {first : Logged ε α}
    {next : α → StateM σ (Logged ε β)} {result : α → Logged ε β}
    (h : ∀ value, (next value).run state = (result value, state)) :
    (first.bindAction next).run state = (first.bind result, state) := by
  rw [Logged.bindAction, Logged.bind]
  cases first.outcome with
  | error error => rfl
  | ok value =>
      dsimp only
      rw [StateT.run_bind, h]
      rfl

theorem run_loadFiles {files : List String}
    (h : ∀ file ∈ files, (filesystem.readText (Path.join directory file)).run state =
      (read file, state)) (front : Schema) :
    (loadFiles filesystem (files.map (Path.join directory)) front).run state =
      (ofReads directory read files front, state) := by
  induction files generalizing front with
  | nil => rfl
  | cons file rest ih =>
      have hrest := ih fun other hother => h other (List.mem_cons_of_mem file hother)
      rw [List.map_cons, loadFiles, StateT.run_bind, run_loadFile (h file List.mem_cons_self)]
      exact run_bindAction_eq_bind hrest

/-- Loading a directory comes down to what is read of its files, in the order of their names. -/
theorem run_load (h : filesystem.ShowsDirectory state directory names read) :
    (load filesystem directory).run state =
      ((ofReads directory read (fileNames names) []).bind fun schema => do
        Logged.report (.loadedDirectory directory (fileNames names).length schema.length)
        return schema, state) := by
  have hfiles : ∀ file ∈ fileNames names,
      (filesystem.readText (Path.join directory file)).run state = (read file, state) :=
    fun file hfile => h.readText file (mem_of_mem_fileNames hfile)
  have hdirectory : (loadDirectory filesystem directory).run state =
      (do
        let loaded ← loadFiles filesystem ((fileNames names).map (Path.join directory)) []
        return loaded.bind fun schema => do
          Logged.report (.loadedDirectory directory
            ((fileNames names).map (Path.join directory)).length schema.length)
          return schema : StateM σ (Logged SchemaError Schema)).run state := by
    rw [loadDirectory, StateT.run_bind, h.list]
    rfl
  rw [load, StateT.run_bind, h.isDirectory]
  change (loadDirectory filesystem directory).run state = _
  rw [hdirectory, StateT.run_bind, run_loadFiles hfiles, List.length_map]
  rfl

theorem outcome_load (h : filesystem.ShowsDirectory state directory names read) :
    ((load filesystem directory).run state).1.outcome =
      (ofReads directory read (fileNames names) []).outcome := by
  rw [run_load h]
  dsimp only
  rw [Logged.outcome_bind]
  cases (ofReads directory read (fileNames names) []).outcome <;> rfl

end

/-! ## Merging -/

/-- The types of a file are put behind those before them, unless one of them is declared there;
the first such type is in the error. -/
theorem merge_cases (path : String) (front : Schema) {types : Schema} (hempty : "" ∉ types.names)
    (hnodup : types.names.Nodup) :
    front.names.Disjoint types.names ∧ front.merge path types = .ok (front ++ types) ∨
      ∃ (others : Schema) (name : String) (properties : PropertySet) (rest : Schema),
        types = others ++ (name, properties) :: rest ∧
        front.names.Disjoint others.names ∧ name ∈ front.names ∧
          front.merge path types =
            .error (.malformed (.inFile path (.content (.duplicateEntry .type name)))) := by
  induction types generalizing front with
  | nil => exact .inl ⟨by simp [List.Disjoint], by rw [merge, List.append_nil]⟩
  | cons type rest ih =>
      obtain ⟨name, properties⟩ := type
      simp only [Entries.names_cons, List.mem_cons, not_or] at hempty
      obtain ⟨hfresh, hnodup⟩ := List.nodup_cons.mp hnodup
      rw [merge, Schema.insert, if_neg (Ne.symm hempty.1)]
      by_cases hhas : front.has name
      · rw [if_pos hhas]
        exact .inr ⟨[], name, properties, rest, rfl, by simp [List.Disjoint],
          Entries.has_iff_mem_names.mp hhas, rfl⟩
      · rw [if_neg hhas]
        dsimp only
        have hname : name ∉ front.names := mt Entries.has_iff_mem_names.mpr hhas
        have hnames : Entries.names (front ++ [(name, properties)]) = front.names ++ [name] :=
          Entries.names_append _ _
        rcases ih (front ++ [(name, properties)]) hempty.2 hnodup with
          ⟨hdisjoint, hmerge⟩ | ⟨others, taken, properties', rest', rfl, hdisjoint, htaken, hmerge⟩
        · rw [hnames, List.disjoint_append_left] at hdisjoint
          refine .inl ⟨List.disjoint_cons_right.mpr ⟨hname, hdisjoint.1⟩, ?_⟩
          rw [hmerge, List.append_assoc, List.singleton_append]
        · rw [hnames, List.disjoint_append_left] at hdisjoint
          refine .inr ⟨(name, properties) :: others, taken, properties', rest', rfl,
            List.disjoint_cons_right.mpr ⟨hname, hdisjoint.1⟩, ?_, hmerge⟩
          rw [hnames, List.mem_append, List.mem_singleton] at htaken
          refine htaken.resolve_right ?_
          rintro rfl
          exact hfresh (by simp)

/-- The files read as the texts, the texts describe the schemas, and no two schemas declare types
of the same name. -/
structure FilesDescribe (read : String → Except FileError String) (files texts : List String)
    (schemas : List Schema) : Prop where
  reads : files.map read = texts.map .ok
  describes : texts.map (fun text => (ofText text).outcome) = schemas.map .ok
  disjoint : schemas.Pairwise fun schema others => schema.names.Disjoint others.names

/-- What is wrong with a file behind the types of others: it cannot be read, does not describe a
schema, or declares a type again. -/
inductive FileFault (directory : String) (read : String → Except FileError String)
    (front : Schema) (file : String) : SchemaError → Prop
  | unreadable {error : FileError} :
      read file = .error error →
        FileFault directory read front file
          (.malformed (.unreadableFile (Path.join directory file) error))
  | malformed {text : String} {reason : Malformation} :
      read file = .ok text → (ofText text).outcome = .error (.malformed reason) →
        FileFault directory read front file (.malformed (.inFile (Path.join directory file) reason))
  | redeclares {text : String} {others : Schema} {name : String} {properties : PropertySet}
      {rest : Schema} :
      read file = .ok text → (ofText text).outcome = .ok (others ++ (name, properties) :: rest) →
      front.names.Disjoint others.names → name ∈ front.names →
        FileFault directory read front file
          (.malformed (.inFile (Path.join directory file)
            (.content (.duplicateEntry .type name))))

theorem malformed_of_ofText {text : String} {error : SchemaError}
    (h : (ofText text).outcome = .error error) : ∃ reason, error = .malformed reason := by
  rw [ofText, Logged.mapError] at h
  generalize (decodeText Tree.schema text).outcome = result at h
  cases result with
  | error placed => exact ⟨_, (Except.error.inj h).symm⟩
  | ok schema => cases h

theorem message_unreadableFile (path : String) (error : FileError) :
    (SchemaError.malformed (.unreadableFile path error)).message =
      "malformed schema: " ++ ("failed to read schema file '" ++ path ++ "': " ++ error.message) :=
  rfl

theorem message_inFile (path : String) (reason : Malformation) :
    (SchemaError.malformed (.inFile path reason)).message =
      "malformed schema: " ++ (path ++ ": malformed schema: " ++ reason.message) :=
  rfl

/-- The message of the error names the file. -/
theorem FileFault.names_file {directory : String} {read : String → Except FileError String}
    {front : Schema} {file : String} {error : SchemaError}
    (h : FileFault directory read front file error) :
    ∃ before behind : String, error.message = before ++ Path.join directory file ++ behind := by
  have hinFile (reason : Malformation) : ∃ before behind : String,
      (SchemaError.malformed (.inFile (Path.join directory file) reason)).message =
        before ++ Path.join directory file ++ behind :=
    ⟨_, _, by rw [message_inFile, String.append_assoc, ← String.append_assoc]⟩
  cases h with
  | @unreadable error _ =>
      refine ⟨"malformed schema: " ++ "failed to read schema file '", "': " ++ error.message, ?_⟩
      rw [message_unreadableFile]
      simp only [String.append_assoc]
  | malformed _ _ => exact hinFile _
  | redeclares _ _ _ _ => exact hinFile _

theorem outcome_ofFileText (path text : String) :
    (ofFileText path text).outcome = (ofText text).outcome.mapError (·.inFile path) := by
  rw [ofFileText, Logged.bind_def, Logged.outcome_bind, Logged.mapError]
  cases (ofText text).outcome <;> rfl

theorem outcome_addRead_error {text : String} {error : SchemaError}
    (h : (ofText text).outcome = .error error) (path : String) (front : Schema) :
    (addRead path (.ok text) front).outcome = .error (error.inFile path) := by
  rw [addRead, ofRead, Logged.outcome_bind, outcome_ofFileText, h]
  rfl

theorem outcome_addRead_ok {text : String} {schema : Schema}
    (h : (ofText text).outcome = .ok schema) (path : String) (front : Schema) :
    (addRead path (.ok text) front).outcome = front.merge path schema := by
  rw [addRead, ofRead, Logged.outcome_bind, outcome_ofFileText, h]
  rfl

section

variable {read : String → Except FileError String}

/-- One more file that describes a schema, with other names than those before it. -/
theorem FilesDescribe.append_singleton {files texts : List String} {schemas : List Schema}
    (h : FilesDescribe read files texts schemas) {file text : String} {schema : Schema}
    (hread : read file = .ok text) (hschema : (ofText text).outcome = .ok schema)
    (hdisjoint : (Entries.names schemas.flatten).Disjoint schema.names) :
    FilesDescribe read (files ++ [file]) (texts ++ [text]) (schemas ++ [schema]) where
  reads := by
    rw [List.map_append, List.map_append, h.reads, List.map_singleton, List.map_singleton, hread]
  describes := by
    rw [List.map_append, List.map_append, h.describes, List.map_singleton, List.map_singleton,
      hschema]
  disjoint := by
    refine List.pairwise_append.mpr ⟨h.disjoint, List.pairwise_singleton _ _, ?_⟩
    intro other hother last hlast name hname hname'
    obtain rfl := List.mem_singleton.mp hlast
    exact hdisjoint (mem_names_flatten.mpr ⟨other, hother, hname⟩) hname'

/-- One more file: its types are put behind those before them, or something is wrong with it. -/
theorem FilesDescribe.step {files texts : List String} {schemas : List Schema}
    (h : FilesDescribe read files texts schemas) (directory file : String) :
    (∃ text schema, FilesDescribe read (files ++ [file]) (texts ++ [text]) (schemas ++ [schema]) ∧
      (addRead (Path.join directory file) (read file) schemas.flatten).outcome =
        .ok (schemas ++ [schema]).flatten) ∨
      ∃ error, FileFault directory read schemas.flatten file error ∧
        (addRead (Path.join directory file) (read file) schemas.flatten).outcome =
          .error error := by
  cases hread : read file with
  | error error => exact .inr ⟨_, .unreadable hread, rfl⟩
  | ok text =>
      cases hschema : (ofText text).outcome with
      | error error =>
          obtain ⟨reason, rfl⟩ := malformed_of_ofText hschema
          exact .inr ⟨_, .malformed hread hschema, outcome_addRead_error hschema _ _⟩
      | ok schema =>
          rw [outcome_addRead_ok hschema]
          obtain ⟨hempty, hnodup, -⟩ := isReadFrom_of_ofText hschema
          rcases merge_cases (Path.join directory file) schemas.flatten hempty hnodup with
            ⟨hdisjoint, hmerge⟩ | ⟨others, name, properties, rest, rfl, hdisjoint, hname, hmerge⟩
          · refine .inl ⟨text, schema, h.append_singleton hread hschema hdisjoint, ?_⟩
            rw [List.flatten_append, List.flatten_singleton]
            exact hmerge
          · exact .inr ⟨_, .redeclares hread hschema hdisjoint hname, hmerge⟩

/-- All files in order: their types are put together, up to the first file with which something is
wrong. -/
theorem FilesDescribe.run {files texts : List String} {schemas : List Schema}
    (h : FilesDescribe read files texts schemas) (directory : String) (others : List String) :
    (∃ texts' schemas', FilesDescribe read (files ++ others) texts' schemas' ∧
      (ofReads directory read others schemas.flatten).outcome = .ok schemas'.flatten) ∨
      ∃ good file rest texts' schemas' error, files ++ others = good ++ file :: rest ∧
        FilesDescribe read good texts' schemas' ∧
        FileFault directory read schemas'.flatten file error ∧
          (ofReads directory read others schemas.flatten).outcome = .error error := by
  induction others generalizing files texts schemas with
  | nil => exact .inl ⟨texts, schemas, by rwa [List.append_nil], rfl⟩
  | cons file rest ih =>
      rw [ofReads, Logged.outcome_bind]
      rcases h.step directory file with ⟨text, schema, hnext, hstep⟩ | ⟨error, hfault, hstep⟩
      · rw [hstep]
        have hrest := ih hnext
        rw [List.append_assoc, List.singleton_append] at hrest
        exact hrest
      · rw [hstep]
        exact .inr ⟨files, file, rest, texts, schemas, error, rfl, h, hfault, rfl⟩

/-- Files that describe schemas with different names are put together. -/
theorem FilesDescribe.outcome_ofReads {files texts : List String} {schemas : List Schema}
    (h : FilesDescribe read files texts schemas) (directory : String) {front : Schema}
    (hfront : ∀ schema ∈ schemas, front.names.Disjoint schema.names) :
    (ofReads directory read files front).outcome = .ok (front ++ schemas.flatten) := by
  induction files generalizing texts schemas front with
  | nil =>
      obtain rfl := List.map_eq_nil_iff.mp h.reads.symm
      obtain rfl := List.map_eq_nil_iff.mp h.describes.symm
      simp [ofReads, Logged.ok]
  | cons file rest ih =>
      obtain ⟨text, texts, rfl, hread, hreads⟩ := List.map_eq_cons_iff.mp h.reads.symm
      obtain ⟨schema, schemas, rfl, hschema, hschemas⟩ := List.map_eq_cons_iff.mp h.describes.symm
      obtain ⟨hapart, hdisjoint⟩ := List.pairwise_cons.mp h.disjoint
      have htext : (ofText text).outcome = .ok schema := hschema.symm
      obtain ⟨hempty, hnodup, -⟩ := isReadFrom_of_ofText htext
      rw [ofReads, Logged.outcome_bind, ← hread, outcome_addRead_ok htext]
      rcases merge_cases (Path.join directory file) front hempty hnodup with
        ⟨-, hmerge⟩ | ⟨others, name, properties, rest', rfl, -, hname, -⟩
      · rw [hmerge, List.flatten_cons, ← List.append_assoc]
        refine ih ⟨hreads.symm, hschemas.symm, hdisjoint⟩ fun other hother => ?_
        rw [Entries.names_append, List.disjoint_append_left]
        exact ⟨hfront other (List.mem_cons_of_mem _ hother), hapart other hother⟩
      · -- a type that is declared twice would be in both
        exact absurd (by simp [Entries.names]) (hfront _ List.mem_cons_self hname)

end

/-! ## The directory as a whole -/

/-- Loading a directory gives the same in whatever order it is listed. Its schema files are those
whose names have the extension, in the order of the names. A schema is loaded if and only if all
of them can be read and describe schemas without a type in two of them; it has the types of these,
file by file, and is the one that the joined text describes. Otherwise the error is that of the
first file that cannot be read, describes no schema, or declares a type again, and names this
file. -/
theorem load_directory {σ : Type} {filesystem : Filesystem (StateM σ)} {state : σ}
    {directory : String} {names : List String} {read : String → Except FileError String}
    (h : filesystem.ShowsDirectory state directory names read) :
    (∀ (filesystem' : Filesystem (StateM σ)) (state' : σ) (names' : List String),
        names'.Perm names → filesystem'.ShowsDirectory state' directory names' read →
        ((load filesystem' directory).run state').1 = ((load filesystem directory).run state).1) ∧
      ((fileNames names).Perm (names.filter (Path.hasExtension "json")) ∧
        (∀ name, Path.hasExtension "json" name = true ↔
          ∃ stem, stem ≠ "" ∧ name = stem ++ ".json") ∧
        (fileNames names).Pairwise (· ≤ ·)) ∧
      (∀ schema, ((load filesystem directory).run state).1.outcome = .ok schema ↔
        ∃ texts schemas, FilesDescribe read (fileNames names) texts schemas ∧
          schema = schemas.flatten) ∧
      (∀ texts schemas, FilesDescribe read (fileNames names) texts schemas →
        (ofText (Document.joined texts)).outcome = .ok schemas.flatten) ∧
      ∀ error, ((load filesystem directory).run state).1.outcome = .error error →
        ∃ good file rest texts schemas, fileNames names = good ++ file :: rest ∧
          FilesDescribe read good texts schemas ∧
          FileFault directory read schemas.flatten file error ∧
          ∃ before behind : String,
            error.message = before ++ Path.join directory file ++ behind := by
  have houtcome := outcome_load h
  have hnone : FilesDescribe read [] [] [] := ⟨rfl, rfl, .nil⟩
  have hrun := hnone.run directory (fileNames names)
  rw [List.nil_append, List.flatten_nil] at hrun
  refine ⟨fun filesystem' state' names' hperm h' => ?_,
    ⟨fileNames_perm names, fun name => Path.hasExtension_json_iff, fileNames_sorted names⟩,
    fun schema => ⟨fun hschema => ?_, ?_⟩,
    fun texts schemas hfiles => ofText_joined hfiles.describes hfiles.disjoint,
    fun error herror => ?_⟩
  · rw [run_load h, run_load h', fileNames_eq_of_perm hperm]
  · rw [houtcome] at hschema
    rcases hrun with ⟨texts, schemas, hfiles, hok⟩ | ⟨_, _, _, _, _, _, -, -, -, hfail⟩
    · rw [hok] at hschema
      exact ⟨texts, schemas, hfiles, (Except.ok.inj hschema).symm⟩
    · rw [hfail] at hschema
      cases hschema
  · rintro ⟨texts, schemas, hfiles, rfl⟩
    rw [houtcome]
    exact hfiles.outcome_ofReads directory (by simp [List.Disjoint])
  · rw [houtcome] at herror
    rcases hrun with ⟨_, _, -, hok⟩ | ⟨good, file, rest, texts, schemas, fault, hsplit, hgood,
      hfault, hfail⟩
    · rw [hok] at herror
      cases herror
    · rw [hfail] at herror
      obtain rfl := Except.error.inj herror
      exact ⟨good, file, rest, texts, schemas, hsplit, hgood, hfault, hfault.names_file⟩

theorem load_directory_author_and_post :
    let entries : List (String × FileTree) :=
      [("post.json", .file "\x7b\"Post\": \x7b\x7d\x7d".toUTF8), ("notes.txt", .file "".toUTF8),
        ("author.json", .file "\x7b \"Author\": \x7b\x7d\x7d\n".toUTF8)]
    let tree := FileTree.directory [("schemas", .directory entries)]
    tree.find "schemas" = .ok (.directory entries) ∧
      ∃ schema, ((load FileTree.filesystem "schemas").run tree).1.outcome = .ok schema ∧
        schema.names = ["Author", "Post"] ∧
        (ofText "\x7b \"Author\": \x7b\x7d,\"Post\": \x7b\x7d\x7d").outcome = .ok schema := by
  intro entries tree
  have hdirectory : tree.find "schemas" = .ok (.directory entries) := rfl
  have hnames : fileNames (Entries.names entries) = ["author.json", "post.json"] :=
    fileNames_eq_of_sorted (by decide +kernel) (by decide +kernel)
  have hsingle (text name : String)
      (h : (ofText text).outcome.toOption.map Entries.names = some [name]) :
      ∃ schema, (ofText text).outcome = .ok schema ∧ schema.names = [name] := by
    cases houtcome : (ofText text).outcome with
    | error error => simp [houtcome, Except.toOption] at h
    | ok schema => exact ⟨schema, rfl, by simpa [houtcome, Except.toOption] using h⟩
  obtain ⟨author, hauthor, hauthorNames⟩ :=
    hsingle "\x7b \"Author\": \x7b\x7d\x7d\n" "Author" (by decide +kernel)
  obtain ⟨post, hpost, hpostNames⟩ :=
    hsingle "\x7b\"Post\": \x7b\x7d\x7d" "Post" (by decide +kernel)
  obtain ⟨-, -, hload, hjoined, -⟩ := load_directory (FileTree.showsDirectory hdirectory)
  have hfiles : FilesDescribe (fun name => tree.readText (Path.join "schemas" name))
      (fileNames (Entries.names entries))
      ["\x7b \"Author\": \x7b\x7d\x7d\n", "\x7b\"Post\": \x7b\x7d\x7d"] [author, post] := by
    rw [hnames]
    refine ⟨by decide +kernel, by simp [hauthor, hpost], ?_⟩
    simp [hauthorNames, hpostNames]
  have htext : Document.joined ["\x7b \"Author\": \x7b\x7d\x7d\n", "\x7b\"Post\": \x7b\x7d\x7d"] =
      "\x7b \"Author\": \x7b\x7d,\"Post\": \x7b\x7d\x7d" := by decide +kernel
  have hdescribes := hjoined _ _ hfiles
  rw [htext] at hdescribes
  refine ⟨hdirectory, _, (hload _).mpr ⟨_, _, hfiles, rfl⟩, ?_, hdescribes⟩
  simp [Entries.names_append, hauthorNames, hpostNames]

end Schema

end RecordSchema
