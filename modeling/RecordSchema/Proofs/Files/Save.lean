import RecordSchema.Command.Run
import RecordSchema.Proofs.Files.Place
import RecordSchema.Proofs.Result

/-!
# Saving a text in a tree of files

A text that is saved changes one file of the tree: the one that its path leads
to afterwards. Everything else stands as it stood, and what is new besides are
directories on the way to the file. `FileTree.SavedAt` states this place by
place.

Main statements: `Command.exists_savedAt_of_saveText`, and for a failure
`Command.addsDirectories_of_saveText_error`.
-/

namespace RecordSchema

namespace FileTree

/-- The second tree is the first with directories in it that were missing on the
way along a path. -/
def AddsDirectories (before after : FileTree) (parts : List String) : Prop :=
  ∀ names, after.itemAt names = before.itemAt names ∨
    (before.itemAt names = none ∧ after.itemAt names = some .directory ∧
      ∃ front, front <+: parts ∧ after.LeadsTo front names)

theorem AddsDirectories.refl (tree : FileTree) (parts : List String) :
    tree.AddsDirectories tree parts :=
  fun _ => .inl rfl

theorem AddsDirectories.keeps {before after : FileTree} {parts : List String}
    (hadd : before.AddsDirectories after parts) : before.Keeps after := by
  intro names item hbefore
  rcases hadd names with hsame | ⟨hnone, -, -⟩
  · exact ⟨item, hsame.trans hbefore, id⟩
  · rw [hbefore] at hnone
    cases hnone

theorem AddsDirectories.mono {before after : FileTree} {parts parts' : List String}
    (hadd : before.AddsDirectories after parts) (hparts : parts <+: parts') :
    before.AddsDirectories after parts' := by
  intro names
  rcases hadd names with hsame | ⟨hnone, hdirectory, front, hfront, hlead⟩
  · exact .inl hsame
  · exact .inr ⟨hnone, hdirectory, front, hfront.trans hparts, hlead⟩

theorem AddsDirectories.trans {before middle after : FileTree} {parts : List String}
    (hfirst : before.AddsDirectories middle parts) (hsecond : middle.AddsDirectories after parts) :
    before.AddsDirectories after parts := by
  intro names
  rcases hsecond names with hsame | ⟨hnone, hdirectory, hlead⟩
  · rcases hfirst names with hsame' | ⟨hnone, hdirectory, front, hfront, hlead⟩
    · exact .inl (hsame.trans hsame')
    · exact .inr ⟨hnone, hsame.trans hdirectory, front, hfront, hlead.keep hsecond.keeps⟩
  · rcases hfirst names with hsame' | ⟨-, hdirectory', -⟩
    · exact .inr ⟨hsame'.symm.trans hnone, hdirectory, hlead⟩
    · rw [hnone] at hdirectory'
      cases hdirectory'

/-- The tree with an empty directory in a directory that a path leads to. -/
theorem itemAt_putDirectory {tree : FileTree} {front : List String} {last : String}
    (hfront : tree.itemAt front = some .directory) (hlast : tree.itemAt (front ++ [last]) = none)
    (names : List String) :
    (tree.put (front ++ [last]) (directory [])).itemAt names =
      if names = front ++ [last] then some .directory else tree.itemAt names :=
  itemAt_put hfront (by simp [hlast]) itemAt_emptyDirectory_cons names

/-- An empty directory for a name that is missing where a path leads to: the name
leads on to it. -/
theorem LeadsTo.putDirectory {tree : FileTree} {parts names : List String} {part : String}
    (hlead : tree.LeadsTo parts names) (hdirectory : tree.itemAt names = some .directory)
    (hname : part ≠ "" ∧ part ≠ "." ∧ part ≠ "..")
    (hnone : tree.itemAt (names ++ [part]) = none) :
    (tree.put (names ++ [part]) (directory [])).LeadsTo (parts ++ [part]) (names ++ [part]) ∧
      tree.AddsDirectories (tree.put (names ++ [part]) (directory [])) (parts ++ [part]) := by
  have hput := itemAt_putDirectory hdirectory hnone
  have hkeep : tree.Keeps (tree.put (names ++ [part]) (directory [])) := by
    intro place item hitem
    refine ⟨item, ?_, id⟩
    rw [hput, if_neg, hitem]
    rintro rfl
    rw [hnone] at hitem
    cases hitem
  have hnew : (tree.put (names ++ [part]) (directory [])).LeadsTo (parts ++ [part])
      (names ++ [part]) :=
    (hlead.keep hkeep).child (hkeep.itemAt_directory hdirectory) hname (by rw [hput]; simp)
  refine ⟨hnew, fun place => ?_⟩
  rw [hput]
  split
  · next hplace =>
    subst hplace
    exact .inr ⟨hnone, rfl, parts ++ [part], List.prefix_refl _, hnew⟩
  · exact .inl rfl

/-- The parts in front of the last one lead to a directory, which holds its entries. -/
theorem leadsTo_of_folder {tree : FileTree} {parts place : List String}
    {entries : List (String × FileTree)} (hfolder : tree.folder parts = .ok (place, entries)) :
    tree.LeadsTo parts.dropLast place ∧ tree.itemAt place = some .directory ∧
      ∀ name, tree.itemAt (place ++ [name]) = (Entries.get? entries name).map item := by
  obtain ⟨⟨above, current⟩, hfollow, hcurrent⟩ := Except.bind_eq_ok_iff.mp hfolder
  have hway : tree.IsWay above current := (isWay_nil _).of_follow hfollow
  cases current with
  | file content => cases hcurrent
  | directory held =>
      cases hcurrent
      exact ⟨⟨above, _, hfollow, rfl⟩, hway.itemAt_namesOf, hway.itemAt_child⟩

/-- The names of a path are those in front of its last one and the last one. -/
theorem dropLast_append_getLast?_getD {parts : List String} (hlast : parts.getLast?.getD "" ≠ "") :
    parts.dropLast ++ [parts.getLast?.getD ""] = parts := by
  have hparts : parts ≠ [] := by
    rintro rfl
    exact hlast rfl
  rw [List.getLast?_eq_some_getLast hparts, Option.getD_some]
  exact List.dropLast_concat_getLast hparts

/-! ## Making directories -/

/-- A directory that is made stands on the way along its path, and nothing else has changed. -/
theorem makeDirectory_addsDirectories {tree made : FileTree} {parts : List String}
    (hmake : tree.makeDirectory parts = .ok made) : tree.AddsDirectories made parts := by
  obtain ⟨⟨place, entries⟩, hfolder, hmake⟩ := Except.bind_eq_ok_iff.mp hmake
  obtain ⟨hlead, hdirectory, hentries⟩ := leadsTo_of_folder hfolder
  dsimp only at hmake
  split at hmake
  · next hfree =>
    cases hmake
    simp only [Bool.and_eq_true, Path.isName_iff, Entries.has, Bool.not_eq_true',
      Option.isSome_eq_false_iff, Option.isNone_iff_eq_none] at hfree
    obtain ⟨hname, hfree⟩ := hfree
    have hnone : tree.itemAt (place ++ [parts.getLast?.getD ""]) = none := by
      rw [hentries, hfree, Option.map_none]
    have hadd := (hlead.putDirectory hdirectory hname hnone).2
    rwa [dropLast_append_getLast?_getD hname.1] at hadd
  · cases hmake

theorem ensureDirectory_addsDirectories {tree made : FileTree} {parts : List String}
    (hmake : tree.ensureDirectory parts = .ok made) : tree.AddsDirectories made parts := by
  rw [ensureDirectory] at hmake
  split at hmake
  · next hdirectory =>
    cases hmake
    exact makeDirectory_addsDirectories hdirectory
  · split at hmake
    · cases hmake
      exact .refl _ _
    · cases hmake

/-- The action adds directories on the way along a path only, whatever comes of it. -/
def Adds {α : Type} (parts : List String) (action : StateM FileTree α) : Prop :=
  ∀ tree : FileTree, tree.AddsDirectories (action.run tree).2 parts

theorem Adds.pure {α : Type} (parts : List String) (value : α) :
    Adds parts (Pure.pure value) :=
  fun tree => .refl tree parts

theorem Adds.bind {α β : Type} {parts : List String} {action : StateM FileTree α}
    {next : α → StateM FileTree β} (h : Adds parts action)
    (hnext : ∀ value, Adds parts (next value)) : Adds parts (action >>= next) :=
  fun tree => (h tree).trans (hnext (action.run tree).1 (action.run tree).2)

theorem Adds.mono {α : Type} {parts parts' : List String} {action : StateM FileTree α}
    (h : Adds parts action) (hparts : parts <+: parts') : Adds parts' action :=
  fun tree => (h tree).mono hparts

theorem adds_ensureDirectory (parts : List String) :
    Adds parts (change (·.ensureDirectory parts)) := by
  intro tree
  simp only [change, StateT.run]
  split
  · next made hmake => exact ensureDirectory_addsDirectories hmake
  · exact .refl tree parts

/-- Making the directories of a path adds directories on its way only, also where it fails in the
end. -/
theorem adds_makeDirectories (base steps : List String) :
    Adds (base ++ steps.reverse) (makeDirectories base steps) := by
  induction steps with
  | nil => exact .pure _ _
  | cons last above ih =>
      have hensure := adds_ensureDirectory (base ++ (last :: above).reverse)
      have hprefix : base ++ above.reverse <+: base ++ (last :: above).reverse := by
        rw [List.reverse_cons, ← List.append_assoc]
        exact List.prefix_append _ _
      rw [makeDirectories]
      refine hensure.bind fun tried => ?_
      split
      · -- the path leads through something missing
        refine (ih.mono hprefix).bind fun made => ?_
        cases made with
        | error error => exact .pure _ _
        | ok _ => exact hensure
      · exact .pure _ _

/-! ## Writing a file -/

/-- A file in a directory that a path leads to, where no directory stands: the
path leads on to it, and everything else stays. -/
theorem LeadsTo.putFile {tree : FileTree} {parts names : List String} {part : String}
    {content : ByteArray} (hlead : tree.LeadsTo parts names)
    (hdirectory : tree.itemAt names = some .directory)
    (hname : part ≠ "" ∧ part ≠ "." ∧ part ≠ "..")
    (hfree : tree.itemAt (names ++ [part]) ≠ some .directory) :
    (tree.put (names ++ [part]) (file content)).LeadsTo (parts ++ [part]) (names ++ [part]) ∧
      tree.Keeps (tree.put (names ++ [part]) (file content)) ∧
      ∀ place, (tree.put (names ++ [part]) (file content)).itemAt place =
        if place = names ++ [part] then some (.file content) else tree.itemAt place := by
  have hput : ∀ place, (tree.put (names ++ [part]) (file content)).itemAt place =
      if place = names ++ [part] then some (.file content) else tree.itemAt place :=
    itemAt_put hdirectory hfree (itemAt_file_cons content)
  have hkeep : tree.Keeps (tree.put (names ++ [part]) (file content)) := by
    intro place item hitem
    rw [hput]
    split
    · next hplace =>
      subst hplace
      exact ⟨_, rfl, fun hitem' => absurd (hitem' ▸ hitem) hfree⟩
    · exact ⟨item, hitem, id⟩
  refine ⟨(hlead.keep hkeep).child (hkeep.itemAt_directory hdirectory) hname ?_, hkeep, hput⟩
  rw [hput]
  simp

/-- A text that is written makes a file at the place that its path leads to, and
changes nothing else. -/
theorem exists_itemAt_of_writeText {tree after : FileTree} {path text : String}
    {working : List String} (hwrite : tree.writeText path text working = .ok after) :
    ∃ place, after.LeadsTo (Path.partsFrom working path) place ∧
      tree.itemAt place ≠ some .directory ∧ tree.Keeps after ∧ ∀ names, after.itemAt names =
        if names = place then some (.file text.toUTF8) else tree.itemAt names := by
  rw [writeText, partsOf] at hwrite
  split at hwrite
  · cases hwrite
  obtain ⟨parts, hparts, hwrite⟩ := Except.bind_eq_ok_iff.mp hwrite
  cases hparts
  dsimp only at hwrite
  split at hwrite
  · next hname =>
    rw [Path.isName_iff] at hname
    obtain ⟨⟨place, entries⟩, hfolder, hwrite⟩ := Except.bind_eq_ok_iff.mp hwrite
    obtain ⟨hlead, hdirectory, hentries⟩ := leadsTo_of_folder hfolder
    dsimp only at hwrite
    split at hwrite
    · cases hwrite
    next hentry =>
      cases hwrite
      have hfree : tree.itemAt (place ++ [(Path.partsFrom working path).getLast?.getD ""]) ≠
          some .directory := by
        rw [hentries]
        intro hitem
        obtain ⟨child, hget, hchild⟩ := Option.map_eq_some_iff.mp hitem
        obtain ⟨held, rfl⟩ := item_eq_directory_iff.mp hchild
        exact hentry held hget
      obtain ⟨hnew, hkeep, hput⟩ := hlead.putFile hdirectory hname hfree
      rw [dropLast_append_getLast?_getD hname.1] at hnew
      exact ⟨_, hnew, hfree, hkeep, hput⟩
  · cases hwrite

/-- The second tree is the first with a content saved in the file that a path
leads to from the working directory: that place holds the content and was no
directory, and all other places are as before, but for directories that were
missing on the way to the parent of the file. -/
structure SavedAt (before after : FileTree) (working : List String) (path : String)
    (content : ByteArray) (place : List String) : Prop where
  leadsTo : after.LeadsTo (Path.partsFrom working path) place
  holds : after.itemAt place = some (.file content)
  free : before.itemAt place ≠ some .directory
  others : ∀ names, names ≠ place → after.itemAt names = before.itemAt names ∨
    (before.itemAt names = none ∧ after.itemAt names = some .directory ∧
      ∃ front, front <+: Path.stepsFrom working (Path.parent path) ∧ after.LeadsTo front names)

/-- Saving is making directories and then writing. -/
theorem AddsDirectories.exists_savedAt {before middle after : FileTree} {working : List String}
    {path text : String}
    (hadd : before.AddsDirectories middle (Path.stepsFrom working (Path.parent path)))
    (hwrite : middle.writeText path text working = .ok after) :
    ∃ place, before.SavedAt after working path text.toUTF8 place := by
  obtain ⟨place, hlead, hfree, hkeep, hput⟩ := exists_itemAt_of_writeText hwrite
  refine ⟨place, hlead, by rw [hput, if_pos rfl], ?_, ?_⟩
  · intro hbefore
    exact hfree (hadd.keeps.itemAt_directory hbefore)
  · intro names hnames
    rw [hput, if_neg hnames]
    rcases hadd names with hsame | ⟨hnone, hdirectory, front, hfront, hlead'⟩
    · exact .inl hsame
    · exact .inr ⟨hnone, hdirectory, front, hfront, hlead'.keep hkeep⟩

end FileTree

namespace Command

open FileTree

theorem eq_ok_of_run_change {f : FileTree → Except FileError FileTree} {tree after : FileTree}
    (hchange : (change f).run tree = (.ok (), after)) : f tree = .ok after := by
  simp only [change, StateT.run] at hchange
  split at hchange
  · next changed hf =>
    cases hchange
    exact hf
  · cases hchange

/-- A change that fails leaves the tree as it is. -/
theorem eq_of_run_change_error {f : FileTree → Except FileError FileTree} {tree after : FileTree}
    {error : FileError} (hchange : (change f).run tree = (.error error, after)) :
    after = tree := by
  simp only [change, StateT.run] at hchange
  split at hchange
  · cases hchange
  · cases hchange
    rfl

variable {working : List String} {tree after : FileTree} {path text : String}

/-- What saving does to a tree: directories are made if the parent of the file is missing. -/
theorem run_saveText (working : List String) (path text : String) (tree : FileTree) :
    (saveText (filesystem working) path text).run tree =
      if Path.parent path = "" || tree.isDirectory (Path.parent path) working ||
          tree.isFile (Path.parent path) working then
        (change (·.writeText path text working)).run tree
      else
        match (makeDirectories (Path.start working (Path.parent path))
          (Path.steps (Path.parent path)).reverse).run tree with
        | (.error error, made) => (.error error, made)
        | (.ok (), made) => (change (·.writeText path text working)).run made := by
  rw [saveText, StateT.run_bind]
  change StateT.run (if Path.parent path = "" || tree.isDirectory (Path.parent path) working ||
    tree.isFile (Path.parent path) working then _ else _) tree = _
  split
  · rfl
  · rw [StateT.run_bind]
    simp only [filesystem]
    generalize (makeDirectories _ _).run tree = ran
    obtain ⟨result, made⟩ := ran
    cases result <;> rfl

/-- Saving makes missing directories, and then fails or writes the file. -/
theorem run_saveText_cases (working : List String) (path text : String) (tree : FileTree) :
    ∃ made, tree.AddsDirectories made (Path.stepsFrom working (Path.parent path)) ∧
      ((∃ error, (saveText (filesystem working) path text).run tree = (.error error, made)) ∨
        (saveText (filesystem working) path text).run tree =
          (change (·.writeText path text working)).run made) := by
  have hadds := adds_makeDirectories (Path.start working (Path.parent path))
    (Path.steps (Path.parent path)).reverse tree
  rw [List.reverse_reverse] at hadds
  rw [run_saveText]
  split
  · exact ⟨tree, .refl tree _, .inr rfl⟩
  · refine ⟨_, hadds, ?_⟩
    generalize (makeDirectories _ _).run tree = ran
    obtain ⟨result, made⟩ := ran
    cases result with
    | error error => exact .inl ⟨error, rfl⟩
    | ok _ => exact .inr rfl

/-- A text that has been saved stands in the file of its path, and nothing else
has changed but that directories have been made on the way. -/
theorem exists_savedAt_of_saveText
    (hsave : (saveText (filesystem working) path text).run tree = (.ok (), after)) :
    ∃ place, tree.SavedAt after working path text.toUTF8 place := by
  obtain ⟨made, hadd, ⟨error, hfail⟩ | hrun⟩ := run_saveText_cases working path text tree
  · cases hfail.symm.trans hsave
  · exact hadd.exists_savedAt (eq_ok_of_run_change (hrun.symm.trans hsave))

/-- Where saving fails, directories may have been made on the way to the file. -/
theorem addsDirectories_of_saveText_error {error : FileError}
    (hsave : (saveText (filesystem working) path text).run tree = (.error error, after)) :
    tree.AddsDirectories after (Path.stepsFrom working (Path.parent path)) := by
  obtain ⟨made, hadd, ⟨error', hfail⟩ | hrun⟩ := run_saveText_cases working path text tree
  · cases hfail.symm.trans hsave
    exact hadd
  · rw [eq_of_run_change_error (hrun.symm.trans hsave)]
    exact hadd

end Command

end RecordSchema
