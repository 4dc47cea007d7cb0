import RecordSchema.Files.Tree

/-!
# Places in a tree of files

A place is the list of names that lead to it from the root of a tree, without
empty parts or points. `FileTree.itemAt` tells what stands at a place: a file
with its bytes or a directory. A path, which may go up as well, leads to a place
in one tree and to none in another; that is `FileTree.LeadsTo`.

Two trees are compared place by place. `FileTree.Keeps` says that a second tree
has something at every place of the first, and directories where the first has
directories, so that paths lead to the same places in both.

Main statements: `FileTree.itemAt_put`, which says what stands where after
something is put into a tree, and `FileTree.LeadsTo.keep`.
-/

namespace RecordSchema

namespace FileTree

/-- What stands at a place, without what a directory holds. -/
inductive Item where
  | file (content : ByteArray)
  | directory

/-- The item at the root of a tree. -/
def item : FileTree → Item
  | file content => .file content
  | directory _ => .directory

/-- What stands at a place, with everything below it. -/
def at? : FileTree → List String → Option FileTree
  | tree, [] => some tree
  | file _, _ :: _ => none
  | directory entries, name :: names =>
    match Entries.get? entries name with
    | none => none
    | some child => child.at? names

/-- The item at a place, if there is one. -/
def itemAt (tree : FileTree) (names : List String) : Option Item :=
  (tree.at? names).map item

@[simp] theorem at?_nil (tree : FileTree) : tree.at? [] = some tree := by
  cases tree <;> rfl

@[simp] theorem at?_file_cons (content : ByteArray) (name : String) (names : List String) :
    (file content).at? (name :: names) = none := rfl

theorem at?_directory_cons (entries : List (String × FileTree)) (name : String)
    (names : List String) :
    (directory entries).at? (name :: names) =
      (Entries.get? entries name).bind fun child => child.at? names := by
  rw [at?]
  cases Entries.get? entries name <;> rfl

/-- A place below a place is one place below what stands there. -/
theorem at?_append (tree : FileTree) (front back : List String) :
    tree.at? (front ++ back) = (tree.at? front).bind fun found => found.at? back := by
  induction front generalizing tree with
  | nil => simp
  | cons name front ih =>
      cases tree with
      | file content => rfl
      | directory entries =>
          rw [List.cons_append, at?_directory_cons, at?_directory_cons]
          cases Entries.get? entries name with
          | none => rfl
          | some child => exact ih child

@[simp] theorem itemAt_nil (tree : FileTree) : tree.itemAt [] = some tree.item := by
  simp [itemAt]

@[simp] theorem itemAt_file_cons (content : ByteArray) (name : String) (names : List String) :
    (file content).itemAt (name :: names) = none := rfl

theorem itemAt_directory_cons (entries : List (String × FileTree)) (name : String)
    (names : List String) :
    (directory entries).itemAt (name :: names) =
      (Entries.get? entries name).bind fun child => child.itemAt names := by
  rw [itemAt, at?_directory_cons]
  cases Entries.get? entries name <;> rfl

@[simp] theorem itemAt_emptyDirectory_cons (name : String) (names : List String) :
    (directory []).itemAt (name :: names) = none := rfl

theorem item_eq_directory_iff {tree : FileTree} :
    tree.item = .directory ↔ ∃ entries, tree = directory entries := by
  cases tree <;> simp [item]

/-- Putting something where a directory holds a file or nothing changes that
place only. -/
theorem itemAt_put {tree new : FileTree} {front : List String} {last : String}
    (hfront : tree.itemAt front = some .directory)
    (hlast : tree.itemAt (front ++ [last]) ≠ some .directory)
    (hnew : ∀ name names, new.itemAt (name :: names) = none) (names : List String) :
    (tree.put (front ++ [last]) new).itemAt names =
      if names = front ++ [last] then some new.item else tree.itemAt names := by
  induction front generalizing tree names with
  | nil =>
      obtain ⟨entries, rfl⟩ : ∃ entries, tree = directory entries := by
        simpa [item_eq_directory_iff] using hfront
      simp only [List.nil_append, put]
      cases names with
      | nil => simp [item]
      | cons name names =>
          rw [itemAt_directory_cons, itemAt_directory_cons]
          by_cases hname : name = last
          · subst hname
            rw [Entries.get?_put_self, Option.bind_some]
            cases names with
            | nil => simp
            | cons below names =>
                -- nothing stood below, since no directory stood there
                rw [hnew, if_neg (by simp)]
                rw [List.nil_append, itemAt_directory_cons] at hlast
                cases hchild : Entries.get? entries name with
                | none => rfl
                | some child =>
                    cases child with
                    | file content => rfl
                    | directory held => simp [hchild, item] at hlast
          · rw [Entries.get?_put_of_ne (Ne.symm hname), if_neg (by simp [hname])]
  | cons first front ih =>
      cases tree with
      | file content => cases hfront
      | directory entries =>
          rw [itemAt_directory_cons] at hfront
          rw [List.cons_append, itemAt_directory_cons] at hlast
          simp only [List.cons_append, put]
          cases hchild : Entries.get? entries first with
          | none => simp [hchild] at hfront
          | some child =>
              simp only [hchild, Option.bind_some] at hfront hlast
              rw [Option.getD_some]
              cases names with
              | nil => simp [item]
              | cons name names =>
                  rw [itemAt_directory_cons, itemAt_directory_cons]
                  by_cases hname : name = first
                  · subst hname
                    rw [Entries.get?_put_self, Option.bind_some, ih hfront hlast, hchild,
                      Option.bind_some]
                    simp
                  · rw [Entries.get?_put_of_ne (Ne.symm hname), if_neg (by simp [hname])]

/-- The directories of `above` lead from the root of the tree to `current`. -/
def IsWay (tree : FileTree) : List (String × FileTree) → FileTree → Prop
  | [], current => current = tree
  | (name, parent) :: above, current =>
    (∃ entries, parent = directory entries ∧ Entries.get? entries name = some current) ∧
      IsWay tree above parent

/-- A way goes on from a directory to what it holds. -/
theorem IsWay.child {tree : FileTree} {above entries : List (String × FileTree)} {name : String}
    {child : FileTree} (hway : tree.IsWay above (directory entries))
    (hget : Entries.get? entries name = some child) :
    tree.IsWay ((name, directory entries) :: above) child :=
  ⟨⟨entries, rfl, hget⟩, hway⟩

theorem isWay_nil (tree : FileTree) : tree.IsWay [] tree :=
  rfl

@[simp] theorem namesOf_nil : namesOf [] = [] := rfl

@[simp] theorem namesOf_cons (name : String) (parent : FileTree)
    (above : List (String × FileTree)) :
    namesOf ((name, parent) :: above) = namesOf above ++ [name] := by
  simp [namesOf]

/-- What a way leads to stands at the place with its names. -/
theorem IsWay.at?_namesOf {tree : FileTree} {above : List (String × FileTree)}
    {current : FileTree} (hway : tree.IsWay above current) :
    tree.at? (namesOf above) = some current := by
  induction above generalizing current with
  | nil =>
      have hcurrent : current = tree := hway
      simp [hcurrent]
  | cons step above ih =>
      obtain ⟨name, parent⟩ := step
      obtain ⟨⟨entries, rfl, hget⟩, hrest⟩ := hway
      rw [namesOf_cons, at?_append, ih hrest, Option.bind_some, at?_directory_cons, hget,
        Option.bind_some, at?_nil]

theorem IsWay.itemAt_namesOf {tree : FileTree} {above : List (String × FileTree)}
    {current : FileTree} (hway : tree.IsWay above current) :
    tree.itemAt (namesOf above) = some current.item := by
  rw [itemAt, hway.at?_namesOf, Option.map_some]

/-- What stands in a directory that a way leads to. -/
theorem IsWay.itemAt_child {tree : FileTree} {above : List (String × FileTree)}
    {entries : List (String × FileTree)} (hway : tree.IsWay above (directory entries))
    (name : String) :
    tree.itemAt (namesOf above ++ [name]) = (Entries.get? entries name).map item := by
  rw [itemAt, at?_append, hway.at?_namesOf, Option.bind_some, at?_directory_cons]
  cases Entries.get? entries name <;> simp

theorem follow_directory_cons (above : List (String × FileTree))
    (entries : List (String × FileTree)) (part : String) (rest : List String) :
    follow above (directory entries) (part :: rest) =
      if part = "" || part = "." then
        follow above (directory entries) rest
      else if part = ".." then
        match above with
        | [] => follow [] (directory entries) rest
        | (_, parent) :: above => follow above parent rest
      else
        match Entries.get? entries part with
        | none => .error .notFound
        | some child => follow ((part, directory entries) :: above) child rest :=
  rfl

/-- Following a path goes from the end of a way to the end of a way. -/
theorem IsWay.of_follow {tree : FileTree} {above above' : List (String × FileTree)}
    {current current' : FileTree} {parts : List String} (hway : tree.IsWay above current)
    (hfollow : follow above current parts = .ok (above', current')) :
    tree.IsWay above' current' := by
  induction parts generalizing above current with
  | nil =>
      cases hfollow
      exact hway
  | cons part rest ih =>
      cases current with
      | file content => cases hfollow
      | directory entries =>
          rw [follow_directory_cons] at hfollow
          split at hfollow
          · exact ih hway hfollow
          split at hfollow
          · cases above with
            | nil => exact ih hway hfollow
            | cons step above => exact ih hway.2 hfollow
          · cases hget : Entries.get? entries part with
            | none => simp [hget] at hfollow
            | some child =>
                simp only [hget] at hfollow
                exact ih (hway.child hget) hfollow

theorem follow_append (above : List (String × FileTree)) (current : FileTree)
    (front back : List String) :
    follow above current (front ++ back) =
      (follow above current front).bind fun found => follow found.1 found.2 back := by
  induction front generalizing above current with
  | nil => rfl
  | cons part front ih =>
      cases current with
      | file content => rfl
      | directory entries =>
          rw [List.cons_append, follow_directory_cons, follow_directory_cons]
          split
          · exact ih above (directory entries)
          split
          · cases above with
            | nil => exact ih [] (directory entries)
            | cons step above => exact ih above step.2
          · cases Entries.get? entries part with
            | none => rfl
            | some child => exact ih _ child

/-- The parts of a path lead to a place of the tree. -/
def LeadsTo (tree : FileTree) (parts names : List String) : Prop :=
  ∃ above current, follow [] tree parts = .ok (above, current) ∧ namesOf above = names

/-- A name leads on from a directory to what it holds under the name. -/
theorem LeadsTo.child {tree : FileTree} {parts names : List String} {part : String}
    (hlead : tree.LeadsTo parts names) (hdirectory : tree.itemAt names = some .directory)
    (hname : part ≠ "" ∧ part ≠ "." ∧ part ≠ "..")
    (hchild : (tree.itemAt (names ++ [part])).isSome) :
    tree.LeadsTo (parts ++ [part]) (names ++ [part]) := by
  obtain ⟨above, current, hfollow, rfl⟩ := hlead
  have hway : tree.IsWay above current := (isWay_nil tree).of_follow hfollow
  rw [hway.itemAt_namesOf, Option.some.injEq, item_eq_directory_iff] at hdirectory
  obtain ⟨entries, rfl⟩ := hdirectory
  rw [hway.itemAt_child, Option.isSome_map] at hchild
  obtain ⟨child, hget⟩ := Option.isSome_iff_exists.mp hchild
  refine ⟨(part, directory entries) :: above, child, ?_, namesOf_cons ..⟩
  rw [follow_append, hfollow]
  simp [Except.bind, follow, hname, hget]

/-- The second tree has something at every place of the first, and directories
where the first has them. -/
def Keeps (before after : FileTree) : Prop :=
  ∀ names item, before.itemAt names = some item →
    ∃ item', after.itemAt names = some item' ∧ (item = .directory → item' = .directory)

theorem Keeps.itemAt_directory {before after : FileTree} (hkeep : before.Keeps after)
    {names : List String} (hbefore : before.itemAt names = some .directory) :
    after.itemAt names = some .directory := by
  obtain ⟨item, hafter, hdirectory⟩ := hkeep names .directory hbefore
  rw [hafter, hdirectory rfl]

/-- Two ways with the same names stay side by side along a path. -/
theorem Keeps.exists_follow {before after : FileTree} (hkeep : before.Keeps after)
    {above above₁ above' : List (String × FileTree)} {current current₁ current' : FileTree}
    {parts : List String} (hway : before.IsWay above current) (hway' : after.IsWay above' current')
    (hnames : namesOf above' = namesOf above)
    (hfollow : follow above current parts = .ok (above₁, current₁)) :
    ∃ above₂ current₂, follow above' current' parts = .ok (above₂, current₂) ∧
      namesOf above₂ = namesOf above₁ := by
  induction parts generalizing above current above' current' with
  | nil =>
      cases hfollow
      exact ⟨above', current', rfl, hnames⟩
  | cons part rest ih =>
      cases current with
      | file content => cases hfollow
      | directory entries =>
          -- the second way has reached a directory too
          obtain ⟨entries', rfl⟩ : ∃ entries', current' = directory entries' := by
            have hitem := hkeep.itemAt_directory hway.itemAt_namesOf
            rw [← hnames, hway'.itemAt_namesOf, Option.some.injEq] at hitem
            exact item_eq_directory_iff.mp hitem
          rw [follow_directory_cons] at hfollow ⊢
          split at hfollow
          · rw [if_pos ‹_›]
            exact ih hway hway' hnames hfollow
          rw [if_neg ‹_›]
          split at hfollow
          · rw [if_pos ‹_›]
            cases above with
            | nil =>
                cases above' with
                | nil => exact ih hway hway' hnames hfollow
                | cons step' above' => simp [namesOf] at hnames
            | cons step above =>
                cases above' with
                | nil => simp [namesOf] at hnames
                | cons step' above' =>
                    have hup : namesOf above' = namesOf above := by
                      rw [namesOf_cons step.1 step.2, namesOf_cons step'.1 step'.2] at hnames
                      exact (List.append_inj' hnames rfl).1
                    exact ih hway.2 hway'.2 hup hfollow
          rw [if_neg ‹_›]
          cases hget : Entries.get? entries part with
          | none => simp [hget] at hfollow
          | some child =>
              obtain ⟨child', hget'⟩ : ∃ child', Entries.get? entries' part = some child' := by
                obtain ⟨item, hitem, -⟩ := hkeep (namesOf above ++ [part]) child.item
                  (by rw [hway.itemAt_child, hget, Option.map_some])
                rw [← hnames, hway'.itemAt_child, Option.map_eq_some_iff] at hitem
                exact hitem.imp fun _ hfound => hfound.1
              simp only [hget] at hfollow
              simp only [hget']
              exact ih (hway.child hget) (hway'.child hget')
                (by rw [namesOf_cons, namesOf_cons, hnames]) hfollow

/-- A path leads to the same place in a tree that keeps what was there. -/
theorem LeadsTo.keep {before after : FileTree} {parts names : List String}
    (hlead : before.LeadsTo parts names) (hkeep : before.Keeps after) :
    after.LeadsTo parts names := by
  obtain ⟨above, current, hfollow, rfl⟩ := hlead
  exact hkeep.exists_follow (isWay_nil before) (isWay_nil after) rfl hfollow

end FileTree

end RecordSchema
