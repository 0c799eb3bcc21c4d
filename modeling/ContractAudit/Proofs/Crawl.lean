import ContractAudit.Proofs.Crawl.Listing

/-!
# What a crawl finds

A crawl takes the wanted files below its folder in the order of their paths, up to the cap, whatever order
the folders list their entries in. What stands below a folder is told by `FileSystem.bytesAt?`, which looks
up names one by one and takes a link for the file that it leads to.
-/

namespace ContractAudit

/-! ## Look-up by place -/

namespace FileTree

/-- No folder has a name twice. -/
inductive Distinct : FileTree → Prop where
  | file {bytes : List UInt8} : Distinct (.file bytes)
  | link {target : String} : Distinct (.link target)
  | folder {entries : List (String × FileTree)} (hn : (entries.map (·.1)).Nodup)
      (h : ∀ e ∈ entries, Distinct e.2) : Distinct (.folder entries)

theorem at?_append (t : FileTree) (p q : List String) : t.at? (p ++ q) = (t.at? p).bind (·.at? q) := by
  induction p generalizing t with
  | nil => simp [at?]
  | cons name p ih =>
    cases t with
    | folder entries =>
      simp only [List.cons_append, at?]
      cases Table.get? entries name with
      | none => rfl
      | some t => exact ih t
    | file bytes => rfl
    | link target => rfl

/-- What stands in a folder, its own entries left out. -/
def top : FileTree → FileTree
  | folder _ => folder []
  | t => t

/-- Two trees have the same files, folders and links, in whatever order they list them. -/
def Relists (t t' : FileTree) : Prop := ∀ place, (t.at? place).map top = (t'.at? place).map top

end FileTree

namespace FileSystem

/-- The bytes of the file at a place, or of the file that the link there leads to. -/
def bytesAt? (fs : FileSystem) (place : List String) : Option (List UInt8) :=
  match fs.root.at? place with
  | some (.file bytes) => some bytes
  | some (.link target) => { fs with workingFolder := place.dropLast }.read? (.ofString target)
  | _ => none

/-! ## What a crawl sees -/

theorem sourceEntries_eq (fs : FileSystem) (place : List String) (entries : List (String × FileTree)) :
    fs.sourceEntries place entries =
      entries.filterMap fun e => (fs.sources (place ++ [e.1]) e.2).map (e.1, ·) := by
  induction entries with
  | nil => rfl
  | cons e es ih => rw [sourceEntries, ih, Crawl.filterMap_cons_toList, sourceEntry]

section Entries

variable {α β : Type} {entries : List (String × α)}

/-- Entries that keep their names keep them apart. -/
theorem nodup_filterMap (hn : (entries.map (·.1)).Nodup) (f : String → α → Option β) :
    ((entries.filterMap fun e => (f e.1 e.2).map (e.1, ·)).map (·.1)).Nodup := by
  refine List.pairwise_map.mpr ((List.pairwise_map.mp hn).filterMap _ fun a b hab a' ha b' hb => ?_)
  obtain ⟨x, -, rfl⟩ := Option.map_eq_some_iff.mp ha
  obtain ⟨y, -, rfl⟩ := Option.map_eq_some_iff.mp hb
  exact hab

theorem get?_filterMap (hn : (entries.map (·.1)).Nodup) (f : String → α → Option β) (name : String) :
    Table.get? (entries.filterMap fun e => (f e.1 e.2).map (e.1, ·)) name =
      (Table.get? entries name).bind (f name) := by
  ext y
  rw [Table.get?_eq_some_iff (nodup_filterMap hn f), Option.bind_eq_some_iff, List.mem_filterMap]
  constructor
  · rintro ⟨⟨name', x⟩, hx, hy⟩
    obtain ⟨y', hy', he⟩ := Option.map_eq_some_iff.mp hy
    cases he
    exact ⟨x, (Table.get?_eq_some_iff hn).mpr hx, hy'⟩
  · rintro ⟨x, hx, hy⟩
    exact ⟨(name, x), Table.mem_of_get? hx, by simp [hy]⟩

end Entries

/-- A link is a file to a crawl, unless it leads to a folder. -/
theorem linkSources_cases (fs : FileSystem) (place : List String) (target : String) :
    fs.linkSources place target =
        some (.file ({ fs with workingFolder := place }.read? (.ofString target))) ∨
      (fs.linkSources place target = none ∧
        { fs with workingFolder := place }.read? (.ofString target) = none) := by
  simp only [linkSources, read?, locate]
  cases follow fs.root false maxLinks (startOf (.ofString target) place) (Path.ofString target).parts with
  | error e => exact .inl rfl
  | ok there =>
    cases hthere : fs.root.at? there with
    | none => exact .inr (by simp [hthere])
    | some t => cases t <;> simp [hthere]

theorem distinct_sources {fs : FileSystem} {t : FileTree} (h : t.Distinct) {place : List String}
    {s : SourceTree} (hs : fs.sources place t = some s) : s.Distinct := by
  induction h generalizing place s with
  | file => cases hs; exact .file
  | @link target =>
    rw [sources] at hs
    rcases fs.linkSources_cases place.dropLast target with hl | ⟨hl, -⟩
    · rw [hl] at hs
      cases hs
      exact .file
    · rw [hl] at hs
      cases hs
  | @folder entries hn _ ih =>
    cases hs
    rw [sourceEntries_eq]
    refine .folder (nodup_filterMap hn fun name t => fs.sources (place ++ [name]) t) fun e' he' => ?_
    obtain ⟨e, he, hs⟩ := List.mem_filterMap.mp he'
    obtain ⟨s, hsource, rfl⟩ := Option.map_eq_some_iff.mp hs
    exact ih e he hsource

/-- What a crawl sees below a place is what is found there. -/
theorem bytesAt?_sources {fs : FileSystem} {t : FileTree} (h : t.Distinct) {place : List String}
    (ht : fs.root.at? place = some t) (names : List String) :
    (fs.sources place t).bind (·.bytesAt? names) = fs.bytesAt? (place ++ names) := by
  induction h generalizing place names with
  | file =>
    cases names <;> simp [sources, bytesAt?, SourceTree.bytesAt?, FileTree.at?_append, ht, FileTree.at?]
  | @link target =>
    rcases fs.linkSources_cases place.dropLast target with hl | ⟨hl, hr⟩ <;> cases names <;>
      simp [sources, bytesAt?, SourceTree.bytesAt?, FileTree.at?_append, FileTree.at?, *]
  | @folder entries hn _ ih =>
    cases names with
    | nil => simp [sources, bytesAt?, SourceTree.bytesAt?, ht]
    | cons name names =>
      have hnext : fs.root.at? (place ++ [name]) = Table.get? entries name := by
        rw [FileTree.at?_append, ht, Option.bind_some, FileTree.at?]
        cases Table.get? entries name <;> rfl
      have hget := get?_filterMap hn (fun name t => fs.sources (place ++ [name]) t) name
      rw [List.append_cons, sources, Option.bind_some, SourceTree.bytesAt?, sourceEntries_eq, hget]
      cases hentry : Table.get? entries name with
      | none =>
        rw [hentry] at hnext
        have hnone : fs.root.at? (place ++ [name] ++ names) = none := by
          rw [FileTree.at?_append, hnext, Option.bind_none]
        simp only [bytesAt?, hnone, Option.bind_none]
      | some t =>
        rw [hentry] at hnext
        rw [← ih _ (Table.mem_of_get? hentry) hnext names, Option.bind_some]
        cases fs.sources (place ++ [name]) t <;> rfl

end FileSystem

/-! ## Other orders of the entries -/

namespace FileTree.Relists

variable {t t' : FileTree} {place : List String}

theorem at?_none (h : t.Relists t') (hp : t.at? place = none) : t'.at? place = none := by
  simpa [hp] using (h place).symm

theorem exists_at? (h : t.Relists t') {u : FileTree} (hp : t.at? place = some u) :
    ∃ u', t'.at? place = some u' ∧ u'.top = u.top :=
  Option.map_eq_some_iff.mp ((h place).symm.trans (congrArg (Option.map top) hp))

theorem at?_file (h : t.Relists t') {bytes : List UInt8} (hp : t.at? place = some (.file bytes)) :
    t'.at? place = some (.file bytes) := by
  obtain ⟨u, hu, htop⟩ := h.exists_at? hp
  cases u with
  | file bytes' => cases htop; exact hu
  | folder entries => cases htop
  | link target => cases htop

theorem at?_link (h : t.Relists t') {target : String} (hp : t.at? place = some (.link target)) :
    t'.at? place = some (.link target) := by
  obtain ⟨u, hu, htop⟩ := h.exists_at? hp
  cases u with
  | link target' => cases htop; exact hu
  | folder entries => cases htop
  | file bytes => cases htop

theorem at?_folder (h : t.Relists t') {entries : List (String × FileTree)}
    (hp : t.at? place = some (.folder entries)) : ∃ entries', t'.at? place = some (.folder entries') := by
  obtain ⟨u, hu, htop⟩ := h.exists_at? hp
  cases u with
  | folder entries' => exact ⟨entries', hu⟩
  | file bytes => cases htop
  | link target => cases htop

end FileTree.Relists

/-- A folder with distinct names may list its entries in any order. -/
theorem FileTree.relists_of_perm {entries entries' : List (String × FileTree)}
    (hn : (entries.map (·.1)).Nodup) (hp : entries.Perm entries') :
    (folder entries).Relists (folder entries') := by
  intro place
  cases place with
  | nil => rfl
  | cons name names =>
    have hget : Table.get? entries name = Table.get? entries' name := by
      ext t
      rw [Table.get?_eq_some_iff hn, Table.get?_eq_some_iff ((hp.map _).nodup_iff.mp hn), hp.mem_iff]
    simp only [at?, hget]

namespace FileSystem

/-- The same way is taken through both trees. -/
theorem follow_eq_of_relists {root root' : FileTree} (h : root.Relists root') (create : Bool) (links : Nat)
    (place names : List String) :
    follow root create links place names = follow root' create links place names := by
  fun_induction follow root create links place names with
  | case1 place => rw [follow]
  | case2 links place names ih => rw [follow, if_pos rfl, ih]
  | case3 links place name names hname next hnext hnew =>
    have hnext' : root'.at? (place ++ [name]) = none := h.at?_none hnext
    simp only [follow, if_neg hname, hnext', hnew, if_true, next]
  | case4 links place name names hname next hnext hold =>
    have hnext' : root'.at? (place ++ [name]) = none := h.at?_none hnext
    simp only [follow, if_neg hname, hnext', if_neg hold]
  | case5 links place name names hname next entries hnext ih =>
    obtain ⟨entries', hnext'⟩ : ∃ entries', root'.at? (place ++ [name]) = some (.folder entries') :=
      h.at?_folder hnext
    simp only [follow, if_neg hname, hnext', ih, next]
  | case6 links place name names hname next bytes hnext hend =>
    have hnext' : root'.at? (place ++ [name]) = some (.file bytes) := h.at?_file hnext
    simp only [follow, if_neg hname, hnext', if_pos hend, next]
  | case7 links place name names hname next bytes hnext hmore =>
    have hnext' : root'.at? (place ++ [name]) = some (.file bytes) := h.at?_file hnext
    simp only [follow, if_neg hname, hnext', if_neg hmore]
  | case8 place name names hname next target hnext =>
    have hnext' : root'.at? (place ++ [name]) = some (.link target) := h.at?_link hnext
    simp only [follow, if_neg hname, hnext']
  | case9 place name names hname next target hnext n path ih =>
    have hnext' : root'.at? (place ++ [name]) = some (.link target) := h.at?_link hnext
    simp only [follow, if_neg hname, hnext', ih, path]

variable {fs fs' : FileSystem}

theorem locate_eq_of_relists (h : fs.root.Relists fs'.root) (hw : fs.workingFolder = fs'.workingFolder)
    (create : Bool) (path : Path) : fs.locate create path = fs'.locate create path := by
  rw [locate, locate, hw, follow_eq_of_relists h]

theorem read?_eq_of_relists (h : fs.root.Relists fs'.root) (hw : fs.workingFolder = fs'.workingFolder)
    (path : Path) : fs.read? path = fs'.read? path := by
  simp only [read?, locate_eq_of_relists h hw]
  cases fs'.locate false path with
  | error e => rfl
  | ok place =>
    cases hplace : fs.root.at? place with
    | none => simp only [hplace, h.at?_none hplace]
    | some t =>
      cases t with
      | file bytes => simp only [hplace, h.at?_file hplace]
      | link target => simp only [hplace, h.at?_link hplace]
      | folder entries =>
        obtain ⟨entries', hplace'⟩ := h.at?_folder hplace
        simp only [hplace, hplace']

theorem bytesAt?_eq_of_relists (h : fs.root.Relists fs'.root) (place : List String) :
    fs.bytesAt? place = fs'.bytesAt? place := by
  simp only [bytesAt?]
  cases hplace : fs.root.at? place with
  | none => simp only [h.at?_none hplace]
  | some t =>
    cases t with
    | file bytes => simp only [h.at?_file hplace]
    | link target =>
      simp only [h.at?_link hplace]
      exact @read?_eq_of_relists ⟨fs.root, place.dropLast⟩ ⟨fs'.root, place.dropLast⟩ h rfl _
    | folder entries =>
      obtain ⟨entries', hplace'⟩ := h.at?_folder hplace
      simp only [hplace']

end FileSystem

/-! ## Crawls -/

namespace Crawl

/-- The file has an accepted extension, none of its folders is always left out, and it is not in vendored
code where that is left out. -/
structure Wants (c : Crawl) (f : TreeFile) : Prop where
  extension : Path.extension f.name ∈ c.extensions
  folders : ∀ d ∈ f.folders, d ∉ skippedFolders
  path : c.filter = true → Vendored.holds f.path = false

theorem wants_iff {c : Crawl} {f : TreeFile} : c.wants "" f = true ↔ c.Wants f := by
  have hpath : c.leavesOut f.path = false ↔ (c.filter = true → Vendored.holds f.path = false) := by
    cases hf : c.filter <;> simp [leavesOut, hf]
  constructor
  · intro h
    simp only [wants, accepts, Bool.and_eq_true, List.all_eq_true, Bool.not_eq_true', String.empty_append,
      List.contains_iff_mem, hpath] at h
    exact ⟨h.1.1, fun d hd => by simpa using h.1.2 d hd, h.2⟩
  · rintro ⟨he, hf, hp⟩
    simp only [wants, accepts, Bool.and_eq_true, List.all_eq_true, Bool.not_eq_true', String.empty_append,
      List.contains_iff_mem, hpath]
    exact ⟨⟨he, fun d hd => by simpa using hf d hd⟩, hp⟩

/-- `L` are the wanted files below the folder at `place`, in order. -/
structure Finds (c : Crawl) (fs : FileSystem) (place : List String) (L : List TreeFile) : Prop where
  order : L.Pairwise TreeFile.Precedes
  mem : ∀ f, f ∈ L ↔ fs.bytesAt? (place ++ (f.folders ++ [f.name])) = some f.bytes ∧ c.Wants f

theorem Finds.unique {c : Crawl} {fs fs' : FileSystem} {place : List String} {L L' : List TreeFile}
    (h : c.Finds fs place L) (h' : c.Finds fs' place L') (hr : fs.root.Relists fs'.root) : L = L' := by
  refine TreeFile.eq_of_pairwise_precedes h.order h'.order fun f => ?_
  rw [h.mem, h'.mem, FileSystem.bytesAt?_eq_of_relists hr]

theorem exists_finds (c : Crawl) {fs : FileSystem} {path : Path} {place : List String}
    {entries : List (String × FileTree)} (hplace : fs.locate false path = .ok place)
    (hfolder : fs.root.at? place = some (.folder entries)) (hd : (FileTree.folder entries).Distinct) :
    ∃ L, c.Finds fs place L ∧ c.run? fs path = some ((L.map TreeFile.unit).take c.cap.toNat) := by
  have hs : fs.sources place (.folder entries) = some (.folder (fs.sourceEntries place entries)) := by
    rw [FileSystem.sources]
  have hdistinct := FileSystem.distinct_sources hd hs
  have hunit : unitBelow "" = TreeFile.unit := by
    funext f
    simp [unitBelow, TreeFile.unit]
  refine ⟨(SourceTree.folder (fs.sourceEntries place entries)).listing.filter (c.wants ""), ⟨?_, ?_⟩, ?_⟩
  · exact (SourceTree.pairwise_listing hdistinct).filter _
  · intro f
    rw [List.mem_filter, wants_iff, SourceTree.mem_listing hdistinct, ← FileSystem.bytesAt?_sources hd hfolder,
      hs, Option.bind_some]
  · rw [run?, hplace]
    simp only [hfolder, hs, Option.map_some, Option.getD_some, Option.some.injEq]
    rw [← hunit, ← taken_files hdistinct ""]
    rfl

/-- A crawl from a folder takes the wanted files below it in order, up to the cap. It takes the same where
the folders list their entries in another order. A folder of vendored code holds vendored code only. -/
theorem run_finds (c : Crawl) {fs : FileSystem} {path : Path} {place : List String}
    {entries : List (String × FileTree)} (hplace : fs.locate false path = .ok place)
    (hfolder : fs.root.at? place = some (.folder entries)) (hd : (FileTree.folder entries).Distinct) :
    (∃ L, c.Finds fs place L ∧ c.run? fs path = some ((L.map TreeFile.unit).take c.cap.toNat)) ∧
    (∀ fs' entries', fs.root.Relists fs'.root → fs.workingFolder = fs'.workingFolder →
      fs'.root.at? place = some (.folder entries') → (FileTree.folder entries').Distinct →
      c.run? fs' path = c.run? fs path) ∧
    ∀ d r, Vendored.holds (d ++ "/") = true → Vendored.holds (d ++ "/" ++ r) = true := by
  obtain ⟨L, hL, hrun⟩ := c.exists_finds hplace hfolder hd
  refine ⟨⟨L, hL, hrun⟩, fun fs' entries' hr hw hfolder' hd' => ?_, fun d r h => Vendored.holds_append h r⟩
  have hplace' : fs'.locate false path = .ok place := by
    rw [← FileSystem.locate_eq_of_relists hr hw, hplace]
  obtain ⟨L', hL', hrun'⟩ := c.exists_finds hplace' hfolder' hd'
  rw [hrun, hrun', hL.unique hL' hr]

/-- A project with sources, a library and a link to a source. -/
def projectEntries : List (String × FileTree) :=
  [("src", .folder [("B.sol", .file []), ("A.sol", .file [])]), ("lib", .folder [("L.sol", .file [])]),
   ("Latest.sol", .link "src/B.sol")]

theorem distinct_projectEntries : (FileTree.folder projectEntries).Distinct := by
  refine .folder (by decide) (List.forall_mem_cons.mpr ⟨?_, List.forall_mem_cons.mpr ⟨?_, ?_⟩⟩)
  · exact .folder (by decide) (List.forall_mem_cons.mpr ⟨.file, List.forall_mem_singleton.mpr .file⟩)
  · exact .folder (by decide) (List.forall_mem_singleton.mpr .file)
  · exact List.forall_mem_singleton.mpr .link

theorem run_finds_project :
    let fs : FileSystem := ⟨.folder projectEntries, []⟩
    let fs' : FileSystem := ⟨.folder projectEntries.reverse, []⟩
    let c : Crawl := ⟨[".sol"], 2, true⟩
    (∃ L, c.Finds fs [] L ∧ c.run? fs ⟨"", []⟩ = some ((L.map TreeFile.unit).take 2)) ∧
      c.run? fs' ⟨"", []⟩ = c.run? fs ⟨"", []⟩ ∧
      Vendored.holds "lib/" = true ∧ Vendored.holds "lib/L.sol" = true := by
  intro fs fs' c
  have hplace : fs.locate false ⟨"", []⟩ = .ok [] := by
    simp [FileSystem.locate, FileSystem.follow, FileSystem.startOf, fs]
  obtain ⟨hfinds, hsame, hfolder⟩ := run_finds c hplace rfl distinct_projectEntries
  have hp : projectEntries.Perm projectEntries.reverse := (List.reverse_perm _).symm
  have hd : (FileTree.folder projectEntries.reverse).Distinct := by
    cases distinct_projectEntries with
    | folder hn h =>
      exact .folder ((hp.map _).nodup_iff.mp hn) fun e he => h e (List.mem_reverse.mp he)
  have hlib : Vendored.holds "lib/" = true := by decide +kernel
  exact ⟨hfinds, hsame fs' _ (FileTree.relists_of_perm (by decide) hp) rfl rfl hd, hlib,
    hfolder "lib" "L.sol" hlib⟩

end Crawl

end ContractAudit
