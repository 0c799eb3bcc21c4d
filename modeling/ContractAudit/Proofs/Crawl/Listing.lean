import ContractAudit.Crawl
import ContractAudit.Proofs.Table
import ContractAudit.Proofs.Vendored
import Mathlib.Data.List.Nodup
import Mathlib.Data.String.Basic

/-!
# The files of a source tree

`SourceTree.listing` lists every file of a tree that can be read: a folder's own files by name, then what is
in its folders, by name. It is in the order `TreeFile.Precedes` and has exactly what a look-up by name finds.
A crawl enters some folders only. It takes the files of the listing that are wanted, because no file in a
folder that it does not enter is.
-/

namespace ContractAudit

/-! ## Files and their order -/

/-- A file below a folder, with the names of the folders on the way to it. -/
structure TreeFile where
  folders : List String
  name : String
  bytes : List UInt8
  deriving DecidableEq, Repr

namespace TreeFile

def pathFrom (name : String) : List String → String
  | [] => name
  | d :: ds => d ++ "/" ++ pathFrom name ds

/-- The path from the folder. -/
def path (f : TreeFile) : String := pathFrom f.name f.folders

def unit (f : TreeFile) : SourceUnit := ⟨f.name, f.path, fileText f.bytes⟩

/-- The file of the folder `d`, seen from the folder that `d` is in. -/
def inFolder (d : String) (f : TreeFile) : TreeFile := { f with folders := d :: f.folders }

/-- A folder's own files come first, by name, and then what is in its folders, by name. -/
def before (a b : String) : List String → List String → Prop
  | [], [] => a < b
  | [], _ :: _ => True
  | _ :: _, [] => False
  | d :: ds, e :: es => d < e ∨ d = e ∧ before a b ds es

def Precedes (f g : TreeFile) : Prop := before f.name g.name f.folders g.folders

theorem Precedes.asymm {f g : TreeFile} (h : f.Precedes g) : ¬ g.Precedes f := by
  obtain ⟨ds, a, bytes⟩ := f
  obtain ⟨es, b, bytes'⟩ := g
  simp only [Precedes] at h ⊢
  induction ds generalizing es with
  | nil =>
    cases es with
    | nil => exact String.lt_asymm h
    | cons e es => exact id
  | cons d ds ih =>
    cases es with
    | nil => cases h
    | cons e es =>
      rcases h with h | ⟨rfl, h⟩
      · rintro (h' | ⟨rfl, -⟩)
        · exact String.lt_asymm h h'
        · exact String.lt_irrefl _ h
      · rintro (h' | ⟨-, h'⟩)
        · exact String.lt_irrefl _ h'
        · exact ih es h h'

/-- Files in order are given by which they are. -/
theorem eq_of_pairwise_precedes {L L' : List TreeFile} (h : L.Pairwise Precedes) (h' : L'.Pairwise Precedes)
    (hmem : ∀ f, f ∈ L ↔ f ∈ L') : L = L' := by
  have nodup {L : List TreeFile} (h : L.Pairwise Precedes) : L.Nodup :=
    h.imp fun {f g} hp he => hp.asymm (by rw [he] at hp ⊢; exact hp)
  have hperm : L.Perm L' := (List.perm_ext_iff_of_nodup (nodup h) (nodup h')).mpr hmem
  exact hperm.eq_of_pairwise (fun f g _ _ hfg hgf => absurd hgf hfg.asymm) h h'

end TreeFile

/-! ## Entries by name -/

namespace Crawl

variable {α β : Type} {entries : List (String × α)}

theorem byName_perm (entries : List (String × α)) : (byName entries).Perm entries :=
  List.mergeSort_perm _ _

theorem pairwise_byName (hn : (entries.map (·.1)).Nodup) :
    (byName entries).Pairwise fun a b => a.1 < b.1 := by
  have hsorted : (byName entries).Pairwise fun a b => decide (a.1 ≤ b.1) = true :=
    List.pairwise_mergeSort (fun a b c hab hbc => by simpa using le_trans (by simpa using hab) (by simpa using hbc))
      (fun a b => by simpa using le_total a.1 b.1) entries
  have hne : (byName entries).Pairwise fun a b => a.1 ≠ b.1 :=
    List.pairwise_map.mp (((byName_perm entries).map _).nodup_iff.mpr hn)
  exact (hsorted.and hne).imp fun h => lt_of_le_of_ne (by simpa using h.1) h.2

/-- Entries with distinct names may be picked before or after they are put in order. -/
theorem byName_filterMap (hn : (entries.map (·.1)).Nodup) {f : String × α → Option (String × β)}
    (hf : ∀ e e', f e = some e' → e'.1 = e.1) :
    byName (entries.filterMap f) = (byName entries).filterMap f := by
  have hperm : (byName (entries.filterMap f)).Perm ((byName entries).filterMap f) :=
    (byName_perm _).trans ((byName_perm entries).filterMap f).symm
  have hsorted : ((byName entries).filterMap f).Pairwise fun a b => a.1 < b.1 :=
    (pairwise_byName hn).filterMap f fun a b hab a' ha b' hb => by
      rwa [hf a a' ha, hf b b' hb]
  have hn' : ((entries.filterMap f).map (·.1)).Nodup := by
    refine (((byName_perm entries).filterMap f).map _).nodup_iff.mp ?_
    exact List.pairwise_map.mpr (hsorted.imp ne_of_lt)
  exact hperm.eq_of_pairwise (fun a b _ _ hab hba => absurd hba hab.asymm) (pairwise_byName hn') hsorted

end Crawl

/-! ## Source trees -/

namespace SourceTree

/-- No folder has a name twice. -/
inductive Distinct : SourceTree → Prop where
  | file {bytes : Option (List UInt8)} : Distinct (.file bytes)
  | folder {entries : List (String × SourceTree)} (hn : (entries.map (·.1)).Nodup)
      (h : ∀ e ∈ entries, Distinct e.2) : Distinct (.folder entries)

/-- The bytes of the file that is found by name. -/
def bytesAt? : SourceTree → List String → Option (List UInt8)
  | .file bytes, [] => bytes
  | .folder entries, name :: names =>
    match Table.get? entries name with
    | some t => t.bytesAt? names
    | none => none
  | .file _, _ :: _ => none
  | .folder _, [] => none

def ownFile? : String × SourceTree → Option (String × TreeFile)
  | (name, .file (some bytes)) => some (name, ⟨[], name, bytes⟩)
  | _ => none

mutual
/-- Every file that can be read, in order. -/
def listing : SourceTree → List TreeFile
  | .file _ => []
  | .folder entries =>
    (Crawl.byName (entries.filterMap ownFile?)).map (·.2) ++
      (Crawl.byName (folderListings entries)).flatMap (·.2)
termination_by structural t => t

def folderListings : List (String × SourceTree) → List (String × List TreeFile)
  | [] => []
  | e :: es => folderListing e :: folderListings es
termination_by structural es => es

def folderListing : String × SourceTree → String × List TreeFile
  | (name, t) => (name, (listing t).map (TreeFile.inFolder name))
termination_by structural e => e
end

variable {entries : List (String × SourceTree)}

theorem folderListings_eq (entries : List (String × SourceTree)) :
    folderListings entries =
      entries.filterMap fun e => some (e.1, e.2.listing.map (TreeFile.inFolder e.1)) := by
  induction entries with
  | nil => rfl
  | cons e es ih => rw [folderListings, folderListing, ih]; rfl

/-- A folder's own files, and then what is in its folders, each by name. -/
theorem listing_folder (hn : (entries.map (·.1)).Nodup) :
    (folder entries).listing = ((Crawl.byName entries).filterMap ownFile?).map (·.2) ++
      (Crawl.byName entries).flatMap fun e => e.2.listing.map (TreeFile.inFolder e.1) := by
  rw [listing, folderListings_eq, Crawl.byName_filterMap hn, Crawl.byName_filterMap hn]
  · simp only [List.filterMap_eq_map', List.flatMap_map]
  · rintro e e' h
    cases h
    rfl
  · rintro ⟨name, t⟩ e' h
    cases t with
    | folder es => cases h
    | file bytes =>
      cases bytes with
      | none => cases h
      | some bytes => cases h; rfl

/-- The entry that a file in order comes from. -/
theorem ownFile?_eq_some {e : String × SourceTree} {p : String × TreeFile} :
    ownFile? e = some p ↔
      p.1 = e.1 ∧ p.2.folders = [] ∧ p.2.name = e.1 ∧ e.2 = .file (some p.2.bytes) := by
  obtain ⟨name, t⟩ := e
  obtain ⟨name', ds, n, bytes'⟩ := p
  cases t with
  | folder es => simp [ownFile?]
  | file bytes =>
    cases bytes with
    | none => simp [ownFile?]
    | some bytes => simp [ownFile?]; tauto

theorem pairwise_listing {t : SourceTree} (h : t.Distinct) : t.listing.Pairwise TreeFile.Precedes := by
  induction h with
  | file => exact .nil
  | @folder entries hn _ ih =>
    have hnames := Crawl.pairwise_byName hn
    rw [listing_folder hn]
    refine List.pairwise_append.mpr ⟨?_, ?_, ?_⟩
    · refine List.pairwise_map.mpr (hnames.filterMap _ fun a b hab p hp q hq => ?_)
      obtain ⟨-, hpf, hpn, -⟩ := ownFile?_eq_some.mp hp
      obtain ⟨-, hqf, hqn, -⟩ := ownFile?_eq_some.mp hq
      rw [TreeFile.Precedes, hpf, hqf, hpn, hqn]
      exact hab
    · refine List.pairwise_flatMap.mpr ⟨fun e he => ?_, hnames.imp fun hab => ?_⟩
      · refine List.pairwise_map.mpr ((ih e ((Crawl.byName_perm _).mem_iff.mp he)).imp fun hfg => ?_)
        exact .inr ⟨rfl, hfg⟩
      · rintro f hf g hg
        obtain ⟨f', -, rfl⟩ := List.mem_map.mp hf
        obtain ⟨g', -, rfl⟩ := List.mem_map.mp hg
        exact .inl hab
    · intro f hf g hg
      obtain ⟨p, hp, rfl⟩ := List.mem_map.mp hf
      obtain ⟨e, -, hp⟩ := List.mem_filterMap.mp hp
      obtain ⟨e', -, hg⟩ := List.mem_flatMap.mp hg
      obtain ⟨g', -, rfl⟩ := List.mem_map.mp hg
      rw [TreeFile.Precedes, (ownFile?_eq_some.mp hp).2.1]
      exact trivial

theorem bytesAt?_nil {t : SourceTree} {bytes : List UInt8} :
    t.bytesAt? [] = some bytes ↔ t = .file (some bytes) := by
  cases t <;> simp [bytesAt?]

theorem bytesAt?_folder (hn : (entries.map (·.1)).Nodup) {name : String} {names : List String}
    {bytes : List UInt8} :
    (folder entries).bytesAt? (name :: names) = some bytes ↔
      ∃ t, (name, t) ∈ entries ∧ t.bytesAt? names = some bytes := by
  have hget (t : SourceTree) : Table.get? entries name = some t ↔ (name, t) ∈ entries :=
    Table.get?_eq_some_iff hn
  rw [bytesAt?]
  cases h : Table.get? entries name with
  | none => simp [← hget, h]
  | some t => simp [← hget, h]

theorem mem_ownFiles {f : TreeFile} :
    f ∈ ((Crawl.byName entries).filterMap ownFile?).map (·.2) ↔
      f.folders = [] ∧ (f.name, .file (some f.bytes)) ∈ entries := by
  simp only [List.mem_map, List.mem_filterMap, ownFile?_eq_some, (Crawl.byName_perm entries).mem_iff]
  constructor
  · rintro ⟨p, ⟨e, he, -, hf, hn, ht⟩, rfl⟩
    exact ⟨hf, by rw [hn, ← ht]; exact he⟩
  · rintro ⟨hf, he⟩
    exact ⟨(f.name, f), ⟨_, he, rfl, hf, rfl, rfl⟩, rfl⟩

theorem mem_folderFiles {f : TreeFile} :
    (f ∈ (Crawl.byName entries).flatMap fun e => e.2.listing.map (TreeFile.inFolder e.1)) ↔
      ∃ d t g, (d, t) ∈ entries ∧ g ∈ t.listing ∧ f = g.inFolder d := by
  simp only [List.mem_flatMap, List.mem_map, (Crawl.byName_perm entries).mem_iff]
  constructor
  · rintro ⟨⟨d, t⟩, he, g, hg, rfl⟩
    exact ⟨d, t, g, he, hg, rfl⟩
  · rintro ⟨d, t, g, he, hg, rfl⟩
    exact ⟨(d, t), he, g, hg, rfl⟩

/-- The listing has what is found by name. -/
theorem mem_listing {t : SourceTree} (h : t.Distinct) {f : TreeFile} :
    f ∈ t.listing ↔ t.bytesAt? (f.folders ++ [f.name]) = some f.bytes := by
  induction h generalizing f with
  | file => cases hf : f.folders <;> simp [listing, bytesAt?]
  | @folder entries hn _ ih =>
    rw [listing_folder hn, List.mem_append, mem_ownFiles, mem_folderFiles]
    obtain ⟨ds, name, bytes⟩ := f
    cases ds with
    | nil =>
      rw [show [] ++ [name] = [name] from rfl, bytesAt?_folder hn]
      constructor
      · rintro (⟨-, he⟩ | ⟨d, t, g, -, -, hfg⟩)
        · exact ⟨_, he, rfl⟩
        · cases hfg
      · rintro ⟨t, he, hb⟩
        exact .inl ⟨rfl, bytesAt?_nil.mp hb ▸ he⟩
    | cons d ds =>
      rw [List.cons_append, bytesAt?_folder hn]
      constructor
      · rintro (⟨hf, -⟩ | ⟨d', t, g, he, hg, hfg⟩)
        · cases hf
        · cases hfg
          exact ⟨t, he, (ih _ he).mp hg⟩
      · rintro ⟨t, he, hb⟩
        exact .inr ⟨d, t, ⟨ds, name, bytes⟩, he, (ih _ he).mpr hb, rfl⟩

end SourceTree

/-! ## Pruning -/

namespace Crawl

variable {c : Crawl} {above : String} {entries : List (String × SourceTree)}

/-- The file below the folders `above` is accepted, in no folder that is always left out, and not in
vendored code. -/
def wants (c : Crawl) (above : String) (f : TreeFile) : Bool :=
  c.accepts f.name && f.folders.all (! skippedFolders.contains ·) && ! c.leavesOut (above ++ f.path)

theorem filterMap_cons_toList {α β : Type} (f : α → Option β) (x : α) (xs : List α) :
    (x :: xs).filterMap f = (f x).toList ++ xs.filterMap f := by
  cases h : f x <;> simp [h]

theorem folderFiles_eq (c : Crawl) (above : String) (entries : List (String × SourceTree)) :
    c.folderFiles above entries = entries.filterMap (c.folderFile above) := by
  induction entries with
  | nil => rfl
  | cons e es ih =>
    rw [folderFiles, ih, filterMap_cons_toList]

theorem files_folder (hn : (entries.map (·.1)).Nodup) :
    c.files above (.folder entries) = ((byName entries).filterMap (c.ownFile? above)).map (·.2) ++
      ((byName entries).filterMap (c.folderFile above)).flatMap (·.2) := by
  rw [files, folderFiles_eq, byName_filterMap hn, byName_filterMap hn]
  · rintro ⟨name, t⟩ e' h
    rw [folderFile, Option.ite_none_right_eq_some] at h
    cases h.2
    rfl
  · rintro ⟨name, t⟩ e' h
    cases t with
    | folder es => cases h
    | file bytes =>
      rw [ownFile?, Option.ite_none_right_eq_some] at h
      cases h.2
      rfl

theorem leavesOut_append {d : String} (h : c.leavesOut (d ++ "/") = true) (r : String) :
    c.leavesOut (d ++ "/" ++ r) = true := by
  rw [leavesOut, Bool.and_eq_true] at h ⊢
  exact ⟨h.1, Vendored.holds_append h.2 r⟩

/-- In a folder that is not entered no file is wanted. -/
theorem wants_inFolder (c : Crawl) (above d : String) (f : TreeFile) :
    c.wants above (f.inFolder d) = (c.enters above d && c.wants (above ++ d ++ "/") f) := by
  have hpath : above ++ (f.inFolder d).path = above ++ d ++ "/" ++ f.path := by
    simp [TreeFile.inFolder, TreeFile.path, TreeFile.pathFrom, String.append_assoc]
  rw [wants, hpath, enters, wants]
  cases hd : c.leavesOut (above ++ d ++ "/") with
  | true => simp [leavesOut_append hd]
  | false => cases h : c.accepts f.name <;> simp [TreeFile.inFolder, h, Bool.and_assoc]

/-- The file below the folders `above`, as a source. -/
def unitBelow (above : String) (f : TreeFile) : SourceUnit := ⟨f.name, above ++ f.path, fileText f.bytes⟩

/-- The sources among some files that a crawl came to. -/
def taken (c : Crawl) (fs : List FoundFile) : List SourceUnit :=
  (fs.filter (! c.leavesOut ·.path)).filterMap FoundFile.unit?

theorem taken_append (fs gs : List FoundFile) : c.taken (fs ++ gs) = c.taken fs ++ c.taken gs := by
  simp [taken]

theorem taken_ownFile (c : Crawl) (above : String) (e : String × SourceTree) :
    c.taken ((c.ownFile? above e).toList.map (·.2)) =
      (((SourceTree.ownFile? e).toList.map (·.2)).filter (c.wants above)).map (unitBelow above) := by
  obtain ⟨name, t⟩ := e
  cases t with
  | folder entries => rfl
  | file bytes =>
    cases bytes with
    | none =>
      cases ha : c.accepts name <;> cases hl : c.leavesOut (above ++ name) <;>
        simp [taken, ownFile?, SourceTree.ownFile?, ha, hl, FoundFile.unit?]
    | some bytes =>
      cases ha : c.accepts name <;> cases hl : c.leavesOut (above ++ name) <;>
        simp [taken, ownFile?, SourceTree.ownFile?, ha, hl, FoundFile.unit?, wants, unitBelow, TreeFile.path,
          TreeFile.pathFrom]

/-- A folder that is entered gives what is taken in it, and one that is not gives nothing that is wanted. -/
theorem taken_folderFile {e : String × SourceTree}
    (h : ∀ above, c.taken (c.files above e.2) =
      (e.2.listing.filter (c.wants above)).map (unitBelow above)) (above : String) :
    c.taken ((c.folderFile above e).toList.flatMap (·.2)) =
      ((e.2.listing.map (TreeFile.inFolder e.1)).filter (c.wants above)).map (unitBelow above) := by
  obtain ⟨d, t⟩ := e
  have hunit : unitBelow above ∘ TreeFile.inFolder d = unitBelow (above ++ d ++ "/") := by
    funext f
    simp [unitBelow, TreeFile.inFolder, TreeFile.path, TreeFile.pathFrom, String.append_assoc]
  have hwants : c.wants above ∘ TreeFile.inFolder d =
      fun f => c.enters above d && c.wants (above ++ d ++ "/") f := funext (c.wants_inFolder above d)
  rw [List.filter_map, List.map_map, hunit, hwants, folderFile]
  cases c.enters above d with
  | false => simp [taken]
  | true => simpa using h (above ++ d ++ "/")

/-- A crawl that leaves out folders takes the wanted files of the listing. -/
theorem taken_files {t : SourceTree} (h : t.Distinct) (above : String) :
    c.taken (c.files above t) = (t.listing.filter (c.wants above)).map (unitBelow above) := by
  induction h generalizing above with
  | file => rfl
  | @folder entries hn _ ih =>
    have hin : ∀ e ∈ byName entries, ∀ above, c.taken (c.files above e.2) =
        (e.2.listing.filter (c.wants above)).map (unitBelow above) :=
      fun e he => ih e ((byName_perm entries).mem_iff.mp he)
    rw [files_folder hn, SourceTree.listing_folder hn, taken_append, List.filter_append, List.map_append]
    generalize byName entries = es at hin
    congr 1
    · induction es with
      | nil => rfl
      | cons e es ihes =>
        rw [filterMap_cons_toList, filterMap_cons_toList, List.map_append, List.map_append, taken_append,
          List.filter_append, List.map_append, taken_ownFile, ihes (List.forall_mem_cons.mp hin).2]
    · induction es with
      | nil => rfl
      | cons e es ihes =>
        obtain ⟨he, hes⟩ := List.forall_mem_cons.mp hin
        rw [filterMap_cons_toList, List.flatMap_append, List.flatMap_cons, taken_append, List.filter_append,
          List.map_append, taken_folderFile he, ihes hes]

end Crawl

end ContractAudit
