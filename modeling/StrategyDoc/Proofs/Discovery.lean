import StrategyDoc.Files.Tree
import StrategyDoc.Proofs.ByteOrder

/-! # Discovery of documents

A directory stands for its documents: the entries that are files and have the extension
`json`, each once and in the order of the bytes of their names, in whatever order the disk
lists them (`Disk.discover_documents`).  Any other location stands for itself.

Whether an entry is a file is asked of the disk at the location of the entry.  On the disk that
holds a tree of files there stands the entry itself, unless the location is too long
(`FileTree.locate_joinLocation`). -/

namespace StrategyDoc

/-! ### Names of documents -/

/-- The name ends in `.json` and something stands before that. -/
def IsDocumentName (name : String) : Prop := ∃ stem, stem ≠ "" ∧ name = stem ++ ".json"

theorem extension?_eq_json_iff {name : String} :
    extension? name = some "json" ↔ IsDocumentName name := by
  unfold extension? IsDocumentName
  dsimp only
  constructor
  · intro h
    split at h
    case h_1 point before more hrest =>
      have hextension : name.toList.reverse.takeWhile (· != '.') = "json".toList.reverse := by
        rw [← Option.some.inj h, String.toList_ofList, List.reverse_reverse]
      have hpoint : point = '.' := by
        have hhead := List.head_dropWhile_not (· != '.') (hrest ▸ List.cons_ne_nil _ _)
        simpa [hrest] using hhead
      have hsplit := List.takeWhile_append_dropWhile (p := (· != '.')) (l := name.toList.reverse)
      rw [hextension, hrest, hpoint] at hsplit
      refine ⟨String.ofList (before :: more).reverse, ?_, ?_⟩
      · simp [← String.toList_inj]
      · rw [← String.toList_inj, ← List.reverse_inj, ← hsplit]
        simp
    case h_2 => nomatch h
  · rintro ⟨stem, hstem, rfl⟩
    have hreverse : (stem ++ ".json").toList.reverse
        = 'n' :: 'o' :: 's' :: 'j' :: '.' :: stem.toList.reverse := by
      simp
    have hne : stem.toList.reverse ≠ [] := by
      rw [Ne, List.reverse_eq_nil_iff, String.toList_eq_nil_iff]
      exact hstem
    obtain ⟨c, more, hcons⟩ := List.exists_cons_of_ne_nil hne
    rw [hreverse, hcons]
    rfl

theorem joinLocation_injective (directory : String) :
    Function.Injective (joinLocation directory) := by
  intro name other h
  unfold joinLocation at h
  split at h <;> simpa [← String.toList_inj] using h

theorem nodup_of_strictly_sorted {names : List String}
    (h : names.Pairwise fun a b => utf8Bytes a < utf8Bytes b) : names.Nodup := by
  apply h.imp
  intro a b hlt heq
  subst heq
  exact List.lt_irrefl _ hlt

theorem eq_of_strictly_sorted {names others : List String}
    (hnames : names.Pairwise fun a b => utf8Bytes a < utf8Bytes b)
    (hothers : others.Pairwise fun a b => utf8Bytes a < utf8Bytes b)
    (hmem : ∀ name, name ∈ names ↔ name ∈ others) : names = others := by
  refine List.Perm.eq_of_pairwise (fun a b _ _ hab hba => absurd hab (List.lt_asymm hba))
    hnames hothers ?_
  exact (List.perm_ext_iff_of_nodup (nodup_of_strictly_sorted hnames)
    (nodup_of_strictly_sorted hothers)).mpr hmem

/-! ### The documents of a directory -/

namespace Disk

variable {disk : Disk} {location : String} {names : List String}

/-- The names of the files in a directory that are documents, in the order of their bytes. -/
def found (disk : Disk) (location : String) (names : List String) : List String :=
  (documentNames names).filter fun name => disk.isFile (joinLocation location name)

theorem discover_directory (h : disk.entry location = .ok (.directory (.ok names))) :
    disk.discover location = .ok ((disk.found location names).map (joinLocation location)) := by
  unfold discover
  rw [h]
  dsimp only
  rw [candidates, List.filter_map]
  rfl

theorem mem_found {name : String} : name ∈ disk.found location names ↔
    name ∈ names ∧ IsDocumentName name ∧ disk.isFile (joinLocation location name) = true := by
  rw [found, List.mem_filter, documentNames, List.mem_mergeSort, List.mem_filter, and_assoc,
    beq_iff_eq, extension?_eq_json_iff]

theorem pairwise_documentNames (hnodup : names.Nodup) :
    (documentNames names).Pairwise fun a b => utf8Bytes a < utf8Bytes b := by
  have hsorted : (documentNames names).Pairwise fun a b => decide (a ≤ b) = true := by
    apply List.pairwise_mergeSort
    · intro a b c hab hbc
      exact decide_eq_true (String.le_trans (of_decide_eq_true hab) (of_decide_eq_true hbc))
    · intro a b
      simpa using String.le_total a b
  have hdistinct : (documentNames names).Nodup :=
    (List.mergeSort_perm _ _).nodup_iff.mpr (hnodup.filter _)
  refine hsorted.imp₂ (fun a b hle hne => ?_) hdistinct
  rw [← lt_iff_utf8Bytes_lt]
  exact lt_of_le_of_ne (of_decide_eq_true hle) hne

theorem pairwise_found (hnodup : names.Nodup) :
    (disk.found location names).Pairwise fun a b => utf8Bytes a < utf8Bytes b :=
  (pairwise_documentNames hnodup).filter _

/-- What is found is determined by its members, so the order of the listing does not show. -/
theorem found_eq_of_perm {other : Disk} {listed : List String} (hnodup : names.Nodup)
    (hperm : listed.Perm names) (hfiles : ∀ name ∈ names,
      other.isFile (joinLocation location name) = disk.isFile (joinLocation location name)) :
    other.found location listed = disk.found location names := by
  refine eq_of_strictly_sorted (pairwise_found (hperm.nodup_iff.mpr hnodup))
    (pairwise_found hnodup) fun name => ?_
  rw [mem_found, mem_found, hperm.mem_iff]
  refine and_congr_right fun hname => ?_
  rw [hfiles name hname]

theorem discover_of_not_directory
    (h : ∀ listing, disk.entry location ≠ .ok (.directory listing)) :
    disk.discover location = .ok [location] := by
  unfold discover
  split
  · next heq => exact absurd heq (h _)
  · next heq => exact absurd heq (h _)
  · rfl

end Disk

/-! ### Trees of files -/

namespace FileTree

/-- The tree is a file. -/
def isFile : FileTree → Bool
  | file _ => true
  | directory _ => false

/-- A name that a directory can have for an entry. -/
structure IsEntryName (name : String) : Prop where
  ne_empty : name ≠ ""
  ne_point : name ≠ "."
  ne_points : name ≠ ".."
  no_slash : '/' ∉ name.toList
  no_nul : '\x00' ∉ name.toList
  size_le : name.utf8ByteSize ≤ maxName

theorem isEntryName_iff {name : String} : IsEntryName name ↔
    name ≠ "" ∧ name ≠ "." ∧ name ≠ ".." ∧ '/' ∉ name.toList ∧ '\x00' ∉ name.toList
      ∧ name.utf8ByteSize ≤ maxName :=
  ⟨fun ⟨hne, hpoint, hpoints, hslash, hnul, hsize⟩ => ⟨hne, hpoint, hpoints, hslash, hnul, hsize⟩,
    fun ⟨hne, hpoint, hpoints, hslash, hnul, hsize⟩ => ⟨hne, hpoint, hpoints, hslash, hnul, hsize⟩⟩

instance (name : String) : Decidable (IsEntryName name) :=
  decidable_of_iff _ isEntryName_iff.symm

/-- The entries of a directory have different names, each of which can be one. -/
structure ProperEntries (entries : List (String × FileTree)) : Prop where
  nodup : (entries.map (·.1)).Nodup
  isEntryName : ∀ e ∈ entries, IsEntryName e.1

theorem find?_of_mem {entries : List (String × FileTree)} (hnodup : (entries.map (·.1)).Nodup)
    {name : String} {tree : FileTree} (h : (name, tree) ∈ entries) :
    find? name entries = some tree := by
  induction entries with
  | nil => cases h
  | cons e rest ih =>
      obtain ⟨key, other⟩ := e
      obtain ⟨hfresh, hrest⟩ := List.nodup_cons.mp hnodup
      rw [find?]
      rcases List.mem_cons.mp h with heq | hmem
      · cases heq
        exact if_pos rfl
      · have hne : key ≠ name := fun heq => hfresh (List.mem_map.mpr ⟨_, hmem, heq.symm⟩)
        rw [if_neg hne]
        exact ih hrest hmem

/-! ### Following one more name -/

section follow

variable {above : List FileTree} {tree : FileTree} {names : List String}
  {entries : List (String × FileTree)}

theorem follow_cons (name : String) (rest : List String) :
    follow above (directory entries) (name :: rest) =
      if name = "" ∨ name = "." then follow above (directory entries) rest
      else if name = ".." then follow above.tail (above.headD empty) rest
      else if maxName < name.utf8ByteSize then .error .nameTooLong
      else
        match find? name entries with
        | none => .error .notFound
        | some child => follow (directory entries :: above) child rest := by
  cases above <;> rfl

/-- Names are followed one part after the other; what was passed on the first part matters
only for the second. -/
theorem exists_follow_append (above : List FileTree) (tree : FileTree) (names more : List String) :
    ∃ passed, follow above tree (names ++ more)
      = (follow above tree names).bind fun found => follow passed found more := by
  fun_induction follow above tree names with
  | case1 above tree => exact ⟨above, rfl⟩
  | case2 => exact ⟨[], rfl⟩
  | case3 above inner first rest hstay ih =>
      rw [List.cons_append, follow_cons, if_pos hstay]
      exact ih
  | case4 inner rest hstay ih =>
      rw [List.cons_append, follow_cons, if_neg hstay, if_pos rfl]
      exact ih
  | case5 inner rest parent others hstay ih =>
      rw [List.cons_append, follow_cons, if_neg hstay, if_pos rfl]
      exact ih
  | case6 above inner first rest hstay hup hsize =>
      rw [List.cons_append, follow_cons, if_neg hstay, if_neg hup, if_pos hsize]
      exact ⟨[], rfl⟩
  | case7 above inner first rest hstay hup hsize hnone =>
      rw [List.cons_append, follow_cons, if_neg hstay, if_neg hup, if_neg hsize, hnone]
      exact ⟨[], rfl⟩
  | case8 above inner first rest hstay hup hsize child hchild ih =>
      rw [List.cons_append, follow_cons, if_neg hstay, if_neg hup, if_neg hsize, hchild]
      exact ih

theorem follow_of_follow_concat_empty
    (h : follow above tree (names ++ [""]) = .ok (directory entries)) :
    follow above tree names = .ok (directory entries) := by
  obtain ⟨passed, happend⟩ := exists_follow_append above tree names [""]
  rw [happend] at h
  match hfound : follow above tree names with
  | .error fault => simp [hfound, Except.bind] at h
  | .ok (file content) => simp [hfound, Except.bind, follow] at h
  | .ok (directory inner) => simpa [hfound, Except.bind, follow_cons, follow] using h

theorem follow_concat_entry (h : follow above tree names = .ok (directory entries))
    (hproper : ProperEntries entries) {name : String} {child : FileTree}
    (hmem : (name, child) ∈ entries) : follow above tree (names ++ [name]) = .ok child := by
  obtain ⟨passed, happend⟩ := exists_follow_append above tree names [name]
  have hname := hproper.isEntryName _ hmem
  calc follow above tree (names ++ [name])
      = follow passed (directory entries) [name] := by rw [happend, h]; rfl
    _ = .ok child := by
      rw [follow_cons, if_neg (not_or.mpr ⟨hname.ne_empty, hname.ne_point⟩),
        if_neg hname.ne_points, if_neg (Nat.not_lt.mpr hname.size_le),
        find?_of_mem hproper.nodup hmem]
      rfl

end follow

/-! ### The location of an entry -/

theorem names_append_slash {location name : String} (hname : '/' ∉ name.toList) :
    names (location ++ "/" ++ name) = names location ++ [name] := by
  have hlist : (location ++ "/" ++ name).toList = location.toList ++ '/' :: name.toList := by
    simp
  rw [names, hlist, List.splitOn_append_cons_self, List.splitOn_eq_singleton hname,
    List.map_append]
  simp [names]

/-- The names of a joined location are those of the directory, up to an empty one at the end,
and the name. -/
theorem names_joinLocation {location name : String} (hname : '/' ∉ name.toList) :
    names (joinLocation location name) = names location ++ [name]
      ∨ ∃ others, names location = others ++ [""]
        ∧ names (joinLocation location name) = others ++ [name] := by
  unfold joinLocation
  split
  · next hlast =>
      obtain ⟨parent, hparent⟩ := List.getLast?_eq_some_iff.mp hlast
      have hlocation : location = String.ofList parent ++ "/" ++ "" := by
        rw [← String.toList_inj, hparent]
        simp
      refine .inr ⟨names (String.ofList parent), ?_, ?_⟩
      · rw [hlocation]
        exact names_append_slash (by simp)
      · rw [hlocation, String.append_empty]
        exact names_append_slash hname
  · exact .inl (names_append_slash hname)

theorem joinLocation_eq_or (location name : String) :
    joinLocation location name = location ++ name
      ∨ joinLocation location name = location ++ "/" ++ name := by
  unfold joinLocation
  split
  · exact .inl rfl
  · exact .inr rfl

/-- The top from which the names of a location are followed. -/
def top (tree : FileTree) (location : String) : FileTree :=
  if location.toList.head? = some '/' then empty else tree

theorem locate_eq_ok_iff {tree found : FileTree} {location : String} :
    tree.locate location = .ok found ↔
      location.toList ≠ [] ∧ '\x00' ∉ location.toList ∧ location.utf8ByteSize ≤ maxLocation ∧
        follow [] (tree.top location) (names location) = .ok found := by
  unfold locate top
  split
  · next h => simp_all
  · split
    · next h => simp_all
    · split
      · next h => simp_all
      · next hempty hnul hsize =>
        have hne : location.toList ≠ [] := by simpa using hempty
        have hno : '\x00' ∉ location.toList := by simpa using hnul
        split <;> simp [hne, hno, Nat.not_lt.mp hsize]

/-- **At the location of an entry stands the entry**, if the location is not too long. -/
theorem locate_joinLocation {tree : FileTree} {location : String}
    {entries : List (String × FileTree)} (h : tree.locate location = .ok (directory entries))
    (hproper : ProperEntries entries) {name : String} {child : FileTree}
    (hmem : (name, child) ∈ entries)
    (hsize : (joinLocation location name).utf8ByteSize ≤ maxLocation) :
    tree.locate (joinLocation location name) = .ok child := by
  have hname := hproper.isEntryName _ hmem
  obtain ⟨hne, hnul, -, hfollow⟩ := locate_eq_ok_iff.mp h
  have htop : tree.top (joinLocation location name) = tree.top location := by
    obtain ⟨first, rest, hcons⟩ := List.exists_cons_of_ne_nil hne
    rcases joinLocation_eq_or location name with hjoin | hjoin <;>
      simp [top, hjoin, hcons]
  refine locate_eq_ok_iff.mpr ⟨?_, ?_, hsize, ?_⟩
  · rcases joinLocation_eq_or location name with hjoin | hjoin <;> simp_all
  · rcases joinLocation_eq_or location name with hjoin | hjoin <;>
      simp [hjoin, hnul, hname.no_nul]
  · rw [htop]
    rcases names_joinLocation hname.no_slash with hnames | ⟨others, hlocation, hnames⟩
    · rw [hnames]
      exact follow_concat_entry hfollow hproper hmem
    · rw [hlocation] at hfollow
      rw [hnames]
      exact follow_concat_entry (follow_of_follow_concat_empty hfollow) hproper hmem

theorem isFile_joinLocation {tree : FileTree} {location : String}
    {entries : List (String × FileTree)} (h : tree.locate location = .ok (directory entries))
    (hproper : ProperEntries entries) {name : String} {child : FileTree}
    (hmem : (name, child) ∈ entries)
    (hsize : (joinLocation location name).utf8ByteSize ≤ maxLocation) :
    tree.disk.isFile (joinLocation location name) = child.isFile := by
  have hentry := locate_joinLocation h hproper hmem hsize
  cases child with
  | file content => simp [Disk.isFile, disk, hentry, Except.map, isFile]
  | directory inner => simp [Disk.isFile, disk, hentry, Except.map, isFile]

theorem exists_file_iff {entries : List (String × FileTree)} {name : String} :
    (∃ content, (name, file content) ∈ entries)
      ↔ ∃ child, (name, child) ∈ entries ∧ child.isFile = true := by
  constructor
  · rintro ⟨content, hmem⟩
    exact ⟨_, hmem, rfl⟩
  · rintro ⟨child, hmem, hfile⟩
    cases child with
    | file content => exact ⟨content, hmem⟩
    | directory inner => cases hfile

theorem mem_found_iff {tree : FileTree} {location : String}
    {entries : List (String × FileTree)} (h : tree.locate location = .ok (directory entries))
    (hproper : ProperEntries entries)
    (hsize : ∀ e ∈ entries, (joinLocation location e.1).utf8ByteSize ≤ maxLocation)
    (name : String) :
    name ∈ tree.disk.found location (entries.map (·.1))
      ↔ (∃ content, (name, file content) ∈ entries) ∧ IsDocumentName name := by
  rw [Disk.mem_found, exists_file_iff]
  constructor
  · rintro ⟨hname, hdocument, hfile⟩
    obtain ⟨⟨name, child⟩, hmem, rfl⟩ := List.mem_map.mp hname
    rw [isFile_joinLocation h hproper hmem (hsize _ hmem)] at hfile
    exact ⟨⟨child, hmem, hfile⟩, hdocument⟩
  · rintro ⟨⟨child, hmem, hfile⟩, hdocument⟩
    refine ⟨List.mem_map.mpr ⟨_, hmem, rfl⟩, hdocument, ?_⟩
    rw [isFile_joinLocation h hproper hmem (hsize _ hmem)]
    exact hfile

end FileTree

/-! ### The main result -/

/-- **What is found at a location.**  In a directory it is the files with names of documents, each
once, in the order of the bytes of their names, whatever order the directory lists them in; and
these are the entries of the tree, for a disk that holds one.  Anything else stands for itself. -/
theorem Disk.discover_documents (disk : Disk) (location : String) :
    (∀ names, disk.entry location = .ok (.directory (.ok names)) → names.Nodup →
      ∃ found : List String,
        disk.discover location = .ok (found.map (joinLocation location))
        ∧ (∀ name, name ∈ found ↔
            name ∈ names ∧ IsDocumentName name ∧ disk.isFile (joinLocation location name) = true)
        ∧ found.Pairwise (fun a b => utf8Bytes a < utf8Bytes b)
        ∧ (found.map (joinLocation location)).Nodup
        ∧ ∀ (other : Disk) (listed : List String),
            other.entry location = .ok (.directory (.ok listed)) → listed.Perm names →
            (∀ name ∈ names, other.isFile (joinLocation location name)
              = disk.isFile (joinLocation location name)) →
            other.discover location = disk.discover location)
    ∧ ((∀ listing, disk.entry location ≠ .ok (.directory listing)) →
        disk.discover location = .ok [location])
    ∧ ∀ (tree : FileTree) (entries : List (String × FileTree)),
        tree.locate location = .ok (.directory entries) → FileTree.ProperEntries entries →
        (∀ e ∈ entries, (joinLocation location e.1).utf8ByteSize ≤ FileTree.maxLocation) →
        ∃ found : List String,
          tree.disk.discover location = .ok (found.map (joinLocation location))
          ∧ (∀ name, name ∈ found ↔
              (∃ content, (name, FileTree.file content) ∈ entries) ∧ IsDocumentName name)
          ∧ found.Pairwise (fun a b => utf8Bytes a < utf8Bytes b) := by
  refine ⟨fun names hentry hnodup => ?_, discover_of_not_directory,
    fun tree entries hlocate hproper hsize => ?_⟩
  · have hlocations : ((disk.found location names).map (joinLocation location)).Nodup :=
      List.pairwise_map.mpr (List.Pairwise.imp
        (fun hne heq => hne (joinLocation_injective location heq))
        (nodup_of_strictly_sorted (pairwise_found hnodup)))
    refine ⟨disk.found location names, discover_directory hentry, fun name => mem_found,
      pairwise_found hnodup, hlocations, ?_⟩
    intro other listed hother hperm hfiles
    rw [discover_directory hentry, discover_directory hother,
      found_eq_of_perm hnodup hperm hfiles]
  · have hentry : tree.disk.entry location = .ok (.directory (.ok (entries.map (·.1)))) := by
      simp [FileTree.disk, hlocate, Except.map]
    exact ⟨tree.disk.found location (entries.map (·.1)), discover_directory hentry,
      FileTree.mem_found_iff hlocate hproper hsize, pairwise_found hproper.nodup⟩

/-- A directory that holds a text, a directory and a name that is all extension beside two
documents, which are listed in the wrong order. -/
theorem Disk.discover_mixed_directory :
    let entries : List (String × FileTree) :=
      [("b.json", .file .empty), ("notes.txt", .file .empty),
        ("nested.json", .directory [("deep.json", .file .empty)]),
        ("a.json", .file .empty), (".json", .file .empty)]
    let tree := FileTree.directory [("d", .directory entries)]
    tree.locate "d" = .ok (.directory entries) ∧ FileTree.ProperEntries entries
      ∧ (∀ e ∈ entries, (joinLocation "d" e.1).utf8ByteSize ≤ FileTree.maxLocation)
      ∧ tree.disk.discover "d" = .ok ["d/a.json", "d/b.json"] := by
  intro entries tree
  have hlocate : tree.locate "d" = .ok (.directory entries) :=
    FileTree.locate_eq_ok_iff.mpr ⟨by decide, by decide, by decide, rfl⟩
  have hproper : FileTree.ProperEntries entries := ⟨by decide, by simp [entries]; decide⟩
  have hsize : ∀ e ∈ entries, (joinLocation "d" e.1).utf8ByteSize ≤ FileTree.maxLocation := by
    simp [entries]; decide
  obtain ⟨found, hfound, hmem, hsorted⟩ :=
    (Disk.discover_documents tree.disk "d").2.2 tree entries hlocate hproper hsize
  have hnames : found = ["a.json", "b.json"] := by
    refine eq_of_strictly_sorted hsorted (by decide) fun name => ?_
    rw [hmem, ← extension?_eq_json_iff]
    constructor
    · rintro ⟨⟨content, hentry⟩, hextension⟩
      simp only [entries, List.mem_cons, List.not_mem_nil, Prod.mk.injEq, or_false] at hentry
      rcases hentry with ⟨rfl, -⟩ | ⟨rfl, -⟩ | ⟨-, hfile⟩ | ⟨rfl, -⟩ | ⟨rfl, -⟩
      · decide
      · exact absurd hextension (by decide)
      · cases hfile
      · decide
      · exact absurd hextension (by decide)
    · intro hname
      rcases List.mem_pair.mp hname with rfl | rfl
      · exact ⟨⟨.empty, by simp [entries]⟩, by decide⟩
      · exact ⟨⟨.empty, by simp [entries]⟩, by decide⟩
  refine ⟨hlocate, hproper, hsize, ?_⟩
  rw [hfound, hnames]
  rfl

end StrategyDoc
